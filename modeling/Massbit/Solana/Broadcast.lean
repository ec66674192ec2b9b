/-
The broadcaster (`indexer_broadcast.rs`).
-/
import Massbit.Lib.GroupBy
import Massbit.Solana.BlockBuffer

open List Finmap Outcome Function

namespace Massbit.Solana

/-- The blocks that are kept, by the hash of the indexer. -/
abbrev FilteredBlocks := HashMap String (List ConfirmedBlockWithSlot)

abbrev BlockOrder := Finmap.IterOrder fun _ : String => ConfirmedBlockWithSlot

structure Sender where
  isClosed : Bool
  sent : List BlockResponse

def Sender.send (self : Sender) (response : BlockResponse) : Sender :=
  if self.isClosed then self else { self with sent := self.sent ++ [response] }

structure IndexerInfo where
  hash : String
  filter : SolanaFilter
  filterHashes : Finset String
  filterHashes_eq : filterHashes = (filter.keys.map Pubkey.toString).toFinset
  sender : Sender

def IndexerInfo.isInterested (self : IndexerInfo) (keys : List String) : Bool :=
  keys.any fun key => key ∈ self.filterHashes

structure IndexerBroadcast where
  blockBuffer : BlockBuffer := {}
  indSenders : List IndexerInfo := []

namespace IndexerBroadcast

def version : String := "1.7.0"

def registerIndexer (fromSlice : List UInt8 → Option SolanaFilter) (self : IndexerBroadcast)
    (hash : String) (encodedFilter : List UInt8) (indexerSender : Sender) : IndexerBroadcast :=
  let filter := (fromSlice encodedFilter).getD ⟨[]⟩
  { self with
    indSenders := self.indSenders ++
      [⟨hash, filter, (filter.keys.map Pubkey.toString).toFinset, rfl, indexerSender⟩] }

def pushTransaction (indexerBlocks : HashMap String ConfirmedBlockWithSlot) (hash : String)
    (tran : TransactionWithStatusMeta) : Outcome Empty (HashMap String ConfirmedBlockWithSlot) := do
  let entry ← .ofOption (indexerBlocks.lookup hash)
  let block ← .ofOption entry.block
  pure (indexerBlocks.insert hash
    { entry with block := some { block with transactions := block.transactions ++ [tran] } })

def distribute (indexers : List IndexerInfo) (indexerBlocks : HashMap String ConfirmedBlockWithSlot)
    (tran : TransactionWithStatusMeta) : Outcome Empty (HashMap String ConfirmedBlockWithSlot) :=
  let keys := tran.transaction.message.accountKeys.map Pubkey.toString
  indexers.foldlM (fun indexerBlocks indexer =>
    if indexer.isInterested keys then pushTransaction indexerBlocks indexer.hash tran
    else pure indexerBlocks) indexerBlocks

def emptyBlocks (indexers : List IndexerInfo) (block : ConfirmedBlockWithSlot) :
    HashMap String ConfirmedBlockWithSlot :=
  indexers.foldl (fun map indexer => map.insert indexer.hash block.cheapClone) ∅

def keepBlock (filteredBlocks : FilteredBlocks)
    (entry : (_ : String) × ConfirmedBlockWithSlot) :
    Outcome Empty FilteredBlocks := do
  let block ← .ofOption entry.2.block
  if block.transactions.length > 0 then
    pure (List.pushAt filteredBlocks (entry.1, entry.2))
  else
    pure filteredBlocks

section

variable (order : BlockOrder)

def collectBlock (indexers : List IndexerInfo)
    (filteredBlocks : FilteredBlocks) (block : ConfirmedBlockWithSlot) :
    Outcome Empty FilteredBlocks := do
  let refBlock ← .ofOption block.block
  let indexerBlocks ← refBlock.transactions.foldlM (distribute indexers) (emptyBlocks indexers block)
  (order.toList indexerBlocks).foldlM keepBlock filteredBlocks

def collectBlocks (indexers : List IndexerInfo) (blockWithSlots : List ConfirmedBlockWithSlot) :
    Outcome Empty FilteredBlocks :=
  (blockWithSlots.filter fun block => block.block.isSome).foldlM (collectBlock order indexers) ∅

def toExtBlock (blockWithSlot : ConfirmedBlockWithSlot) : Outcome Empty ExtBlock := do
  let refBlock ← .ofOption blockWithSlot.block
  let listLogMessages ← refBlock.transactions.mapM fun transaction => do
    let metadata ← .ofOption transaction.metadata
    pure metadata.logMessages
  pure ⟨version, refBlock.blockTime.getD 0, blockWithSlot.blockSlot, refBlock, listLogMessages⟩

def createBlockResponse (blocks : List ConfirmedBlockWithSlot) : Outcome Empty BlockResponse := do
  let extBlocks ← blocks.mapM toExtBlock
  pure ⟨version, extBlocks⟩

def sendBlocks : FilteredBlocks → List IndexerInfo →
    Outcome Empty (List IndexerInfo)
  | _, [] => pure []
  | filteredBlocks, indexer :: indexers =>
    match filteredBlocks.lookup indexer.hash with
    | none => do
      let rest ← sendBlocks filteredBlocks indexers
      pure (indexer :: rest)
    | some blocks => do
      let blockResponse ← createBlockResponse blocks
      let rest ← sendBlocks (filteredBlocks.erase indexer.hash) indexers
      pure ({ indexer with sender := indexer.sender.send blockResponse } :: rest)

def openIndexers (self : IndexerBroadcast) : List IndexerInfo :=
  self.indSenders.filter fun indexer => !indexer.sender.isClosed

def broadcastBlocks (self : IndexerBroadcast) (blockWithSlots : List ConfirmedBlockWithSlot) :
    Outcome Empty IndexerBroadcast := do
  let filteredBlocks ← collectBlocks order self.openIndexers blockWithSlots
  let indexers ← sendBlocks filteredBlocks self.openIndexers
  pure { self with indSenders := indexers }

def tryRecv (self : IndexerBroadcast) (data : BlockInfo) : Outcome Empty IndexerBroadcast :=
  let (blocks, blockBuffer) := self.blockBuffer.handleIncomingBlock data
  let self := { self with blockBuffer }
  match blocks with
  | some blocks => self.broadcastBlocks order blocks
  | none => pure self

end

end IndexerBroadcast

/-! ### What the registrations should receive -/

def SolanaFilter.filterBlocks (self : SolanaFilter) (blocks : List ConfirmedBlockWithSlot) :
    List ConfirmedBlockWithSlot :=
  blocks.filterMap fun block => block.block.bind fun refBlock =>
    let filtered := self.filterBlock refBlock
    if filtered.transactions = [] then none else some ⟨block.blockSlot, some filtered⟩

def BlockResponse.blocks (self : BlockResponse) : List ConfirmedBlockWithSlot :=
  self.payload.map fun ext => ⟨ext.blockNumber, some ext.block⟩

def Sender.received (self : Sender) : List ConfirmedBlockWithSlot :=
  self.sent.flatMap BlockResponse.blocks

/-- The same registration, after it has received some blocks. -/
structure IndexerInfo.Receives (blocks : List ConfirmedBlockWithSlot)
    (indexer indexer' : IndexerInfo) : Prop where
  hash_eq : indexer'.hash = indexer.hash
  filter_eq : indexer'.filter = indexer.filter
  isClosed_eq : indexer'.sender.isClosed = indexer.sender.isClosed
  received_eq : indexer'.sender.received = indexer.sender.received ++ blocks

abbrev AllReceive (blocks : List ConfirmedBlockWithSlot) :
    List IndexerInfo → List IndexerInfo → Prop :=
  List.Forall₂ fun indexer => indexer.Receives (indexer.filter.filterBlocks blocks)

/-- The broadcast returns, and each open registration has received the blocks that its own filter
keeps. -/
def IndexerBroadcast.Delivers (order : BlockOrder)
    (self : IndexerBroadcast) (blocks : List ConfirmedBlockWithSlot) : Prop :=
  ∃ self', self.broadcastBlocks order blocks = .ok self' ∧ self'.blockBuffer = self.blockBuffer ∧
    AllReceive blocks self.openIndexers self'.indSenders

/-- Of the registrations with one hash only the first is interested in a block, and all transactions
that are sent have metadata. -/
structure Deliverable (indexers : List IndexerInfo) (blocks : List ConfirmedBlockWithSlot) :
    Prop where
  pairwise_hash : indexers.Pairwise fun indexer indexer' =>
    indexer.hash = indexer'.hash → indexer'.filter.filterBlocks blocks = []
  metadata : ∀ indexer ∈ indexers, ∀ block ∈ indexer.filter.filterBlocks blocks,
    ∀ refBlock ∈ block.block, ∀ tran ∈ refBlock.transactions, tran.metadata.isSome

theorem IndexerInfo.isInterested_eq (self : IndexerInfo) (tran : TransactionWithStatusMeta) :
    self.isInterested (tran.transaction.message.accountKeys.map Pubkey.toString)
      = self.filter.isMatch tran := by
  rw [Bool.eq_iff_iff, SolanaFilter.isMatch_iff, isInterested, self.filterHashes_eq]
  simp only [any_map, any_eq_true, comp_apply, decide_eq_true_eq,
    mem_toFinset, mem_map_of_injective Pubkey.toString_injective]
  exact exists_congr fun key => and_comm

def copies (indexers : List IndexerInfo) (hash : String) (tran : TransactionWithStatusMeta) :
    List TransactionWithStatusMeta :=
  (indexers.filter fun indexer => indexer.hash = hash ∧ indexer.filter.isMatch tran).map
    fun _ => tran

theorem copies_append (indexers indexers' : List IndexerInfo) (hash : String)
    (tran : TransactionWithStatusMeta) :
    copies (indexers ++ indexers') hash tran
      = copies indexers hash tran ++ copies indexers' hash tran := by
  rw [copies, filter_append, map_append]
  rfl

variable {tran : TransactionWithStatusMeta}

theorem copies_eq_nil_iff {indexers : List IndexerInfo} {hash : String} :
    copies indexers hash tran = [] ↔
      ∀ indexer ∈ indexers, indexer.hash = hash → ¬indexer.filter.isMatch tran := by
  simp only [copies, map_eq_nil_iff, filter_eq_nil_iff, decide_eq_true_eq, not_and]

def mergedBlock (indexers : List IndexerInfo) (hash : String) (block : ConfirmedBlockWithSlot) :
    Option ConfirmedBlockWithSlot :=
  block.block.bind fun refBlock =>
    let transactions := refBlock.transactions.flatMap (copies indexers hash)
    if transactions = [] then none
    else some ⟨block.blockSlot, some { refBlock with transactions }⟩

def mergedBlocks (indexers : List IndexerInfo) (blocks : List ConfirmedBlockWithSlot)
    (hash : String) : List ConfirmedBlockWithSlot :=
  blocks.filterMap (mergedBlock indexers hash)

def Collects (indexers : List IndexerInfo) (blocks : List ConfirmedBlockWithSlot)
    (filteredBlocks : FilteredBlocks) : Prop :=
  ∀ hash, filteredBlocks.lookup hash =
    if mergedBlocks indexers blocks hash = [] then none
    else some (mergedBlocks indexers blocks hash)

namespace IndexerBroadcast

def HoldsTransactions (indexers : List IndexerInfo) (slot : Slot) (refBlock : ConfirmedBlock)
    (trans : String → List TransactionWithStatusMeta)
    (map : HashMap String ConfirmedBlockWithSlot) : Prop :=
  ∀ hash, map.lookup hash =
    if hash ∈ indexers.map IndexerInfo.hash then
      some ⟨slot, some { refBlock with transactions := trans hash }⟩
    else none

section

variable {indexers : List IndexerInfo} {slot : Slot} {rb : ConfirmedBlock}
  {trans : String → List TransactionWithStatusMeta} {map : HashMap String ConfirmedBlockWithSlot}

theorem holdsTransactions_emptyBlocks (indexers : List IndexerInfo) (slot : Slot)
    (rb : ConfirmedBlock) :
    HoldsTransactions indexers slot rb (fun _ => [])
      (emptyBlocks indexers ⟨slot, some rb⟩) := by
  intro hash
  rw [emptyBlocks]
  induction indexers using List.reverseRecOn with
  | nil => rfl
  | append_singleton indexers indexer ih =>
    rw [foldl_append, foldl_cons, foldl_nil, map_append, map_singleton]
    by_cases h : hash = indexer.hash
    · subst h
      rw [lookup_insert,
        if_pos (mem_append_right _ (mem_singleton_self _))]
      rfl
    · rw [lookup_insert_of_ne _ h, ih]
      simp [h]

section

variable (h : HoldsTransactions indexers slot rb trans map)

include h

theorem HoldsTransactions.pushTransaction {hash : String}
    (hh : hash ∈ indexers.map IndexerInfo.hash) (tran : TransactionWithStatusMeta) :
    ∃ map', pushTransaction map hash tran = .ok map' ∧
      HoldsTransactions indexers slot rb
        (Function.update trans hash (trans hash ++ [tran])) map' := by
  have hl := h hash
  rw [if_pos hh] at hl
  refine ⟨_, bind_eq_ok.2 ⟨_, ofOption_eq_ok.2 hl,
    bind_eq_ok.2 ⟨_, rfl, rfl⟩⟩, fun hash' => ?_⟩
  by_cases hne : hash' = hash
  · subst hne
    rw [lookup_insert, if_pos hh, update_self]
  · rw [lookup_insert_of_ne _ hne, update_of_ne hne]
    exact h hash'

theorem HoldsTransactions.distribute (tran : TransactionWithStatusMeta) {rest : List IndexerInfo}
    (hr : rest ⊆ indexers) :
    ∃ map', distribute rest map tran = .ok map' ∧
      HoldsTransactions indexers slot rb
        (fun hash => trans hash ++ copies rest hash tran) map' := by
  induction rest generalizing trans map with
  | nil => exact ⟨map, rfl, by simpa [copies] using h⟩
  | cons indexer rest ih =>
    obtain ⟨hi, hr⟩ := cons_subset.1 hr
    have hs : ∃ map', (if indexer.isInterested
          (tran.transaction.message.accountKeys.map Pubkey.toString) then
          IndexerBroadcast.pushTransaction map indexer.hash tran else pure map) = .ok map' ∧
        HoldsTransactions indexers slot rb
          (fun hash => trans hash ++ copies [indexer] hash tran) map' := by
      rw [indexer.isInterested_eq]
      split_ifs with hm
      · obtain ⟨map', hm', hh⟩ := h.pushTransaction (mem_map_of_mem hi) tran
        refine ⟨map', hm', ?_⟩
        convert hh using 1
        funext hash
        by_cases hha : indexer.hash = hash
        · subst hha
          simp [copies, hm]
        · simp [copies, hha, update_of_ne (Ne.symm hha)]
      · exact ⟨map, rfl, by simpa [copies, hm] using h⟩
    obtain ⟨map₁, hm₁, hh₁⟩ := hs
    obtain ⟨map', hm', hh⟩ := ih hh₁ hr
    refine ⟨map', ?_, ?_⟩
    · rw [IndexerBroadcast.distribute, foldlM_cons]
      exact bind_eq_ok.2 ⟨map₁, hm₁, hm'⟩
    · convert hh using 1
      funext hash
      rw [append_assoc, ← copies_append]
      rfl

theorem HoldsTransactions.foldlM_distribute (ts : List TransactionWithStatusMeta) :
    ∃ map', ts.foldlM (IndexerBroadcast.distribute indexers) map = .ok map' ∧
      HoldsTransactions indexers slot rb
        (fun hash => trans hash ++ ts.flatMap (copies indexers hash)) map' := by
  induction ts generalizing trans map with
  | nil => exact ⟨map, rfl, by simpa using h⟩
  | cons tran ts ih =>
    obtain ⟨map₁, hm₁, hh₁⟩ := h.distribute tran (List.Subset.refl indexers)
    obtain ⟨map', hm', hh⟩ := ih hh₁
    refine ⟨map', ?_, ?_⟩
    · rw [foldlM_cons]
      exact bind_eq_ok.mpr ⟨map₁, hm₁, hm'⟩
    · simpa only [flatMap_cons, append_assoc] using hh

end

def keepEntry (filteredBlocks : FilteredBlocks)
    (entry : (_ : String) × ConfirmedBlockWithSlot) :
    FilteredBlocks :=
  if entry.2.block.elim [] ConfirmedBlock.transactions = [] then filteredBlocks
  else List.pushAt filteredBlocks (entry.1, entry.2)

variable {e : (_ : String) × ConfirmedBlockWithSlot}

theorem keepBlock_eq (h : e.2.block = some rb) (filteredBlocks : FilteredBlocks) :
    keepBlock filteredBlocks e = .ok (keepEntry filteredBlocks e) := by
  rw [keepBlock, keepEntry, h]
  show (if rb.transactions.length > 0 then _ else _) = _
  by_cases hn : rb.transactions = []
  · rw [if_neg (by simp [hn]), Option.elim_some, if_pos hn]
    rfl
  · rw [if_pos (length_pos_iff.2 hn), Option.elim_some, if_neg hn]
    rfl

def addMerged (block : Option ConfirmedBlockWithSlot)
    (blocks : Option (List ConfirmedBlockWithSlot)) : Option (List ConfirmedBlockWithSlot) :=
  block.elim blocks fun block => some (blocks.getD [] ++ [block])

theorem lookup_keepEntry_of_ne {hash : String} (h : e.1 ≠ hash) (filteredBlocks : FilteredBlocks) :
    (keepEntry filteredBlocks e).lookup hash = filteredBlocks.lookup hash := by
  rw [keepEntry]
  split_ifs
  · rfl
  · exact lookup_insert_of_ne _ (Ne.symm h)

variable (o : BlockOrder)

theorem exists_collectBlock (indexers : List IndexerInfo) (filteredBlocks : FilteredBlocks)
    (slot : Slot) (rb : ConfirmedBlock) :
    ∃ fb',
      collectBlock o indexers filteredBlocks ⟨slot, some rb⟩ = .ok fb' ∧
      ∀ hash, fb'.lookup hash =
        addMerged (mergedBlock indexers hash ⟨slot, some rb⟩) (filteredBlocks.lookup hash) := by
  obtain ⟨map, hm, hh⟩ :=
    (holdsTransactions_emptyBlocks indexers slot rb).foldlM_distribute rb.transactions
  have he := o.enumerates map
  have hk : ∀ e ∈ o.toList map, ∀ filteredBlocks,
      keepBlock filteredBlocks e = .ok (keepEntry filteredBlocks e) := by
    rintro ⟨hash, b⟩ hen
    have hl := he.mem_iff.1 hen
    rw [hh hash] at hl
    split_ifs at hl
    cases hl
    exact keepBlock_eq rfl
  refine ⟨_, bind_eq_ok.2 ⟨rb, rfl, bind_eq_ok.2 ⟨map, hm,
    foldlM_eq_foldl hk filteredBlocks⟩⟩, fun hash => ?_⟩
  rw [foldl_at (g := Finmap.lookup hash) (a := hash)
    (h := fun b blocks => if b.block.elim [] ConfirmedBlock.transactions = [] then blocks
      else some (blocks.getD [] ++ [b]))
    (fun filteredBlocks e hne => lookup_keepEntry_of_ne hne filteredBlocks) ?_
    he.nodupKeys, he.dlookup, hh hash]
  · show _ = addMerged (if _ then none else _) _
    split_ifs with hha hn hn
    · exact if_pos hn
    · exact if_neg hn
    · rfl
    · refine absurd (flatMap_eq_nil_iff.mpr fun tran _ => copies_eq_nil_iff.mpr ?_) hn
      rintro indexer hi rfl
      exact absurd (mem_map_of_mem hi) hha
  · intro filteredBlocks b
    rw [keepEntry]
    split_ifs
    · rfl
    · exact lookup_insert _

theorem exists_collectBlocks (indexers : List IndexerInfo) (blocks : List ConfirmedBlockWithSlot) :
    ∃ filteredBlocks, collectBlocks o indexers blocks = .ok filteredBlocks ∧
      Collects indexers blocks filteredBlocks := by
  rw [collectBlocks]
  induction blocks using List.reverseRecOn with
  | nil => exact ⟨∅, rfl, fun hash => rfl⟩
  | append_singleton blocks b ih =>
    obtain ⟨filteredBlocks, hok, hl⟩ := ih
    obtain ⟨slot, - | rb⟩ := b
    · refine ⟨filteredBlocks, ?_, ?_⟩
      · rw [filter_append]
        simpa using hok
      · simpa [Collects, mergedBlocks, mergedBlock] using hl
    · obtain ⟨fb', hok', hl'⟩ := exists_collectBlock o indexers filteredBlocks slot rb
      refine ⟨fb', ?_, fun hash => ?_⟩
      · rw [filter_append, foldlM_append]
        refine bind_eq_ok.mpr ⟨filteredBlocks, hok, ?_⟩
        exact bind_eq_ok.mpr ⟨fb', hok', rfl⟩
      · rw [hl', hl hash, mergedBlocks, mergedBlocks, filterMap_append]
        rcases e : mergedBlock indexers hash ⟨slot, some rb⟩ with - | m
        · rw [filterMap_cons_none e, filterMap_nil, append_nil]
          rfl
        · rw [filterMap_cons_some e, filterMap_nil,
            if_neg (append_ne_nil_of_right_ne_nil _ (cons_ne_nil _ _)), addMerged,
            Option.elim_some]
          split_ifs with hnil
          · rw [hnil]
            rfl
          · rfl

end

section

variable {blocks : List ConfirmedBlockWithSlot} {br : BlockResponse}

theorem exists_createBlockResponse_iff :
    (∃ br, createBlockResponse blocks = .ok br) ↔
      ∀ b ∈ blocks, ∃ refBlock, b.block = some refBlock ∧
        ∀ tran ∈ refBlock.transactions, tran.metadata.isSome := by
  have het : ∀ b : ConfirmedBlockWithSlot, (∃ ext, toExtBlock b = .ok ext) ↔
      ∃ refBlock, b.block = some refBlock ∧
        ∀ tran ∈ refBlock.transactions, tran.metadata.isSome := by
    intro b
    simp only [toExtBlock, exists_bind_iff, ofOption_eq_ok, Option.isSome_iff_exists]
    refine exists_congr fun refBlock => and_congr_right fun _ => ?_
    constructor
    · rintro ⟨messages, hm, -⟩ tran ht
      obtain ⟨me, hms⟩ := exists_mapM_iff.1 ⟨messages, hm⟩ tran ht
      obtain ⟨m, hme, -⟩ := bind_eq_ok.mp hms
      exact ⟨m, ofOption_eq_ok.mp hme⟩
    · intro h
      have ha : ∃ messages, refBlock.transactions.mapM (fun t => do
          let m ← (.ofOption t.metadata : Outcome Empty _)
          pure m.logMessages) = .ok messages := by
        refine exists_mapM_iff.2 fun tran ht => ?_
        obtain ⟨m, hme⟩ := h tran ht
        exact ⟨_, bind_eq_ok.2 ⟨m, ofOption_eq_ok.2 hme, rfl⟩⟩
      obtain ⟨messages, hm⟩ := ha
      exact ⟨messages, hm, _, rfl⟩
  simp only [createBlockResponse, exists_bind_iff]
  constructor
  · rintro ⟨eb, he, -⟩ b hb
    exact (het b).1 (exists_mapM_iff.1 ⟨eb, he⟩ b hb)
  · intro h
    obtain ⟨eb, he⟩ :=
      exists_mapM_iff.2 fun b hb => (het b).2 (h b hb)
    exact ⟨eb, he, _, rfl⟩

theorem blocks_createBlockResponse (h : createBlockResponse blocks = .ok br) :
    br.blocks = blocks := by
  obtain ⟨eb, he, rfl⟩ := bind_pure_eq_ok.1 h
  have ha := mapM_eq_ok.1 he
  rw [← map_id blocks]
  refine (List.Forall₂.map_eq (ha.imp fun b ext het => ?_)).symm
  obtain ⟨refBlock, hr, het⟩ := bind_eq_ok.1 het
  obtain ⟨ms, -, rfl⟩ := bind_pure_eq_ok.1 het
  obtain ⟨slot, b⟩ := b
  exact congrArg (ConfirmedBlockWithSlot.mk slot) (ofOption_eq_ok.1 hr)

end

end IndexerBroadcast

/-! ### Merged blocks -/

def transactionsOf (blocks : List ConfirmedBlockWithSlot) : List TransactionWithStatusMeta :=
  blocks.flatMap fun block => block.block.elim [] ConfirmedBlock.transactions

variable {blocks : List ConfirmedBlockWithSlot}

theorem mem_transactionsOf :
    tran ∈ transactionsOf blocks ↔
      ∃ b ∈ blocks, ∃ refBlock ∈ b.block, tran ∈ refBlock.transactions := by
  rw [transactionsOf, mem_flatMap]
  refine exists_congr fun b => and_congr_right fun _ => ?_
  rcases b.block with - | refBlock
  · simp
  · simp

section

variable {indexers indexers' : List IndexerInfo} {blocks : List ConfirmedBlockWithSlot}
  {hash : String}

theorem mergedBlocks_congr
    (h : ∀ tran ∈ transactionsOf blocks, copies indexers hash tran = copies indexers' hash tran) :
    mergedBlocks indexers blocks hash = mergedBlocks indexers' blocks hash := by
  refine filterMap_congr fun b hb => ?_
  refine Option.bind_congr fun refBlock hr => ?_
  have hc : refBlock.transactions.flatMap (copies indexers hash)
      = refBlock.transactions.flatMap (copies indexers' hash) := by
    refine flatMap_congr fun tran htran => h tran ?_
    exact mem_transactionsOf.mpr ⟨b, hb, refBlock, hr, htran⟩
  rw [hc]

variable {i : IndexerInfo}

theorem mergedBlocks_singleton (hkeys : i.filter.keys ≠ []) :
    mergedBlocks [i] blocks i.hash = i.filter.filterBlocks blocks := by
  have hc : ∀ ts : List TransactionWithStatusMeta,
      ts.flatMap (copies [i] i.hash) = ts.filter i.filter.isMatch := by
    intro ts
    induction ts with
    | nil => rfl
    | cons tran ts ih =>
      rw [flatMap_cons, ih]
      by_cases hm : i.filter.isMatch tran
      · simp [copies, hm]
      · simp [copies, hm]
  refine filterMap_congr fun b _ => ?_
  refine Option.bind_congr fun refBlock _ => ?_
  rw [hc, SolanaFilter.filterBlock_eq hkeys]

variable {filter : SolanaFilter}

theorem filterBlocks_eq_nil_iff (hkeys : filter.keys ≠ []) :
    filter.filterBlocks blocks = [] ↔ ∀ tran ∈ transactionsOf blocks, ¬filter.isMatch tran := by
  rw [SolanaFilter.filterBlocks, filterMap_eq_nil_iff]
  constructor
  · intro h tran ht
    obtain ⟨b, hb, refBlock, hr, ht⟩ := mem_transactionsOf.1 ht
    have hn := h b hb
    rw [hr, Option.bind_some, SolanaFilter.filterBlock_eq hkeys] at hn
    intro hmatch
    have hne : refBlock.transactions.filter filter.isMatch ≠ [] :=
      ne_nil_of_mem (mem_filter.mpr ⟨ht, hmatch⟩)
    exact Option.some_ne_none _ ((if_neg hne).symm.trans hn)
  · intro h b hb
    rcases e : b.block with - | refBlock
    · rfl
    · have hni : refBlock.transactions.filter filter.isMatch = [] :=
        filter_eq_nil_iff.2 fun tran ht =>
          h tran (mem_transactionsOf.2 ⟨b, hb, refBlock, e, ht⟩)
      rw [Option.bind_some, SolanaFilter.filterBlock_eq hkeys]
      exact if_pos hni

theorem SolanaFilter.exists_of_mem_filterBlocks {b : ConfirmedBlockWithSlot}
    (h : b ∈ filter.filterBlocks blocks) :
    ∃ b' ∈ blocks, ∃ refBlock ∈ b'.block,
      b = ⟨b'.blockSlot, some (filter.filterBlock refBlock)⟩ := by
  obtain ⟨b', hb', hb⟩ := mem_filterMap.1 h
  obtain ⟨refBlock, hr, hb⟩ := Option.bind_eq_some_iff.1 hb
  obtain ⟨-, hsome⟩ := Option.ite_none_left_eq_some.mp hb
  exact ⟨b', hb', refBlock, hr, (Option.some.inj hsome).symm⟩

variable (hkeys : ∀ i ∈ indexers, i.filter.keys ≠ [])

include hkeys

theorem mergedBlocks_eq_nil
    (h : ∀ i ∈ indexers, i.hash = hash → i.filter.filterBlocks blocks = []) :
    mergedBlocks indexers blocks hash = [] := by
  have hn : mergedBlocks [] blocks hash = [] := by
    refine filterMap_eq_nil_iff.2 fun b _ => ?_
    simp [mergedBlock, copies]
  rw [← hn]
  refine mergedBlocks_congr fun tran htran => copies_eq_nil_iff.mpr fun i hindexer hhash => ?_
  exact (filterBlocks_eq_nil_iff (hkeys i hindexer)).mp (h i hindexer hhash) tran htran

omit hkeys in
theorem mergedBlocks_cons_of_ne (h : i.hash ≠ hash) :
    mergedBlocks (i :: indexers) blocks hash = mergedBlocks indexers blocks hash := by
  refine mergedBlocks_congr fun tran _ => ?_
  have hn : copies [i] hash tran = [] := by
    refine copies_eq_nil_iff.2 fun i' hi' hh => absurd hh ?_
    rwa [mem_singleton.1 hi']
  rw [← singleton_append, copies_append, hn, nil_append]

theorem mergedBlocks_cons_self (hi : i.filter.keys ≠ [])
    (h : ∀ i' ∈ indexers, i.hash = i'.hash → i'.filter.filterBlocks blocks = []) :
    mergedBlocks (i :: indexers) blocks i.hash
      = i.filter.filterBlocks blocks := by
  rw [← mergedBlocks_singleton hi]
  refine mergedBlocks_congr fun tran ht => ?_
  have hn : copies indexers i.hash tran = [] := by
    refine copies_eq_nil_iff.2 fun i' hi' hh => ?_
    exact (filterBlocks_eq_nil_iff (hkeys i' hi')).1
      (h i' hi' hh.symm) tran ht
  rw [← singleton_append, copies_append, hn, append_nil]

theorem mergedBlocks_of_pairwise (hp : indexers.Pairwise fun i i' =>
      i.hash = i'.hash → i'.filter.filterBlocks blocks = []) (hi : i ∈ indexers)
    (hne : i.filter.filterBlocks blocks ≠ []) :
    mergedBlocks indexers blocks i.hash = i.filter.filterBlocks blocks := by
  induction hp with
  | nil => exact absurd hi not_mem_nil
  | @cons first rest hf _ ih =>
    obtain ⟨hfirst_keys, hrest_keys⟩ := forall_mem_cons.1 hkeys
    rcases mem_cons.1 hi with rfl | hi
    · exact mergedBlocks_cons_self hrest_keys hfirst_keys hf
    · rw [mergedBlocks_cons_of_ne fun hh => hne (hf i hi hh)]
      exact ih hrest_keys hi

theorem Collects.tail {filteredBlocks rest : FilteredBlocks}
    (hc : Collects (i :: indexers) blocks filteredBlocks)
    (h : ∀ i' ∈ indexers, i.hash = i'.hash → i'.filter.filterBlocks blocks = [])
    (hs : rest.lookup i.hash = none)
    (ho : ∀ hash, hash ≠ i.hash → rest.lookup hash = filteredBlocks.lookup hash) :
    Collects indexers blocks rest := by
  intro hash
  by_cases hh : hash = i.hash
  · have hn : mergedBlocks indexers blocks i.hash = [] :=
      mergedBlocks_eq_nil hkeys fun i' hi' heq => h i' hi' heq.symm
    rw [hh, hs, hn, if_pos rfl]
  · rw [ho hash hh, hc hash, mergedBlocks_cons_of_ne (Ne.symm hh)]

end

/-! ### Sending -/

theorem Sender.received_send {self : Sender} (h : self.isClosed = false) (r : BlockResponse) :
    (self.send r).received = self.received ++ r.blocks := by
  rw [send, h, received, received]
  simp

theorem Sender.isClosed_send (self : Sender) (r : BlockResponse) :
    (self.send r).isClosed = self.isClosed := by
  rw [send]
  split_ifs
  · rfl
  · rfl

theorem IndexerInfo.Receives.refl (self : IndexerInfo) : self.Receives [] self :=
  ⟨rfl, rfl, rfl, (append_nil _).symm⟩

theorem IndexerInfo.Receives.eq_nil {self : IndexerInfo} (h : self.Receives blocks self) :
    blocks = [] :=
  self_eq_append_right.1 h.received_eq

namespace IndexerBroadcast

section

variable {fb : FilteredBlocks} {indexer : IndexerInfo}
  {indexers result : List IndexerInfo}

theorem sendBlocks_cons_none (h : fb.lookup indexer.hash = none) :
    sendBlocks fb (indexer :: indexers) = .ok result ↔
      ∃ rest, sendBlocks fb indexers = .ok rest ∧ indexer :: rest = result := by
  rw [sendBlocks, h]
  rw [bind_eq_ok]
  exact exists_congr fun rest => and_congr_right fun _ => ⟨Outcome.ok.inj, congrArg Outcome.ok⟩

variable {blocks : List ConfirmedBlockWithSlot}

theorem sendBlocks_cons_some (h : fb.lookup indexer.hash = some blocks) :
    sendBlocks fb (indexer :: indexers) = .ok result ↔
      ∃ blockResponse, createBlockResponse blocks = .ok blockResponse ∧
        ∃ rest, sendBlocks (fb.erase indexer.hash) indexers = .ok rest ∧
          { indexer with sender := indexer.sender.send blockResponse } :: rest = result := by
  rw [sendBlocks, h]
  simp only [bind_eq_ok]
  exact exists_congr fun blockResponse => and_congr_right fun _ =>
    exists_congr fun rest => and_congr_right fun _ => ⟨Outcome.ok.inj, congrArg Outcome.ok⟩

theorem pairwise_of_sendBlocks {ex : IndexerInfo → List ConfirmedBlockWithSlot}
    (h : sendBlocks fb indexers = .ok result)
    (hr : List.Forall₂ (fun indexer => indexer.Receives (ex indexer)) indexers result) :
    (indexers.Pairwise fun indexer i' =>
      indexer.hash = i'.hash → ex i' = []) ∧
    ∀ indexer ∈ indexers, (fb.lookup indexer.hash).elim (ex indexer = [])
      fun blocks => ∃ blockResponse, createBlockResponse blocks = .ok blockResponse := by
  induction indexers generalizing fb result with
  | nil => exact ⟨.nil, nofun⟩
  | cons indexer indexers ih =>
    rcases e : fb.lookup indexer.hash with - | blocks
    · obtain ⟨rest, hre, rfl⟩ := (sendBlocks_cons_none e).mp h
      obtain ⟨hf, hr⟩ := forall₂_cons.mp hr
      obtain ⟨hp, ha⟩ := ih hre hr
      refine ⟨.cons (fun i' hi' hh => ?_) hp, forall_mem_cons.mpr ⟨?_, ha⟩⟩
      · have hn := ha i' hi'
        rw [← hh, e] at hn
        exact hn
      · rw [e]
        exact hf.eq_nil
    · obtain ⟨blockResponse, hc, rest, hre, rfl⟩ := (sendBlocks_cons_some e).mp h
      obtain ⟨-, hr⟩ := forall₂_cons.mp hr
      obtain ⟨hp, ha⟩ := ih hre hr
      refine ⟨.cons (fun i' hi' hh => ?_) hp,
        forall_mem_cons.mpr ⟨?_, fun i' hi' => ?_⟩⟩
      · have hn := ha i' hi'
        rw [← hh, lookup_erase] at hn
        exact hn
      · rw [e]
        exact ⟨blockResponse, hc⟩
      · by_cases hh : i'.hash = indexer.hash
        · rw [hh, e]
          exact ⟨blockResponse, hc⟩
        · have hothers := ha i' hi'
          rwa [lookup_erase_ne hh] at hothers

theorem exists_createBlockResponse_filterBlocks {filter : SolanaFilter}
    (h : ∀ b ∈ filter.filterBlocks blocks, ∀ refBlock ∈ b.block,
      ∀ tran ∈ refBlock.transactions, tran.metadata.isSome) :
    ∃ blockResponse, createBlockResponse (filter.filterBlocks blocks) = .ok blockResponse := by
  refine exists_createBlockResponse_iff.2 fun b hb => ?_
  obtain ⟨block', -, refBlock, -, rfl⟩ := SolanaFilter.exists_of_mem_filterBlocks hb
  exact ⟨_, rfl, h _ hb _ rfl⟩

theorem exists_sendBlocks (hkeys : ∀ indexer ∈ indexers, indexer.filter.keys ≠ [])
    (ho : ∀ indexer ∈ indexers, indexer.sender.isClosed = false) (hd : Deliverable indexers blocks)
    (hc : Collects indexers blocks fb) :
    ∃ result, sendBlocks fb indexers = .ok result ∧
      AllReceive blocks indexers result := by
  induction indexers generalizing fb with
  | nil => exact ⟨[], rfl, .nil⟩
  | cons indexer indexers ih =>
    obtain ⟨hindexer_keys, hkeys⟩ := forall_mem_cons.1 hkeys
    obtain ⟨hindexer_open, ho⟩ := forall_mem_cons.1 ho
    obtain ⟨hf, hp⟩ := pairwise_cons.1 hd.pairwise_hash
    obtain ⟨hindexer_metadata, hm⟩ := forall_mem_cons.1 hd.metadata
    have hs := hc indexer.hash
    rw [mergedBlocks_cons_self hkeys hindexer_keys hf] at hs
    split_ifs at hs with he
    · have ht := hc.tail hkeys hf hs fun _ _ => rfl
      obtain ⟨rest, hre, hr⟩ := ih hkeys ho ⟨hp, hm⟩ ht
      refine ⟨indexer :: rest, (sendBlocks_cons_none hs).2 ⟨rest, hre, rfl⟩, .cons ?_ hr⟩
      rw [he]
      exact .refl indexer
    · have ht := hc.tail hkeys hf (lookup_erase _ _) fun _ hne => lookup_erase_ne hne
      obtain ⟨rest, hre, hr⟩ := ih hkeys ho ⟨hp, hm⟩ ht
      obtain ⟨blockResponse, hcr⟩ := exists_createBlockResponse_filterBlocks hindexer_metadata
      refine ⟨_, (sendBlocks_cons_some hs).2 ⟨blockResponse, hcr, rest, hre, rfl⟩,
        .cons ⟨rfl, rfl, indexer.sender.isClosed_send blockResponse, ?_⟩ hr⟩
      rw [← blocks_createBlockResponse hcr]
      exact Sender.received_send hindexer_open blockResponse

end

section

variable (order : BlockOrder)
  {self : IndexerBroadcast} {blocks : List ConfirmedBlockWithSlot}

theorem exists_broadcastBlocks_eq (self : IndexerBroadcast) (blocks : List ConfirmedBlockWithSlot) :
    ∃ filteredBlocks, Collects self.openIndexers blocks filteredBlocks ∧
      self.broadcastBlocks order blocks =
        (sendBlocks filteredBlocks self.openIndexers >>= fun indexers =>
          pure { self with indSenders := indexers }) := by
  obtain ⟨filteredBlocks, hc, hl⟩ := exists_collectBlocks order self.openIndexers blocks
  refine ⟨filteredBlocks, hl, ?_⟩
  rw [broadcastBlocks, hc]
  rfl

theorem Delivers.deliverable {order : BlockOrder}
    (hkeys : ∀ indexer ∈ self.openIndexers, indexer.filter.keys ≠ [])
    (h : self.Delivers order blocks) : Deliverable self.openIndexers blocks := by
  obtain ⟨self', hs', -, hr⟩ := h
  obtain ⟨filteredBlocks, hl, hb⟩ := exists_broadcastBlocks_eq order self blocks
  rw [hb] at hs'
  obtain ⟨indexers, hin, rfl⟩ := bind_pure_eq_ok.1 hs'
  obtain ⟨hp, ha⟩ := pairwise_of_sendBlocks hin hr
  refine ⟨hp, fun indexer hi b hbl refBlock hrb => ?_⟩
  have hne := ne_nil_of_mem hbl
  have hc := ha indexer hi
  rw [hl, mergedBlocks_of_pairwise hkeys hp hi hne, if_neg hne] at hc
  obtain ⟨rb', hr', hm⟩ :=
    exists_createBlockResponse_iff.1 hc b hbl
  obtain rfl := Option.some.inj (hrb.symm.trans hr')
  exact hm

theorem Delivers.of_deliverable (hkeys : ∀ indexer ∈ self.openIndexers, indexer.filter.keys ≠ [])
    (h : Deliverable self.openIndexers blocks) : self.Delivers order blocks := by
  have ho : ∀ indexer ∈ self.openIndexers, indexer.sender.isClosed = false := by
    intro indexer hin
    simpa using (mem_filter.1 hin).2
  obtain ⟨filteredBlocks, hl, hb⟩ := exists_broadcastBlocks_eq order self blocks
  obtain ⟨indexers, hi, hr⟩ := exists_sendBlocks hkeys ho h hl
  refine ⟨{ self with indSenders := indexers }, ?_, rfl, hr⟩
  rw [hb]
  exact bind_eq_ok.2 ⟨indexers, hi, rfl⟩

/-- **Each open registration receives exactly the blocks that its filter keeps if and only if** of
the registrations with one hash only the first is interested in the blocks, and all sent
transactions have metadata. -/
theorem delivers_iff (hkeys : ∀ indexer ∈ self.openIndexers, indexer.filter.keys ≠ [])
    (blocks : List ConfirmedBlockWithSlot) :
    self.Delivers order blocks ↔ Deliverable self.openIndexers blocks :=
  ⟨Delivers.deliverable hkeys, Delivers.of_deliverable order hkeys⟩

def registered (hashes : List String) : IndexerBroadcast :=
  hashes.foldl (fun self hash => self.registerIndexer
    (fun _ => some ⟨[⟨List.replicate 32 0, Pubkey.length_zeros⟩]⟩) hash [] ⟨false, []⟩) {}

def zeroTran (metadata : Option TransactionStatusMeta) : TransactionWithStatusMeta :=
  ⟨⟨[], ⟨[⟨List.replicate 32 0, Pubkey.length_zeros⟩], "", []⟩⟩, metadata⟩

def zeroMeta : TransactionStatusMeta := ⟨.ok (), 0, [], [], none, none, none, none, none⟩

def slotFive (transactions : List TransactionWithStatusMeta) : ConfirmedBlockWithSlot :=
  ⟨5, some ⟨"a", "b", 4, transactions, [], none, none⟩⟩

theorem delivers_two_hashes :
    (registered ["x", "y"]).Delivers (.prefer []) [slotFive [zeroTran (some zeroMeta)]] := by
  refine (delivers_iff (.prefer []) (by decide) _).2 ⟨by decide, ?_⟩
  have h : ∀ indexer ∈ (registered ["x", "y"]).openIndexers,
      ∀ b ∈ indexer.filter.filterBlocks [slotFive [zeroTran (some zeroMeta)]],
        ∀ tran ∈ b.block.elim [] ConfirmedBlock.transactions, tran.metadata.isSome := by decide
  rintro indexer hi ⟨slot, b⟩ hb refBlock rfl
  exact h indexer hi _ hb

theorem reconnected_not_delivered :
    (∃ self', (registered ["x", "x"]).broadcastBlocks (.prefer []) [slotFive [zeroTran (some zeroMeta)]]
        = .ok self' ∧
      self'.indSenders.map (fun indexer => indexer.sender.received) =
        [[slotFive [zeroTran (some zeroMeta), zeroTran (some zeroMeta)]], []]) ∧
    (registered ["x"]).broadcastBlocks (.prefer []) [slotFive [zeroTran none]] = .panic := by
  constructor
  · obtain ⟨filteredBlocks, hl, hb⟩ := exists_broadcastBlocks_eq (.prefer [])
      (registered ["x", "x"]) [slotFive [zeroTran (some zeroMeta)]]
    have hx := (hl "x").trans (if_neg (by decide))
    refine ⟨_, hb.trans (bind_eq_ok.2 ⟨_, (sendBlocks_cons_some hx).2
      ⟨_, rfl, _, (sendBlocks_cons_none (lookup_erase _ _)).2 ⟨[], rfl, rfl⟩, rfl⟩, rfl⟩), ?_⟩
    decide
  · obtain ⟨filteredBlocks, hl, hb⟩ := exists_broadcastBlocks_eq (.prefer [])
      (registered ["x"]) [slotFive [zeroTran none]]
    have hx := (hl "x").trans (if_neg (by decide))
    rw [hb]
    show (sendBlocks filteredBlocks [_] >>= _) = _
    rw [sendBlocks, hx]
    rfl

end

/-! ### Many messages -/

def tryRecvAll (order : BlockOrder)
    (self : IndexerBroadcast) (messages : List BlockInfo) : Outcome Empty IndexerBroadcast :=
  messages.foldlM (tryRecv order) self

structure Distinct (indexers : List IndexerInfo) : Prop where
  pairwise_ne : indexers.Pairwise fun indexer indexer' => indexer.hash ≠ indexer'.hash
  keys_ne : ∀ indexer ∈ indexers, indexer.filter.keys ≠ []
  isOpen : ∀ indexer ∈ indexers, indexer.sender.isClosed = false

section

variable {bs blocks' : List ConfirmedBlockWithSlot} {ins is' indexers'' : List IndexerInfo}

theorem Distinct.of_receives (h : Distinct ins) (hr : AllReceive bs ins is') : Distinct is' where
  pairwise_ne := hr.flip.pairwise h.pairwise_ne fun ha hb hne heq =>
    hne (ha.hash_eq.symm.trans (heq.trans hb.hash_eq))
  keys_ne indexer' hi' := by
    obtain ⟨indexer, hi, hab⟩ := hr.flip.exists_of_mem hi'
    rw [hab.filter_eq]
    exact h.keys_ne indexer hi
  isOpen indexer' hi' := by
    obtain ⟨indexer, hi, hab⟩ := hr.flip.exists_of_mem hi'
    rw [hab.isClosed_eq]
    exact h.isOpen indexer hi

theorem receives_append (h : AllReceive bs ins is') (h' : AllReceive blocks' is' indexers'') :
    AllReceive (bs ++ blocks') ins indexers'' := by
  induction h generalizing indexers'' with
  | nil =>
    obtain rfl := forall₂_nil_left_iff.mp h'
    exact .nil
  | cons hab _ ih =>
    obtain ⟨c, rest, hbc, hr, rfl⟩ := forall₂_cons_left_iff.1 h'
    refine .cons ⟨hbc.hash_eq.trans hab.hash_eq, hbc.filter_eq.trans hab.filter_eq,
      hbc.isClosed_eq.trans hab.isClosed_eq, ?_⟩ (ih hr)
    rw [hbc.received_eq, hab.received_eq, hab.filter_eq, append_assoc,
      SolanaFilter.filterBlocks, SolanaFilter.filterBlocks, ← filterMap_append]
    rfl

theorem Distinct.deliverable (h : Distinct ins)
    (hm : ∀ tran ∈ transactionsOf bs, tran.metadata.isSome) :
    Deliverable ins bs where
  pairwise_hash := h.pairwise_ne.imp fun hne heq => absurd heq hne
  metadata indexer hi block hb refBlock hr tran ht := by
    obtain ⟨b', hb', rb', hr', rfl⟩ := SolanaFilter.exists_of_mem_filterBlocks hb
    cases hr
    rw [SolanaFilter.filterBlock_eq (h.keys_ne indexer hi)] at ht
    exact hm tran (mem_transactionsOf.mpr
      ⟨b', hb', rb', hr', mem_of_mem_filter ht⟩)

end

section

variable (o : BlockOrder)
  {self : IndexerBroadcast}

theorem Distinct.exists_tryRecv (h : Distinct self.indSenders) (message : BlockInfo) (hm : ∀ tran ∈
      transactionsOf ((self.blockBuffer.handleIncomingBlock message).1.getD []),
      tran.metadata.isSome) :
    ∃ self', self.tryRecv o message = .ok self' ∧
      self'.blockBuffer = (self.blockBuffer.handleIncomingBlock message).2 ∧
      AllReceive ((self.blockBuffer.handleIncomingBlock message).1.getD [])
        self.indSenders self'.indSenders := by
  rw [tryRecv]
  rcases e : self.blockBuffer.handleIncomingBlock message with ⟨- | blocks, blockBuffer⟩
  · exact ⟨_, rfl, rfl, forall₂_same.2 fun indexer _ => .refl indexer⟩
  · rw [e] at hm
    have ho : openIndexers { self with blockBuffer } = self.indSenders := by
      refine filter_eq_self.2 fun indexer hi => ?_
      simp [h.isOpen indexer hi]
    have hd : Delivers o { self with blockBuffer } blocks := by
      apply Delivers.of_deliverable
      · rw [ho]
        exact h.keys_ne
      · rw [ho]
        exact h.deliverable hm
    obtain ⟨self', hs', hb, hr⟩ := hd
    rw [ho] at hr
    exact ⟨self', hs', hb, hr⟩

theorem Distinct.exists_tryRecvAll (h : Distinct self.indSenders) (ms : List BlockInfo)
    (hm : ∀ tran ∈ transactionsOf (self.blockBuffer.handleAll ms).1, tran.metadata.isSome) :
    ∃ self', self.tryRecvAll o ms = .ok self' ∧
      self'.blockBuffer = (self.blockBuffer.handleAll ms).2 ∧
      AllReceive (self.blockBuffer.handleAll ms).1 self.indSenders self'.indSenders := by
  induction ms using List.reverseRecOn with
  | nil => exact ⟨self, rfl, rfl, forall₂_same.2 fun indexer _ => .refl indexer⟩
  | append_singleton ms m ih =>
    have hs : self.blockBuffer.handleAll (ms ++ [m]) =
        ((self.blockBuffer.handleAll ms).1 ++
            (((self.blockBuffer.handleAll ms).2.handleIncomingBlock m).1).getD [],
          ((self.blockBuffer.handleAll ms).2.handleIncomingBlock m).2) := by
      rw [BlockBuffer.handleAll, foldl_append]
      rfl
    rw [hs] at hm ⊢
    simp only [transactionsOf, flatMap_append] at hm
    obtain ⟨self₁, hs₁, hb₁, hr₁⟩ := ih fun tran ht =>
      hm tran (mem_append_left _ ht)
    rw [← hb₁] at hm ⊢
    obtain ⟨self', hs', hb, hr⟩ :=
      (h.of_receives hr₁).exists_tryRecv o m fun tran ht =>
        hm tran (mem_append_right _ ht)
    refine ⟨self', ?_, hb, receives_append hr₁ hr⟩
    rw [tryRecvAll, foldlM_append]
    exact bind_eq_ok.mpr ⟨self₁, hs₁, bind_eq_ok.mpr ⟨self', hs', rfl⟩⟩

end

end IndexerBroadcast

end Massbit.Solana
