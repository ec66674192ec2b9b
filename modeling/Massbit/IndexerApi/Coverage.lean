/-
Which blocks an indexer handles (`indexer_runtime.rs`, `indexer_service.rs`): those of the messages,
and those in the gap before a message.
-/
import Massbit.IndexerApi.Interleaving
import Massbit.Solana.History

open List

namespace Massbit.IndexerApi

open Solana (Slot Decoder ExtBlock ConfirmedBlockWithSlot Mapping Pubkey RpcClient Transaction
  ConfirmedTransaction SolanaAdapter.getSignaturesForAddress SolanaAdapter.getConfirmedBlocks Chain
  ChainTransaction)

structure Indexer where
  network : Option String
  name : String
  status : Option String
  address : Option String
  startBlock : ℤ
  gotBlock : ℤ
  deriving DecidableEq, Repr

def verifyManifest (dataSources : List DataSource) : Bool := dataSources.length = 1

def storeIndexer (dataSources : List DataSource) (indexer : Indexer) : Indexer :=
  let indexer := { indexer with gotBlock := -1 }
  let indexer := match dataSources.head? with
    | some datasource =>
      { indexer with
        address := datasource.source.address
        startBlock := datasource.source.startBlock
        network := datasource.network
        name := datasource.name }
    | none => indexer
  { indexer with status := some (if verifyManifest dataSources then "Deploying" else "Invalid") }

def extBlocks (confirmedBlocks : List ConfirmedBlockWithSlot) : List ExtBlock :=
  confirmedBlocks.filterMap fun confirmedBlock =>
    confirmedBlock.block.map fun block =>
      { version := ""
        timestamp := 0
        blockNumber := confirmedBlock.blockSlot
        block
        listLogMessages := [] }

section

variable (rpcClient : RpcClient) (decode : Decoder)
  (order : Finmap.IterOrder fun _ : Slot => List ConfirmedTransaction)

def mappingHistoryData (dataSource : DataSource) (call : HistoryCall) (fuel : ℕ) :
    Option (Outcome String (List ExtBlock)) :=
  match dataSource.source.address.bind Pubkey.fromStr with
  | none => some (.ok [])
  | some pubkey =>
    (SolanaAdapter.getSignaturesForAddress rpcClient pubkey (some call.fromBlock)
      call.lastSignature fuel).map fun signatures => do
        let signatures ← signatures
        let (_, confirmedBlocks) ← SolanaAdapter.getConfirmedBlocks rpcClient decode order signatures
        return extBlocks confirmedBlocks

/-- A block with the slot is handed to `handle_block_mapping`, by the loop or by a task. -/
def HandedOver (dataSource : DataSource) (log : List MappingEvent) (slot : Slot) : Prop :=
  slot ∈ (liveBlocks log).map ExtBlock.blockNumber ∨
    ∃ call ∈ historyCalls log, ∃ enough, ∀ fuel, enough ≤ fuel →
      ∃ blocks, mappingHistoryData rpcClient decode order dataSource call fuel = some (.ok blocks) ∧
        slot ∈ blocks.map ExtBlock.blockNumber

end

/-- The slot has a transaction that mentions the address. -/
def Mentioned (chain : Chain) (address : Pubkey) (slot : Slot) : Prop :=
  ∃ tx ∈ chain.transactions, tx.mentions address = true ∧ tx.slot = slot

def startPosition (gotBlock startBlock : ℤ) : ℤ :=
  if gotBlock ≥ 0 then gotBlock + 1 else startBlock

/-- From the start to the last block that came in a message. -/
def InRange (gotBlock startBlock : ℤ) (log : List MappingEvent) (slot : Slot) : Prop :=
  startPosition gotBlock startBlock ≤ slot.toNat ∧
    ∃ last, (liveBlocks log).getLast? = some last ∧ slot ≤ last.blockNumber

def InGap (gotBlock : ℤ) (log : List MappingEvent) (slot : Slot) : Prop :=
  ∃ pre stream first rest history post start,
    log = pre ++ .poll stream (.message (first :: rest) history) :: post ∧
      startAfter gotBlock pre = some start ∧ start ≤ slot ∧ slot < first.blockNumber

/-- The slot comes in a message, or it is in the gap before one. -/
def Reached (gotBlock : ℤ) (log : List MappingEvent) (slot : Slot) : Prop :=
  slot ∈ (liveBlocks log).map ExtBlock.blockNumber ∨ InGap gotBlock log slot

/-- The transactions in the messages are on the chain. -/
def FromChain (chain : Chain) (log : List MappingEvent) : Prop :=
  ∀ block ∈ liveBlocks log, ∀ tran ∈ block.block.transactions,
    ∃ tx ∈ chain.transactions, tx.slot = block.blockNumber ∧ tx.transaction = tran.transaction

section

variable {rpcClient : RpcClient} {decode : Decoder}
  {order : Finmap.IterOrder fun _ : Slot => List ConfirmedTransaction} {chain : Chain}
  {dataSource : DataSource} {address : Pubkey} {log : List MappingEvent} {slot : Slot}

theorem mappingHistoryData_slots (h : rpcClient.Serves decode chain)
    (ha : dataSource.source.address.bind Pubkey.fromStr = some address)
    (order : Finmap.IterOrder fun _ : Slot => List ConfirmedTransaction) (call : HistoryCall)
    {fuel : ℕ} (hf : (chain.olderThan address call.lastSignature).length < fuel) :
    ∃ blocks, mappingHistoryData rpcClient decode order dataSource call fuel = some (.ok blocks) ∧
      ∀ slot, slot ∈ blocks.map ExtBlock.blockNumber ↔
        ∃ tx ∈ chain.history address call.fromBlock call.lastSignature, tx.slot = slot := by
  have hm : ∀ tx ∈ chain.history address call.fromBlock call.lastSignature,
      tx ∈ chain.transactions := fun tx htx =>
    Chain.mem_of_mem_before (mem_filter.mp htx).1
  obtain ⟨_, cb, hc, hso, hs⟩ :=
    Solana.SolanaAdapter.getConfirmedBlocks_slots h order hm
  refine ⟨extBlocks cb, ?_, fun slot => ?_⟩
  · rw [mappingHistoryData, ha]
    show Option.map _ (SolanaAdapter.getSignaturesForAddress _ _ _ _ _) = _
    rw [Solana.SolanaAdapter.getSignaturesForAddress_eq h.signatures _ _ _ hf, Option.map_some]
    exact congrArg some (bind_eq_ok.mpr ⟨_, rfl,
      bind_eq_ok.mpr ⟨_, hc, rfl⟩⟩)
  · rw [← hs slot, extBlocks, map_filterMap, mem_filterMap, mem_map]
    constructor
    · rintro ⟨confirmedBlock, hm, heq⟩
      obtain ⟨block, hblock⟩ := Option.isSome_iff_exists.mp (hso confirmedBlock hm)
      rw [hblock] at heq
      exact ⟨confirmedBlock, hm, Option.some.inj heq⟩
    · rintro ⟨confirmedBlock, hm, rfl⟩
      obtain ⟨block, hblock⟩ := Option.isSome_iff_exists.mp (hso confirmedBlock hm)
      refine ⟨confirmedBlock, hm, ?_⟩
      rw [hblock]
      rfl

variable {bs : List ExtBlock} {post : List MappingEvent} {st : ℕ} {history : Option HistoryCall}
  {sta : UInt64} {call : HistoryCall}

theorem historyCall_eq_some {sb : Option UInt64} :
    historyCall sb bs = some call ↔ ∃ f rest sta, bs = f :: rest ∧ sb = some sta ∧
        sta < f.blockNumber ∧
        call = ⟨sta, f.block.transactions.head?.bind fun tran =>
          tran.transaction.signatures.head?⟩ := by
  rcases bs with - | ⟨f, rest⟩
  · simp [historyCall]
  · rcases sb with - | sta
    · simp [historyCall]
    · by_cases hg : sta < f.blockNumber
      · simp [historyCall, hg, eq_comm]
      · simp [historyCall, hg]

theorem head?_signatures {tx : ChainTransaction} (htx : tx ∈ chain.transactions) :
    tx.transaction.signatures.head? = some tx.signature := by
  have hl := chain.length_signature tx htx
  rw [ChainTransaction.signature] at hl ⊢
  cases hs : tx.transaction.signatures with
  | nil =>
    rw [hs] at hl
    cases hl
  | cons s rest => rfl

variable {pre : List MappingEvent}

theorem mem_liveBlocks (hl : log = pre ++ .poll st (.message bs history) :: post) {b : ExtBlock}
    (hb : b ∈ bs) : b ∈ liveBlocks log := by
  rw [hl, liveBlocks, flatMap_append, flatMap_cons]
  exact mem_append_right _ (mem_append_left _ hb)

theorem mem_historyCalls :
    call ∈ historyCalls log ↔
      ∃ pre st bs post, log = pre ++ .poll st (.message bs (some call)) :: post := by
  rw [historyCalls, mem_filterMap]
  constructor
  · rintro ⟨e, he, hc⟩
    obtain ⟨pre, post, rfl⟩ := append_of_mem he
    rcases e with ⟨request, st⟩ | ⟨st, ⟨bs, history⟩ | - | -⟩
    · cases hc
    · obtain rfl : history = some call := hc
      exact ⟨pre, st, bs, post, rfl⟩
    · cases hc
    · cases hc
  · rintro ⟨pre, st, bs, post, rfl⟩
    exact ⟨_, mem_append_right _ mem_cons_self, rfl⟩

variable {gotBlock : ℤ}

theorem exists_call_of_gap (htr : Traced gotBlock log) (hl : FromChain chain log) {f : ExtBlock}
    {rest : List ExtBlock} (hlo : log = pre ++ .poll st (.message (f :: rest) history) :: post)
    (hs : startAfter gotBlock pre = some sta) (hg : sta < f.blockNumber) :
    ∃ o tx n, chain.transactions = o ++ tx :: n ∧ tx.slot = f.blockNumber ∧
      history = some ⟨sta, some tx.signature⟩ := by
  have hc : CallsHistory (startAfter gotBlock pre) (f :: rest) history := by
    cases htr.next_of_eq hlo with
    | poll _ hm => exact hm rfl
  obtain ⟨tran, ts, htn⟩ := exists_cons_of_ne_nil (hc.transactions_ne_nil rfl hs hg)
  obtain ⟨tx, htx, hsl, ht⟩ := hl f (mem_liveBlocks hlo mem_cons_self) tran
    (htn ▸ mem_cons_self)
  obtain ⟨o, n, hch⟩ := append_of_mem htx
  refine ⟨o, tx, n, hch, hsl, ?_⟩
  rw [hc.history_eq, historyCall_eq_some]
  refine ⟨f, rest, sta, rfl, hs, hg, ?_⟩
  rw [htn, List.head?_cons, Option.bind_some, ← ht, head?_signatures htx]

theorem handedOver_iff (h : rpcClient.Serves decode chain)
    (ha : dataSource.source.address.bind Pubkey.fromStr = some address) (ht : Traced gotBlock log)
    (hli : FromChain chain log) (hm : Mentioned chain address slot) :
    HandedOver rpcClient decode order dataSource log slot ↔ Reached gotBlock log slot := by
  apply or_congr_right'
  intro hne
  constructor
  · rintro ⟨call, hcl, e, hal⟩
    obtain ⟨pre, st, bs, post, hl⟩ := mem_historyCalls.1 hcl
    have hca : CallsHistory (startAfter gotBlock pre) bs (some call) := by
      cases ht.next_of_eq hl with
      | poll _ hms => exact hms rfl
    obtain ⟨f, rest, sta, rfl, hs, hg, -⟩ :=
      historyCall_eq_some.1 hca.history_eq.symm
    obtain ⟨o, tx, n, hc, hst, hh⟩ := exists_call_of_gap ht hli hl hs hg
    cases hh
    -- what the task hands over
    obtain ⟨bs, hb, hmm⟩ := hal (max e _) (le_max_left _ _)
    obtain ⟨bs', hb', hsl⟩ := mappingHistoryData_slots h ha order
      ⟨sta, some tx.signature⟩ (Nat.lt_of_succ_le (le_max_right e _))
    obtain rfl := Outcome.ok.inj (Option.some.inj (hb.symm.trans hb'))
    obtain ⟨tx', htx', rfl⟩ := (hsl slot).1 hmm
    obtain ⟨holder, -, hle⟩ := (Chain.mem_history_signature hc).1 htx'
    refine ⟨pre, st, f, rest, _, post, sta, hl, hs, hle, ?_⟩
    have ho := chain.ordered
    rw [hc] at ho
    have hle' := (pairwise_append.1 ho).2.2 tx' holder tx mem_cons_self
    rw [hst] at hle'
    refine UInt64.lt_of_le_of_ne hle' fun heq => hne ?_
    rw [heq]
    exact mem_map_of_mem (mem_liveBlocks hl mem_cons_self)
  · rintro ⟨pre, st, f, rest, history, post, sta, hl, hs, hle, hlt⟩
    obtain ⟨o, tx, n, hc, hst, rfl⟩ :=
      exists_call_of_gap ht hli hl hs (UInt64.lt_of_le_of_lt hle hlt)
    refine ⟨_, mem_historyCalls.2 ⟨pre, st, _, post, hl⟩,
      (chain.olderThan address (some tx.signature)).length + 1, fun fuel hf => ?_⟩
    obtain ⟨bs, hb, hsl⟩ := mappingHistoryData_slots h ha order
      ⟨sta, some tx.signature⟩ (Nat.lt_of_succ_le hf)
    refine ⟨bs, hb, (hsl slot).2 ?_⟩
    obtain ⟨tx', htx', hme, rfl⟩ := hm
    refine ⟨tx', (Chain.mem_history_signature hc).2 ⟨?_, hme, hle⟩, rfl⟩
    -- a transaction in the gap is before the message
    have ho := chain.ordered
    rw [hc] at htx' ho
    rcases mem_append.1 htx' with holder | hn
    · exact holder
    · rw [← hst] at hlt
      rcases mem_cons.1 hn with rfl | hn
      · exact absurd hlt (UInt64.lt_irrefl _)
      · have hle' := (pairwise_cons.1 (pairwise_append.1 ho).2.1).1 tx' hn
        exact absurd hlt (UInt64.not_lt.2 hle')

/-- **All slots that mention the address are handed over if and only if they are all reached.** -/
theorem covered_iff {S Modification : Type} {env : Mapping S Modification} {indexerHash : String}
    {inputs : List (MappingInput S)} {s : Mapper} (h : rpcClient.Serves decode chain)
    (haddress : dataSource.source.address.bind Pubkey.fromStr = some address)
    (hrun : Mapper.Takes env indexerHash dataSource gotBlock inputs s)
    (hlive : FromChain chain s.log) :
    (∀ slot, InRange gotBlock dataSource.source.startBlock s.log slot →
        Mentioned chain address slot → HandedOver rpcClient decode order dataSource s.log slot) ↔
      ∀ slot, InRange gotBlock dataSource.source.startBlock s.log slot →
        Mentioned chain address slot → Reached gotBlock s.log slot := by
  have ht := (Logged.of_run hrun).traced
  constructor
  · intro hcovered slot hrange hmentioned
    exact (handedOver_iff h haddress ht hlive hmentioned).mp (hcovered slot hrange hmentioned)
  · intro hreached slot hrange hmentioned
    exact (handedOver_iff h haddress ht hlive hmentioned).mpr (hreached slot hrange hmentioned)

end

def zeroKey : Pubkey := ⟨List.replicate 32 0, Pubkey.length_zeros⟩

def zeroKeySource : DataSource :=
  ⟨"solana/contract", none, "contract", ⟨some zeroKey.toString, 5⟩⟩

def tranAt (n : ℕ) : Transaction :=
  ⟨[List.replicate 64 (UInt8.ofNat n)], ⟨[zeroKey], "", []⟩⟩

def txAt (n : ℕ) : ChainTransaction :=
  ⟨UInt64.ofNat n, tranAt n, ⟨String.ofList (List.replicate n 'a'), none⟩, none⟩

def decodeLength (payload : String) : Option Transaction := some (tranAt payload.length)

def fiveAndEight : Chain where
  transactions := [txAt 5, txAt 8]
  ordered := by decide
  nodup := by decide
  length_signature := by decide

theorem fiveAndEight_serves : fiveAndEight.node.Serves decodeLength fiveAndEight := by
  apply Chain.node_serves
  · decide
  · intro tx htx ss hs
    rcases mem_pair.mp htx with rfl | rfl
    · cases hs
    · cases hs

def slotEightBlock : ExtBlock :=
  ⟨"1.7.0", 0, 8, ⟨"a", "b", 7, [⟨tranAt 8, none⟩], [], none, none⟩, []⟩

def slotEightInputs : List (MappingInput Unit) :=
  [⟨true, .timeout⟩, ⟨true, .message ⟨[slotEightBlock], (), true⟩⟩]

theorem fromChain_slotEight {log : List MappingEvent} (hl : liveBlocks log = [slotEightBlock]) :
    FromChain fiveAndEight log := by
  intro b hb tran ht
  rw [hl, mem_singleton] at hb
  subst hb
  obtain rfl := mem_singleton.1 ht
  exact ⟨txAt 8, mem_cons_of_mem _ (mem_singleton_self _), rfl, rfl⟩

theorem covered_after_four :
    ∃ s, Mapper.Takes (Solana.mappingOf (.ok ()) (.ok ())) "hash" zeroKeySource 4
        slotEightInputs s ∧
      ∀ order slot, InRange 4 5 s.log slot → Mentioned fiveAndEight zeroKey slot →
        HandedOver fiveAndEight.node decodeLength order zeroKeySource s.log slot := by
  have hr : ∃ s, Mapper.Takes (Solana.mappingOf (.ok ()) (.ok ())) "hash" zeroKeySource 4
      slotEightInputs s ∧
      s.log = [.request (blockRequest "hash" zeroKeySource (some 5)) (some 0),
        .poll 0 (.message [slotEightBlock] (some ⟨5, some (txAt 8).signature⟩))] :=
    ⟨_, .of_foldlM rfl, rfl⟩
  obtain ⟨s, hr, hl⟩ := hr
  have ha : zeroKeySource.source.address.bind Pubkey.fromStr = some zeroKey :=
    Pubkey.fromStr_toString zeroKey
  refine ⟨s, hr, fun order => ?_⟩
  refine (covered_iff fiveAndEight_serves ha hr (fromChain_slotEight (by rw [hl]; rfl))).2 ?_
  rintro slot - ⟨tx, htx, -, rfl⟩
  rw [hl]
  rcases mem_pair.1 htx with rfl | rfl
  · exact .inr ⟨[_], 0, slotEightBlock, [], _, [], 5, rfl, rfl, by decide, by decide⟩
  · exact .inl (mem_singleton.2 rfl)

theorem manifest_start_lost :
    ∃ s, Run (Mapper.step (Solana.mappingOf (.ok ()) (.ok ())) "hash" zeroKeySource)
        (fun _ _ => True)
        (.start (storeIndexer [zeroKeySource] ⟨none, "", none, none, 0, 0⟩).gotBlock)
        slotEightInputs s ∧
      FromChain fiveAndEight s.log ∧
      InRange (storeIndexer [zeroKeySource] ⟨none, "", none, none, 0, 0⟩).gotBlock
        zeroKeySource.source.startBlock s.log 5 ∧
      Mentioned fiveAndEight zeroKey 5 ∧
      ∀ order, ¬HandedOver fiveAndEight.node decodeLength order zeroKeySource s.log 5 := by
  refine ⟨_, .of_foldlM rfl, fromChain_slotEight rfl, ⟨by decide, slotEightBlock, rfl, by decide⟩,
    ⟨txAt 5, mem_cons_self, by decide, rfl⟩, fun order => ?_⟩
  rintro (hl | ⟨call, hc, -⟩)
  · exact absurd hl (by decide)
  · exact absurd hc not_mem_nil

end Massbit.IndexerApi
