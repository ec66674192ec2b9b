/-
The history of an address (`chain/solana/src/adapter.rs`).
-/
import Massbit.Lib.Chunks
import Massbit.Lib.GroupBy
import Massbit.Solana.GetBlock
import Mathlib.Data.List.ReduceOption

open List Outcome

namespace Massbit.Solana

def Signature.fromStr (text : String) : Option (List UInt8) :=
  (Base58.decode text).filter fun bytes => bytes.length = 64

theorem Signature.fromStr_encode {bytes : List UInt8} (h : bytes.length = 64) :
    Signature.fromStr (Base58.encode bytes) = some bytes := by
  rw [Signature.fromStr, Base58.decode_encode, Option.filter_some, if_pos (decide_eq_true h)]

structure RpcConfirmedTransactionStatusWithSignature where
  signature : String
  slot : Slot
  deriving DecidableEq, Repr

structure EncodedConfirmedTransaction where
  slot : Slot
  transaction : EncodedTransactionWithStatusMeta
  blockTime : Option ℤ
  deriving DecidableEq

/-- The inner instructions are in base 58, if there are any and they are not parsed. -/
def EncodedConfirmedTransaction.Readable (self : EncodedConfirmedTransaction) : Prop :=
  ∀ status, self.transaction.metadata = some status →
    ∀ inner, status.innerInstructions = some inner → ∀ instructions ∈ inner, instructions.Readable

structure ConfirmedTransaction where
  slot : Slot
  transaction : TransactionWithStatusMeta
  blockTime : Option ℤ
  deriving DecidableEq

structure RpcClient where
  getSignaturesForAddressWithConfig (address : Pubkey) (before : Option (List UInt8)) (limit : ℕ) :
    Except String (List RpcConfirmedTransactionStatusWithSignature)
  sendBatch (signatures : List String) :
    Except String (List (Except String EncodedConfirmedTransaction))

namespace SolanaAdapter

def limitFilterResult : ℕ := 1000

def transactionBatchSize : ℕ := 100

section

variable (rpcClient : RpcClient)

def scan (address : Pubkey) (firstSlot : Slot) :
    ℕ → Option (List UInt8) → List String → Option (Outcome String (List String))
  | 0, _, _ => none
  | fuel + 1, beforeSignature, resSignatures =>
    match rpcClient.getSignaturesForAddressWithConfig address beforeSignature
        limitFilterResult with
    | .error _ => some (.ok resSignatures)
    | .ok txs =>
      match txs.getLast? with
      | none => some (.ok resSignatures)
      | some lastTran =>
        match Signature.fromStr lastTran.signature with
        | none => some .panic
        | some signature =>
          let resSignatures := txs.foldl (fun resSignatures tran =>
            -- prepend the signature
            if firstSlot ≤ tran.slot then tran.signature :: resSignatures else resSignatures)
            resSignatures
          if lastTran.slot < firstSlot then some (.ok resSignatures)
          else scan address firstSlot fuel (some signature) resSignatures

def getSignaturesForAddress (address : Pubkey) (firstSlot : Option Slot)
    (endSignature : Option (List UInt8)) (fuel : ℕ) : Option (Outcome String (List String)) :=
  scan rpcClient address (firstSlot.getD 0) fuel endSignature []

def toTransactionStatusMeta (uiMeta : UiTransactionStatusMeta) :
    Outcome String TransactionStatusMeta := do
  let innerInstructions ← uiMeta.innerInstructions.mapM fun instruction =>
    instruction.mapM toUiInstructions
  return { status := uiMeta.status
           fee := uiMeta.fee
           preBalances := uiMeta.preBalances
           postBalances := uiMeta.postBalances
           innerInstructions := innerInstructions
           logMessages := uiMeta.logMessages
           preTokenBalances := uiMeta.preTokenBalances.map (·.map toTransactionTokenBalance)
           postTokenBalances := uiMeta.postTokenBalances.map (·.map toTransactionTokenBalance)
           rewards := uiMeta.rewards }

variable (decode : Decoder)

def decodeTransaction (encodeTxs : EncodedConfirmedTransaction) :
    Outcome String (Option ConfirmedTransaction) := do
  let metadata ← encodeTxs.transaction.metadata.mapM toTransactionStatusMeta
  return (decode encodeTxs.transaction.transaction).map fun transaction =>
    ⟨encodeTxs.slot, ⟨transaction, metadata⟩, encodeTxs.blockTime⟩

/-- The requests that were sent, and the transactions that were fetched, with their slots. -/
structure Fetched where
  requests : List (List String) := []
  entries : List (Slot × ConfirmedTransaction) := []

def fetch (fetched : Fetched) (batch : List String) : Outcome String Fetched :=
  match rpcClient.sendBatch batch with
  | .error _ => pure ⟨fetched.requests ++ [batch], fetched.entries⟩
  | .ok answers => do
    let decoded ← (answers.filterMap Except.toOption).mapM fun tran => do
      let confirmedTransaction ← decodeTransaction decode tran
      return confirmedTransaction.map fun confirmedTransaction => (tran.slot, confirmedTransaction)
    return ⟨fetched.requests ++ [batch], fetched.entries ++ decoded.reduceOption⟩

/-- The blocks, and the batches of signatures that were requested for them. -/
def getConfirmedBlocks (order : Finmap.IterOrder fun _ : Slot => List ConfirmedTransaction)
    (signatures : List String) :
    Outcome String (List (List String) × List ConfirmedBlockWithSlot) := do
  let fetched ← (signatures.chunks transactionBatchSize).foldlM (fetch rpcClient decode) {}
  return (fetched.requests,
    (order.toList (List.pushAll fetched.entries)).map fun ⟨blockSlot, transactions⟩ =>
      { blockSlot
        block := some
          { previousBlockhash := ""
            blockhash := ""
            parentSlot := 0
            transactions := transactions.map ConfirmedTransaction.transaction
            rewards := []
            blockTime := none
            blockHeight := none } })

end

end SolanaAdapter

/-! ### The transactions of a chain -/

/-- A transaction on the chain, and what the node sends for it. -/
structure ChainTransaction where
  slot : Slot
  transaction : Transaction
  encoded : EncodedTransactionWithStatusMeta
  blockTime : Option ℤ

namespace ChainTransaction

variable (self : ChainTransaction)

def signature : List UInt8 := self.transaction.signatures.headD []

def mentions (address : Pubkey) : Bool := self.transaction.message.accountKeys.contains address

def text : String := Base58.encode self.signature

def status : RpcConfirmedTransactionStatusWithSignature := ⟨self.text, self.slot⟩

def confirmed : EncodedConfirmedTransaction := ⟨self.slot, self.encoded, self.blockTime⟩

end ChainTransaction

structure Chain where
  transactions : List ChainTransaction
  ordered : transactions.Pairwise fun tx tx' => tx.slot ≤ tx'.slot
  nodup : (transactions.map ChainTransaction.signature).Nodup
  length_signature : ∀ tx ∈ transactions, tx.signature.length = 64

namespace Chain

variable (self : Chain)

def before : Option (List UInt8) → List ChainTransaction
  | none => self.transactions
  | some signature =>
    if signature ∈ self.transactions.map ChainTransaction.signature then
      self.transactions.takeWhile fun tx => tx.signature ≠ signature
    else []

def olderThan (address : Pubkey) (signature : Option (List UInt8)) : List ChainTransaction :=
  ((self.before signature).filter (·.mentions address)).reverse

def history (address : Pubkey) (firstSlot : Slot) (signature : Option (List UInt8)) :
    List ChainTransaction :=
  (self.before signature).filter fun tx => tx.mentions address && firstSlot ≤ tx.slot

end Chain

/-- The node answers the requests for pages without errors. -/
def RpcClient.ServesSignatures (rpcClient : RpcClient) (chain : Chain) : Prop :=
  ∀ address before {limit}, 0 < limit →
    ∃ page rest, chain.olderThan address before = page ++ rest ∧ page.length ≤ limit ∧
      (page = [] → rest = []) ∧
      rpcClient.getSignaturesForAddressWithConfig address before limit =
        .ok (page.map ChainTransaction.status)

/-- The node answers without errors. -/
structure RpcClient.Serves (rpcClient : RpcClient) (decode : Decoder)
    (chain : Chain) : Prop where
  signatures : rpcClient.ServesSignatures chain
  batch : ∀ {txs : List ChainTransaction}, (∀ tx ∈ txs, tx ∈ chain.transactions) →
    rpcClient.sendBatch (txs.map ChainTransaction.text) = .ok (txs.map fun tx => .ok tx.confirmed)
  decodes : ∀ tx ∈ chain.transactions, decode tx.encoded.transaction = some tx.transaction
  readable : ∀ tx ∈ chain.transactions, tx.confirmed.Readable

namespace Chain

variable {chain : Chain} {address : Pubkey} {before : Option (List UInt8)}

def node (self : Chain) : RpcClient where
  getSignaturesForAddressWithConfig address before limit :=
    .ok (((self.olderThan address before).take limit).map ChainTransaction.status)
  sendBatch signatures := .ok (signatures.map fun signature =>
    match self.transactions.find? (·.text = signature) with
    | some tx => .ok tx.confirmed
    | none => .error "not found")

variable {tx : ChainTransaction}

theorem find_text (htx : tx ∈ chain.transactions) :
    chain.transactions.find? (·.text = tx.text) = some tx := by
  obtain ⟨pre, post, hs⟩ := append_of_mem htx
  have hn := chain.nodup
  rw [hs, map_append, map_cons] at hn
  have hp : ∀ tx' ∈ pre, ¬decide (tx'.text = tx.text) = true := by
    intro tx' htx' heq
    have hsi := Base58.encode_injective (of_decide_eq_true heq)
    exact (nodup_append.mp hn).2.2 _ (mem_map_of_mem htx') _ mem_cons_self
      hsi
  rw [hs, List.find?_append, List.find?_eq_none.mpr hp, Option.none_or,
    List.find?_cons_of_pos (by simp)]

theorem node_servesSignatures (chain : Chain) : chain.node.ServesSignatures chain := by
  intro address before l hl
  refine ⟨_, _, (take_append_drop l _).symm, length_take_le _ _, ?_, rfl⟩
  intro hn
  rw [take_eq_nil_iff] at hn
  rw [hn.resolve_left hl.ne', drop_nil]

theorem node_serves {decode : Decoder}
    (hd : ∀ tx ∈ chain.transactions, decode tx.encoded.transaction = some tx.transaction)
    (hr : ∀ tx ∈ chain.transactions, tx.confirmed.Readable) :
    chain.node.Serves decode chain where
  signatures := node_servesSignatures chain
  batch := by
    intro txs ht
    show Except.ok _ = Except.ok _
    rw [map_map]
    congr 1
    apply map_congr_left
    intro tx htx
    show (match chain.transactions.find? (·.text = tx.text) with
      | some tx => Except.ok tx.confirmed
      | none => Except.error "not found") = _
    rw [find_text (ht tx htx)]
  decodes := hd
  readable := hr

variable {pre post : List ChainTransaction}

theorem before_signature (h : chain.transactions = pre ++ tx :: post) :
    chain.before (some tx.signature) = pre := by
  have hm : tx.signature ∈ chain.transactions.map ChainTransaction.signature := by
    simp [h]
  have hp : ∀ tx' ∈ pre, decide (tx'.signature ≠ tx.signature) = true := by
    intro tx' htx'
    have hn := chain.nodup
    rw [h, map_append, map_cons] at hn
    apply decide_eq_true
    intro heq
    refine (nodup_append.mp hn).2.2 _ (mem_map_of_mem htx') _ mem_cons_self heq
  show (if _ then _ else _) = pre
  rw [if_pos hm, h, takeWhile_append_of_pos hp, takeWhile_cons_of_neg (by simp),
    append_nil]

theorem exists_append_before (chain : Chain) (before : Option (List UInt8)) :
    ∃ post, chain.transactions = chain.before before ++ post := by
  rcases before with - | s
  · exact ⟨[], (append_nil _).symm⟩
  · by_cases hm : s ∈ chain.transactions.map ChainTransaction.signature
    · refine ⟨chain.transactions.dropWhile fun tx => tx.signature ≠ s, ?_⟩
      show _ = (if _ then _ else _) ++ _
      rw [if_pos hm, takeWhile_append_dropWhile]
    · refine ⟨chain.transactions, ?_⟩
      show _ = (if _ then _ else _) ++ _
      rw [if_neg hm, nil_append]

theorem mem_of_mem_before (h : tx ∈ chain.before before) : tx ∈ chain.transactions := by
  obtain ⟨post, hp⟩ := chain.exists_append_before before
  rw [hp]
  exact mem_append_left _ h

theorem mem_of_mem_olderThan (h : tx ∈ chain.olderThan address before) : tx ∈ chain.transactions :=
  mem_of_mem_before (mem_filter.1 (mem_reverse.1 h)).1

theorem olderThan_signature {page rest : List ChainTransaction}
    (h : chain.olderThan address before = page ++ tx :: rest) :
    chain.olderThan address (some tx.signature) = rest := by
  have hf : (chain.before before).filter (·.mentions address) =
      rest.reverse ++ tx :: page.reverse := by
    rw [← reverse_reverse (List.filter _ _)]
    show (chain.olderThan address before).reverse = _
    rw [h]
    simp
  obtain ⟨pre, post, hb, hpr, hp⟩ := filter_eq_append_iff.1 hf
  obtain ⟨pre', post', rfl, hp', -, -⟩ := filter_eq_cons_iff.1 hp
  obtain ⟨l, hl⟩ := chain.exists_append_before before
  have hs : chain.transactions = (pre ++ pre') ++ tx :: (post' ++ l) := by
    rw [hl, hb]
    simp
  rw [olderThan, before_signature hs, filter_append, hpr,
    filter_eq_nil_iff.2 hp', append_nil, reverse_reverse]

theorem olderThan_ordered (chain : Chain) (address : Pubkey) (before : Option (List UInt8)) :
    (chain.olderThan address before).Pairwise fun tx tx' => tx'.slot ≤ tx.slot := by
  obtain ⟨post, hp⟩ := chain.exists_append_before before
  have ho := chain.ordered
  rw [hp] at ho
  exact pairwise_reverse.2 ((pairwise_append.1 ho).1.filter _)

theorem history_eq (chain : Chain) (address : Pubkey) (firstSlot : Slot)
    (before : Option (List UInt8)) : chain.history address firstSlot before =
      ((chain.olderThan address before).filter fun tx => firstSlot ≤ tx.slot).reverse := by
  rw [history, olderThan, filter_reverse, reverse_reverse, filter_filter]
  exact filter_congr fun tx _ => Bool.and_comm _ _

theorem mem_history_signature {tx' : ChainTransaction} (h : chain.transactions = pre ++ tx :: post)
    {firstSlot : Slot} :
    tx' ∈ chain.history address firstSlot (some tx.signature) ↔
      tx' ∈ pre ∧ tx'.mentions address = true ∧ firstSlot ≤ tx'.slot := by
  rw [history, before_signature h, mem_filter, Bool.and_eq_true, decide_eq_true_eq]

end Chain

namespace SolanaAdapter

/-! ### Signatures -/

theorem foldl_prepend {A B : Type} (p : A → Prop) [DecidablePred p] (f : A → B) (l : List A) :
    ∀ res : List B, l.foldl (fun res a => if p a then f a :: res else res) res =
      ((l.filter fun a => p a).map f).reverse ++ res := by
  induction l with
  | nil => exact fun _ => rfl
  | cons a l ih =>
    intro res
    rw [foldl_cons, ih]
    by_cases h : p a
    · simp [h]
    · simp [h]

theorem foldl_status (firstSlot : Slot) (page : List ChainTransaction) (res : List String) :
    (page.map ChainTransaction.status).foldl (fun res tran =>
      if firstSlot ≤ tran.slot then tran.signature :: res else res) res =
      (page.filter fun tx => firstSlot ≤ tx.slot).reverse.map ChainTransaction.text ++ res := by
  rw [foldl_map, foldl_prepend (fun tx : ChainTransaction => firstSlot ≤ tx.status.slot),
    map_reverse]
  rfl

section

variable {rpcClient : RpcClient} {decode : Decoder} {chain : Chain}
  {address : Pubkey} {firstSlot : Slot}

theorem scan_eq (h : rpcClient.ServesSignatures chain) :
    ∀ {fuel before rs}, (chain.olderThan address before).length < fuel →
      scan rpcClient address firstSlot fuel before rs =
        some (.ok ((chain.history address firstSlot before).map ChainTransaction.text ++ rs)) := by
  intro fuel
  induction fuel with
  | zero => exact fun hf => absurd hf (Nat.not_lt_zero _)
  | succ fuel ih =>
    intro before rs hf
    obtain ⟨page, rest, holder, -, he, ha⟩ :=
      h address before (show 0 < limitFilterResult by decide)
    rw [scan, ha]
    rcases eq_nil_or_concat page with rfl | ⟨page, tx, rfl⟩
    · -- nothing is older
      rw [he rfl, append_nil] at holder
      rw [Chain.history_eq, holder]
      rfl
    · rw [concat_eq_append, append_assoc, singleton_append] at holder
      have htx : tx ∈ chain.transactions := by
        have hm : tx ∈ page ++ tx :: rest := mem_append_right _ mem_cons_self
        rw [← holder] at hm
        exact Chain.mem_of_mem_olderThan hm
      have hl : ((page.concat tx).map ChainTransaction.status).getLast? = some tx.status := by
        simp
      have hs : Signature.fromStr tx.status.signature = some tx.signature :=
        Signature.fromStr_encode (chain.length_signature tx htx)
      have hh : chain.history address firstSlot before =
          (rest.filter fun tx => firstSlot ≤ tx.slot).reverse ++
            ((page.concat tx).filter fun tx => firstSlot ≤ tx.slot).reverse := by
        rw [Chain.history_eq, holder, concat_eq_append, ← reverse_append,
          ← filter_append, append_assoc, singleton_append]
      simp only [hl, hs]
      rw [foldl_status, hh, map_append, append_assoc]
      by_cases hsl : tx.status.slot < firstSlot
      · -- what is older is also before the first slot
        have hr : (rest.filter fun tx => firstSlot ≤ tx.slot) = [] := by
          refine filter_eq_nil_iff.2 fun tx' htx' => ?_
          have ho := chain.olderThan_ordered address before
          rw [holder] at ho
          have hle := (pairwise_cons.1 (pairwise_append.1 ho).2.1).1 tx' htx'
          simpa using UInt64.lt_of_le_of_lt hle hsl
        rw [if_pos hsl, hr]
        rfl
      · have hf' : (chain.olderThan address (some tx.signature)).length < fuel := by
          rw [Chain.olderThan_signature holder]
          rw [holder, length_append, length_cons] at hf
          omega
        rw [if_neg hsl, ih hf', Chain.history_eq, Chain.olderThan_signature holder]

theorem getSignaturesForAddress_eq (h : rpcClient.ServesSignatures chain) (address : Pubkey)
    (firstSlot : Option Slot) (es : Option (List UInt8)) {fuel : ℕ}
    (hf : (chain.olderThan address es).length < fuel) :
    getSignaturesForAddress rpcClient address firstSlot es fuel =
      some (.ok ((chain.history address (firstSlot.getD 0) es).map ChainTransaction.text)) := by
  rw [getSignaturesForAddress, scan_eq h hf, append_nil]

theorem nodup_text (chain : Chain) : (chain.transactions.map ChainTransaction.text).Nodup := by
  have hm : chain.transactions.map ChainTransaction.text =
      (chain.transactions.map ChainTransaction.signature).map Base58.encode := by
    rw [map_map]
    rfl
  rw [hm]
  exact chain.nodup.map Base58.encode_injective

/-- The scan, newest first, returns the signatures that are older than the end signature and not
before the first slot, oldest first and each once. -/
theorem getSignaturesForAddress_older (h : rpcClient.ServesSignatures chain) (address : Pubkey)
    (firstSlot : Option Slot) {endSignature : Option (List UInt8)} {older : List ChainTransaction}
    (hend : endSignature = none ∧ chain.olderThan address none = older ∨
      ∃ newer tx, endSignature = some tx.signature ∧
        chain.olderThan address none = newer ++ tx :: older) :
    let signatures := (older.filter fun tx => firstSlot.getD 0 ≤ tx.slot).reverse.map
      ChainTransaction.text
    (∀ fuel > older.length,
      getSignaturesForAddress rpcClient address firstSlot endSignature fuel =
        some (.ok signatures)) ∧ signatures.Nodup := by
  intro signatures
  have holder : chain.olderThan address endSignature = older := by
    rcases hend with ⟨rfl, holder⟩ | ⟨newer, tx, rfl, holder⟩
    · exact holder
    · exact Chain.olderThan_signature holder
  have hh : (chain.history address (firstSlot.getD 0) endSignature).map ChainTransaction.text =
      signatures := by
    rw [Chain.history_eq, holder]
  constructor
  · intro fuel hfuel
    rw [← holder] at hfuel
    rw [getSignaturesForAddress_eq h _ _ _ hfuel, hh]
  · obtain ⟨post, hp⟩ := chain.exists_append_before endSignature
    have hn := nodup_text chain
    rw [hp, map_append] at hn
    rw [← hh]
    exact (nodup_append.1 hn).1.sublist (filter_sublist.map _)

def slotTx (n : ℕ) : ChainTransaction :=
  ⟨UInt64.ofNat n, ⟨[List.replicate 64 (UInt8.ofNat n)],
    ⟨[⟨List.replicate 32 0, Pubkey.length_zeros⟩], "", []⟩⟩, ⟨"", none⟩, none⟩

def twoSlots : Chain where
  transactions := [slotTx 5, slotTx 8]
  ordered := by decide
  nodup := by decide
  length_signature := by decide

theorem signatures_before_eight :
    getSignaturesForAddress twoSlots.node ⟨List.replicate 32 0, rfl⟩ (some 3)
      (some (slotTx 8).signature) 2 = some (.ok [(slotTx 5).text]) := by
  have holder : twoSlots.olderThan ⟨List.replicate 32 0, rfl⟩ none = [] ++ slotTx 8 :: [slotTx 5] := rfl
  exact (getSignaturesForAddress_older (Chain.node_servesSignatures twoSlots) _ _
    (.inr ⟨[], _, rfl, holder⟩)).1 2 (by decide)

variable {tran : EncodedConfirmedTransaction}

/-! ### Blocks -/

theorem exists_decodeTransaction (decode : Decoder) :
    (∃ result, decodeTransaction decode tran = .ok result) ↔ tran.Readable := by
  have hs (um : UiTransactionStatusMeta) : (∃ status, toTransactionStatusMeta um = .ok status) ↔
      ∀ inn, um.innerInstructions = some inn → ∀ ins ∈ inn, ins.Readable := by
    refine (exists_bind_iff.trans (exists_congr fun _ => and_iff_left ⟨_, rfl⟩)).trans ?_
    simp only [exists_optionMapM, exists_mapM_iff, exists_toUiInstructions_iff]
  refine (exists_bind_iff.trans (exists_congr fun _ => and_iff_left ⟨_, rfl⟩)).trans ?_
  simp only [exists_optionMapM, hs]
  rfl

def answered (rpcClient : RpcClient) (batch : List String) : List EncodedConfirmedTransaction :=
  match rpcClient.sendBatch batch with
  | .error _ => []
  | .ok answers => answers.filterMap Except.toOption

def answers (rpcClient : RpcClient) (signatures : List String) : List EncodedConfirmedTransaction :=
  (signatures.chunks transactionBatchSize).flatMap (answered rpcClient)

def entryOf (decode : Decoder) (tran : EncodedConfirmedTransaction) :
    Option (Slot × ConfirmedTransaction) :=
  (decodeTransaction decode tran).value?.join.map fun confirmedTransaction =>
    (tran.slot, confirmedTransaction)

def blockOf (entries : List (Slot × ConfirmedTransaction)) (slot : Slot) :
    ConfirmedBlockWithSlot where
  blockSlot := slot
  block := some
    { previousBlockhash := ""
      blockhash := ""
      parentSlot := 0
      transactions := ((entries.filter (·.1 = slot)).map Prod.snd).map
        ConfirmedTransaction.transaction
      rewards := []
      blockTime := none
      blockHeight := none }

theorem decodeEntry_eq_ok {entry : Option (Slot × ConfirmedTransaction)} :
    (do
      let ct ← decodeTransaction decode tran
      return ct.map fun ct =>
        (tran.slot, ct)) = .ok entry ↔
      tran.Readable ∧ entryOf decode tran = entry := by
  rw [bind_pure_eq_ok, ← exists_decodeTransaction decode, entryOf]
  rcases decodeTransaction decode tran with result | - | -
  · simp [Outcome.value?]
  · simp
  · simp

theorem fetch_eq_ok {f f' : Fetched} {b : List String} :
    fetch rpcClient decode f b = .ok f' ↔ (∀ tran ∈ answered rpcClient b, tran.Readable) ∧
      ⟨f.requests ++ [b], f.entries ++ (answered rpcClient b).filterMap (entryOf decode)⟩ = f' := by
  rw [fetch, answered]
  rcases rpcClient.sendBatch b with - | ans
  · simp [pure]
  · show (List.mapM _ (ans.filterMap Except.toOption) >>= fun d => pure _) = _ ↔ _
    rw [bind_pure_eq_ok]
    simp only [mapM_eq_ok_iff decodeEntry_eq_ok]
    simp [reduceOption, filterMap_map]

/-- The loop sends each batch once, and keeps what is answered and can be decoded. -/
theorem foldlM_fetch_eq_ok : ∀ {bs : List (List String)} {f f' : Fetched},
    bs.foldlM (fetch rpcClient decode) f = .ok f' ↔
      (∀ tran ∈ bs.flatMap (answered rpcClient), tran.Readable) ∧ ⟨f.requests ++ bs,
        f.entries ++ (bs.flatMap (answered rpcClient)).filterMap (entryOf decode)⟩ = f'
  | [], f, f' => by simp [pure]
  | b :: bs, f, f' => by
    rw [foldlM_cons, bind_eq_ok]
    simp only [fetch_eq_ok, foldlM_fetch_eq_ok, flatMap_cons, mem_append, filterMap_append]
    constructor
    · rintro ⟨_, ⟨hr, rfl⟩, hrs, rfl⟩
      exact ⟨fun t ht => ht.elim (hr t) (hrs t), by simp⟩
    · rintro ⟨hr, rfl⟩
      exact ⟨_, ⟨fun t ht => hr t (.inl ht), rfl⟩, fun t ht => hr t (.inr ht), by simp⟩

theorem getConfirmedBlocks_eq_ok {o : Finmap.IterOrder fun _ : Slot => List ConfirmedTransaction}
    {ss : List String} {result : List (List String) × List ConfirmedBlockWithSlot} :
    getConfirmedBlocks rpcClient decode o ss = .ok result ↔
      (∀ tran ∈ answers rpcClient ss, tran.Readable) ∧
        let es := (answers rpcClient ss).filterMap (entryOf decode)
        (ss.chunks transactionBatchSize,
          (o.toList (List.pushAll es)).map fun g => blockOf es g.1) = result := by
  have hg : ∀ es : List (Slot × ConfirmedTransaction),
      ∀ g ∈ o.toList (List.pushAll es), blockOf es g.1 =
        ⟨g.1, some ⟨"", "", 0, g.2.map ConfirmedTransaction.transaction, [], none, none⟩⟩ := by
    intro es g hgr
    rw [(mem_toList_pushAll.1 hgr).2]
    rfl
  rw [getConfirmedBlocks, bind_pure_eq_ok]
  simp only [foldlM_fetch_eq_ok]
  rw [map_congr_left (hg _)]
  constructor
  · rintro ⟨_, ⟨hr, rfl⟩, rfl⟩
    exact ⟨hr, rfl⟩
  · rintro ⟨hr, rfl⟩
    exact ⟨_, ⟨hr, rfl⟩, rfl⟩

variable {txs : List ChainTransaction}

theorem answers_text (h : rpcClient.Serves decode chain)
    (ht : ∀ tx ∈ txs, tx ∈ chain.transactions) :
    answers rpcClient (txs.map ChainTransaction.text) = txs.map ChainTransaction.confirmed := by
  have hb : ∀ b ∈ txs.chunks transactionBatchSize,
      answered rpcClient (b.map ChainTransaction.text) =
        b.map ChainTransaction.confirmed := by
    intro b hm
    rw [answered, h.batch fun tx htx => ht tx ?_]
    · simp [filterMap_map, Function.comp_def, Except.toOption]
    · rw [← chunks_flatten transactionBatchSize txs]
      exact mem_flatten_of_mem hm htx
  rw [answers, chunks_map, flatMap_map, flatMap_congr hb, ← map_flatMap]
  simp [flatMap_id', chunks_flatten]

theorem getConfirmedBlocks_slots (h : rpcClient.Serves decode chain)
    (o : Finmap.IterOrder fun _ : Slot => List ConfirmedTransaction)
    (ht : ∀ tx ∈ txs, tx ∈ chain.transactions) :
    ∃ rs bs, getConfirmedBlocks rpcClient decode o (txs.map ChainTransaction.text) =
        .ok (rs, bs) ∧ (∀ b ∈ bs, b.block.isSome) ∧
      ∀ slot, slot ∈ bs.map ConfirmedBlockWithSlot.blockSlot ↔ ∃ tx ∈ txs, tx.slot = slot := by
  have he : ∀ tx ∈ txs, ∃ ct, entryOf decode tx.confirmed = some (tx.slot, ct) := by
    intro tx htx
    obtain ⟨r, hd⟩ := (exists_decodeTransaction decode).2 (h.readable tx (ht tx htx))
    obtain ⟨status, -, hr⟩ := bind_pure_eq_ok.1 hd
    have hdec : decode tx.confirmed.transaction.transaction = some tx.transaction :=
      h.decodes tx (ht tx htx)
    rw [hdec] at hr
    refine ⟨⟨tx.slot, ⟨tx.transaction, status⟩, tx.blockTime⟩, ?_⟩
    rw [entryOf, hd, ← hr]
    rfl
  refine ⟨_, _, getConfirmedBlocks_eq_ok.2 ⟨?_, rfl⟩, ?_, fun slot => ?_⟩
  · rw [answers_text h ht, forall_mem_map]
    exact fun tx htx => h.readable tx (ht tx htx)
  · intro b hblock
    obtain ⟨entry, -, rfl⟩ := mem_map.mp hblock
    rfl
  · rw [answers_text h ht, map_map, mem_map]
    constructor
    · rintro ⟨g, hg, rfl⟩
      obtain ⟨⟨e, hm, hs⟩, -⟩ := mem_toList_pushAll.1 hg
      grind [blockOf]
    · rintro ⟨tx, htx, rfl⟩
      obtain ⟨ct, htx_entry⟩ := he tx htx
      obtain ⟨_, hg, -⟩ := exists_group o
        (mem_filterMap.2 ⟨_, mem_map_of_mem htx, htx_entry⟩)
      exact ⟨_, hg, rfl⟩

/-- One block for each slot, in the order of the slots. -/
structure InSlotOrder (entries : List (Slot × ConfirmedTransaction))
    (blocks : List ConfirmedBlockWithSlot) : Prop where
  increasing : blocks.Pairwise fun block block' => block.blockSlot < block'.blockSlot
  mem_iff : ∀ block, block ∈ blocks ↔ ∃ entry ∈ entries, blockOf entries entry.1 = block

/-- **Every signature is requested once, and there is one block for each slot, in the order of the
slots, whatever the order of the map, if and only if** the answered transactions can be read and
those that can be decoded are all of one slot. -/
theorem getConfirmedBlocks_inSlotOrder_iff (rpcClient : RpcClient)
    (decode : Decoder) (signatures : List String) :
    let entries := (answers rpcClient signatures).filterMap (entryOf decode)
    (∀ order, ∃ requests blocks,
        getConfirmedBlocks rpcClient decode order signatures = .ok (requests, blocks) ∧
          requests.flatten = signatures ∧ InSlotOrder entries blocks) ↔
      (∀ tran ∈ answers rpcClient signatures, tran.Readable) ∧
        ∀ entry ∈ entries, ∀ entry' ∈ entries, entry.1 = entry'.1 := by
  intro entries
  simp only [getConfirmedBlocks_eq_ok]
  constructor
  · intro h
    have ho (o : Finmap.IterOrder fun _ : Slot => List ConfirmedTransaction) :
        (o.toList (pushAll entries)).Pairwise fun g g' => g.1 < g'.1 := by
      obtain ⟨_, _, ⟨-, hb⟩, -, hs⟩ := h o
      have hi := hs.increasing
      rw [← (Prod.mk.inj hb).2, pairwise_map] at hi
      exact hi
    obtain ⟨_, _, ⟨hr, -⟩, -⟩ := h (.prefer [])
    refine ⟨hr, fun e he e' he' => ?_⟩
    obtain ⟨as, hg, -⟩ := exists_group (.prefer []) he
    obtain ⟨as', hg', -⟩ := exists_group (.prefer []) he'
    -- of one order and the opposite one, at most one visits two slots in their order
    by_contra hne
    have hp := (ho (.prefer [])).and (pairwise_reverse.1 (ho (.reverse (.prefer []))))
    have hsymm : Std.Symm fun g g' : (_ : Slot) × List ConfirmedTransaction =>
        g.1 < g'.1 ∧ g'.1 < g.1 := ⟨fun _ _ h => h.symm⟩
    obtain ⟨hlt, hlt'⟩ := hp.forall hg hg' fun h => hne (congrArg Sigma.fst h)
    exact absurd hlt (UInt64.lt_asymm hlt')
  · rintro ⟨hr, hone⟩ o
    refine ⟨_, _, ⟨hr, rfl⟩, chunks_flatten _ _, pairwise_map.2 ?_, fun b => ?_⟩
    · refine (o.nodup_toList _).imp_of_mem fun {g g'} hg hg' hne => absurd ?_ hne
      obtain ⟨⟨e, he, hs⟩, -⟩ := mem_toList_pushAll.1 hg
      obtain ⟨⟨e', he', hs'⟩, -⟩ := mem_toList_pushAll.1 hg'
      exact (o.enumerates _).nodupKeys.eq_of_fst_eq hg hg' (by rw [← hs, ← hs', hone e he e' he'])
    · rw [mem_map]
      constructor
      · rintro ⟨group, hg, rfl⟩
        obtain ⟨⟨e, he, hslot⟩, -⟩ := mem_toList_pushAll.mp hg
        exact ⟨e, he, by rw [hslot]⟩
      · rintro ⟨e, he, rfl⟩
        obtain ⟨_, hg, -⟩ := exists_group o he
        exact ⟨_, hg, rfl⟩

def emptyTransaction : Transaction := ⟨[], ⟨[], "", []⟩⟩

def confirmedAt (slot : Slot) : ConfirmedTransaction := ⟨slot, ⟨emptyTransaction, none⟩, none⟩

def fiveAndEight : RpcClient where
  getSignaturesForAddressWithConfig _ _ _ := .ok []
  sendBatch _ := .ok [.ok ⟨5, ⟨"", none⟩, none⟩, .ok ⟨8, ⟨"", none⟩, none⟩]

theorem blocks_eight_before_five :
    ∃ blocks, getConfirmedBlocks fiveAndEight (fun _ => some emptyTransaction)
        (.prefer [⟨8, [confirmedAt 8]⟩, ⟨5, [confirmedAt 5]⟩]) ["a", "b"] =
          .ok ([["a", "b"]], blocks) ∧
      blocks.map ConfirmedBlockWithSlot.blockSlot = [8, 5] := by
  refine ⟨_, rfl, ?_⟩
  decide

end

end SolanaAdapter

end Massbit.Solana
