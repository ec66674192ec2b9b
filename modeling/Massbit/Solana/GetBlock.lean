/-
The tasks of the chain adapter (`solana_chain_adapter.rs`).
-/
import Massbit.Solana.BlockBuffer
import Massbit.Solana.ChainAdapter

open List

namespace Massbit.Solana

structure UiCompiledInstruction where
  programIdIndex : UInt8
  accounts : List UInt8
  data : String
  deriving DecidableEq, Repr

inductive UiInstruction where
  | compiled (instruction : UiCompiledInstruction)
  | parsed (text : String)
  deriving DecidableEq, Repr

structure UiInnerInstructions where
  index : UInt8
  instructions : List UiInstruction
  deriving DecidableEq, Repr

structure UiTransactionTokenBalance where
  accountIndex : UInt8
  mint : String
  uiTokenAmount : UiTokenAmount
  deriving DecidableEq, Repr

structure UiTransactionStatusMeta where
  status : Except String Unit
  fee : UInt64
  preBalances : List UInt64
  postBalances : List UInt64
  innerInstructions : Option (List UiInnerInstructions)
  logMessages : Option (List String)
  preTokenBalances : Option (List UiTransactionTokenBalance)
  postTokenBalances : Option (List UiTransactionTokenBalance)
  rewards : Option (List Reward)
  deriving DecidableEq

structure EncodedTransactionWithStatusMeta where
  transaction : String
  metadata : Option UiTransactionStatusMeta
  deriving DecidableEq

structure EncodedConfirmedBlock where
  previousBlockhash : String
  blockhash : String
  parentSlot : Slot
  transactions : List EncodedTransactionWithStatusMeta
  rewards : List Reward
  blockTime : Option ℤ
  blockHeight : Option UInt64
  deriving DecidableEq

/-- The answer of the node to `get_block_with_encoding`. -/
abbrev BlockAnswer := Except String EncodedConfirmedBlock

def toTransactionTokenBalance (uiTtb : UiTransactionTokenBalance) : TransactionTokenBalance where
  accountIndex := uiTtb.accountIndex
  mint := uiTtb.mint
  uiTokenAmount := uiTtb.uiTokenAmount
  owner := ""

def toCompiledInstruction : UiInstruction → Outcome String (Option CompiledInstruction)
  | .compiled instruction => do
    let data ← Outcome.ofOption (Base58.decode instruction.data)
    return some ⟨instruction.programIdIndex, instruction.accounts, data⟩
  | .parsed _ => pure none

def toUiInstructions (uiInnerInstruction : UiInnerInstructions) :
    Outcome String InnerInstructions := do
  let instructions ← uiInnerInstruction.instructions.mapM toCompiledInstruction
  return ⟨uiInnerInstruction.index, instructions.filterMap id⟩

section

variable (decode : Decoder)

def decodeTransaction (transaction : EncodedTransactionWithStatusMeta) :
    Outcome String (Option TransactionWithStatusMeta) := do
  let status ← Outcome.ofOption transaction.metadata
  let uiInnerInstructions ← Outcome.ofOption status.innerInstructions
  let innerInstructions ← uiInnerInstructions.mapM toUiInstructions
  return (decode transaction.transaction).map fun decodedTransaction =>
    { transaction := decodedTransaction
      metadata := some
        { status := status.status
          fee := status.fee
          preBalances := status.preBalances
          postBalances := status.postBalances
          innerInstructions := some innerInstructions
          logMessages := status.logMessages
          preTokenBalances := status.preTokenBalances.map (·.map toTransactionTokenBalance)
          postTokenBalances := status.postTokenBalances.map (·.map toTransactionTokenBalance)
          rewards := status.rewards } }

def decodeEncodedBlock (encodedBlock : EncodedConfirmedBlock) : Outcome String ConfirmedBlock := do
  let transactions ← encodedBlock.transactions.mapM (decodeTransaction decode)
  return { previousBlockhash := encodedBlock.previousBlockhash
           blockhash := encodedBlock.blockhash
           parentSlot := encodedBlock.parentSlot
           transactions := transactions.filterMap id
           rewards := encodedBlock.rewards
           blockTime := encodedBlock.blockTime
           blockHeight := encodedBlock.blockHeight }

def getBlock (blockNumber : Slot) (answer : BlockAnswer) : Outcome String ConfirmedBlockWithSlot :=
  match answer with
  | .ok block => do
    let block ← decodeEncodedBlock decode block
    return ⟨blockNumber, some block⟩
  | .error _ => pure ⟨blockNumber, none⟩

def task (blockSlot : Slot) (answer : BlockAnswer) : List ConfirmedBlockWithSlot :=
  match getBlock decode blockSlot answer with
  | .ok block => [block]
  | .err _ | .panic => []

def sentBlocks (answer : Slot → BlockAnswer) (slots : List Slot) : List ConfirmedBlockWithSlot :=
  slots.flatMap fun slot => task decode slot (answer slot)

end

/-- The inner instructions are in base 58, if they are not parsed. -/
def UiInnerInstructions.Readable (self : UiInnerInstructions) : Prop :=
  ∀ instruction, .compiled instruction ∈ self.instructions → (Base58.decode instruction.data).isSome

/-- The transaction has its metadata, with inner instructions. -/
def EncodedTransactionWithStatusMeta.Readable (self : EncodedTransactionWithStatusMeta) : Prop :=
  ∃ status, self.metadata = some status ∧ ∃ inner, status.innerInstructions = some inner ∧
    ∀ instructions ∈ inner, instructions.Readable

/-- The node has no block, or one with readable transactions. -/
def Readable (answer : BlockAnswer) : Prop :=
  ∀ block, answer = .ok block → ∀ transaction ∈ block.transactions, transaction.Readable

theorem exists_toUiInstructions_iff {inn : UiInnerInstructions} :
    (∃ ins, toUiInstructions inn = .ok ins) ↔ inn.Readable := by
  have ha : (∃ ins, toUiInstructions inn = .ok ins) ↔
      ∀ i ∈ inn.instructions, ∃ r, toCompiledInstruction i = .ok r := by
    rw [← Outcome.exists_mapM_iff]
    exact exists_bind_iff.trans (exists_congr fun _ => and_iff_left ⟨_, rfl⟩)
  rw [ha]
  constructor
  · intro h i hm
    obtain ⟨data, hd, -⟩ := exists_bind_iff.1 (h _ hm)
    exact Option.isSome_iff_exists.2 ⟨data, ofOption_eq_ok.1 hd⟩
  · intro h i hm
    cases i with
    | parsed text => exact ⟨none, rfl⟩
    | compiled i =>
      obtain ⟨data, hd⟩ := Option.isSome_iff_exists.1 (h i hm)
      exact exists_bind_iff.2 ⟨data, ofOption_eq_ok.2 hd, _, rfl⟩

section

variable (decode : Decoder)

theorem exists_decodeTransaction_iff {t : EncodedTransactionWithStatusMeta} :
    (∃ r, decodeTransaction decode t = .ok r) ↔ t.Readable := by
  constructor
  · intro h
    obtain ⟨ss, hs, h⟩ := exists_bind_iff.1 h
    obtain ⟨i, hi, h⟩ := exists_bind_iff.1 h
    obtain ⟨d, hd, -⟩ := exists_bind_iff.1 h
    refine ⟨ss, ofOption_eq_ok.1 hs, i, ofOption_eq_ok.1 hi,
      fun ins hm => ?_⟩
    exact exists_toUiInstructions_iff.1 (Outcome.exists_mapM_iff.1 ⟨d, hd⟩ _ hm)
  · rintro ⟨ss, hs, i, hi, h⟩
    obtain ⟨d, hd⟩ := Outcome.exists_mapM_iff.2 fun ins hm =>
      exists_toUiInstructions_iff.2 (h ins hm)
    refine exists_bind_iff.2 ⟨ss, ofOption_eq_ok.2 hs, ?_⟩
    refine exists_bind_iff.2 ⟨i, ofOption_eq_ok.2 hi, ?_⟩
    exact exists_bind_iff.2 ⟨d, hd, _, rfl⟩

variable {answer : BlockAnswer}

theorem exists_getBlock_iff (slot : Slot) :
    (∃ bl, getBlock decode slot answer = .ok bl) ↔ Readable answer := by
  cases answer with
  | error e => exact ⟨nofun, fun _ => ⟨_, rfl⟩⟩
  | ok bl =>
    have ha : (∃ r, getBlock decode slot (.ok bl) = .ok r) ↔
        ∀ t ∈ bl.transactions, ∃ r, decodeTransaction decode t = .ok r := by
      rw [← Outcome.exists_mapM_iff]
      refine exists_bind_iff.trans ?_
      refine (exists_congr fun _ => and_iff_left ⟨_, rfl⟩).trans ?_
      exact exists_bind_iff.trans (exists_congr fun _ => and_iff_left ⟨_, rfl⟩)
    rw [ha]
    constructor
    · intro h b hb t hm
      cases hb
      exact (exists_decodeTransaction_iff decode).mp (h t hm)
    · intro h t hm
      exact (exists_decodeTransaction_iff decode).2 (h bl rfl t hm)

variable {bl : ConfirmedBlockWithSlot} {slot : Slot} {a : BlockAnswer}

variable {decode} in
theorem getBlock_eq_ok (h : getBlock decode slot a = .ok bl) :
    bl.blockSlot = slot ∧ (bl.block = none ↔ ∃ e, a = .error e) := by
  cases a with
  | error e =>
    cases h
    exact ⟨rfl, fun _ => ⟨e, rfl⟩, fun _ => rfl⟩
  | ok en =>
    obtain ⟨b, -, rfl⟩ := bind_pure_eq_ok.1 h
    exact ⟨rfl, nofun, nofun⟩

variable {decode} in
theorem metadata_of_getBlock (h : getBlock decode slot a = .ok bl) {rb : ConfirmedBlock}
    (hr : bl.block = some rb) {tran : TransactionWithStatusMeta} (htr : tran ∈ rb.transactions) :
    tran.metadata.isSome := by
  cases a with
  | error e =>
    cases h
    cases hr
  | ok en =>
    obtain ⟨b, hb, rfl⟩ := bind_pure_eq_ok.1 h
    cases hr
    obtain ⟨transactions, ht, rfl⟩ := bind_pure_eq_ok.1 hb
    have hm : some tran ∈ transactions := by simpa using mem_filterMap.1 htr
    obtain ⟨t, -, hd⟩ :=
      (Outcome.mapM_eq_ok.1 ht).flip.exists_of_mem hm
    obtain ⟨ss, -, hd⟩ := bind_eq_ok.1 hd
    obtain ⟨i, -, hd⟩ := bind_eq_ok.1 hd
    obtain ⟨ii, -, hd⟩ := bind_eq_ok.1 hd
    obtain ⟨d, -, rfl⟩ := Option.map_eq_some_iff.1 (Outcome.ok.inj hd)
    rfl

theorem task_eq_iff :
    (∃ b, task decode slot answer = [⟨slot, b⟩] ∧ (b = none ↔ ∃ e, answer = .error e)) ↔
      Readable answer := by
  rw [← exists_getBlock_iff decode slot, task]
  constructor
  · rintro ⟨b, hblock, -⟩
    split at hblock
    next r hr => exact ⟨r, hr⟩
    next => cases hblock
    next => cases hblock
  · rintro ⟨r, hr⟩
    obtain ⟨hs, hn⟩ := getBlock_eq_ok hr
    refine ⟨r.block, ?_, hn⟩
    rw [hr, ← hs]

theorem map_blockSlot_sentBlocks {a : Slot → BlockAnswer} {slots : List Slot}
    (h : ∀ slot ∈ slots, Readable (a slot)) :
    (sentBlocks decode a slots).map ConfirmedBlockWithSlot.blockSlot = slots := by
  rw [sentBlocks, map_flatMap]
  have ho : ∀ slot ∈ slots,
      (task decode slot (a slot)).map ConfirmedBlockWithSlot.blockSlot = [slot] := by
    intro slot hs
    obtain ⟨b, hb, -⟩ := (task_eq_iff decode).2 (h slot hs)
    rw [hb]
    rfl
  rw [flatMap_congr ho, flatMap_singleton']

end

theorem requested_running (last : Option Slot) (start k : ℕ) :
    ChainAdapter.requested ⟨last, false,
      .send (.blockSlot (.ofNat start)) :: (slots start k).map .spawnGetBlock⟩ = slots start k := by
  show (List.map AdapterEffect.spawnGetBlock (slots start k)).filterMap _ = slots start k
  simp

variable {start k : ℕ}

theorem map_toNat_slots (h : start + k < 2 ^ 64) :
    (slots start k).map UInt64.toNat = List.range' start k := by
  rw [slots, map_map, map_congr_left (g := id), map_id]
  intro i hi
  have hi := mem_range'_1.1 hi
  exact Nat.mod_eq_of_lt (by omega)

variable {arrivals : List ConfirmedBlockWithSlot}

theorem receive_in_slot_order (h : start + k < 2 ^ 64)
    (ha : (arrivals.map ConfirmedBlockWithSlot.blockSlot).Perm (slots start k)) :
    (BlockBuffer.receive (.ofNat start) arrivals).1.map ConfirmedBlockWithSlot.blockSlot =
        slots start k ∧
      (BlockBuffer.receive (.ofNat start) arrivals).1.Perm arrivals := by
  have hs : (UInt64.ofNat start).toNat = start := Nat.mod_eq_of_lt (by omega)
  have hp : (slotsOf arrivals).Perm (List.range' (UInt64.ofNat start).toNat k) := by
    have hn := ha.map UInt64.toNat
    rw [map_toNat_slots h, map_map] at hn
    rw [hs]
    exact hn
  refine ⟨?_, BlockBuffer.perm_receive (.ofNat start) k (by omega) hp⟩
  have hsl := BlockBuffer.slotsOf_receive (.ofNat start) k (by omega) hp
  rw [hs] at hsl
  rw [slots, ← hsl, slotsOf, map_map]
  simp

/-- Each task sends one message with its slot, without a block if and only if the node has none, and
the buffer receives all requested slots. -/
structure OneMessageEach (decode : Decoder) (answer : Slot → BlockAnswer)
    (s : ChainAdapter) : Prop where
  task_eq : ∀ slot ∈ s.requested, ∃ block, task decode slot (answer slot) = [⟨slot, block⟩] ∧
    (block = none ↔ ∃ e, answer slot = .error e)
  received : ∀ {arrivals : List ConfirmedBlockWithSlot},
    arrivals.Perm (sentBlocks decode answer s.requested) →
    (arrivals.map ConfirmedBlockWithSlot.blockSlot).Perm s.requested

variable {decode : Decoder} {a : Slot → BlockAnswer} {s : ChainAdapter}

theorem OneMessageEach.of_readable (h : ∀ slot ∈ s.requested, Readable (a slot)) :
    OneMessageEach decode a s where
  task_eq slot hs := (task_eq_iff decode).2 (h slot hs)
  received ha := by
    rw [← map_blockSlot_sentBlocks decode h]
    exact ha.map _

theorem released_in_order {ans : List SlotAnswer}
    (hr : Run ChainAdapter.step (fun s a => ¬s.Underflows a) {} ans s)
    (h : ∀ slot ∈ s.requested, Readable (a slot)) {f : Slot} (hf : .send (.blockSlot f) ∈ s.effects)
    (ha : arrivals.Perm (sentBlocks decode a s.requested)) :
    (BlockBuffer.receive f arrivals).1.map ConfirmedBlockWithSlot.blockSlot = s.requested ∧
      (BlockBuffer.receive f arrivals).1.Perm arrivals := by
  have hp := (OneMessageEach.of_readable h).received ha
  cases Requesting.of_run hr with
  | waiting => exact absurd hf not_mem_nil
  | @running start k root hs hro hle hlt =>
    rw [requested_running] at hp ⊢
    obtain rfl : f = .ofNat start := by simpa using hf
    exact receive_in_slot_order (hle.trans_lt hlt) hp

/-- **Every requested slot is sent exactly once if and only if all the answers are readable.** -/
theorem oneMessageEach_iff (decode : Decoder) (answer : Slot → BlockAnswer) (s : ChainAdapter) :
    OneMessageEach decode answer s ↔ ∀ slot ∈ s.requested, Readable (answer slot) :=
  ⟨fun h slot hs => (task_eq_iff decode).1 (h.task_eq slot hs), .of_readable⟩

def slotFiveAnswer (status : Option UiTransactionStatusMeta) (slot : Slot) : BlockAnswer :=
  if slot = 5 then .ok ⟨"b", "a", 4, [⟨"", status⟩], [], none, none⟩ else .error "skipped"

theorem slotFive_not_sent :
    ∃ s, Run ChainAdapter.step (fun s answer => ¬s.Underflows answer) {} [.ok 105, .ok 107] s ∧
      s.requested = [5, 6] ∧
      sentBlocks (fun _ => none) (slotFiveAnswer none) s.requested = [⟨6, none⟩] ∧
      (BlockBuffer.receive 5 [⟨6, none⟩]).1 = [] :=
  ⟨(({} : ChainAdapter).poll (.ok 105)).poll (.ok 107),
    .cons (by decide) rfl (.cons (by decide) rfl (.nil _)), by decide, by decide, rfl⟩

end Massbit.Solana
