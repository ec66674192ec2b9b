/-
How far an indexer has come (`proxy.rs`, `indexer_store.rs`, `indexer_runtime.rs`).

`handle_block_mapping` is called by the loop of an indexer for the messages of its stream, and by
the tasks that fetch the blocks of a gap.  It drops the results of the plugin and of `flush`, and
the tasks drop its own result.  The plugin and the store are arbitrary functions on an arbitrary
state, so any of their calls may fail, and what other tasks do in between is part of the state.
`gotBlock_sound_iff` says that `got_block` means what it should if and only if no call fails, no
list of blocks is empty and all slots are `i64`.
-/
import Massbit.Lib.Run
import Massbit.Solana.Types

open List Option

namespace Massbit.Solana

def asI64 (slot : Slot) : ℤ := slot.toBitVec.toInt

def asI32 (slot : Slot) : ℤ := (slot.toBitVec.setWidth 32).toInt

theorem asI32_of_lt {slot : Slot} (h : slot.toNat < 2 ^ 31) : asI32 slot = slot.toNat := by
  have hw : (slot.toBitVec.setWidth 32).toNat = slot.toNat := by
    exact Nat.mod_eq_of_lt (h.trans (by decide))
  rw [asI32, BitVec.toInt_eq_toNat_of_lt, hw]
  omega

structure BlockPtr where
  hash : String
  number : ℤ
  deriving DecidableEq, Repr

structure Mapping (S Modification : Type) where
  handleBlock : ExtBlock → S → Except String Unit × S
  asModifications : S → Except String (List Modification) × S
  transactBlockOperations : BlockPtr → List Modification → S → Except String Unit × S

variable {S Modification : Type} (env : Mapping S Modification)

def CacheableStore.flush (blockHash : String) (blockSlot : Slot) (store : S) :
    Except String Unit × S :=
  match env.asModifications store with
  | (.ok mods, store) =>
    if mods.length > 0 then
      -- an error is logged
      (.ok (), (env.transactBlockOperations ⟨blockHash, asI32 blockSlot⟩ mods store).2)
    else
      (.ok (), store)
  | (.error _, store) => (.ok (), store)

def processBlock (block : ExtBlock) (store : S) : S :=
  let store := (env.handleBlock block store).2
  (CacheableStore.flush env block.block.blockhash block.blockNumber store).2

def handleBlockMapping (blocks : List ExtBlock) (store : S) : Except String ℤ × S :=
  let (blockSlot, store) := blocks.foldl (fun (blockSlot, store) block =>
    (max blockSlot (asI64 block.blockNumber), processBlock env block store)) (-1, store)
  (.ok blockSlot, store)

structure IndexerRuntime where
  gotBlock : ℤ
  startBlock : Option UInt64
  storedGotBlock : ℤ
  deriving DecidableEq, Repr

def IndexerRuntime.start (gotBlock : ℤ) : IndexerRuntime where
  gotBlock := gotBlock
  startBlock := if gotBlock ≥ 0 then some (.ofInt gotBlock + 1) else none
  storedGotBlock := gotBlock

/-- A message of the block stream, with what the environment has come to. -/
structure StreamMessage (S : Type) where
  blocks : List ExtBlock
  store : S
  isStored : Bool

def IndexerRuntime.unwrapsNone (self : IndexerRuntime) (blocks : List ExtBlock) : Bool :=
  match blocks, self.startBlock with
  | block :: _, some startBlockNumber =>
    block.blockNumber > startBlockNumber && block.block.transactions.isEmpty
  | _, _ => false

def IndexerRuntime.handleMessage (self : IndexerRuntime) (message : StreamMessage S) :
    Option IndexerRuntime :=
  if self.unwrapsNone message.blocks then none
  else
    match (handleBlockMapping env message.blocks message.store).1 with
    | .error _ => some self
    | .ok blockSlot => some
      { gotBlock := blockSlot
        startBlock := some (.ofInt blockSlot + 1)
        storedGotBlock := if message.isStored then blockSlot else self.storedGotBlock }

/-- A call of `handle_block_mapping`: for a message of the stream, or by a task for the blocks of a gap,
with what the environment has come to. -/
inductive MappingCall (S : Type) where
  | live (message : StreamMessage S)
  | history (blocks : List ExtBlock) (store : S)

def MappingCall.blocks : MappingCall S → List ExtBlock
  | .live message => message.blocks
  | .history blocks _ => blocks

def MappingCall.store : MappingCall S → S
  | .live message => message.store
  | .history _ store => store

def IndexerRuntime.handleCall (self : IndexerRuntime) : MappingCall S → Option IndexerRuntime
  | .live message => self.handleMessage env message
  -- the result is dropped
  | .history _ _ => some self

def FlushCommits (blockHash : String) (blockSlot : Slot) (store : S) : Prop :=
  ∃ mods store', env.asModifications store = (.ok mods, store') ∧
    (mods ≠ [] → (env.transactBlockOperations ⟨blockHash, asI32 blockSlot⟩ mods store').1 = .ok ())

def Committed (block : ExtBlock) (store : S) : Prop :=
  (env.handleBlock block store).1 = .ok () ∧
    FlushCommits env block.block.blockhash block.blockNumber (env.handleBlock block store).2

def turns : List ExtBlock → S → List (ExtBlock × S)
  | [], _ => []
  | block :: blocks, store => (block, store) :: turns blocks (processBlock env block store)

def AllCommitted (blocks : List ExtBlock) (store : S) : Prop :=
  ∀ turn ∈ turns env blocks store, Committed env turn.1 turn.2

structure IsLargestSlot (slot : ℤ) (blocks : List ExtBlock) : Prop where
  exists_eq : ∃ block ∈ blocks, slot = block.blockNumber.toNat
  le : ∀ block ∈ blocks, (block.blockNumber.toNat : ℤ) ≤ slot

def error? {A : Type} : Except String A → Option String
  | .ok _ => none
  | .error e => some e

/-- The error that `flush` logs. -/
def flushError (blockHash : String) (blockSlot : Slot) (store : S) : Option String :=
  match env.asModifications store with
  | (.ok mods, store) =>
    if mods.length > 0 then
      error? (env.transactBlockOperations ⟨blockHash, asI32 blockSlot⟩ mods store).1
    else none
  | (.error e, _) => some e

/-- The errors that the plugin and the store answer while the blocks are processed. -/
def errors (blocks : List ExtBlock) (store : S) : List String :=
  (turns env blocks store).flatMap fun (block, store) =>
    let (handled, store) := env.handleBlock block store
    (error? handled).toList ++
      (flushError env block.block.blockhash block.blockNumber store).toList

/-- There is no error, and there are blocks, with slots that are signed 64 bit integers. -/
structure MappingCall.Clean (call : MappingCall S) : Prop where
  no_error : errors env call.blocks call.store = []
  ne_nil : call.blocks ≠ []
  slot_lt : ∀ block ∈ call.blocks, block.blockNumber.toNat < 2 ^ 63

def Handled (start : IndexerRuntime) (calls : List (MappingCall S)) (self : IndexerRuntime) :
    Prop :=
  Run (IndexerRuntime.handleCall env) (fun _ _ => True) start calls self

/-- What `handle_block_mapping` returns means that all blocks of the list are committed, and is
their largest slot; the stored `got_block` passes no block that is not committed, of the stream
or of a gap, and an empty message does not lower it. -/
structure KeepsContract (start : IndexerRuntime) (calls : List (MappingCall S)) : Prop where
  returned : ∀ call ∈ calls, ∀ slot,
    (handleBlockMapping env call.blocks call.store).1 = .ok slot →
      AllCommitted env call.blocks call.store ∧ IsLargestSlot slot call.blocks
  not_passed : ∀ {pre self}, pre <+: calls → Handled env start pre self →
    ∀ call ∈ pre, ∀ turn ∈ turns env call.blocks call.store,
      ¬Committed env turn.1 turn.2 → self.storedGotBlock < turn.1.blockNumber.toNat
  not_lowered : ∀ {pre message self self'}, pre ++ [.live message] <+: calls →
    Handled env start pre self → message.blocks = [] →
      self.handleMessage env message = some self' → self.storedGotBlock ≤ self'.storedGotBlock

/-! ### The largest slot -/

theorem asI64_eq (slot : Slot) :
    asI64 slot = if slot.toNat < 2 ^ 63 then (slot.toNat : ℤ) else slot.toNat - 2 ^ 64 := by
  rw [asI64, BitVec.toInt_eq_toNat_cond, show slot.toBitVec.toNat = slot.toNat from rfl]
  omega

def largestSlot (blocks : List ExtBlock) : ℤ :=
  blocks.foldl (fun blockSlot block => max blockSlot (asI64 block.blockNumber)) (-1)

theorem handleBlockMapping_fst (blocks : List ExtBlock) (s : S) :
    (handleBlockMapping env blocks s).1 = .ok (largestSlot blocks) := by
  suffices h : ∀ bs, (blocks.foldl (fun (bs, s) b =>
      (max bs (asI64 b.blockNumber), processBlock env b s)) (bs, s)).1
        = blocks.foldl (fun bs b => max bs (asI64 b.blockNumber)) bs from
    congrArg Except.ok (h (-1))
  induction blocks generalizing s with
  | nil => exact fun _ => rfl
  | cons b blocks ih =>
    intro bs
    exact ih (processBlock env b s) (max bs (asI64 b.blockNumber))

section

variable {blocks : List ExtBlock}

theorem largestSlot_append (blocks : List ExtBlock) (b : ExtBlock) :
    largestSlot (blocks ++ [b]) = max (largestSlot blocks) (asI64 b.blockNumber) := by
  rw [largestSlot, foldl_append]
  rfl

theorem asI64_le_largestSlot {b : ExtBlock} (h : b ∈ blocks) :
    asI64 b.blockNumber ≤ largestSlot blocks := by
  induction blocks using List.reverseRecOn with
  | nil => cases h
  | append_singleton blocks last ih =>
    rw [largestSlot_append]
    rcases mem_append.1 h with h | h
    · exact le_max_of_le_left (ih h)
    · obtain rfl := mem_singleton.mp h
      exact le_max_right _ _

theorem largestSlot_eq (blocks : List ExtBlock) :
    largestSlot blocks = -1 ∨ ∃ block ∈ blocks, largestSlot blocks = asI64 block.blockNumber := by
  induction blocks using List.reverseRecOn with
  | nil => exact .inl rfl
  | append_singleton blocks last ih =>
    rw [largestSlot_append]
    rcases max_choice (largestSlot blocks) (asI64 last.blockNumber) with hm | hm
    · rw [hm]
      refine ih.imp_right ?_
      rintro ⟨block, hb, heq⟩
      exact ⟨block, mem_append_left _ hb, heq⟩
    · exact .inr ⟨last, mem_append_right _ (mem_singleton_self _), hm⟩

theorem asI64_lt (slot : Slot) : asI64 slot < 2 ^ 63 := by
  have hlt := slot.toNat_lt
  rw [asI64_eq]
  split_ifs with h
  · exact_mod_cast h
  · omega

theorem isLargestSlot_iff : IsLargestSlot (largestSlot blocks) blocks ↔
    blocks ≠ [] ∧ ∀ block ∈ blocks, block.blockNumber.toNat < 2 ^ 63 := by
  constructor
  · intro h
    obtain ⟨first, hf, -⟩ := h.exists_eq
    refine ⟨ne_nil_of_mem hf, fun block hb => ?_⟩
    have hle := h.le block hb
    have hlt : largestSlot blocks < 2 ^ 63 := by
      rcases largestSlot_eq blocks with heq | ⟨block', -, heq⟩
      · rw [heq]
        decide
      · rw [heq]
        exact asI64_lt _
    exact_mod_cast hle.trans_lt hlt
  · rintro ⟨hne, hlt⟩
    have hs : ∀ block ∈ blocks, asI64 block.blockNumber = block.blockNumber.toNat :=
      fun block hb => (asI64_eq _).trans (if_pos (hlt block hb))
    have hle : ∀ block ∈ blocks, (block.blockNumber.toNat : ℤ) ≤ largestSlot blocks := by
      intro block hb
      rw [← hs block hb]
      exact asI64_le_largestSlot hb
    refine ⟨?_, hle⟩
    rcases largestSlot_eq blocks with heq | ⟨block, hb, heq⟩
    · obtain ⟨block, hb⟩ := exists_mem_of_ne_nil _ hne
      have := hle block hb
      omega
    · exact ⟨block, hb, heq.trans (hs block hb)⟩

end

/-! ### One message -/

section

variable {env} {self self' : IndexerRuntime} {m : StreamMessage S}

section

variable (h : self.handleMessage env m = some self')

include h

theorem IndexerRuntime.handleMessage_eq :
    self' = ⟨largestSlot m.blocks, some (.ofInt (largestSlot m.blocks) + 1),
      if m.isStored then largestSlot m.blocks else self.storedGotBlock⟩ := by
  rw [handleMessage, handleBlockMapping_fst] at h
  exact (Option.some.inj (ite_none_left_eq_some.1 h).2).symm

theorem IndexerRuntime.transactions_ne_nil {f : ExtBlock} {rest : List ExtBlock} {s : UInt64}
    (hb : m.blocks = f :: rest) (hs : self.startBlock = some s) (hg : s < f.blockNumber) :
    f.block.transactions ≠ [] := by
  have hu : ¬self.unwrapsNone m.blocks = true := (ite_none_left_eq_some.1 h).1
  intro hn
  apply hu
  simp [unwrapsNone, hb, hs, hn, hg]

end

end

/-! ### Errors and commits -/

theorem error?_eq_none {A : Type} {x : Except String A} : error? x = none ↔ ∃ a, x = .ok a := by
  rcases x with e | a
  · exact iff_of_false (by rintro ⟨⟩) (by rintro ⟨a, ⟨⟩⟩)
  · exact iff_of_true rfl ⟨a, rfl⟩

variable {store : S}

theorem flushError_eq_none {blockHash : String} {blockSlot : Slot} :
    flushError env blockHash blockSlot store = none ↔
      FlushCommits env blockHash blockSlot store := by
  unfold flushError FlushCommits
  rcases hm : env.asModifications store with ⟨e | mods, store'⟩
  · refine iff_of_false (by rintro ⟨⟩) ?_
    rintro ⟨mods, s, heq, -⟩
    cases heq
  · simp only [Prod.mk.injEq, Except.ok.injEq]
    rw [exists_comm]
    split
    next hpos =>
      rw [error?_eq_none]
      have hne : mods ≠ [] := ne_nil_of_length_pos hpos
      constructor
      · rintro ⟨⟨⟩, heq⟩
        exact ⟨store', mods, ⟨rfl, rfl⟩, fun _ => heq⟩
      · rintro ⟨s, mods', ⟨rfl, rfl⟩, h⟩
        exact ⟨(), h hne⟩
    next hpos =>
      have hnil : mods = [] := eq_nil_of_length_eq_zero (Nat.eq_zero_of_not_pos hpos)
      exact iff_of_true rfl ⟨store', mods, ⟨rfl, rfl⟩, fun hne => absurd hnil hne⟩

theorem errors_eq_nil {blocks : List ExtBlock} :
    errors env blocks store = [] ↔ AllCommitted env blocks store := by
  rw [errors, flatMap_eq_nil_iff]
  refine forall₂_congr fun turn _ => ?_
  show (error? _).toList ++ (flushError env _ _ _).toList = [] ↔ _
  rw [append_eq_nil_iff, toList_eq_nil_iff, toList_eq_nil_iff, flushError_eq_none,
    error?_eq_none]
  exact and_congr_left fun _ => ⟨fun ⟨⟨⟩, heq⟩ => heq, fun heq => ⟨(), heq⟩⟩

/-- **`got_block` can be trusted if and only if nothing fails**: no call of the plugin or of the store
answers an error, for the blocks of the stream and for those of the gaps, and every list has blocks,
with slots that are signed integers. -/
theorem gotBlock_sound_iff (start : IndexerRuntime) (calls : List (MappingCall S)) :
    KeepsContract env start calls ↔ ∀ call ∈ calls, call.Clean env := by
  constructor
  · intro h call hc
    obtain ⟨ha, hl⟩ := h.returned call hc _ (handleBlockMapping_fst env _ _)
    obtain ⟨hne, hlt⟩ := isLargestSlot_iff.1 hl
    exact ⟨(errors_eq_nil env).2 ha, hne, hlt⟩
  · intro h
    have hall : ∀ call ∈ calls, AllCommitted env call.blocks call.store :=
      fun call hc => (errors_eq_nil env).1 (h call hc).no_error
    refine ⟨fun call hc slot hs => ?_, fun hp _ call hc turn ht hf => ?_,
      fun {pre message _ _} hp _ hn _ => ?_⟩
    · rw [handleBlockMapping_fst] at hs
      cases hs
      exact ⟨hall call hc, isLargestSlot_iff.2 ⟨(h call hc).ne_nil, (h call hc).slot_lt⟩⟩
    · exact absurd (hall call (hp.subset hc) turn ht) hf
    · have hc : .live message ∈ calls := hp.subset (mem_append_right _ (mem_singleton_self _))
      exact absurd hn (h _ hc).ne_nil

def mappingOf (handled transacted : Except String Unit) : Mapping Unit Unit where
  handleBlock _ _ := (handled, ())
  asModifications _ := (.ok [()], ())
  transactBlockOperations _ _ _ := (transacted, ())

/-- A block with one transaction. -/
def blockOf (slot : Slot) : ExtBlock :=
  ⟨"1.7.0", 0, slot, ⟨"a", "b", 4, [⟨⟨[[0]], ⟨[], "b", []⟩⟩, none⟩], [], none, none⟩, []⟩

/-- A plugin that fails for slot 5. -/
def failsAtFive : Mapping Unit Unit where
  handleBlock block _ := (if block.blockNumber = 5 then .error "handler" else .ok (), ())
  asModifications _ := (.ok [()], ())
  transactBlockOperations _ _ _ := (.ok (), ())

theorem gotBlock_passes_failed :
    (¬Committed (mappingOf (.error "handler") (.ok ())) (blockOf 5) () ∧
      (handleBlockMapping (mappingOf (.error "handler") (.ok ())) [blockOf 5] ()).1 = .ok 5) ∧
    (¬Committed (mappingOf (.ok ()) (.error "database")) (blockOf 5) () ∧
      (IndexerRuntime.start 4).handleMessage (mappingOf (.ok ()) (.error "database"))
        ⟨[blockOf 5], (), true⟩ = some ⟨5, some 6, 5⟩) ∧
    (¬Committed failsAtFive (blockOf 5) () ∧
      Handled failsAtFive (.start 4)
        [.live ⟨[blockOf 7], (), true⟩, .history [blockOf 5] ()] ⟨7, some 8, 7⟩) ∧
    IndexerRuntime.handleMessage (mappingOf (.ok ()) (.ok ())) ⟨5, some 6, 5⟩ ⟨[], (), true⟩
      = some ⟨-1, some 0, -1⟩ := by
  refine ⟨⟨fun h => ?_, rfl⟩, ⟨?_, rfl⟩, ⟨fun h => ?_, ?_⟩, rfl⟩
  · cases h.1
  · rintro ⟨-, mods, s', hm, h⟩
    obtain rfl := Except.ok.inj (congrArg Prod.fst hm)
    cases h (by decide)
  · cases h.1
  · exact .cons trivial rfl (.cons trivial rfl (.nil _))

end Massbit.Solana
