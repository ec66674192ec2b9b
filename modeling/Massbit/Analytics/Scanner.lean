/-
The scanner of the analytics (`solana_scanner.rs`, `reader.rs`).
-/
import Massbit.Solana.GetBlock
import Mathlib.Data.List.Sort

open List UInt64

namespace Massbit.Analytics

open Solana (Slot SlotAnswer BlockAnswer EncodedConfirmedBlock slotRange slots)

def blockAvailableMargin : Slot := 100

def blockBatchSize : UInt64 := 10

structure EncodedConfirmedBlockWithSlot where
  blockSlot : Slot
  block : EncodedConfirmedBlock
  deriving DecidableEq

def getBlock (blockSlot : Slot) : BlockAnswer → Except String EncodedConfirmedBlockWithSlot
  | .ok block => .ok ⟨blockSlot, block⟩
  | .error _ => .error "Error cannot get block"

inductive ChannelAnswer where
  | closed
  | sent
  | notSent
  deriving DecidableEq

/-- What the environment answers in one iteration of the loop. -/
structure ReaderInput where
  isClosed : Bool
  slot : SlotAnswer
  block : Slot → BlockAnswer
  channel : Slot → ChannelAnswer

structure BlockCall where
  blockSlot : Slot
  currentRoot : Slot
  deriving DecidableEq

structure Reader where
  lastIndexedSlot : Option Slot
  calls : List BlockCall := []
  read : List EncodedConfirmedBlockWithSlot := []
  sent : List EncodedConfirmedBlockWithSlot := []
  isReturned : Bool := false
  deriving DecidableEq

def sendBlocks (channel : Slot → ChannelAnswer) :
    List EncodedConfirmedBlockWithSlot → List EncodedConfirmedBlockWithSlot × Bool
  | [] => ([], false)
  | block :: blocks =>
    match channel block.blockSlot with
    | .closed => ([], true)
    | .sent => (block :: (sendBlocks channel blocks).1, (sendBlocks channel blocks).2)
    | .notSent => sendBlocks channel blocks

def readBlocks (answer : Slot → BlockAnswer) (blockRange : List Slot) :
    List EncodedConfirmedBlockWithSlot :=
  (blockRange.filterMap fun slot => (getBlock slot (answer slot)).toOption).insertionSort
    fun a b => a.blockSlot ≤ b.blockSlot

namespace Reader

def start (startBlock : Option Slot) : Reader where
  lastIndexedSlot := startBlock.map fun startBlock => startBlock + 1

def getBlocks (self : Reader) (currentRoot value numberGetSlot : Slot) (input : ReaderInput) :
    Reader :=
  let blockRange := slotRange value (value + numberGetSlot)
  let blocks := readBlocks input.block blockRange
  let result := sendBlocks input.channel blocks
  { lastIndexedSlot := if result.2 then self.lastIndexedSlot else some (value + numberGetSlot)
    calls := self.calls ++ blockRange.map fun slot => ⟨slot, currentRoot⟩
    read := self.read ++ blocks
    sent := self.sent ++ result.1
    isReturned := result.2 }

/-- Differences wrap around, as in a release build. -/
def poll (self : Reader) (input : ReaderInput) : Reader :=
  if input.isClosed then { self with isReturned := true }
  else
    match input.slot with
    | .error _ => self
    | .ok newSlot =>
      let currentRoot := newSlot - blockAvailableMargin
      match self.lastIndexedSlot with
      | some value =>
        if currentRoot = value then self
        else self.getBlocks currentRoot value (min (currentRoot - value) blockBatchSize) input
      | none => { self with lastIndexedSlot := some currentRoot }

def step (self : Reader) (input : ReaderInput) : Option Reader :=
  if self.isReturned then none else some (self.poll input)

def requested (self : Reader) : List Slot := self.calls.map BlockCall.blockSlot

end Reader

def startBlock (gotBlock : Option ℤ) (block : Option UInt64) : Option Slot :=
  (gotBlock.map fun gotBlock => UInt64.ofInt gotBlock + 1).or block

/-- The first slot that is not indexed yet. -/
inductive NextSlot : Option ℤ → Option UInt64 → ℕ → Prop
  | stored (gotBlock : ℤ) (block : Option UInt64) (next : ℕ) (h : (next : ℤ) = gotBlock + 1) :
      NextSlot (some gotBlock) block next
  | given (block : UInt64) : NextSlot none (some block) block.toNat

/-- The root of the answer is not below the next slot. -/
def RootReached (first : ℕ) (s : Reader) (input : ReaderInput) : Prop :=
  ∀ newSlot, input.slot = .ok newSlot →
    first + s.calls.length + blockAvailableMargin.toNat ≤ newSlot.toNat

def ReaderInput.IsOpen (input : ReaderInput) : Prop := ∀ slot, input.channel slot = .sent

/-- The slots from `first` on are requested one after the other, none beyond the root, and the
blocks that could be read are sent in the order of their slots. -/
structure KeepsContract (first : ℕ) (inputs : List ReaderInput) (s : Reader) : Prop where
  requested : s.requested = slots first s.calls.length
  nodup : s.requested.Nodup
  within_root : ∀ call ∈ s.calls, call.blockSlot ≤ call.currentRoot
  sent_sublist : s.sent.Sublist s.read
  sent_read : (∀ input ∈ inputs, input.IsOpen) → s.sent = s.read
  increasing : (s.sent.map EncodedConfirmedBlockWithSlot.blockSlot).Pairwise (· < ·)

theorem sendBlocks_sublist (c : Slot → ChannelAnswer) : ∀ bs, (sendBlocks c bs).1.Sublist bs
  | [] => List.Sublist.slnil
  | b :: bs => by
    have ih := sendBlocks_sublist c bs
    rw [sendBlocks]
    rcases c b.blockSlot with - | - | -
    · exact nil_sublist _
    · exact ih.cons_cons b
    · exact ih.cons b

theorem sendBlocks_of_isOpen {c : Slot → ChannelAnswer} (h : ∀ slot, c slot = .sent) :
    ∀ bs, sendBlocks c bs = (bs, false)
  | [] => rfl
  | block :: bs => by
    rw [sendBlocks, h, sendBlocks_of_isOpen h bs]

theorem slots_pairwise_lt {st k : ℕ} (h : st + k ≤ 2 ^ 64) :
    (slots st k).Pairwise (· < ·) := by
  rw [slots, pairwise_map]
  refine List.Pairwise.imp_of_mem (fun {i j} hi hj hij => ?_) (pairwise_lt_range' 1)
  have hj := mem_range'_1.1 hj
  rw [lt_iff_toNat_lt, toNat_ofNat_of_lt' (show i < 2 ^ 64 by omega),
    toNat_ofNat_of_lt' (show j < 2 ^ 64 by omega)]
  exact hij

theorem getBlock_toOption {slot : Slot} {a : BlockAnswer} {bl : EncodedConfirmedBlockWithSlot}
    (h : (getBlock slot a).toOption = some bl) : bl.blockSlot = slot := by
  rcases a with e | b
  · cases h
  · cases h
    rfl

theorem map_blockSlot_filterMap_sublist (a : Slot → BlockAnswer) : ∀ br : List Slot,
    ((br.filterMap fun slot => (getBlock slot (a slot)).toOption).map
      EncodedConfirmedBlockWithSlot.blockSlot).Sublist br
  | [] => List.Sublist.slnil
  | slot :: br => by
    have ih := map_blockSlot_filterMap_sublist a br
    rw [filterMap_cons]
    rcases h : (getBlock slot (a slot)).toOption with - | b
    · exact ih.cons slot
    · show (b.blockSlot :: _).Sublist (slot :: br)
      rw [getBlock_toOption h]
      exact ih.cons_cons slot

theorem readBlocks_eq (a : Slot → BlockAnswer) {br : List Slot} (h : br.Pairwise (· < ·)) :
    readBlocks a br = br.filterMap fun slot => (getBlock slot (a slot)).toOption := by
  apply List.Pairwise.insertionSort_eq
  have hlt := h.sublist (map_blockSlot_filterMap_sublist a br)
  exact (pairwise_map.1 hlt).imp fun hab => UInt64.le_of_lt hab

theorem map_blockSlot_readBlocks_sublist (a : Slot → BlockAnswer) {blockRange : List Slot}
    (h : blockRange.Pairwise (· < ·)) :
    ((readBlocks a blockRange).map EncodedConfirmedBlockWithSlot.blockSlot).Sublist
      blockRange := by
  rw [readBlocks_eq a h]
  exact map_blockSlot_filterMap_sublist a blockRange

theorem NextSlot.startBlock_eq {gb : Option ℤ} {b : Option UInt64} {first : ℕ}
    (h : NextSlot gb b first) : startBlock gb b = some (.ofNat first) := by
  cases h with
  | stored gb b _ h =>
    show some (UInt64.ofInt gb + 1) = some (UInt64.ofNat first)
    have ho : UInt64.ofInt gb + 1 = UInt64.ofInt (gb + 1) := by
      rw [UInt64.ofInt_add]
      rfl
    rw [ho, ← h, UInt64.ofInt]
    congr 1
    rw [← UInt64.toNat_inj, UInt64.toNat_ofNat', UInt64.toNat_ofNat']
    omega
  | given b =>
    show some b = some (UInt64.ofNat b.toNat)
    rw [UInt64.ofNat_toNat]

structure Requests (first : ℕ) (inputs : List ReaderInput) (s : Reader) : Prop where
  lastIndexedSlot : s.isReturned = false →
    s.lastIndexedSlot = some (.ofNat (first + 1 + s.calls.length))
  requested : s.requested = slots (first + 1) s.calls.length
  bound : s.calls = [] ∨ first + 1 + s.calls.length < 2 ^ 64
  read : (s.read.map EncodedConfirmedBlockWithSlot.blockSlot).Sublist s.requested
  sent_sublist : s.sent.Sublist s.read
  sent_read : (∀ input ∈ inputs, input.IsOpen) → s.sent = s.read

namespace Requests

variable {first : ℕ} {inputs : List ReaderInput} {s : Reader}

theorem start (first : ℕ) : Requests first [] (Reader.start (some (.ofNat first))) where
  lastIndexedSlot := by
    intro _
    show some (UInt64.ofNat first + 1) = some (UInt64.ofNat (first + 1))
    rw [ofNat_add]
    rfl
  requested := rfl
  bound := .inl rfl
  read := List.Sublist.slnil
  sent_sublist := List.Sublist.slnil
  sent_read := fun _ => rfl

variable {inp : ReaderInput}

theorem isOpen_of_append (h : ∀ i ∈ inputs ++ [inp], i.IsOpen) :
    (∀ i ∈ inputs, i.IsOpen) ∧ inp.IsOpen :=
  ⟨fun i hi => h i (mem_append_left _ hi), h inp (mem_append_right _ (by simp))⟩

theorem keep (h : Requests first inputs s) (inp : ReaderInput) {isReturned : Bool}
    (hr : isReturned = false → s.isReturned = false) :
    Requests first (inputs ++ [inp]) { s with isReturned } where
  lastIndexedSlot := fun hn => h.lastIndexedSlot (hr hn)
  requested := h.requested
  bound := h.bound
  read := h.read
  sent_sublist := h.sent_sublist
  sent_read := fun ho => h.sent_read (isOpen_of_append ho).1

theorem blockRange_eq {n : ℕ} {nu : Slot} (h : first + 1 + n + nu.toNat < 2 ^ 64) :
    slotRange (.ofNat (first + 1 + n)) (.ofNat (first + 1 + n) + nu) =
      slots (first + 1 + n) nu.toNat := by
  have hl : (UInt64.ofNat (first + 1 + n)).toNat = first + 1 + n := Nat.mod_eq_of_lt (by omega)
  rw [Solana.slotRange_add (by omega), hl]

theorem getBlocks (h : Requests first inputs s) {cr n : Slot}
    (hlt : first + 1 + s.calls.length + n.toNat < 2 ^ 64) :
    Requests first (inputs ++ [inp])
      (s.getBlocks cr (.ofNat (first + 1 + s.calls.length)) n inp) := by
  have hra := blockRange_eq hlt
  have hs := slots_pairwise_lt hlt.le
  set value := UInt64.ofNat (first + 1 + s.calls.length) with hv
  have hc : (s.getBlocks cr value n inp).calls.length = s.calls.length + n.toNat := by
    show (s.calls ++ List.map _ _).length = _
    rw [length_append, length_map, hra, Solana.length_slots]
  have hr : (s.getBlocks cr value n inp).requested =
      s.requested ++ slots (first + 1 + s.calls.length) n.toNat := by
    show (s.calls ++ List.map _ _).map _ = _
    rw [map_append, map_map, hra]
    exact congrArg (s.requested ++ ·) (map_id _)
  constructor
  case lastIndexedSlot =>
    intro hn
    rw [hc]
    have hse : (sendBlocks inp.channel (readBlocks inp.block
        (slotRange value (value + n)))).2 = false := hn
    show (if (sendBlocks _ _).2 then _ else some (value + n)) = _
    rw [if_neg (Bool.eq_false_iff.1 hse), hv, ← add_assoc,
      UInt64.ofNat_add (first + 1 + s.calls.length), UInt64.ofNat_toNat]
  case requested =>
    rw [hr, hc, h.requested, Solana.slots_append]
  case bound =>
    right
    omega
  case read =>
    rw [hr]
    show ((s.read ++ readBlocks inp.block _).map _).Sublist _
    rw [map_append, hra]
    exact h.read.append (map_blockSlot_readBlocks_sublist inp.block hs)
  case sent_sublist =>
    exact h.sent_sublist.append (sendBlocks_sublist _ _)
  case sent_read =>
    intro ho
    obtain ⟨ho, hi⟩ := isOpen_of_append ho
    show s.sent ++ (sendBlocks _ _).1 = s.read ++ _
    rw [h.sent_read ho, sendBlocks_of_isOpen hi]

theorem toNat_min_blockBatchSize_le (a : Slot) : (min a blockBatchSize).toNat ≤ 10 := by
  rw [toNat_min]
  exact Nat.min_le_right _ _

theorem poll (h : Requests first inputs s) (hr : s.isReturned = false)
    (hro : RootReached first s inp) : Requests first (inputs ++ [inp]) (s.poll inp) := by
  have hk : Requests first (inputs ++ [inp]) s := h.keep inp id
  by_cases hc : inp.isClosed
  · rw [Reader.poll, if_pos hc]
    exact h.keep inp nofun
  rw [Reader.poll, if_neg hc]
  rcases hs : inp.slot with e | newSlot
  · exact hk
  rw [h.lastIndexedSlot hr]
  show Requests _ _ (if _ then _ else _)
  split_ifs
  · exact hk
  · apply h.getBlocks
    -- the root leaves room for a batch, since it is a hundred below the slot of the node
    have hb := toNat_min_blockBatchSize_le
      (newSlot - blockAvailableMargin - .ofNat (first + 1 + s.calls.length))
    have hn := newSlot.toNat_lt
    have hre : first + s.calls.length + 100 ≤ newSlot.toNat := hro newSlot hs
    omega

theorem of_run (hru : Run Reader.step (RootReached first)
    (Reader.start (some (.ofNat first))) inputs s) : Requests first inputs s := by
  apply Run.invariant (I := Requests first) hru (start first)
  intro _ s inp s' hs hro hst
  obtain ⟨hr, hp⟩ := Option.ite_none_left_eq_some.1 hst
  cases hp
  exact hs.poll (Bool.eq_false_iff.2 hr) hro

theorem requested_pairwise_lt (h : Requests first inputs s) : s.requested.Pairwise (· < ·) := by
  rcases h.bound with hn | hlt
  · rw [Reader.requested, hn]
    exact List.Pairwise.nil
  · rw [h.requested]
    exact slots_pairwise_lt hlt.le

theorem sent_pairwise_lt (h : Requests first inputs s) :
    (s.sent.map EncodedConfirmedBlockWithSlot.blockSlot).Pairwise (· < ·) :=
  h.requested_pairwise_lt.sublist ((h.sent_sublist.map _).trans h.read)

theorem ofNat_not_mem_requested (h : Requests first inputs s) :
    UInt64.ofNat first ∉ s.requested := by
  rcases h.bound with hn | hlt
  · rw [Reader.requested, hn]
    exact not_mem_nil
  · rw [h.requested]
    intro hm
    obtain ⟨i, hi, heq⟩ := mem_map.1 hm
    have hi := mem_range'_1.1 hi
    have hna := congrArg UInt64.toNat heq
    rw [toNat_ofNat_of_lt' (show i < 2 ^ 64 by omega),
      toNat_ofNat_of_lt' (show first < 2 ^ 64 by omega)] at hna
    omega

end Requests

/-- **A restarted scanner is right if and only if it has requested nothing**: the first request
leaves out the slot after the stored one. -/
theorem restarted_keepsContract_iff {gotBlock : Option ℤ} {block : Option UInt64} {first : ℕ}
    {inputs : List ReaderInput} {s : Reader} (hnext : NextSlot gotBlock block first)
    (hrun : Run Reader.step (RootReached first) (Reader.start (startBlock gotBlock block))
      inputs s) :
    KeepsContract first inputs s ↔ s.calls = [] := by
  rw [hnext.startBlock_eq] at hrun
  have h := Requests.of_run hrun
  constructor
  · intro hc
    by_contra hca
    apply h.ofNat_not_mem_requested
    rw [hc.requested, slots, mem_map]
    have hp : 0 < s.calls.length := length_pos_iff.mpr hca
    exact ⟨first, mem_range'_1.mpr (by omega), rfl⟩
  · intro hn
    have hr : s.requested = [] := by
      rw [Reader.requested, hn]
      rfl
    refine ⟨?_, ?_, ?_, h.sent_sublist, h.sent_read, h.sent_pairwise_lt⟩
    · rw [hr, hn]
      rfl
    · rw [hr]
      exact nodup_nil
    · rw [hn]
      exact fun _ hcall => absurd hcall not_mem_nil

def emptyBlock (parentSlot : Slot) : EncodedConfirmedBlock where
  previousBlockhash := ""
  blockhash := ""
  parentSlot := parentSlot
  transactions := []
  rewards := []
  blockTime := none
  blockHeight := none

def nodeAt (slot : Slot) : ReaderInput where
  isClosed := false
  slot := .ok slot
  block := fun slot => .ok (emptyBlock (slot - 1))
  channel := fun _ => .sent

theorem restarted_keepsContract_waiting :
    ∃ s, Run Reader.step (RootReached 5) (Reader.start (startBlock (some 4) none)) [nodeAt 106] s ∧
      (KeepsContract 5 [nodeAt 106] s ↔ s.calls = []) ∧ s.calls = [] := by
  have hn : NextSlot (some 4) none 5 := .stored 4 none 5 rfl
  have hr : Run Reader.step (RootReached 5) (Reader.start (startBlock (some 4) none))
      [nodeAt 106] (Reader.start (startBlock (some 4) none)) := by
    refine .cons ?_ rfl (.nil _)
    rintro _ ⟨⟩
    decide
  exact ⟨_, hr, restarted_keepsContract_iff hn hr, rfl⟩

theorem restarted_skips_five :
    (∃ s, Run Reader.step (RootReached 5) (Reader.start (startBlock (some 4) none)) [nodeAt 108] s ∧
      s.requested = [6, 7] ∧ ¬KeepsContract 5 [nodeAt 108] s) ∧
    ∃ s, Run Reader.step (RootReached 5) (Reader.start (startBlock (some 4) none)) [nodeAt 105] s ∧
      s.requested = [6, 7, 8, 9, 10, 11, 12, 13, 14, 15] ∧ ¬KeepsContract 5 [nodeAt 105] s := by
  constructor
  · refine ⟨_, .cons ?_ rfl (.nil _), by decide, fun h => absurd h.requested (by decide)⟩
    rintro _ ⟨⟩
    decide
  · refine ⟨_, .cons ?_ rfl (.nil _), by decide, fun h => absurd h.requested (by decide)⟩
    rintro _ ⟨⟩
    decide

end Massbit.Analytics
