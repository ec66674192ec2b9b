/-
The loop of the chain adapter (`ChainAdapter::start`).
-/
import Massbit.Lib.Run
import Massbit.Solana.Types
import Mathlib.Data.List.Range

open List UInt64

namespace Massbit.Solana

def blockAvailableMargin : Slot := 100

def blockBatchSize : UInt64 := 10

def slotRange (first last : Slot) : List Slot :=
  (List.range (last.toNat - first.toNat)).map fun i => first + UInt64.ofNat i

inductive AdapterEffect where
  | send (info : BlockInfo)
  | spawnGetBlock (slot : Slot)
  deriving DecidableEq

/-- The answer of the node to `get_slot`. -/
abbrev SlotAnswer := Except String Slot

structure ChainAdapter where
  lastBlock : Option Slot := none
  firstNotificationToBroadcast : Bool := true
  effects : List AdapterEffect := []
  deriving DecidableEq

namespace ChainAdapter

def notify (self : ChainAdapter) (currentRoot : Slot) : ChainAdapter :=
  if self.firstNotificationToBroadcast then
    { self with
      firstNotificationToBroadcast := false
      effects := self.effects ++ [.send (.blockSlot currentRoot)] }
  else self

def poll (self : ChainAdapter) : SlotAnswer → ChainAdapter
  | .error _ => self
  | .ok newSlot =>
    let currentRoot := newSlot - blockAvailableMargin
    let self := self.notify currentRoot
    match self.lastBlock with
    | some valueLastIndexedSlot =>
      if currentRoot = valueLastIndexedSlot then self
      else
        let numberGetSlot := min (currentRoot - valueLastIndexedSlot) blockBatchSize
        let blockRange := slotRange valueLastIndexedSlot (valueLastIndexedSlot + numberGetSlot)
        { self with
          lastBlock := some (valueLastIndexedSlot + numberGetSlot)
          effects := self.effects ++ blockRange.map .spawnGetBlock }
    | none => { self with lastBlock := some currentRoot }

def step (self : ChainAdapter) (answer : SlotAnswer) : Option ChainAdapter := some (self.poll answer)

/-- The iteration for the answer subtracts a larger number from a smaller one. -/
def Underflows (self : ChainAdapter) (answer : SlotAnswer) : Prop :=
  ∃ newSlot, answer = .ok newSlot ∧ (newSlot < blockAvailableMargin ∨
    ∃ last, self.lastBlock = some last ∧ newSlot - blockAvailableMargin < last)

instance (self : ChainAdapter) (answer : SlotAnswer) : Decidable (self.Underflows answer) :=
  match answer with
  | .error _ => .isFalse nofun
  | .ok newSlot =>
    decidable_of_iff (newSlot < blockAvailableMargin ∨
        ∃ last ∈ self.lastBlock, newSlot - blockAvailableMargin < last)
      ⟨fun h => ⟨newSlot, rfl, h⟩, fun ⟨_, heq, h⟩ => Except.ok.inj heq ▸ h⟩

def requested (self : ChainAdapter) : List Slot :=
  self.effects.filterMap fun
    | .spawnGetBlock slot => some slot
    | .send _ => none

end ChainAdapter

def roots (answers : List SlotAnswer) : List ℕ :=
  answers.filterMap fun
    | .ok newSlot => some (newSlot.toNat - blockAvailableMargin.toNat)
    | .error _ => none

def slots (start k : ℕ) : List Slot := (List.range' start k).map UInt64.ofNat

theorem slotRange_eq {f last : Slot} :
    slotRange f last = slots f.toNat (last.toNat - f.toNat) := by
  rw [slotRange, slots, range'_eq_map_range, map_map]
  simp

theorem slotRange_add {f n : Slot} (h : f.toNat + n.toNat < 2 ^ 64) :
    slotRange f (f + n) = slots f.toNat n.toNat := by
  rw [slotRange_eq, UInt64.toNat_add, Nat.mod_eq_of_lt h, Nat.add_sub_cancel_left]

@[simp] theorem length_slots (st k : ℕ) : (slots st k).length = k := by
  rw [slots, length_map, length_range']

theorem slots_append (st k n : ℕ) : slots st k ++ slots (st + k) n = slots st (k + n) := by
  rw [slots, slots, ← map_append, range'_append_1]
  rfl

theorem nodup_slots {st k : ℕ} (h : st + k < 2 ^ 64) : (slots st k).Nodup := by
  refine List.Nodup.map_on (fun i hi j hj hij => ?_) nodup_range'
  have hi := mem_range'_1.1 hi
  have hj := mem_range'_1.1 hj
  have hm := congrArg UInt64.toNat hij
  rwa [toNat_ofNat_of_lt' (show i < 2 ^ 64 by omega),
    toNat_ofNat_of_lt' (show j < 2 ^ 64 by omega)] at hm

inductive Requesting (answers : List SlotAnswer) : ChainAdapter → Prop
  | waiting (h : roots answers = []) : Requesting answers {}
  | running {start k root : ℕ} (hstart : (roots answers).head? = some start)
      (hroot : root ∈ roots answers) (hle : start + k ≤ root) (hlt : root < 2 ^ 64) :
      Requesting answers
        { lastBlock := some (.ofNat (start + k))
          firstNotificationToBroadcast := false
          effects := .send (.blockSlot (.ofNat start)) :: (slots start k).map .spawnGetBlock }

namespace Requesting

variable {answers : List SlotAnswer} {s : ChainAdapter}

theorem roots_append (answers : List SlotAnswer) (a : SlotAnswer) :
    roots (answers ++ [a]) = roots answers ++ roots [a] :=
  filterMap_append

section

variable {ns last : Slot} {es : List AdapterEffect}

theorem poll_of_eq (h : ns - blockAvailableMargin = last) :
    ChainAdapter.poll ⟨some last, false, es⟩ (.ok ns) = ⟨some last, false, es⟩ :=
  if_pos h

theorem poll_of_ne (h : ns - blockAvailableMargin ≠ last) :
    ChainAdapter.poll ⟨some last, false, es⟩ (.ok ns)
      = ⟨some (last + min (ns - blockAvailableMargin - last) blockBatchSize), false,
          es ++ (slotRange last
            (last + min (ns - blockAvailableMargin - last) blockBatchSize)).map .spawnGetBlock⟩ :=
  if_neg h

end

theorem toNat_min_le (a b : UInt64) : (min a b).toNat ≤ a.toNat := by
  rw [toNat_min]
  exact Nat.min_le_left _ _

theorem slots_next (b : UInt64) {start k root : ℕ} {cr : Slot} (hle : start + k ≤ root)
    (hlt : root < 2 ^ 64) (hb : UInt64.ofNat (start + k) ≤ cr) :
    ∃ n, start + (k + n) ≤ cr.toNat ∧
      UInt64.ofNat (start + k) + min (cr - .ofNat (start + k)) b = .ofNat (start + (k + n)) ∧
      slotRange (.ofNat (start + k)) (.ofNat (start + k) +
        min (cr - .ofNat (start + k)) b) = slots (start + k) n := by
  set number := min (cr - .ofNat (start + k)) b
  have hl : (UInt64.ofNat (start + k)).toNat = start + k := Nat.mod_eq_of_lt (by omega)
  have hbehind_nat : start + k ≤ cr.toNat := hl ▸ UInt64.le_iff_toNat_le.1 hb
  have hn : number.toNat ≤ cr.toNat - (start + k) := by
    rw [← hl, ← UInt64.toNat_sub_of_le _ _ hb]
    exact toNat_min_le _ _
  have hr := cr.toNat_lt
  refine ⟨number.toNat, by omega, ?_, ?_⟩
  · rw [← add_assoc, UInt64.ofNat_add (start + k), UInt64.ofNat_toNat]
  · rw [slotRange_add (by omega), hl]

theorem poll_error (h : Requesting answers s) (e : String) :
    Requesting (answers ++ [.error e]) (s.poll (.error e)) := by
  have hr : roots (answers ++ [.error e]) = roots answers := by
    rw [roots_append]
    exact append_nil _
  cases h with
  | waiting hn => exact .waiting (hr.trans hn)
  | running hs hro hle hlt => exact .running (hr ▸ hs) (hr ▸ hro) hle hlt

theorem poll (h : Requesting answers s) {answer : SlotAnswer} (hf : ¬s.Underflows answer) :
    Requesting (answers ++ [answer]) (s.poll answer) := by
  rcases answer with e | newSlot
  · exact h.poll_error e
  have hm : blockAvailableMargin ≤ newSlot :=
    UInt64.not_lt.1 fun hlt => hf ⟨newSlot, rfl, .inl hlt⟩
  have hr : roots (answers ++ [.ok newSlot]) =
      roots answers ++ [(newSlot - blockAvailableMargin).toNat] := by
    rw [roots_append, UInt64.toNat_sub_of_le _ _ hm]
    rfl
  have hlt64 := (newSlot - blockAvailableMargin).toNat_lt
  have hme : (newSlot - blockAvailableMargin).toNat ∈ roots (answers ++ [.ok newSlot]) := by
    rw [hr]
    exact mem_append_right _ (mem_singleton_self _)
  cases h with
  | waiting hno =>
    have hru : Requesting (answers ++ [.ok newSlot])
        { lastBlock := some (.ofNat ((newSlot - blockAvailableMargin).toNat + 0))
          firstNotificationToBroadcast := false
          effects := .send (.blockSlot (.ofNat (newSlot - blockAvailableMargin).toNat)) ::
            (slots (newSlot - blockAvailableMargin).toNat 0).map .spawnGetBlock } :=
      .running (by rw [hr, hno]; rfl) hme le_rfl hlt64
    rw [add_zero, UInt64.ofNat_toNat] at hru
    exact hru
  | @running start k root hs hro hle hlt =>
    have hb : UInt64.ofNat (start + k) ≤ newSlot - blockAvailableMargin :=
      UInt64.not_lt.1 fun hlt => hf ⟨newSlot, rfl, .inr ⟨_, rfl, hlt⟩⟩
    have hs' : (roots (answers ++ [.ok newSlot])).head? = some start := by
      rw [hr, List.head?_append, hs]
      rfl
    obtain ⟨n, hn, hne, hra⟩ := slots_next blockBatchSize hle hlt hb
    by_cases heq : newSlot - blockAvailableMargin = .ofNat (start + k)
    · -- the node has not moved
      rw [poll_of_eq heq]
      exact .running hs' hme (by omega) hlt64
    · -- the next slots are requested
      rw [poll_of_ne heq, hra, hne, cons_append, ← map_append, slots_append]
      exact .running hs' hme hn hlt64

theorem of_run (hr : Run ChainAdapter.step (fun s a => ¬s.Underflows a) {} answers s) :
    Requesting answers s := by
  apply Run.invariant (I := Requesting) hr
  · exact .waiting rfl
  · intro _ s a s' hs hf hst
    cases hst
    exact hs.poll hf

end Requesting

/-- **The slots are requested in order from the announced one on**, each once, up to a root that the
node has answered, as long as no subtraction underflows. -/
theorem start_requests {answers : List SlotAnswer} {s : ChainAdapter}
    (hrun : Run ChainAdapter.step (fun s answer => ¬s.Underflows answer) {} answers s) :
    (roots answers = [] ∧ s.effects = []) ∨
    ∃ start k root, (roots answers).head? = some start ∧
      s.effects = .send (.blockSlot (.ofNat start)) :: (slots start k).map .spawnGetBlock ∧
      (slots start k).Nodup ∧ root ∈ roots answers ∧ start + k ≤ root ∧ root < 2 ^ 64 := by
  cases Requesting.of_run hrun with
  | waiting h => exact .inl ⟨h, rfl⟩
  | running hs hr hle hlt =>
    exact .inr ⟨_, _, _, hs, rfl, nodup_slots (hle.trans_lt hlt), hr, hle, hlt⟩

theorem start_requests_example :
    ∃ s, Run ChainAdapter.step (fun s answer => ¬s.Underflows answer) {}
        [.error "timeout", .ok 205, .ok 205, .ok 220, .ok 216] s ∧
      s.requested = slots 105 11 ∧
      ((roots [.error "timeout", .ok 205, .ok 205, .ok 220, .ok 216] = [] ∧ s.effects = []) ∨
      ∃ start k root,
        (roots [.error "timeout", .ok 205, .ok 205, .ok 220, .ok 216]).head? = some start ∧
        s.effects = .send (.blockSlot (.ofNat start)) :: (slots start k).map .spawnGetBlock ∧
        (slots start k).Nodup ∧ root ∈ roots [.error "timeout", .ok 205, .ok 205, .ok 220, .ok 216] ∧
        start + k ≤ root ∧ root < 2 ^ 64) := by
  have hru : ∃ s, Run ChainAdapter.step (fun s answer => ¬s.Underflows answer) {}
      [.error "timeout", .ok 205, .ok 205, .ok 220, .ok 216] s ∧ s.requested = slots 105 11 := by
    refine ⟨_, .cons (by decide) rfl (.cons (by decide) rfl (.cons (by decide) rfl
      (.cons (by decide) rfl (.cons (by decide) rfl (.nil _))))), by decide⟩
  obtain ⟨s, hru, hr⟩ := hru
  exact ⟨s, hru, hr, start_requests hru⟩

theorem start_wraps_around :
    (∃ s, Run ChainAdapter.step (fun _ _ => True) {} [.ok 50] s ∧
      s.effects = [.send (.blockSlot 18446744073709551566)]) ∧
    ∃ s, Run ChainAdapter.step (fun _ _ => True) {} [.ok 300, .ok 310, .ok 250] s ∧
      roots [.ok 300, .ok 310, .ok 250] = [200, 210, 150] ∧ 219 ∈ s.requested :=
  ⟨⟨_, .of_foldlM rfl, by decide⟩, _, .of_foldlM rfl, by decide, by decide⟩

end Massbit.Solana
