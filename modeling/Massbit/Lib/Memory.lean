/-
A linear memory, with reads and writes that fail beyond its end.
-/
import Mathlib.Data.Set.Basic
import Mathlib.Tactic.Common

open List

/-- A memory: its size, and the byte at each address. -/
structure Memory where
  size : ℕ
  byte : ℕ → UInt8

namespace Memory

def slice (self : Memory) (addr len : ℕ) : List UInt8 :=
  (List.range len).map fun i => self.byte (addr + i)

def read (self : Memory) (addr len : ℕ) : Option (List UInt8) :=
  if addr + len ≤ self.size then some (self.slice addr len) else none

def update (self : Memory) (addr : ℕ) (bytes : List UInt8) : Memory :=
  { self with byte := fun a => if addr ≤ a then bytes[a - addr]?.getD (self.byte a) else self.byte a }

def write (self : Memory) (addr : ℕ) (bytes : List UInt8) : Option Memory :=
  if addr + bytes.length ≤ self.size then some (self.update addr bytes) else none

@[simp] theorem length_slice (self : Memory) (addr len : ℕ) :
    (self.slice addr len).length = len := by
  simp [slice]

theorem slice_add (self : Memory) (addr len len' : ℕ) :
    self.slice addr (len + len') = self.slice addr len ++ self.slice (addr + len) len' := by
  simp [slice, range_add, Function.comp_def, Nat.add_assoc]

variable {self : Memory} {addr : ℕ} {bytes : List UInt8}

theorem read_eq_some {len : ℕ} (h : addr + len ≤ self.size) :
    self.read addr len = some (self.slice addr len) := if_pos h

theorem write_eq_some (h : addr + bytes.length ≤ self.size) :
    self.write addr bytes = some (self.update addr bytes) := if_pos h

@[simp] theorem size_update (self : Memory) (addr : ℕ) (bytes : List UInt8) :
    (self.update addr bytes).size = self.size := rfl

theorem byte_update {i : ℕ} {b : UInt8} (h : bytes[i]? = some b) :
    (self.update addr bytes).byte (addr + i) = b := by
  simp [update, h]

theorem byte_update_of_notMem {a : ℕ} (h : ¬(addr ≤ a ∧ a < addr + bytes.length)) :
    (self.update addr bytes).byte a = self.byte a := by
  show (if addr ≤ a then _ else _) = _
  split
  next hle =>
    rw [List.getElem?_eq_none (by omega)]
    rfl
  next => rfl

structure Holds (m : Memory) (owned : Set ℕ) (addr : ℕ) (bytes : List UInt8) : Prop where
  bound : addr + bytes.length ≤ m.size
  owned_add : ∀ i < bytes.length, addr + i ∈ owned
  slice_eq : m.slice addr bytes.length = bytes

structure Keeps (m : Memory) (owned : Set ℕ) (memory : Memory) : Prop where
  size_le : m.size ≤ memory.size
  byte_eq : ∀ a ∈ owned, memory.byte a = m.byte a

namespace Keeps

variable {m memory memory' : Memory} {owned o' : Set ℕ}

theorem refl (m : Memory) (owned : Set ℕ) : m.Keeps owned m := ⟨le_rfl, fun _ _ => rfl⟩

theorem trans (h : m.Keeps owned memory) (h' : memory.Keeps o' memory')
    (ho : owned ⊆ o') : m.Keeps owned memory' where
  size_le := h.size_le.trans h'.size_le
  byte_eq a ha := (h'.byte_eq a (ho ha)).trans (h.byte_eq a ha)

theorem mono (h : m.Keeps o' memory) (ho : owned ⊆ o') : m.Keeps owned memory :=
  ⟨h.size_le, fun a ha => h.byte_eq a (ho ha)⟩

end Keeps

variable {owned : Set ℕ} {m : Memory}

theorem keeps_update (h : ∀ a ∈ owned, ¬(addr ≤ a ∧ a < addr +
    bytes.length)) : m.Keeps owned (m.update addr bytes) :=
  ⟨le_rfl, fun a ha => byte_update_of_notMem (h a ha)⟩

theorem holds_update (hb : addr + bytes.length ≤ m.size)
    (ho : ∀ i < bytes.length, addr + i ∈ owned) :
    (m.update addr bytes).Holds owned addr bytes where
  bound := hb
  owned_add := ho
  slice_eq := by
    apply ext_getElem (length_slice _ _ _)
    intro i hi hi'
    have hby : (m.update addr bytes).byte (addr + i) = bytes[i] :=
      byte_update (List.getElem?_eq_getElem hi')
    simpa [slice] using hby

namespace Holds

variable {m memory : Memory} {owned owned' : Set ℕ} {addr : ℕ} {bytes bytes' : List UInt8}

theorem mono (h : m.Holds owned addr bytes) (hk : m.Keeps owned memory)
    (ho : owned ⊆ owned') : memory.Holds owned' addr bytes where
  bound := h.bound.trans hk.size_le
  owned_add i hi := ho (h.owned_add i hi)
  slice_eq := by
    rw [← h.slice_eq, length_slice]
    apply map_congr_left
    intro i hi
    exact hk.byte_eq _ (h.owned_add i (mem_range.1 hi))

theorem left (h : m.Holds owned addr (bytes ++ bytes')) : m.Holds owned addr bytes := by
  have hs := h.slice_eq
  have hb := h.bound
  rw [length_append] at hs hb
  rw [slice_add] at hs
  refine ⟨by omega, fun i hi => h.owned_add i (by rw [length_append]; omega), ?_⟩
  exact (append_inj hs (length_slice _ _ _)).1

theorem right (h : m.Holds owned addr (bytes ++ bytes')) :
    m.Holds owned (addr + bytes.length) bytes' := by
  have hs := h.slice_eq
  have hb := h.bound
  rw [length_append] at hs hb
  rw [slice_add] at hs
  refine ⟨by omega, fun i hi => ?_, (append_inj hs (length_slice _ _ _)).2⟩
  rw [Nat.add_assoc]
  exact h.owned_add _ (by rw [length_append]; omega)

theorem read_take (h : m.Holds owned addr bytes) {len : ℕ} (hle : addr + len ≤ m.size) :
    ∃ more, m.read addr len = some ((bytes ++ more).take len) := by
  refine ⟨m.slice (addr + bytes.length) (len - bytes.length), ?_⟩
  have hs : m.slice addr (bytes.length + (len - bytes.length)) =
      bytes ++ m.slice (addr + bytes.length) (len - bytes.length) := by
    rw [slice_add, h.slice_eq]
  have hl : bytes.length + (len - bytes.length) = len + (bytes.length - len) := by omega
  rw [read_eq_some hle, ← hs, hl, slice_add, take_left' (length_slice _ _ _)]

theorem read (h : m.Holds owned addr bytes) : m.read addr bytes.length = some bytes := by
  rw [read_eq_some h.bound, h.slice_eq]

end Holds

end Memory
