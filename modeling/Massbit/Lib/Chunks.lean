/-
The chunks of a list: consecutive parts with a given number of elements, of which the last one can
be shorter.
-/
import Mathlib.Data.List.Defs
import Mathlib.Tactic.Common

namespace List

variable {A : Type*}

def chunks (size : ℕ) : List A → List (List A)
  | [] => []
  | a :: l => (a :: (l.toChunksAux (size - 1) (size - 1)).1) ::
      (l.toChunksAux (size - 1) (size - 1)).2

theorem toChunksAux_flatten (n : ℕ) :
    ∀ (l : List A) (i : ℕ), (l.toChunksAux n i).1 ++ (l.toChunksAux n i).2.flatten = l
  | [], _ => rfl
  | a :: l, 0 => congrArg (a :: ·) (toChunksAux_flatten n l n)
  | a :: l, i + 1 => congrArg (a :: ·) (toChunksAux_flatten n l i)

theorem chunks_flatten (size : ℕ) : ∀ l : List A, (chunks size l).flatten = l
  | [] => rfl
  | a :: l => congrArg (a :: ·) (toChunksAux_flatten (size - 1) l (size - 1))

variable {B : Type*}

theorem toChunksAux_map (f : A → B) (n : ℕ) :
    ∀ (l : List A) (i : ℕ), (l.map f).toChunksAux n i =
      ((l.toChunksAux n i).1.map f, (l.toChunksAux n i).2.map (map f))
  | [], _ => rfl
  | a :: l, 0 => by
    rw [map_cons, toChunksAux, toChunksAux_map f n l n]
    rfl
  | a :: l, i + 1 => by
    rw [map_cons, toChunksAux, toChunksAux_map f n l i]
    rfl

theorem chunks_map (f : A → B) (size : ℕ) (l : List A) :
    chunks size (l.map f) = (chunks size l).map (map f) := by
  cases l with
  | nil => rfl
  | cons a l =>
    rw [map_cons, chunks, toChunksAux_map]
    rfl

variable {l c : List A}

theorem length_toChunksAux_le (n : ℕ) : ∀ {l : List A} {i : ℕ}, i ≤ n →
    (l.toChunksAux n i).1.length ≤ i ∧ ∀ c ∈ (l.toChunksAux n i).2, c.length ≤ n + 1
  | [], _, _ => ⟨Nat.zero_le _, nofun⟩
  | a :: l, 0, _ => by
    obtain ⟨hf, hr⟩ := length_toChunksAux_le n (l := l) (Nat.le_refl _)
    exact ⟨Nat.le_refl _, forall_mem_cons.2 ⟨Nat.succ_le_succ hf, hr⟩⟩
  | a :: l, i + 1, hi => by
    obtain ⟨hf, hr⟩ := length_toChunksAux_le n (l := l) (Nat.le_of_succ_le hi)
    exact ⟨Nat.succ_le_succ hf, hr⟩

theorem length_le_of_mem_chunks {size : ℕ} (hs : 0 < size) (h : c ∈ chunks size l) :
    c.length ≤ size := by
  cases l with
  | nil => cases h
  | cons a l =>
    obtain ⟨hf, hr⟩ := length_toChunksAux_le (size - 1) (l := l) (Nat.le_refl _)
    have hl : size - 1 + 1 = size := Nat.sub_add_cancel hs
    rcases mem_cons.1 h with rfl | h
    · rw [length_cons]
      omega
    · exact hl ▸ hr c h

theorem toChunksAux_append (n : ℕ) (rest : List A) :
    ∀ l : List A, (l ++ rest).toChunksAux n l.length = (l, chunks (n + 1) rest)
  | [] => by
    cases rest with
    | nil => rfl
    | cons a rest => rfl
  | a :: l => by
    show (a :: ((l ++ rest).toChunksAux n l.length).1, ((l ++ rest).toChunksAux n l.length).2) = _
    rw [toChunksAux_append n rest l]

theorem chunks_append {l : List A} (hl : l ≠ []) (rest : List A) :
    chunks l.length (l ++ rest) = l :: chunks l.length rest := by
  cases l with
  | nil => exact absurd rfl hl
  | cons a l =>
    show (a :: ((l ++ rest).toChunksAux l.length l.length).1) ::
      ((l ++ rest).toChunksAux l.length l.length).2 = _
    rw [toChunksAux_append]
    rfl

theorem chunks_flatten_of_length {size : ℕ} (hs : 0 < size) :
    ∀ {ls : List (List A)}, (∀ l ∈ ls, l.length = size) → chunks size ls.flatten = ls
  | [], _ => rfl
  | l :: ls, h => by
    obtain rfl : l.length = size := h l mem_cons_self
    rw [flatten_cons, chunks_append (ne_nil_of_length_pos hs),
      chunks_flatten_of_length hs fun l' hl' => h l' (mem_cons_of_mem _ hl')]

end List
