/-
Streams that are unfolded from a seed (`exists_unfold`).
-/
import Massbit.Lib.Outcome
import Mathlib.Data.Int.Notation
import Mathlib.Tactic.Common

open List

namespace Outcome

variable {E A S : Type}

def tryUnfold (f : S → Outcome E (Option (A × S))) : ℕ → S → Outcome E (List A)
  | 0, _ => .panic
  | fuel + 1, s => do
    match ← f s with
    | none => return []
    | some (a, s') =>
      let as ← tryUnfold f fuel s'
      return a :: as

variable {f : S → Outcome E (Option (A × S))}

theorem forall_mem_tryUnfold {f : S → Outcome E (Option (List A × S))} {Q : A → Prop}
    (ht : ∀ {s p s'}, f s = ok (some (p, s')) → ∀ a ∈ p, Q a) :
    ∀ {fuel s pieces}, tryUnfold f fuel s = ok pieces → ∀ a ∈ pieces.flatten, Q a
  | 0, _, _, h => nomatch h
  | fuel + 1, s, pieces, h => by
    rw [tryUnfold, bind_eq_ok] at h
    obtain ⟨r, hr, h⟩ := h
    rcases r with - | ⟨p, s'⟩
    · cases h
      exact nofun
    · obtain ⟨rest, hre, rfl⟩ := bind_pure_eq_ok.1 h
      rw [flatten_cons, forall_mem_append]
      exact ⟨ht hr, forall_mem_tryUnfold ht hre⟩

def unfoldSeeds (f : S → Outcome E (Option (A × S))) : ℕ → S → List S
  | 0, _ => []
  | fuel + 1, s => s ::
    match f s with
    | .ok (some (_, s')) => unfoldSeeds f fuel s'
    | .ok none | .err _ | .panic => []

theorem unfold_next {s s' : S} {a : A} (h : f s = ok (some (a, s'))) (fuel : ℕ) :
    tryUnfold f (fuel + 1) s = (do let as ← tryUnfold f fuel s'; return a :: as) ∧
      unfoldSeeds f (fuel + 1) s = s :: unfoldSeeds f fuel s' := by
  rw [tryUnfold, unfoldSeeds, h]
  exact ⟨rfl, rfl⟩

theorem exists_unfold {I : S → Prop} {μ : S → ℕ} {P : S → List S → Outcome E (List A) → Prop}
    (hs : ∀ {s}, I s → (f s = ok none ∧ P s [s] (ok [])) ∨ (∃ e, f s = err e ∧ P s [s] (err e)) ∨
      ∃ a s', f s = ok (some (a, s')) ∧ I s' ∧ μ s' < μ s ∧ ∀ {seeds result}, P s' seeds result →
          P s (s :: seeds) (do let as ← result; return a :: as)) :
    ∀ {n s}, μ s = n → I s → ∃ seeds result, P s seeds result ∧ seeds.length ≤ n + 1 ∧
      ∀ fuel, seeds.length ≤ fuel → tryUnfold f fuel s = result ∧ unfoldSeeds f fuel s = seeds := by
  intro n
  induction n using Nat.strongRecOn with
  | ind n ih =>
    intro s hn hI
    rcases hs hI with ⟨hd, hP⟩ | ⟨e, he, hP⟩ | ⟨a, s', hne, hI', hμ, hP⟩
    · refine ⟨[s], ok [], hP, Nat.succ_le_succ (Nat.zero_le n), fun fuel hf => ?_⟩
      obtain ⟨fuel, rfl⟩ : ∃ k, fuel = k + 1 := Nat.exists_eq_add_of_le' hf
      rw [tryUnfold, unfoldSeeds, hd]
      exact ⟨rfl, rfl⟩
    · refine ⟨[s], err e, hP, Nat.succ_le_succ (Nat.zero_le n), fun fuel hf => ?_⟩
      obtain ⟨fuel, rfl⟩ : ∃ k, fuel = k + 1 := Nat.exists_eq_add_of_le' hf
      rw [tryUnfold, unfoldSeeds, he]
      exact ⟨rfl, rfl⟩
    · obtain ⟨seeds, result, hr, hl, hf⟩ := ih (μ s') (hn ▸ hμ) rfl hI'
      refine ⟨s :: seeds, _, hP hr, ?_, fun fuel hle => ?_⟩
      · rw [length_cons]
        omega
      · obtain ⟨fuel, rfl⟩ := Nat.exists_eq_add_of_le' (Nat.le_of_add_left_le hle)
        obtain ⟨hre, hse⟩ := hf fuel (Nat.le_of_succ_le_succ hle)
        obtain ⟨ht, hm⟩ := unfold_next hne fuel
        rw [ht, hm, hre, hse]
        exact ⟨rfl, rfl⟩

end Outcome

/-- Consecutive ranges, from the first of which to the last every number is covered. -/
def List.Tiles (start stop : ℤ) : List (ℤ × ℤ) → Prop
  | [] => start = stop + 1
  | r :: l => r.1 = start ∧ start ≤ r.2 ∧ r.2 ≤ stop ∧ l.Tiles (r.2 + 1) stop

variable {stop : ℤ} {A : Type*}

theorem List.Tiles.le_succ : ∀ {l : List (ℤ × ℤ)} {s : ℤ}, l.Tiles s stop → s ≤ stop + 1
  | [], _, h => Int.le_of_eq h
  | _ :: _, _, ⟨_, hle, hs, _⟩ => by omega

theorem List.Tiles.countP_eq {n : ℤ} : ∀ {l : List (ℤ × ℤ)} {s : ℤ}, l.Tiles s stop →
      l.countP (fun r => r.1 ≤ n ∧ n ≤ r.2) = if s ≤ n ∧ n ≤ stop then 1 else 0
  | [], s, h => by
    have hs : s = stop + 1 := h
    rw [countP_nil, if_neg (by omega)]
  | r :: l, s, ⟨hs, hle, hst, hr⟩ => by
    have hb := hr.le_succ
    rw [countP_cons, hr.countP_eq]
    simp only [decide_eq_true_eq]
    split_ifs <;> omega

def List.inRange {A : Type*} (num : A → ℤ) (start stop : ℤ) (l : List A) : List A :=
  l.filter fun x => start ≤ num x ∧ num x ≤ stop

variable {num : A → ℤ} {l : List A}

theorem mem_inRange {s : ℤ} {x : A} :
    x ∈ l.inRange num s stop ↔ x ∈ l ∧ s ≤ num x ∧ num x ≤ stop := by
  simp [inRange]

theorem inRange_of_lt {s : ℤ} (h : stop < s) :
    l.inRange num s stop = [] := by
  refine eq_nil_iff_forall_not_mem.2 fun x hx => ?_
  obtain ⟨-, hs, hst⟩ := mem_inRange.1 hx
  omega

theorem perm_inRange_append (num : A → ℤ) (l : List A) {start mid : ℤ} (hm : start ≤ mid)
    (hs : mid ≤ stop) :
    (l.inRange num start mid ++ l.inRange num (mid + 1) stop).Perm (l.inRange num start stop) := by
  have hl : (l.inRange num start stop).filter (fun x => num x ≤ mid) = l.inRange num start mid := by
    rw [inRange, inRange, filter_filter]
    refine filter_congr fun x _ => ?_
    rw [← Bool.decide_and, decide_eq_decide]
    omega
  have hh : (l.inRange num start stop).filter (fun x => !decide (num x ≤ mid))
      = l.inRange num (mid + 1) stop := by
    rw [inRange, inRange, filter_filter]
    refine filter_congr fun x _ => ?_
    rw [← decide_not, ← Bool.decide_and, decide_eq_decide]
    omega
  rw [← hl, ← hh]
  exact filter_append_perm _ _

theorem List.Tiles.perm_inRange {B : Type*} (num : A → ℤ) (xs : List A) {r : B → ℤ × ℤ}
    {its : B → List A} :
    ∀ {l : List B} {s : ℤ}, (l.map r).Tiles s stop →
      (∀ b ∈ l, (its b).Perm (xs.inRange num (r b).1 (r b).2)) →
      (l.flatMap its).Perm (xs.inRange num s stop)
  | [], s, h, _ => by
    have hs : s = stop + 1 := h
    rw [flatMap_nil, inRange_of_lt (by omega)]
  | b :: l, s, ⟨hs, hle, hst, hr⟩, hi => by
    have hf := hi b mem_cons_self
    rw [hs] at hf
    have ho := hr.perm_inRange num xs fun b' hb' => hi b' (mem_cons_of_mem b hb')
    rw [flatMap_cons]
    exact (hf.append ho).trans (perm_inRange_append num xs hle hst)
