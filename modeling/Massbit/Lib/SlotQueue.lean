/-
A queue of values by 64 bit numbers, and the loop that takes out what comes next: `drain_spec`.
-/
import Massbit.Lib.MapLoop
import Mathlib.Algebra.Order.BigOperators.Group.List
import Mathlib.Algebra.Order.Ring.Nat
import Mathlib.Data.List.Range

/-- The numbers from `start` on are there without a gap, and the `k`-th one after it is not. -/
structure IsRun (start : ℕ) (numbers : List ℕ) (k : ℕ) : Prop where
  mem : ∀ i < k, start + i ∈ numbers
  notMem : start + k ∉ numbers

namespace IsRun

variable {start k k' : ℕ} {numbers : List ℕ}

theorem exists_length (start : ℕ) (numbers : List ℕ) : ∃ k, IsRun start numbers k := by
  have hn : ∃ k, start + k ∉ numbers := by
    refine ⟨numbers.sum + 1, fun h => ?_⟩
    have := List.le_sum_of_mem h
    omega
  exact ⟨Nat.find hn, fun i hi => not_not.1 (Nat.find_min hn hi), Nat.find_spec hn⟩

theorem unique (h : IsRun start numbers k) (h' : IsRun start numbers k') : k = k' := by
  rcases lt_trichotomy k k' with hlt | heq | hlt
  · exact absurd (h'.mem k hlt) h.notMem
  · exact heq
  · exact absurd (h.mem k' hlt) h'.notMem

end IsRun

theorem UInt64.ofNat_add_one (n : ℕ) : UInt64.ofNat n + 1 = UInt64.ofNat (n + 1) :=
  (UInt64.ofNat_add n 1).symm

namespace Finmap

variable {V : Type*}

def drain : ℕ → HashMap UInt64 V → UInt64 → List V × HashMap UInt64 V × UInt64
  | 0, m, key => ([], m, key)
  | fuel + 1, m, key =>
    match m.lookup key with
    | none => ([], m, key)
    | some v =>
      let (vs, rest) := drain fuel (m.erase key) (key + 1)
      (v :: vs, rest)

variable {m : HashMap UInt64 V}

theorem drain_of_lookup_eq_none {key : UInt64} (h : m.lookup key = none) (fuel : ℕ) :
    drain fuel m key = ([], m, key) := by
  cases fuel with
  | zero => rfl
  | succ fuel => simp only [drain, h]

theorem lookup_of_lookup_erase {a key : UInt64} {v : V} (h : (m.erase key).lookup a = some v) :
    m.lookup a = some v := by
  by_cases ha : a = key
  · rw [ha, lookup_erase] at h
    cases h
  · rwa [lookup_erase_ne ha] at h

structure Drained (m : HashMap UInt64 V) (t t' : ℕ)
    (result : List V × HashMap UInt64 V × UInt64) : Prop where
  le : t ≤ t'
  key_eq : result.2.2 = .ofNat t'
  values : List.Forall₂ (fun i v => m.lookup (.ofNat i) = some v) (List.range' t (t' - t)) result.1
  toNat_ne : ∀ a ∈ m, a.toNat ≠ t'
  lookup_eq : ∀ a, result.2.1.lookup a = if a.toNat < t' then none else m.lookup a

namespace Drained

variable {m : HashMap UInt64 V} {t t' : ℕ}

theorem nil (hm : ∀ a ∈ m, t ≤ a.toNat) (h : m.lookup (.ofNat t) = none) :
    Drained m t t ([], m, .ofNat t) where
  le := le_rfl
  key_eq := rfl
  values := by
    rw [Nat.sub_self]
    exact .nil
  toNat_ne a ha hat := by
    have hkey : a = .ofNat t := by rw [← hat, UInt64.ofNat_toNat]
    exact absurd ha (lookup_eq_none.mp (hkey ▸ h))
  lookup_eq a := by
    split_ifs with hlt
    · exact lookup_eq_none.2 fun ha => absurd (hm a ha) (not_le.2 hlt)
    · rfl

theorem cons {v : V} {vs : List V} {rest : HashMap UInt64 V × UInt64}
    (hl : m.lookup (.ofNat t) = some v) (hn : (UInt64.ofNat t).toNat = t)
    (h : Drained (m.erase (.ofNat t)) (t + 1) t' (vs, rest)) :
    Drained m t t' (v :: vs, rest) where
  le := (Nat.le_succ t).trans h.le
  key_eq := h.key_eq
  values := by
    have hle := h.le
    have hr : List.range' t (t' - t) = t :: List.range' (t + 1) (t' - (t + 1)) := by
      rw [show t' - t = t' - (t + 1) + 1 by omega, List.range'_succ]
    rw [hr]
    exact .cons hl (h.values.imp fun _ _ => lookup_of_lookup_erase)
  toNat_ne a ha hat := by
    have hle := h.le
    refine h.toNat_ne a (mem_erase.mpr ⟨?_, ha⟩) hat
    rintro rfl
    omega
  lookup_eq a := by
    have hle := h.le
    rw [h.lookup_eq a]
    split_ifs with hlt
    · rfl
    · refine lookup_erase_ne fun heq => ?_
      rw [heq, hn] at hlt
      omega

end Drained

theorem drain_spec {stop : ℕ} (hs : stop ≤ 2 ^ 64) :
    ∀ {fuel : ℕ} {m : HashMap UInt64 V} {t : ℕ}, m.keys.card ≤ fuel → t ≤ stop →
      (∀ a ∈ m, t ≤ a.toNat ∧ a.toNat < stop) →
      ∃ t' ≤ stop, Drained m t t' (drain fuel m (.ofNat t))
  | fuel, m, t, hf, ht, hm => by
    rcases hl : m.lookup (.ofNat t) with - | v
    · rw [drain_of_lookup_eq_none hl]
      exact ⟨t, ht, .nil (fun a ha => (hm a ha).1) hl⟩
    · have hme : UInt64.ofNat t ∈ m := mem_of_lookup_eq_some hl
      have hc : 0 < m.keys.card := Finset.card_pos.2 ⟨_, mem_keys.2 hme⟩
      obtain ⟨fuel, rfl⟩ : ∃ n, fuel = n + 1 := ⟨fuel - 1, by omega⟩
      -- `stop` itself is not in the queue, even if it wraps around to 0
      have hlt : t < stop := by
        have hb := hm _ hme
        rcases ht.lt_or_eq with hlt | rfl
        · exact hlt
        · have := Nat.mod_le t (2 ^ 64)
          omega
      have hn : (UInt64.ofNat t).toNat = t := UInt64.toNat_ofNat_of_lt (hlt.trans_le hs)
      have hr : ∀ a ∈ m.erase (.ofNat t), t + 1 ≤ a.toNat ∧ a.toNat < stop := by
        intro a ha
        obtain ⟨hne, ha⟩ := mem_erase.1 ha
        have hb := hm a ha
        have hat : a.toNat ≠ t := fun e => hne (by rw [← e, UInt64.ofNat_toNat])
        omega
      have hf' : (m.erase (.ofNat t)).keys.card ≤ fuel := by
        rw [keys_erase, Finset.card_erase_of_mem (mem_keys.2 hme)]
        omega
      obtain ⟨t', hs', hd⟩ := drain_spec hs hf' hlt hr
      have hdr : drain (fuel + 1) m (.ofNat t) =
          (v :: (drain fuel (m.erase (.ofNat t)) (.ofNat (t + 1))).1,
            (drain fuel (m.erase (.ofNat t)) (.ofNat (t + 1))).2) := by
        simp only [drain, hl, UInt64.ofNat_add_one]
      rw [hdr]
      exact ⟨t', hs', hd.cons hl hn⟩

end Finmap
