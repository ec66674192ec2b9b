/-
The LFU cache (`util/lfu_cache.rs`).
-/
import Massbit.Lib.KeyedQueue
import Mathlib.Data.Prod.Lex

open KeyedQueue List Option

namespace Massbit

/-- `CacheEntry::weight`, the estimated size of an entry, which is left open. -/
class EntryWeight (K V : Type) where
  weight : K → V → ℕ

structure CacheEntry (K V : Type) where
  weight : ℕ
  key : K
  value : V
  willStale : Bool

/-- `(stale, Reverse(frequency))`: stale entries first, then by least frequency. -/
abbrev Priority := Bool ×ₗ ℕᵒᵈ

namespace Priority

def mk (stale : Bool) (freq : ℕ) : Priority := toLex (stale, OrderDual.toDual freq)

def stale (p : Priority) : Bool := (ofLex p).1

def freq (p : Priority) : ℕ := OrderDual.ofDual (ofLex p).2

@[simp] theorem freq_mk (s : Bool) (f : ℕ) : (mk s f).freq = f := rfl

theorem freq_eq_zero_of_le {p : Priority} (h : mk true 0 ≤ p) : p.freq = 0 := by
  rcases Prod.Lex.le_iff.1 h with h | ⟨-, h⟩
  · exact absurd h (by cases (ofLex p).1 <;> simp [mk])
  · exact Nat.le_zero.1 (OrderDual.toDual_le_toDual.1 h)

end Priority

structure LfuCache (K V : Type) where
  queue : KeyedQueue (CacheEntry.key : CacheEntry K V → K) Priority
  totalWeight : ℕ
  staleCounter : ℕ
  freq_pos : ∀ e ∈ queue.entries, 1 ≤ e.2.freq

namespace LfuCache

variable {K V : Type}

def stalePeriod : ℕ := 100

def new : LfuCache K V := ⟨.empty, 0, 0, by simp [KeyedQueue.empty]⟩

def isEmpty (self : LfuCache K V) : Bool := self.queue.entries.isEmpty

section Operations

variable [DecidableEq K]

def getMut (self : LfuCache K V) (key : K) : Option (CacheEntry K V) × LfuCache K V :=
  let touched := (self.queue.changePriorityBy key fun p => .mk p.stale (p.freq + 1)).modify key
    (fun e => ({ e.1 with willStale := false }, e.2)) fun _ => rfl
  ((touched.get? key).map (·.1),
    { self with
      queue := touched
      freq_pos := forall_modify
        (forall_modify self.freq_pos fun _ _ => Nat.succ_pos _) fun _ h => h })

def get (self : LfuCache K V) (key : K) : Option V × LfuCache K V :=
  ((self.getMut key).1.map (·.value), (self.getMut key).2)

def containsKey (self : LfuCache K V) (key : K) : Bool :=
  (self.queue.get? key).isSome

def checkedSub (a b : ℕ) : Option ℕ := if b ≤ a then some (a - b) else none

def insert [EntryWeight K V] (self : LfuCache K V) (key : K) (value : V) :
    Option (LfuCache K V) :=
  let weight := EntryWeight.weight key value
  let touched := (self.getMut key).2
  match (self.getMut key).1 with
  | none =>
    some
      { touched with
        totalWeight := touched.totalWeight + weight
        queue := touched.queue.push ({ weight, key, value, willStale := false }, .mk false 1)
        freq_pos := by
          intro e he
          rcases KeyedQueue.get?_push_cases (KeyedQueue.get?_of_mem he) with
            ⟨e₀, h₀, -, h₁ | h₁⟩ | ⟨rfl, -⟩
          · rw [h₁]
            exact touched.freq_pos e₀ (mem_of_get? h₀)
          · simp [h₁]
          · simp }
  | some entry => do
    let rest ← checkedSub touched.totalWeight entry.weight
    some
      { touched with
        totalWeight := rest + weight
        queue := touched.queue.modify key (fun e => ({ e.1 with weight, value }, e.2)) fun _ => rfl
        freq_pos := forall_modify touched.freq_pos fun _ h => h }

variable (impl : HeapImpl (CacheEntry K V) Priority)

def remove (self : LfuCache K V) (key : K) : Option (Option V × LfuCache K V) :=
  match self.queue.get? key with
  | none => some (none, self)
  | some _ =>
    match h : (self.queue.changePriority key (.mk true 0)).pop impl with
    | none => some (none, self)
    | some (e, rest) =>
      if hk : e.1.key = key then do
        let totalWeight ← checkedSub self.totalWeight e.1.weight
        some (some e.1.value,
          { self with
            totalWeight
            queue := rest
            freq_pos := by
              obtain ⟨-, -, rfl⟩ := pop_eq_some h
              rw [hk, KeyedQueue.changePriority, erase_modify]
              exact forall_erase self.freq_pos key })
      else none

def markStale (self : LfuCache K V) : LfuCache K V :=
  { self with
    queue := self.queue.map
      (fun e => ({ e.1 with willStale := true }, .mk e.1.willStale e.2.freq)) fun _ => rfl
    freq_pos := by
      intro e he
      obtain ⟨e', he', rfl⟩ := List.mem_map.1 he
      exact self.freq_pos e' he' }

def evictLoop (maxWeight : ℕ) : ℕ → ℕ → LfuCache K V → Option (ℕ × LfuCache K V)
  | 0, _, _ => none
  | fuel + 1, evicted, self =>
    if self.totalWeight > maxWeight then
      match h : self.queue.pop impl with
      | none => none
      | some (entry, rest) => do
        let totalWeight ← checkedSub self.totalWeight entry.1.weight
        evictLoop maxWeight fuel (evicted + entry.1.weight)
          { self with
            totalWeight
            queue := rest
            freq_pos := by
              obtain ⟨-, -, rfl⟩ := pop_eq_some h
              exact forall_erase self.freq_pos _ }
    else some (evicted, self)

def evictWithPeriod (self : LfuCache K V) (maxWeight stalePeriod : ℕ) :
    Option (Option (ℕ × ℕ × ℕ) × LfuCache K V) :=
  if self.totalWeight ≤ maxWeight then some (none, self)
  else
    let counted := { self with staleCounter := self.staleCounter + 1 }
    let marked :=
      if counted.staleCounter = stalePeriod then { counted with staleCounter := 0 }.markStale
      else counted
    (evictLoop impl maxWeight (marked.queue.entries.length + 1) 0 marked).map fun r =>
      (some (r.1, marked.totalWeight, r.2.totalWeight), r.2)

def evict (self : LfuCache K V) (maxWeight : ℕ) :
    Option (Option (ℕ × ℕ × ℕ) × LfuCache K V) :=
  self.evictWithPeriod impl maxWeight stalePeriod

def extend (self other : LfuCache K V) : LfuCache K V :=
  { self with
    queue := self.queue.extend impl other.queue.entries
    freq_pos := by
      intro e he
      obtain ⟨-, e', he', h⟩ := mem_extend impl he
      rw [← h]
      rcases List.mem_append.1 he' with he' | he'
      · exact self.freq_pos e' he'
      · exact other.freq_pos e' he' }

end Operations

variable [DecidableEq K]

def touch (e : CacheEntry K V × Priority) : CacheEntry K V × Priority :=
  ({ e.1 with willStale := false }, .mk e.2.stale (e.2.freq + 1))

omit [DecidableEq K] in
theorem touch_key (e : CacheEntry K V × Priority) : (touch e).1.key = e.1.key := rfl

theorem getMut_queue (self : LfuCache K V) (key : K) :
    (self.getMut key).2.queue = self.queue.modify key touch touch_key :=
  modify_modify self.queue key (f := fun e => (e.1, .mk e.2.stale (e.2.freq + 1)))
    (g := fun e => ({ e.1 with willStale := false }, e.2)) (fun _ => rfl) fun _ => rfl

@[simp] theorem getMut_totalWeight (self : LfuCache K V) (key : K) :
    (self.getMut key).2.totalWeight = self.totalWeight := rfl

theorem getMut_fst (self : LfuCache K V) (key : K) :
    (self.getMut key).1 = (self.queue.get? key).map fun e => (touch e).1 := by
  have h : (self.getMut key).1 = ((self.getMut key).2.queue.get? key).map (·.1) := rfl
  rw [h, getMut_queue, KeyedQueue.get?_modify_self, Option.map_map]
  rfl

def peek (self : LfuCache K V) (key : K) : Option V := (self.queue.get? key).map (·.1.value)

theorem containsKey_eq (self : LfuCache K V) (key : K) :
    self.containsKey key = (self.peek key).isSome := by
  simp [containsKey, peek]

variable {self : LfuCache K V} {key : K}

theorem peek_eq_none :
    self.peek key = none ↔ self.queue.get? key = none := by
  simp [peek]

@[simp] theorem get_fst (self : LfuCache K V) (key : K) : (self.get key).1 = self.peek key := by
  show (self.getMut key).1.map _ = _
  rw [getMut_fst, Option.map_map]
  rfl

@[simp] theorem peek_getMut (self : LfuCache K V) (key k : K) :
    (self.getMut key).2.peek k = self.peek k := by
  rw [peek, getMut_queue]
  by_cases h : k = key
  · subst h
    rw [KeyedQueue.get?_modify_self, Option.map_map]
    rfl
  · rw [KeyedQueue.get?_modify_of_ne _ h]
    rfl

@[simp] theorem peek_get (self : LfuCache K V) (key k : K) :
    (self.get key).2.peek k = self.peek k :=
  self.peek_getMut key k

def rewrite (weight : ℕ) (value : V) (e : CacheEntry K V × Priority) :
    CacheEntry K V × Priority :=
  ({ (touch e).1 with weight, value }, (touch e).2)

omit [DecidableEq K] in
theorem rewrite_key (w : ℕ) (v : V) (e : CacheEntry K V × Priority) :
    (rewrite w v e).1.key = e.1.key := rfl

theorem insert_of_absent [EntryWeight K V] (h : self.queue.get? key = none) (value : V) :
    ∃ c, self.insert key value = some c ∧
      c.queue = self.queue.add
        ({ weight := EntryWeight.weight key value, key, value, willStale := false },
          .mk false 1) h ∧
      c.totalWeight = self.totalWeight + EntryWeight.weight key value := by
  have hq : (self.getMut key).2.queue = self.queue := by
    rw [getMut_queue, modify_eq_self h]
  have hm : (self.getMut key).1 = none := by rw [getMut_fst, h, map_none]
  simp only [insert, hm]
  refine ⟨_, rfl, ?_, rfl⟩
  simp only [hq]
  exact push_eq_add h

variable {e : CacheEntry K V × Priority} {c : LfuCache K V}

theorem insert_of_present [EntryWeight K V] (h : self.queue.get? key = some e) (value : V) :
    (self.totalWeight < e.1.weight ∧ self.insert key value = none) ∨
    e.1.weight ≤ self.totalWeight ∧ ∃ c, self.insert key value = some c ∧
      c.queue = self.queue.modify key (rewrite (EntryWeight.weight key value) value)
        (rewrite_key _ _) ∧
      c.totalWeight = self.totalWeight - e.1.weight + EntryWeight.weight key value := by
  have hm : (self.getMut key).1 = some (touch e).1 := by rw [getMut_fst, h, map_some]
  have hw : (touch e).1.weight = e.1.weight := rfl
  rcases Nat.lt_or_ge self.totalWeight e.1.weight with hlt | hle
  · refine .inl ⟨hlt, ?_⟩
    simp [insert, hm, hw, checkedSub, Nat.not_le.2 hlt]
  · refine .inr ⟨hle, ?_⟩
    simp only [insert, hm, hw, checkedSub, getMut_totalWeight, if_pos hle, bind_eq_bind,
      bind_some]
    refine ⟨_, rfl, ?_, rfl⟩
    simp only [getMut_queue]
    exact modify_modify self.queue key (g := fun e =>
      ({ e.1 with weight := EntryWeight.weight key value, value }, e.2)) touch_key fun _ => rfl

variable (impl : HeapImpl (CacheEntry K V) Priority)

theorem pop_changePriority (self : LfuCache K V) (h : self.queue.get? key = some e) :
    (self.queue.changePriority key (.mk true 0)).pop impl
      = some ((e.1, .mk true 0), self.queue.erase key) := by
  have hm : (e.1, Priority.mk true 0) ∈ (self.queue.changePriority key (.mk true 0)).entries := by
    refine mem_of_get? (k := key) ?_
    rw [KeyedQueue.changePriority, KeyedQueue.get?_modify_self, h]
    rfl
  cases hp : (self.queue.changePriority key (.mk true 0)).pop impl with
  | none =>
    rw [pop_eq_none hp] at hm
    cases hm
  | some r =>
    obtain ⟨e', rest⟩ := r
    obtain ⟨he', hma, rfl⟩ := pop_eq_some hp
    have hz : e'.2.freq = 0 := Priority.freq_eq_zero_of_le (hma _ hm)
    have hk : e'.1.key = key := by
      by_contra hne
      have hg := KeyedQueue.get?_of_mem he'
      rw [KeyedQueue.changePriority, KeyedQueue.get?_modify_of_ne _ hne] at hg
      have := self.freq_pos e' (mem_of_get? hg)
      omega
    have heq : e' = (e.1, Priority.mk true 0) :=
      eq_of_key he' hm (hk.trans (KeyedQueue.get?_key h).symm)
    subst heq
    rw [hk, KeyedQueue.changePriority, erase_modify]

variable {impl} in
theorem remove_of_absent (h : self.queue.get? key = none) :
    self.remove impl key = some (none, self) := by
  simp [remove, h]

theorem remove_of_present (h : self.queue.get? key = some e) :
    (self.totalWeight < e.1.weight ∧ self.remove impl key = none) ∨
    e.1.weight ≤ self.totalWeight ∧ ∃ c, self.remove impl key = some (some e.1.value, c) ∧
      c.queue = self.queue.erase key ∧ c.totalWeight = self.totalWeight - e.1.weight := by
  have hp := self.pop_changePriority impl h
  have hk : e.1.key = key := KeyedQueue.get?_key h
  unfold remove
  simp only [h]
  split
  next hn =>
    rw [hp] at hn
    cases hn
  next e' rest hs =>
    rw [hp] at hs
    cases hs
    rw [dif_pos hk]
    rcases Nat.lt_or_ge self.totalWeight e.1.weight with hlt | hle
    · refine .inl ⟨hlt, ?_⟩
      simp [checkedSub, Nat.not_le.2 hlt]
    · refine .inr ⟨hle, ?_⟩
      simp only [checkedSub, if_pos hle, bind_eq_bind, bind_some]
      exact ⟨_, rfl, rfl, rfl⟩

variable {impl}

/-- An eviction down to `maxWeight` that pops the entries of the list. -/
structure Evicts (impl : HeapImpl (CacheEntry K V) Priority) (maxWeight : ℕ) (c : LfuCache K V)
    (popped : List (CacheEntry K V × Priority)) (c' : LfuCache K V) : Prop where
  pops : c.queue.Pops impl popped c'.queue
  totalWeight : c.totalWeight = (popped.map (·.1.weight)).sum + c'.totalWeight
  le_max : c'.totalWeight ≤ maxWeight
  last : ∀ e ∈ popped.getLast?, maxWeight < c'.totalWeight + e.1.weight
  staleCounter : c'.staleCounter = c.staleCounter

theorem evictLoop_eq_some {mw : ℕ} : ∀ {fuel ev : ℕ} {self c : LfuCache K V} {n : ℕ},
    evictLoop impl mw fuel ev self = some (n, c) →
      ∃ p, Evicts impl mw self p c ∧ n = ev + (p.map (·.1.weight)).sum
  | 0, _, _, _, _, h => by cases h
  | fuel + 1, ev, self, c, n, h => by
    rw [evictLoop] at h
    split at h
    next hgt =>
      split at h
      next => cases h
      next en rest hp =>
        obtain ⟨w, hw, h⟩ := bind_eq_some_iff.1 h
        obtain ⟨hle, hw⟩ := ite_none_right_eq_some.1 hw
        cases hw
        obtain ⟨p, hev, hn⟩ := evictLoop_eq_some h
        have ht : self.totalWeight - en.1.weight
            = (p.map (·.1.weight)).sum + c.totalWeight := hev.totalWeight
        refine ⟨en :: p, ⟨.cons hp hev.pops, ?_, hev.le_max, ?_, hev.staleCounter⟩, ?_⟩
        · rw [map_cons, sum_cons]
          omega
        · intro e he
          cases hl : p.getLast? with
          | none =>
            obtain rfl := List.getLast?_eq_none_iff.mp hl
            obtain rfl : en = e := Option.some.inj he
            rw [map_nil, sum_nil] at ht
            omega
          | some e' =>
            obtain ⟨f, rfl⟩ := List.getLast?_eq_some_iff.1 hl
            rw [← cons_append, List.getLast?_concat] at he
            obtain rfl : e' = e := Option.some.inj he
            exact hev.last e' hl
        · rw [hn, map_cons, sum_cons, Nat.add_assoc]
    next hle =>
      cases h
      exact ⟨[], ⟨.nil _, (Nat.zero_add _).symm, Nat.not_lt.1 hle,
        fun e he => absurd he (not_mem_none e), rfl⟩, rfl⟩

variable {v : V}

theorem peek_eq_some :
    self.peek key = some v ↔ ∃ e ∈ self.queue.entries, e.1.key = key ∧ e.1.value = v := by
  rw [peek, map_eq_some_iff]
  constructor
  · rintro ⟨e, he, hv⟩
    exact ⟨e, mem_of_get? he, KeyedQueue.get?_key he, hv⟩
  · rintro ⟨e, he, rfl, hv⟩
    exact ⟨e, KeyedQueue.get?_of_mem he, hv⟩

theorem peek_insert [EntryWeight K V] (h : self.insert key v = some c) (k : K) :
    c.peek k = if k = key then some v else self.peek k := by
  cases hq : self.queue.get? key with
  | none =>
    obtain ⟨c', hc', hqu, -⟩ := insert_of_absent hq v
    obtain rfl : c' = c := Option.some.inj (hc'.symm.trans h)
    rw [peek, hqu]
    by_cases hk : k = key
    · subst hk
      rw [if_pos rfl]
      exact congrArg (Option.map _) (KeyedQueue.get?_add_self self.queue hq)
    · rw [if_neg hk, KeyedQueue.get?_add_of_ne self.queue hq hk]
      rfl
  | some e =>
    rcases insert_of_present hq v with ⟨-, hn⟩ | ⟨-, c', hc', hqu, -⟩
    · rw [hn] at h
      cases h
    · obtain rfl : c' = c := Option.some.inj (hc'.symm.trans h)
      rw [peek, hqu]
      by_cases hk : k = key
      · subst hk
        rw [if_pos rfl, KeyedQueue.get?_modify_self, hq]
        rfl
      · rw [if_neg hk, KeyedQueue.get?_modify_of_ne _ hk]
        rfl

theorem peek_remove {r : Option V} (h : self.remove impl key = some (r, c)) :
    r = self.peek key ∧ ∀ k, c.peek k = if k = key then none else self.peek k := by
  cases hq : self.queue.get? key with
  | none =>
    rw [remove_of_absent hq] at h
    obtain ⟨rfl, rfl⟩ := Prod.mk.inj (Option.some.inj h)
    have hp : self.peek key = none := peek_eq_none.2 hq
    refine ⟨hp.symm, fun k => ?_⟩
    by_cases hk : k = key
    · rw [if_pos hk, hk, hp]
    · rw [if_neg hk]
  | some e =>
    rcases remove_of_present impl hq with ⟨-, hn⟩ | ⟨-, c', hc', hqu, -⟩
    · rw [hn] at h
      cases h
    · obtain ⟨rfl, rfl⟩ := Prod.mk.inj (Option.some.inj (hc'.symm.trans h))
      refine ⟨by rw [peek, hq, map_some], fun k => ?_⟩
      rw [peek, hqu]
      by_cases hk : k = key
      · rw [if_pos hk, hk, KeyedQueue.get?_erase_self, map_none]
      · rw [if_neg hk, KeyedQueue.get?_erase_of_ne _ hk]
        rfl

theorem peek_extend {self o : LfuCache K V} (h : (self.extend impl o).peek key = some v) :
    self.peek key = some v ∨ o.peek key = some v := by
  obtain ⟨e, he, hk, hv⟩ := peek_eq_some.1 h
  obtain ⟨⟨e', he', heq⟩, -⟩ := mem_extend impl he
  rw [← heq] at hk hv
  rcases mem_append.1 he' with he' | he'
  · exact .inl (peek_eq_some.2 ⟨e', he', hk, hv⟩)
  · exact .inr (peek_eq_some.2 ⟨e', he', hk, hv⟩)

theorem peek_evict {mw : ℕ} {r : Option (ℕ × ℕ × ℕ)} (h : self.evict impl mw = some (r, c))
    (hv : c.peek key = some v) :
    self.peek key = some v := by
  unfold evict evictWithPeriod at h
  split at h
  next =>
    obtain ⟨-, rfl⟩ := Prod.mk.inj (Option.some.inj h)
    exact hv
  next =>
    obtain ⟨⟨n, c'⟩, hl, heq⟩ := map_eq_some_iff.1 h
    obtain ⟨-, rfl⟩ := Prod.mk.inj heq
    obtain ⟨e, he, hk, hva⟩ := peek_eq_some.1 hv
    obtain ⟨p, hev, -⟩ := evictLoop_eq_some hl
    have hm := hev.pops.perm.mem_iff.2 (mem_append_right _ he)
    split at hm
    next =>
      obtain ⟨e', he', rfl⟩ := mem_map.1 hm
      exact peek_eq_some.2 ⟨e', he', hk, hva⟩
    next => exact peek_eq_some.2 ⟨e, hm, hk, hva⟩

end LfuCache

end Massbit
