/-
What is evicted from the LFU cache: a beginning of the order `EvictedBefore`, no longer than it
needs to be (`eviction_of_run`).
-/
import Massbit.Cache.LfuWeight

open Option

namespace Massbit

theorem Priority.le_iff {p q : Priority} :
    p ≤ q ↔ q.stale = true ∧ p.stale = false ∨ q.stale = p.stale ∧ q.freq ≤ p.freq := by
  rw [Prod.Lex.le_iff]
  show p.stale < q.stale ∨ p.stale = q.stale ∧ q.freq ≤ p.freq ↔ _
  rw [Bool.lt_iff, and_comm, eq_comm (a := p.stale) (b := q.stale)]

namespace LfuCache

variable {K V : Type} [DecidableEq K]

/-- The order in which entries are evicted. -/
def EvictedBefore (a b : CacheEntry K V × Priority) : Prop :=
  a.2.stale = true ∧ b.2.stale = false ∨ a.2.stale = b.2.stale ∧ a.2.freq ≤ b.2.freq

inductive Call (K V : Type) where
  | insert (key : K) (value : V)
  | get (key : K)
  | remove (key : K)
  | evictWithPeriod (maxWeight stalePeriod : ℕ)

def call [EntryWeight K V] (self : LfuCache K V) :
    HeapImpl (CacheEntry K V) Priority × Call K V → Option (LfuCache K V)
  | (_, .insert key value) => self.insert key value
  | (_, .get key) => some (self.get key).2
  | (impl, .remove key) => (self.remove impl key).map (·.2)
  | (impl, .evictWithPeriod maxWeight stalePeriod) =>
    (self.evictWithPeriod impl maxWeight stalePeriod).map (·.2)

variable {c c' : LfuCache K V} {maxWeight : ℕ} {popped : List (CacheEntry K V × Priority)}
  {self : LfuCache K V}

theorem Balanced.call [EntryWeight K V] (h : self.Balanced)
    {l : HeapImpl (CacheEntry K V) Priority × Call K V} (hs : self.call l = some c) :
    c.Balanced := by
  obtain ⟨impl, op⟩ := l
  cases op with
  | insert key v =>
    obtain ⟨c', hc', hb⟩ := h.insert key v
    obtain rfl : c' = c := Option.some.inj (hc'.symm.trans hs)
    exact hb
  | get key =>
    cases hs
    exact h.get key
  | remove key =>
    obtain ⟨⟨r, c'⟩, hc', rfl⟩ := map_eq_some_iff.1 hs
    obtain ⟨r', c'', hc'', hb⟩ := h.remove impl key
    obtain ⟨rfl, rfl⟩ := Prod.mk.inj (Option.some.inj (hc''.symm.trans hc'))
    exact hb
  | evictWithPeriod maxWeight sp =>
    obtain ⟨⟨r, c'⟩, hc', rfl⟩ := map_eq_some_iff.1 hs
    rcases Nat.lt_or_ge maxWeight self.totalWeight with hgt | hle
    · obtain ⟨popped, c'', hc'', -, hb⟩ := h.evictWithPeriod impl hgt sp
      obtain ⟨rfl, rfl⟩ := Prod.mk.inj (Option.some.inj (hc''.symm.trans hc'))
      exact hb
    · obtain ⟨rfl, rfl⟩ := Prod.mk.inj
        (Option.some.inj ((evictWithPeriod_of_le impl hle sp).symm.trans hc'))
      exact h

theorem balanced_of_run [EntryWeight K V]
    {cs : List (HeapImpl (CacheEntry K V) Priority × Call K V)}
    {ok : LfuCache K V → HeapImpl (CacheEntry K V) Priority × Call K V → Prop}
    (h : Run call ok new cs c) : c.Balanced :=
  h.invariant (I := fun _ c => c.Balanced) balanced_new fun hi _ hs => hi.call hs

def mark (e : CacheEntry K V × Priority) : CacheEntry K V × Priority :=
  ({ e.1 with willStale := true }, .mk e.1.willStale e.2.freq)

omit [DecidableEq K] in
theorem mark_key (e : CacheEntry K V × Priority) : (mark e).1.key = e.1.key := rfl

theorem get?_markStale (self : LfuCache K V) (key : K) :
    self.markStale.queue.get? key = (self.queue.get? key).map mark :=
  KeyedQueue.get?_map self.queue mark_key key

theorem peek_checked (self : LfuCache K V) (sp : ℕ) (key : K) :
    (self.checked sp).peek key = self.peek key := by
  unfold checked
  split
  · rw [peek, get?_markStale, map_map]
    rfl
  · rfl

variable {impl : HeapImpl (CacheEntry K V) Priority}

theorem Evicts.peek_eq (h : Evicts impl maxWeight c popped c') (key : K) :
    c'.peek key = if key ∈ popped.map (·.1.key) then none else c.peek key := by
  rw [peek, h.pops.get?_eq, apply_ite (Option.map _)]
  rfl

theorem Evicts.exists_order (h : Evicts impl maxWeight c popped c') :
    ∃ rest, rest.Perm c'.queue.entries ∧ (popped ++ rest).Perm c.queue.entries ∧
      (popped ++ rest).Pairwise EvictedBefore := by
  obtain ⟨rest, hr, hp, hpa⟩ := h.pops.exists_order
  exact ⟨rest, hr, hp, hpa.imp Priority.le_iff.1⟩

theorem Evicts.exists_last (h : Evicts impl maxWeight c popped c')
    (hgt : maxWeight < c.totalWeight) :
    ∃ last ∈ popped.getLast?, maxWeight < c'.totalWeight + last.1.weight := by
  cases hl : popped.getLast? with
  | none =>
    obtain rfl := List.getLast?_eq_none_iff.mp hl
    have htotal := h.totalWeight
    have hle := h.le_max
    rw [List.map_nil, List.sum_nil] at htotal
    omega
  | some last => exact ⟨last, rfl, h.last last hl⟩

variable (impl) in
theorem Balanced.remove_exactly (h : self.Balanced) (key : K) :
    ∃ c, self.remove impl key = some (self.peek key, c) ∧ c.queue = self.queue.erase key := by
  cases hq : self.queue.get? key with
  | none =>
    refine ⟨self, ?_, (KeyedQueue.erase_eq_self hq).symm⟩
    rw [remove_of_absent hq, peek_eq_none.mpr hq]
  | some e =>
    have hle := h.weight_le (KeyedQueue.mem_of_get? hq)
    rcases remove_of_present impl hq with ⟨hlt, -⟩ | ⟨-, c, hc, hqu, -⟩
    · omega
    · refine ⟨c, ?_, hqu⟩
      rw [hc, peek, hq, map_some]

/-- **Evictions.** The entries that an eviction takes are a beginning of the entries in the order of
`EvictedBefore`, and without the last of them the cache would still be too heavy. -/
theorem eviction_of_run [EntryWeight K V]
    {calls : List (HeapImpl (CacheEntry K V) Priority × Call K V)} {c : LfuCache K V}
    (h : Run call (fun _ _ => True) new calls c) (impl : HeapImpl (CacheEntry K V) Priority) :
    (∀ maxWeight stalePeriod, ∃ result c',
      c.evictWithPeriod impl maxWeight stalePeriod = some (result, c') ∧
      (result = none ↔ c.totalWeight ≤ maxWeight) ∧ (result = none → c' = c) ∧
      ∀ evicted old new, result = some (evicted, old, new) →
        old = c.weightSum ∧ new = c'.weightSum ∧ old = evicted + new ∧ new ≤ maxWeight ∧
        ∃ popped rest : List (CacheEntry K V × Priority), evicted = (popped.map (·.1.weight)).sum ∧
          (popped ++ rest).Perm (c.checked stalePeriod).queue.entries ∧
          (popped ++ rest).Pairwise EvictedBefore ∧ rest.Perm c'.queue.entries ∧
          (∃ last ∈ popped.getLast?, maxWeight < new + last.1.weight) ∧
          ∀ key, c'.peek key = if key ∈ popped.map (·.1.key) then none else c.peek key) ∧
    ∀ key, ∃ c', c.remove impl key = some (c.peek key, c') ∧ c'.queue = c.queue.erase key ∧
      ∀ k, c'.peek k = if k = key then none else c.peek k := by
  have hb := balanced_of_run h
  refine ⟨fun maxWeight stalePeriod => ?_, fun key => ?_⟩
  · rcases Nat.lt_or_ge maxWeight c.totalWeight with hgt | hle
    · obtain ⟨popped, c', he, hev, hb'⟩ := hb.evictWithPeriod impl hgt stalePeriod
      refine ⟨_, c', he, iff_of_false (some_ne_none _) (Nat.not_le.2 hgt),
        fun hn => absurd hn (some_ne_none _), ?_⟩
      rintro evicted old new ⟨⟩
      obtain ⟨rest, hr, hp, hpa⟩ := hev.exists_order
      have ht := hev.totalWeight
      rw [checked_totalWeight] at ht
      refine ⟨hb, hb', ht, hev.le_max, popped, rest, rfl, hp, hpa, hr,
        hev.exists_last (by rwa [checked_totalWeight]), fun key => ?_⟩
      rw [hev.peek_eq, peek_checked]
    · refine ⟨none, c, evictWithPeriod_of_le impl hle stalePeriod, iff_of_true rfl hle,
        fun _ => rfl, ?_⟩
      rintro evicted old new ⟨⟩
  · obtain ⟨c', hc', hq⟩ := hb.remove_exactly impl key
    exact ⟨c', hc', hq, (peek_remove hc').2⟩

def sampleCalls : List (HeapImpl (CacheEntry ℕ ℕ) Priority × Call ℕ ℕ) :=
  [.insert 1 2, .get 1, .insert 2 3].map (Prod.mk .pushing)

def sampleCache : LfuCache ℕ ℕ where
  queue :=
    ⟨[({ weight := 2, key := 1, value := 2, willStale := false }, .mk false 2),
      ({ weight := 3, key := 2, value := 3, willStale := false }, .mk false 1)], by decide⟩
  totalWeight := 5
  staleCounter := 0
  freq_pos := by decide

theorem eviction_of_sampleCalls : Run call (fun _ _ => True) new sampleCalls sampleCache ∧
      ∃ result c', sampleCache.evictWithPeriod .pushing 3 stalePeriod
          = some (result, c') ∧ (result = none ↔ sampleCache.totalWeight ≤ 3) ∧ result ≠ none := by
  have hr : Run call (fun _ _ => True) new sampleCalls sampleCache := .of_foldlM rfl
  obtain ⟨result, c', he, hn, -⟩ := (eviction_of_run hr .pushing).1 3 stalePeriod
  exact ⟨hr, result, c', he, hn, fun h => absurd (hn.1 h) (by decide)⟩

end LfuCache

end Massbit
