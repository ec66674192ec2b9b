/-
The accounting of the LFU cache.
-/
import Massbit.Cache.Lfu
import Massbit.Lib.Run

open KeyedQueue Option

namespace Massbit

namespace LfuCache

variable {K V : Type} [DecidableEq K]

def weightSum (self : LfuCache K V) : ℕ := self.queue.total CacheEntry.weight

def Balanced (self : LfuCache K V) : Prop := self.totalWeight = self.weightSum

instance (self : LfuCache K V) : Decidable self.Balanced :=
  inferInstanceAs (Decidable (_ = _))

omit [DecidableEq K] in
theorem balanced_new : (new : LfuCache K V).Balanced := rfl

variable {self : LfuCache K V}

theorem Balanced.get (h : self.Balanced) (key : K) : (self.get key).2.Balanced := by
  show self.totalWeight = (self.getMut key).2.queue.total _
  rw [getMut_queue]
  cases hq : self.queue.get? key with
  | none =>
    rw [modify_eq_self hq]
    exact h
  | some e =>
    rw [(modify_same CacheEntry.weight hq touch_key rfl).1]
    exact h

theorem Balanced.weight_le (h : self.Balanced) {e : CacheEntry K V × Priority}
    (he : e ∈ self.queue.entries) : e.1.weight ≤ self.totalWeight := by
  have h' : self.totalWeight = self.queue.total CacheEntry.weight := h
  rw [h', total_eq_add_erase CacheEntry.weight he]
  exact Nat.le_add_right _ _

theorem Balanced.insert [EntryWeight K V] (h : self.Balanced) (key : K) (value : V) :
    ∃ c, self.insert key value = some c ∧ c.Balanced := by
  have h' : self.totalWeight = self.queue.total CacheEntry.weight := h
  cases hq : self.queue.get? key with
  | none =>
    obtain ⟨c, hc, hqu, hw⟩ := insert_of_absent hq value
    refine ⟨c, hc, ?_⟩
    show c.totalWeight = c.queue.total _
    rw [hw, hqu, total_add, h']
  | some e =>
    have hle := h.weight_le (mem_of_get? hq)
    rcases insert_of_present hq value with ⟨hlt, -⟩ | ⟨-, c, hc, hqu, hw⟩
    · omega
    · refine ⟨c, hc, ?_⟩
      show c.totalWeight = c.queue.total _
      have hm := total_modify CacheEntry.weight hq
        (rewrite_key (EntryWeight.weight key value) value)
      have hn : (rewrite (EntryWeight.weight key value) value e).1.weight
          = EntryWeight.weight key value := rfl
      rw [hw, hqu]
      omega

variable (impl : HeapImpl (CacheEntry K V) Priority)

theorem Balanced.remove (h : self.Balanced) (key : K) :
    ∃ r c, self.remove impl key = some (r, c) ∧ c.Balanced := by
  have h' : self.totalWeight = self.queue.total CacheEntry.weight := h
  cases hq : self.queue.get? key with
  | none => exact ⟨none, self, remove_of_absent hq, h⟩
  | some e =>
    have hle := h.weight_le (mem_of_get? hq)
    rcases remove_of_present impl hq with ⟨hlt, -⟩ | ⟨-, c, hc, hqu, hw⟩
    · omega
    · refine ⟨_, c, hc, ?_⟩
      show c.totalWeight = c.queue.total _
      have hs := total_eq_add_erase CacheEntry.weight (mem_of_get? hq)
      rw [KeyedQueue.get?_key hq] at hs
      rw [hw, hqu]
      omega

theorem Balanced.evictLoop (mw : ℕ) : ∀ {fuel : ℕ} (e : ℕ) {self : LfuCache K V},
    self.Balanced → self.queue.entries.length < fuel →
      ∃ n c, LfuCache.evictLoop impl mw fuel e self = some (n, c) ∧ c.Balanced
  | 0, _, _, _, hf => absurd hf (Nat.not_lt_zero _)
  | fuel + 1, e, self, h, hf => by
    have h' : self.totalWeight = self.queue.total CacheEntry.weight := h
    rw [LfuCache.evictLoop]
    split
    next hgt =>
      split
      next hn =>
        -- an empty queue has no weight to be above the limit
        have hz : self.queue.total CacheEntry.weight = 0 := by
          rw [KeyedQueue.total, pop_eq_none hn]
          rfl
        omega
      next en rest hp =>
        obtain ⟨hm, -, rfl⟩ := pop_eq_some hp
        have hs := total_eq_add_erase CacheEntry.weight hm
        have hl := (perm_cons_erase hm).length_eq
        have hle : en.1.weight ≤ self.totalWeight := h.weight_le hm
        simp only [checkedSub, if_pos hle, bind_eq_bind, bind_some]
        refine Balanced.evictLoop mw _ ?_ ?_
        · show self.totalWeight - en.1.weight = (self.queue.erase en.1.key).total _
          omega
        · show (self.queue.erase en.1.key).entries.length < fuel
          rw [List.length_cons] at hl
          omega
    next => exact ⟨_, _, rfl, h⟩

omit [DecidableEq K] in
theorem Balanced.markStale (h : self.Balanced) : self.markStale.Balanced := by
  have hs : self.markStale.queue.total CacheEntry.weight = self.queue.total CacheEntry.weight :=
    total_map CacheEntry.weight self.queue (f := fun e =>
      ({ e.1 with willStale := true }, .mk e.1.willStale e.2.freq)) (fun _ => rfl) fun _ _ => rfl
  exact Eq.trans h hs.symm

def checked (self : LfuCache K V) (stalePeriod : ℕ) : LfuCache K V :=
  if self.staleCounter + 1 = stalePeriod then { self with staleCounter := 0 }.markStale
  else { self with staleCounter := self.staleCounter + 1 }

omit [DecidableEq K] in
theorem checked_totalWeight (self : LfuCache K V) (sp : ℕ) :
    (self.checked sp).totalWeight = self.totalWeight := by
  unfold checked
  split
  · rfl
  · rfl

omit [DecidableEq K] in
theorem Balanced.checked (h : self.Balanced) (sp : ℕ) : (self.checked sp).Balanced := by
  unfold LfuCache.checked
  split
  · exact Balanced.markStale h
  · exact h

theorem evictWithPeriod_of_le {mw : ℕ} (h : self.totalWeight ≤ mw) (sp : ℕ) :
    self.evictWithPeriod impl mw sp = some (none, self) :=
  if_pos h

theorem Balanced.evictWithPeriod (h : self.Balanced) {mw : ℕ}
    (hgt : mw < self.totalWeight) (sp : ℕ) :
    ∃ p c, self.evictWithPeriod impl mw sp
        = some (some ((p.map (·.1.weight)).sum, self.totalWeight, c.totalWeight), c) ∧
      Evicts impl mw (self.checked sp) p c ∧ c.Balanced := by
  obtain ⟨n, c, hl, hb⟩ := Balanced.evictLoop impl mw 0 (h.checked sp) (Nat.lt_succ_self _)
  obtain ⟨p, he, rfl⟩ := evictLoop_eq_some hl
  refine ⟨p, c, ?_, he, hb⟩
  rw [LfuCache.evictWithPeriod, if_neg (Nat.not_le.2 hgt)]
  show (LfuCache.evictLoop impl mw ((self.checked sp).queue.entries.length + 1) 0
    (self.checked sp)).map _ = _
  rw [hl, map_some, Nat.zero_add]
  show some (some (_, (self.checked sp).totalWeight, _), _) = _
  rw [checked_totalWeight]

theorem Balanced.evict (h : self.Balanced) (maxWeight : ℕ) :
    ∃ r c, self.evict impl maxWeight = some (r, c) ∧ c.Balanced ∧ c.weightSum ≤ maxWeight := by
  rcases Nat.lt_or_ge maxWeight self.totalWeight with hgt | hle
  · obtain ⟨p, c, he, hev, hb⟩ := h.evictWithPeriod impl hgt LfuCache.stalePeriod
    exact ⟨_, c, he, hb, hb ▸ hev.le_max⟩
  · exact ⟨none, self, evictWithPeriod_of_le impl hle _, h, h ▸ hle⟩

inductive Op (K V : Type) where
  | insert (key : K) (value : V)
  | get (key : K)
  | remove (key : K)
  | containsKey (key : K)
  | evict (maxWeight : ℕ)
  | extend (other : LfuCache K V)

def step [EntryWeight K V] (self : LfuCache K V) : Op K V → Option (LfuCache K V)
  | .insert key value => self.insert key value
  | .get key => some (self.get key).2
  | .remove key => (self.remove impl key).map (·.2)
  | .containsKey _ => some self
  | .evict maxWeight => (self.evict impl maxWeight).map (·.2)
  | .extend other => some (self.extend impl other)

/-- The caches that a sequence of operations builds from `new`; what `extend` takes in is built the
same way. -/
inductive Built [EntryWeight K V] : LfuCache K V → Prop
  | new : Built new
  | step {c c' : LfuCache K V} {op : Op K V} :
      Built c → (∀ other, op = .extend other → Built other) → c.step impl op = some c' → Built c'

def BringsNoWeight (self other : LfuCache K V) : Prop :=
  ∀ e ∈ other.queue.entries, (self.queue.get? e.1.key).map (fun e => e.1.weight) = some e.1.weight

instance (self other : LfuCache K V) : Decidable (self.BringsNoWeight other) :=
  inferInstanceAs (Decidable (∀ e ∈ other.queue.entries, _))

/-- What `extend` takes in is built by the same operations and brings no weight. -/
def StepOk [EntryWeight K V] (self : LfuCache K V) : Op K V → Prop
  | .extend other => Built impl other ∧ self.BringsNoWeight other
  | _ => True

theorem Balanced.extend {o : LfuCache K V} (h : self.Balanced)
    (hno : self.BringsNoWeight o) : (self.extend impl o).Balanced := by
  show self.totalWeight = (self.queue.extend impl o.queue.entries).total _
  rw [total_extend_same impl CacheEntry.weight hno]
  exact h

theorem Balanced.step [EntryWeight K V] {c : LfuCache K V} (h : self.Balanced) {op : Op K V}
    (hok : self.StepOk impl op) (hs : self.step impl op = some c) : c.Balanced := by
  cases op with
  | insert key v =>
    obtain ⟨c', hc', hb⟩ := h.insert key v
    obtain rfl : c' = c := Option.some.inj (hc'.symm.trans hs)
    exact hb
  | get key =>
    cases hs
    exact h.get key
  | remove key =>
    obtain ⟨r, c', hc', hb⟩ := h.remove impl key
    simp only [LfuCache.step, hc', map_some] at hs
    cases hs
    exact hb
  | containsKey key =>
    cases hs
    exact h
  | evict mw =>
    obtain ⟨r, c', hc', hb, -⟩ := h.evict impl mw
    simp only [LfuCache.step, hc', map_some] at hs
    cases hs
    exact hb
  | extend o =>
    cases hs
    exact h.extend impl hok.2

/-- **Weight accounting.** In every run whose `extend` steps bring no weight, the total is the sum
of the weights of the entries, and nothing panics. -/
theorem totalWeight_eq_weightSum_of_run [EntryWeight K V] {ops : List (Op K V)}
    {c : LfuCache K V} (h : Run (LfuCache.step impl) (StepOk impl) new ops c) :
    c.totalWeight = c.weightSum ∧
      (∀ key value, (c.insert key value).isSome) ∧ (∀ key, (c.remove impl key).isSome) ∧
      ∀ maxWeight, ∃ r c', c.evict impl maxWeight = some (r, c') ∧ c'.weightSum ≤ maxWeight := by
  have hb : c.Balanced := h.invariant (I := fun _ c => c.Balanced) balanced_new
    fun hi hok hs => hi.step impl hok hs
  refine ⟨hb, fun key value => ?_, fun key => ?_, fun maxWeight => ?_⟩
  · obtain ⟨c', hc', -⟩ := hb.insert key value
    rw [hc']
    rfl
  · obtain ⟨r, c', hc', -⟩ := hb.remove impl key
    rw [hc']
    rfl
  · obtain ⟨r, c', hc', -, hle⟩ := hb.evict impl maxWeight
    exact ⟨r, c', hc', hle⟩

instance : EntryWeight ℕ ℕ := ⟨fun _ value => value⟩

def singleton (key value : ℕ) : LfuCache ℕ ℕ where
  queue := ⟨[({ weight := value, key, value, willStale := false }, .mk false 1)], by simp⟩
  totalWeight := value
  staleCounter := 0
  freq_pos := by simp

theorem built_singleton : Built .pushing (singleton 7 3) := by
  have hs : (new : LfuCache ℕ ℕ).step .pushing (.insert 7 3)
      = some (singleton 7 3) := rfl
  refine .step .new (fun _ h => ?_) hs
  cases h

theorem totalWeight_of_insert_then_extend :
    StepOk .pushing (singleton 7 3) (.extend (singleton 7 3)) ∧
      ((singleton 7 3).extend .pushing (singleton 7 3)).totalWeight = 3 := by
  have hok : StepOk .pushing (singleton 7 3) (.extend (singleton 7 3)) :=
    ⟨built_singleton, by decide⟩
  have hr : Run (LfuCache.step .pushing) (StepOk .pushing) new
      [.insert 7 3, .extend (singleton 7 3)]
      ((singleton 7 3).extend .pushing (singleton 7 3)) :=
    .snoc (.snoc (.nil new) (l := .insert 7 3) trivial rfl) hok rfl
  exact ⟨hok, (totalWeight_eq_weightSum_of_run _ hr).1⟩

theorem totalWeight_lt_weightSum_of_extend :
    Built .pushing (singleton 7 3) ∧
    ((new : LfuCache ℕ ℕ).step .pushing (.extend (singleton 7 3))).map
      (fun c => (c.totalWeight, c.weightSum)) = some (0, 3) ∧
    (((new : LfuCache ℕ ℕ).extend .pushing (singleton 7 3)).evict
      .pushing 0).map (fun r => r.2.weightSum) = some 3 ∧
    ((new : LfuCache ℕ ℕ).extend .pushing (singleton 7 3)).remove
      .pushing 7 = none ∧
    ((new : LfuCache ℕ ℕ).extend .pushing (singleton 7 3)).insert 7 4 = none :=
  ⟨built_singleton, rfl, rfl, rfl, rfl⟩

end LfuCache

end Massbit
