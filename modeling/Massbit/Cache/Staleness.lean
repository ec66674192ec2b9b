/-
When an entry of the LFU cache is stale, by a log of the run (`Logged`, `Tracks`).
-/
import Massbit.Cache.LfuEvict

open List Option

namespace Massbit

namespace LfuCache

inductive Event (K : Type) where
  | accessed (key : K)
  | entered (key : K)
  | eviction
  | check
  deriving DecidableEq

variable {K V : Type} [DecidableEq K]

def Event.touches (key : K) : Event K → Bool
  | .accessed k => k = key
  | .entered k => k = key
  | .eviction => false
  | .check => false

def sinceAccess (key : K) (log : List (Event K)) : List (Event K) :=
  log.takeWhile fun event => !event.touches key

def sinceCheck (log : List (Event K)) : List (Event K) := log.takeWhile (· ≠ .check)

/-- The entry was accessed since the last check. -/
def AccessedSinceCheck (key : K) (log : List (Event K)) : Prop :=
  ∃ event ∈ sinceCheck log, event.touches key

instance (key : K) (log : List (Event K)) : Decidable (AccessedSinceCheck key log) :=
  inferInstanceAs (Decidable (∃ event ∈ sinceCheck log, _))

/-- There were at least so many evictions since the last access to an entry. -/
def UnusedFor (evictions : ℕ) (key : K) (log : List (Event K)) : Prop :=
  evictions ≤ (sinceAccess key log).count .eviction

instance (evictions : ℕ) (key : K) (log : List (Event K)) : Decidable (UnusedFor evictions key log) :=
  inferInstanceAs (Decidable (_ ≤ _))

def goingStale (key : K) (log : List (Event K)) : Bool := .check ∈ sinceAccess key log

def foundStale (key : K) : List (Event K) → Bool
  | [] => false
  | .check :: log => goingStale key log
  | .entered k :: log => if k = key then false else foundStale key log
  | .accessed _ :: log => foundStale key log
  | .eviction :: log => foundStale key log

variable {key : K} {ev : Event K} {stalePeriod : ℕ} {log : List (Event K)} {c : LfuCache K V}

theorem sinceAccess_cons_of_not (h : ev.touches key = false) (log : List (Event K)) :
    sinceAccess key (ev :: log) = ev :: sinceAccess key log :=
  takeWhile_cons_of_pos (by rw [h]; rfl)

theorem sinceAccess_cons_of_touches (h : ev.touches key = true) (log : List (Event K)) :
    sinceAccess key (ev :: log) = [] :=
  takeWhile_cons_of_neg (by rw [h]; decide)

@[simp] theorem sinceCheck_check (log : List (Event K)) : sinceCheck (.check :: log) = [] :=
  takeWhile_cons_of_neg (by simp)

theorem sinceCheck_cons (h : ev ≠ .check) (log : List (Event K)) :
    sinceCheck (ev :: log) = ev :: sinceCheck log :=
  takeWhile_cons_of_pos (decide_eq_true h)

@[simp] theorem sinceCheck_eviction (log : List (Event K)) :
    sinceCheck (.eviction :: log) = .eviction :: sinceCheck log :=
  sinceCheck_cons (by nofun) log

@[simp] theorem goingStale_check (key : K) (log : List (Event K)) :
    goingStale key (.check :: log) = true := by
  exact decide_eq_true mem_cons_self

theorem goingStale_of_touches (h : ev.touches key = true) (log : List (Event K)) :
    goingStale key (ev :: log) = false := by
  rw [goingStale, sinceAccess_cons_of_touches h]
  exact decide_eq_false not_mem_nil

theorem goingStale_cons (h : ev.touches key = false) (hne : ev ≠ .check)
    (log : List (Event K)) : goingStale key (ev :: log) = goingStale key log := by
  unfold goingStale
  rw [sinceAccess_cons_of_not h, decide_eq_decide, mem_cons, or_iff_right hne.symm]

theorem foundStale_cons (h : ev.touches key = false) (hne : ev ≠ .check)
    (log : List (Event K)) : foundStale key (ev :: log) = foundStale key log := by
  cases ev with
  | accessed k => rfl
  | entered k => exact if_neg (of_decide_eq_false h)
  | eviction => rfl
  | check => exact absurd rfl hne

def Periodic (stalePeriod : ℕ) : List (Event K) → Prop
  | [] => True
  | .check :: log => (sinceCheck log).count .eviction = stalePeriod ∧ Periodic stalePeriod log
  | .entered _ :: log => Periodic stalePeriod log
  | .accessed _ :: log => Periodic stalePeriod log
  | .eviction :: log => Periodic stalePeriod log

theorem Periodic.tail (h : Periodic stalePeriod (ev :: log)) : Periodic stalePeriod log := by
  cases ev with
  | check => exact h.2
  | accessed k => exact h
  | entered k => exact h
  | eviction => exact h

theorem periodic_cons (h : Periodic stalePeriod log) (hne : ev ≠ .check) :
    Periodic stalePeriod (ev :: log) := by
  cases ev with
  | check => exact absurd rfl hne
  | accessed k => exact h
  | entered k => exact h
  | eviction => exact h

theorem count_sinceCheck_le : ∀ {log : List (Event K)}, goingStale key log = true →
    (sinceCheck log).count .eviction ≤ (sinceAccess key log).count .eviction
  | [], _ => Nat.le_refl _
  | ev :: log, h => by
    by_cases hc : ev = .check
    · subst hc
      rw [sinceCheck_check]
      exact Nat.zero_le _
    · cases ht : ev.touches key with
      | true =>
        rw [goingStale_of_touches ht] at h
        cases h
      | false =>
        rw [goingStale_cons ht hc] at h
        rw [sinceCheck_cons hc, sinceAccess_cons_of_not ht, count_cons, count_cons]
        exact Nat.add_le_add_right (count_sinceCheck_le h) _

theorem count_sinceAccess_le : ∀ {log : List (Event K)}, AccessedSinceCheck key log →
    (sinceAccess key log).count .eviction ≤ (sinceCheck log).count .eviction
  | [], _ => Nat.le_refl _
  | ev :: log, h => by
    cases ht : ev.touches key with
    | true =>
      rw [sinceAccess_cons_of_touches ht]
      exact Nat.zero_le _
    | false =>
      obtain ⟨e', hm, ht'⟩ := h
      by_cases hc : ev = .check
      · subst hc
        rw [sinceCheck_check] at hm
        cases hm
      · rw [sinceCheck_cons hc] at hm ⊢
        rcases mem_cons.1 hm with rfl | hm
        · rw [ht] at ht'
          cases ht'
        · rw [sinceAccess_cons_of_not ht, count_cons, count_cons]
          exact Nat.add_le_add_right (count_sinceAccess_le ⟨e', hm, ht'⟩) _

theorem check_mem_of_foundStale : ∀ {log : List (Event K)}, foundStale key log = true → .check ∈ log
  | [], h => by cases h
  | .check :: log, _ => mem_cons_self
  | .entered k :: log, h => by
    unfold foundStale at h
    split at h
    · cases h
    · exact mem_cons_of_mem _ (check_mem_of_foundStale h)
  | .accessed _ :: log, (h : foundStale key log = true) =>
    mem_cons_of_mem _ (check_mem_of_foundStale h)
  | .eviction :: log, (h : foundStale key log = true) =>
    mem_cons_of_mem _ (check_mem_of_foundStale h)

theorem unusedFor_of_foundStale : ∀ {log : List (Event K)},
    Periodic stalePeriod log → foundStale key log = true → ¬AccessedSinceCheck key log →
      UnusedFor stalePeriod key log
  | [], _, h, _ => by cases h
  | ev :: log, hp, h, hn => by
    by_cases hc : ev = .check
    · subst hc
      have hle : (sinceCheck log).count .eviction ≤ (sinceAccess key log).count .eviction :=
        count_sinceCheck_le h
      rw [hp.1] at hle
      rw [UnusedFor, sinceAccess_cons_of_not rfl, count_cons]
      exact Nat.le_add_right_of_le hle
    · have ht : ev.touches key = false := by
        rw [← Bool.not_eq_true]
        intro ht
        refine hn ⟨ev, ?_, ht⟩
        rw [sinceCheck_cons hc]
        exact mem_cons_self
      rw [foundStale_cons ht hc] at h
      have hr : ¬AccessedSinceCheck key log := by
        rintro ⟨e', hm, ht'⟩
        refine hn ⟨e', ?_, ht'⟩
        rw [sinceCheck_cons hc]
        exact mem_cons_of_mem _ hm
      rw [UnusedFor, sinceAccess_cons_of_not ht, count_cons]
      exact Nat.le_add_right_of_le (unusedFor_of_foundStale hp.tail h hr)

def evictionEvents (self : LfuCache K V) (stalePeriod : ℕ) : List (Event K) :=
  if self.staleCounter + 1 = stalePeriod then [.check, .eviction] else [.eviction]

def events (self : LfuCache K V) : Call K V → List (Event K)
  | .insert key _ => [if self.containsKey key then .accessed key else .entered key]
  | .get key => if self.containsKey key then [.accessed key] else []
  | .remove _ => []
  | .evictWithPeriod maxWeight stalePeriod =>
    if self.totalWeight ≤ maxWeight then [] else self.evictionEvents stalePeriod

structure Logged (K V : Type) where
  cache : LfuCache K V
  log : List (Event K)

namespace Logged

def new : Logged K V := ⟨.new, []⟩

def checked (self : Logged K V) (stalePeriod : ℕ) : Logged K V :=
  ⟨self.cache.checked stalePeriod, self.cache.evictionEvents stalePeriod ++ self.log⟩

def call [EntryWeight K V] (self : Logged K V)
    (l : HeapImpl (CacheEntry K V) Priority × Call K V) : Option (Logged K V) :=
  (self.cache.call l).map fun cache => ⟨cache, self.cache.events l.2 ++ self.log⟩

end Logged

/-- All evictions have the same period. -/
def Call.UsesPeriod (stalePeriod : ℕ) : Call K V → Prop
  | .evictWithPeriod _ period => period = stalePeriod
  | _ => True

structure FlagsOf (log : List (Event K)) (e : CacheEntry K V × Priority) : Prop where
  willStale : e.1.willStale = goingStale e.1.key log
  stale : e.2.stale = foundStale e.1.key log

theorem FlagsOf.cons {e : CacheEntry K V × Priority} (h : FlagsOf log e)
    (ht : ev.touches e.1.key = false) (hne : ev ≠ .check) :
    FlagsOf (ev :: log) e where
  willStale := by rw [goingStale_cons ht hne, h.willStale]
  stale := by rw [foundStale_cons ht hne, h.stale]

structure Tracks (stalePeriod : ℕ) (s : Logged K V) : Prop where
  counter : s.cache.staleCounter = (sinceCheck s.log).count .eviction
  counter_lt : 0 < stalePeriod → s.cache.staleCounter < stalePeriod
  period_pos : .check ∈ s.log → 0 < stalePeriod
  periodic : Periodic stalePeriod s.log
  flags : ∀ e ∈ s.cache.queue.entries, FlagsOf s.log e

namespace Tracks

variable {stalePeriod : ℕ} {s : Logged K V}

theorem new : Tracks stalePeriod (Logged.new : Logged K V) where
  counter := rfl
  counter_lt h := h
  period_pos h := absurd h not_mem_nil
  periodic := trivial
  flags _ he := absurd he not_mem_nil

variable {c : LfuCache K V}

section

variable (h : Tracks stalePeriod s)

include h

theorem cons {ev : Event K} (hc : c.staleCounter = s.cache.staleCounter) (hch : ev ≠ .check)
    (he : ev ≠ .eviction) (hf : ∀ e ∈ c.queue.entries, FlagsOf (ev :: s.log) e) :
    Tracks stalePeriod ⟨c, ev :: s.log⟩ where
  counter := by
    rw [hc, h.counter, sinceCheck_cons hch, count_cons_of_ne he]
  counter_lt hp := hc ▸ h.counter_lt hp
  period_pos hm := h.period_pos ((mem_cons.1 hm).resolve_left hch.symm)
  periodic := periodic_cons h.periodic hch
  flags := hf

theorem subset (hc : c.staleCounter = s.cache.staleCounter)
    (hs : ∀ e ∈ c.queue.entries, e ∈ s.cache.queue.entries) : Tracks stalePeriod ⟨c, s.log⟩ where
  counter := hc.trans h.counter
  counter_lt hp := hc ▸ h.counter_lt hp
  period_pos := h.period_pos
  periodic := h.periodic
  flags e he := h.flags e (hs e he)

theorem access {key : K} {f : CacheEntry K V × Priority → CacheEntry K V × Priority}
    {hf : ∀ e, (f e).1.key = e.1.key} (hw : ∀ e, (f e).1.willStale = false)
    (hs : ∀ e, (f e).2.stale = e.2.stale) (hc : c.staleCounter = s.cache.staleCounter)
    (hq : c.queue = s.cache.queue.modify key f hf) :
    Tracks stalePeriod ⟨c, .accessed key :: s.log⟩ := by
  refine h.cons hc nofun nofun fun e he => ?_
  rw [hq] at he
  obtain ⟨e, hm, rfl⟩ := mem_map.1 he
  by_cases hk : e.1.key = key
  · have ht : (Event.accessed key).touches (f e).1.key = true :=
      decide_eq_true (by rw [hf, hk])
    rw [if_pos hk]
    refine ⟨(hw e).trans (goingStale_of_touches ht _).symm, ?_⟩
    rw [hs, hf]
    exact (h.flags e hm).stale
  · rw [if_neg hk]
    exact (h.flags e hm).cons (decide_eq_false (Ne.symm hk)) nofun

theorem enter {e : CacheEntry K V × Priority} (hw : e.1.willStale = false) (hs : e.2.stale = false)
    (ha : s.cache.queue.get? e.1.key = none) (hc : c.staleCounter = s.cache.staleCounter)
    (hq : c.queue = s.cache.queue.add e ha) :
    Tracks stalePeriod ⟨c, .entered e.1.key :: s.log⟩ := by
  refine h.cons hc nofun nofun fun e' he' => ?_
  rw [hq] at he'
  rcases mem_append.1 he' with he' | he'
  · have hne := KeyedQueue.get?_eq_none.1 ha e' he'
    exact (h.flags e' he').cons (decide_eq_false (Ne.symm hne)) nofun
  · obtain rfl := mem_singleton.1 he'
    have ht : (Event.entered e'.1.key).touches e'.1.key = true := decide_eq_true rfl
    exact ⟨hw.trans (goingStale_of_touches ht _).symm, hs.trans (if_pos rfl).symm⟩

theorem checked : Tracks stalePeriod (s.checked stalePeriod) := by
  have hc : (sinceCheck (.eviction :: s.log)).count .eviction = s.cache.staleCounter + 1 := by
    rw [sinceCheck_eviction, count_cons_self, h.counter]
  have hf : ∀ e ∈ s.cache.queue.entries, FlagsOf (.eviction :: s.log) e := fun e he =>
    (h.flags e he).cons rfl nofun
  unfold Logged.checked LfuCache.checked evictionEvents
  by_cases hd : s.cache.staleCounter + 1 = stalePeriod
  · rw [if_pos hd, if_pos hd]
    refine ⟨?_, id, fun _ => hd ▸ Nat.succ_pos _, ⟨hc.trans hd, h.periodic⟩, ?_⟩
    · show 0 = (sinceCheck (.check :: _)).count _
      rfl
    · intro e he
      obtain ⟨e, hm, rfl⟩ := mem_map.mp he
      exact ⟨(goingStale_check _ _).symm, (hf e hm).willStale⟩
  · rw [if_neg hd, if_neg hd]
    refine ⟨hc.symm, fun hp => ?_, fun hm => ?_, h.periodic, hf⟩
    · have hlt := h.counter_lt hp
      show s.cache.staleCounter + 1 < stalePeriod
      omega
    · exact h.period_pos ((mem_cons.mp hm).resolve_left nofun)

end

end Tracks

variable {self : LfuCache K V}

theorem staleCounter_insert [EntryWeight K V] {v : V} (h : self.insert key v = some c) :
    c.staleCounter = self.staleCounter := by
  unfold insert at h
  split at h
  · cases h
    rfl
  · obtain ⟨rest, -, h⟩ := bind_eq_some_iff.1 h
    cases h
    rfl

variable {impl : HeapImpl (CacheEntry K V) Priority}

theorem staleCounter_remove {r : Option V} (h : self.remove impl key = some (r, c)) :
    c.staleCounter = self.staleCounter := by
  unfold remove at h
  split at h
  · obtain ⟨-, rfl⟩ := Prod.mk.inj (Option.some.inj h)
    rfl
  · split at h
    · obtain ⟨-, rfl⟩ := Prod.mk.inj (Option.some.inj h)
      rfl
    · split at h
      · obtain ⟨rest, -, h⟩ := bind_eq_some_iff.mp h
        obtain ⟨-, rfl⟩ := Prod.mk.inj (Option.some.inj h)
        rfl
      · cases h

variable {s : Logged K V}

theorem Tracks.insert [EntryWeight K V] (h : Tracks stalePeriod s) {v : V}
    (hs : s.cache.insert key v = some c) :
    Tracks stalePeriod ⟨c, s.cache.events (.insert key v) ++ s.log⟩ := by
  have hc := staleCounter_insert hs
  cases hq : s.cache.queue.get? key with
  | none =>
    have he : s.cache.events (.insert key v) = [.entered key] := by
      simp [events, containsKey, hq]
    obtain ⟨c', hc', hqu, -⟩ := insert_of_absent hq v
    obtain rfl := Option.some.inj (hc'.symm.trans hs)
    rw [he]
    exact h.enter rfl rfl hq hc hqu
  | some e =>
    have he : s.cache.events (.insert key v) = [.accessed key] := by
      simp [events, containsKey, hq]
    rcases insert_of_present hq v with ⟨-, hn⟩ | ⟨-, c', hc', hqu, -⟩
    · rw [hn] at hs
      cases hs
    · obtain rfl := Option.some.inj (hc'.symm.trans hs)
      rw [he]
      exact h.access (f := rewrite _ v) (fun _ => rfl) (fun _ => rfl) hc hqu

theorem Tracks.get (h : Tracks stalePeriod s) (key : K) :
    Tracks stalePeriod ⟨(s.cache.get key).2, s.cache.events (.get key) ++ s.log⟩ := by
  have hqu : (s.cache.get key).2.queue = s.cache.queue.modify key touch touch_key :=
    getMut_queue s.cache key
  cases hq : s.cache.queue.get? key with
  | none =>
    have hev : s.cache.events (.get key) = [] := by simp [events, containsKey, hq]
    rw [KeyedQueue.modify_eq_self hq] at hqu
    rw [hev]
    exact h.subset (c := (s.cache.get key).2) rfl fun e he => hqu ▸ he
  | some e =>
    have hev : s.cache.events (.get key) = [.accessed key] := by
      simp [events, containsKey, hq]
    rw [hev]
    exact h.access (f := touch) (fun _ => rfl) (fun _ => rfl) rfl hqu

theorem Tracks.call [EntryWeight K V] {s s' : Logged K V} (h : Tracks stalePeriod s)
    (hb : s.cache.Balanced) {l : HeapImpl (CacheEntry K V) Priority × Call K V}
    (hp : l.2.UsesPeriod stalePeriod) (hs : s.call l = some s') : Tracks stalePeriod s' := by
  obtain ⟨c, hc, rfl⟩ := map_eq_some_iff.1 hs
  obtain ⟨impl, op⟩ := l
  cases op with
  | insert key v => exact h.insert hc
  | get key =>
    cases hc
    exact h.get key
  | remove key =>
    obtain ⟨⟨r, c'⟩, hc', rfl⟩ := map_eq_some_iff.1 hc
    obtain ⟨c'', hc'', hq⟩ := hb.remove_exactly impl key
    obtain ⟨rfl, rfl⟩ := Prod.mk.inj (Option.some.inj (hc''.symm.trans hc'))
    refine h.subset (staleCounter_remove hc') fun e he => ?_
    rw [hq] at he
    exact (mem_filter.1 he).1
  | evictWithPeriod mw p =>
    obtain rfl : p = stalePeriod := hp
    obtain ⟨⟨r, c'⟩, hc', rfl⟩ := map_eq_some_iff.1 hc
    show Tracks p ⟨c', (if s.cache.totalWeight ≤ mw then _ else _) ++ s.log⟩
    rcases Nat.lt_or_ge mw s.cache.totalWeight with hgt | hle
    · obtain ⟨po, c'', hc'', hev, -⟩ := hb.evictWithPeriod impl hgt p
      obtain ⟨rfl, rfl⟩ := Prod.mk.inj (Option.some.inj (hc''.symm.trans hc'))
      rw [if_neg (Nat.not_le.2 hgt)]
      exact h.checked.subset hev.staleCounter fun e he =>
        hev.pops.perm.mem_iff.2 (mem_append_right _ he)
    · obtain ⟨rfl, rfl⟩ := Prod.mk.inj
        (Option.some.inj ((evictWithPeriod_of_le impl hle p).symm.trans hc'))
      rw [if_pos hle]
      exact h

theorem tracks_of_run [EntryWeight K V] {cs : List (HeapImpl (CacheEntry K V) Priority × Call K V)}
    (h : Run Logged.call (fun _ l => l.2.UsesPeriod stalePeriod) .new cs s) :
    Tracks stalePeriod s := by
  suffices hb : s.cache.Balanced ∧ Tracks stalePeriod s from hb.2
  refine h.invariant (I := fun _ s => s.cache.Balanced ∧ Tracks stalePeriod s)
    ⟨balanced_new, .new⟩ ?_
  rintro cs s l s' ⟨hba, ht⟩ hp hs
  obtain ⟨c, hc, rfl⟩ := map_eq_some_iff.1 hs
  exact ⟨hba.call hc, ht.call hba hp hs⟩

/-- The entry `a` is evicted while `b` is still there. -/
def EvictedAhead (popped : List (CacheEntry K V × Priority)) (a b : CacheEntry K V × Priority) :
    Prop :=
  ∃ front back, popped = front ++ a :: back ∧ b ∉ front

theorem EvictedAhead.freq_le {mw : ℕ} {c' : LfuCache K V} {p : List (CacheEntry K V × Priority)}
    (h : Evicts impl mw c p c') {a b : CacheEntry K V × Priority} (hah : EvictedAhead p a b)
    (ha : a.2.stale = false) (hb : b ∈ c.queue.entries) :
    a.2.freq ≤ b.2.freq := by
  obtain ⟨f, back, rfl, hn⟩ := hah
  rcases Priority.le_iff.1 (h.pops.le_of_ahead hb hn) with ⟨hs, -⟩ | ⟨-, hle⟩
  · rw [ha] at hs
    cases hs
  · exact hle

/-- **Staleness.** An eviction of a cache with a fixed period treats only entries as stale that were
not accessed for a whole period, and evicts no entry that was accessed since the last check ahead of
one that is not stale and less frequent, if and only if no entry that the last check found stale was
accessed since. -/
theorem stale_right_iff [EntryWeight K V] {stalePeriod : ℕ}
    {calls : List (HeapImpl (CacheEntry K V) Priority × Call K V)} {s : Logged K V}
    (h : Run Logged.call (fun _ l => l.2.UsesPeriod stalePeriod) .new calls s) :
    ((∀ e ∈ (s.checked stalePeriod).cache.queue.entries, e.2.stale = true →
        UnusedFor stalePeriod e.1.key (s.checked stalePeriod).log) ∧
      ∀ impl maxWeight popped c', Evicts impl maxWeight (s.checked stalePeriod).cache popped c' →
        ∀ a ∈ (s.checked stalePeriod).cache.queue.entries,
        ∀ b ∈ (s.checked stalePeriod).cache.queue.entries,
          AccessedSinceCheck a.1.key (s.checked stalePeriod).log → b.2.stale = false →
            b.2.freq < a.2.freq → ¬EvictedAhead popped a b) ↔
    ∀ e ∈ (s.checked stalePeriod).cache.queue.entries,
      foundStale e.1.key (s.checked stalePeriod).log = true →
        ¬AccessedSinceCheck e.1.key (s.checked stalePeriod).log := by
  have ht := (tracks_of_run h).checked
  constructor
  · rintro ⟨hu, -⟩ e he hf hac
    have hch := ht.period_pos (check_mem_of_foundStale hf)
    have hlt := ht.counter_lt hch
    rw [ht.counter] at hlt
    have hle := hu e he ((ht.flags e he).stale.trans hf)
    exact absurd (hle.trans (count_sinceAccess_le hac)) (Nat.not_le.2 hlt)
  · intro hc
    refine ⟨fun e he hs => ?_, ?_⟩
    · rw [(ht.flags e he).stale] at hs
      exact unusedFor_of_foundStale ht.periodic hs (hc e he hs)
    · intro impl maxWeight popped c' hev a ha b hb hac _ hfr hah
      have hs : a.2.stale = false := by
        rw [(ht.flags a ha).stale, ← Bool.not_eq_true]
        exact fun hf => hc a ha hf hac
      exact absurd (hah.freq_le hev hs hb) (Nat.not_le.2 hfr)

def agingCalls : List (HeapImpl (CacheEntry ℕ ℕ) Priority × Call ℕ ℕ) :=
  [.insert 1 1, .get 1, .get 1, .insert 2 1, .get 2,
    .insert 3 1, .evictWithPeriod 2 2, .insert 4 1, .evictWithPeriod 2 2,
    .insert 5 1, .evictWithPeriod 2 2, .insert 6 1, .evictWithPeriod 2 2].map
    (Prod.mk .pushing)

def agedEntry (freq : ℕ) (willStale : Bool) : CacheEntry ℕ ℕ × Priority :=
  ({ weight := 1, key := 1, value := 1, willStale }, .mk true freq)

def lastEntry : CacheEntry ℕ ℕ × Priority :=
  ({ weight := 1, key := 6, value := 1, willStale := true }, .mk false 1)

def aged (freq : ℕ) (hfreq : 1 ≤ freq) (willStale : Bool) : LfuCache ℕ ℕ where
  queue := ⟨[agedEntry freq willStale, lastEntry], by simp [agedEntry, lastEntry]⟩
  totalWeight := 2
  staleCounter := 0
  freq_pos := by simpa [agedEntry, lastEntry] using hfreq

def agedLog : List (Event ℕ) :=
  [.check, .eviction, .entered 6, .eviction, .entered 5, .check, .eviction, .entered 4, .eviction,
    .entered 3, .accessed 2, .entered 2, .accessed 1, .accessed 1, .entered 1]

theorem stale_right_agingCalls : Run Logged.call (fun _ l => l.2.UsesPeriod 2) .new agingCalls
        ⟨aged 3 (by decide) true, agedLog⟩ ∧
      ∀ e ∈ ((⟨aged 3 (by decide) true, agedLog⟩ : Logged ℕ ℕ).checked 2).cache.queue.entries,
        e.2.stale = true → UnusedFor 2 e.1.key
          ((⟨aged 3 (by decide) true, agedLog⟩ : Logged ℕ ℕ).checked 2).log := by
  have hr : Run Logged.call (fun _ l => l.2.UsesPeriod 2) .new agingCalls
      ⟨aged 3 (by decide) true, agedLog⟩ :=
    .of_foldlM_of_forall (by simp [agingCalls, Call.UsesPeriod]) rfl
  exact ⟨hr, ((stale_right_iff hr).2 (by decide)).1⟩

theorem stale_after_access : ∃ s : Logged ℕ ℕ, Run Logged.call (fun _ l => l.2.UsesPeriod 2) .new
        (agingCalls ++ [(.pushing, .get 1)]) s ∧
      ∃ a ∈ (s.checked 2).cache.queue.entries, ∃ b ∈ (s.checked 2).cache.queue.entries,
        a.2.stale = true ∧ ¬UnusedFor 2 a.1.key (s.checked 2).log ∧
        AccessedSinceCheck a.1.key (s.checked 2).log ∧ b.2.stale = false ∧ b.2.freq < a.2.freq ∧
        ∃ c', s.cache.evictWithPeriod .pushing 1 2 = some (some (1, 2, 1), c') ∧
          Evicts .pushing 1 (s.checked 2).cache [a] c' ∧ EvictedAhead [a] a b := by
  refine ⟨⟨aged 4 (by decide) false, .accessed 1 :: agedLog⟩,
    .of_foldlM_of_forall (by simp [agingCalls, Call.UsesPeriod]) rfl,
    agedEntry 4 false, .head _, lastEntry, .tail _ (.head _), rfl, by decide, by decide, rfl,
    by decide, ⟨⟨[lastEntry], by simp⟩, 1, 1, by simp [lastEntry]⟩, rfl, ?_, [], [], rfl,
    not_mem_nil⟩
  exact ⟨.cons rfl (.nil _), rfl, by decide, fun e he => by cases he; decide, rfl⟩

end LfuCache

end Massbit
