/-
A priority queue whose items are identified by a key.
-/
import Mathlib.Data.List.Nodup
import Mathlib.Data.List.Perm.Subperm
import Mathlib.Algebra.BigOperators.Group.List.Basic
import Mathlib.Algebra.Order.Ring.Nat

open List

/-- The choices that the layout of the heap makes. -/
structure HeapImpl (I P : Type*) [LE P] where
  pick : List (I × P) → Option (I × P)
  pick_mem : ∀ {l e}, pick l = some e → e ∈ l
  pick_max : ∀ {l e}, pick l = some e → ∀ e' ∈ l, e'.2 ≤ e.2
  pick_eq_none : ∀ {l}, pick l = none → l = []
  rebuild : ℕ → ℕ → Bool

namespace HeapImpl

variable {I P : Type*} [LinearOrder P]

def firstMax : List (I × P) → Option (I × P)
  | [] => none
  | e :: l => match firstMax l with
    | none => some e
    | some e' => if e'.2 ≤ e.2 then some e else some e'

theorem firstMax_eq_none : ∀ {l : List (I × P)}, firstMax l = none → l = []
  | [], _ => rfl
  | e :: l, h => by
    rw [firstMax] at h
    split at h
    · cases h
    · split at h <;> cases h

theorem firstMax_spec : ∀ {l : List (I × P)} {e : I × P}, firstMax l = some e →
    e ∈ l ∧ ∀ e' ∈ l, e'.2 ≤ e.2
  | e :: l, e₀, h => by
    rw [firstMax] at h
    cases hl : firstMax l with
    | none =>
      rw [hl] at h
      cases h
      simp [firstMax_eq_none hl]
    | some e' =>
      rw [hl] at h
      obtain ⟨hm, hma⟩ := firstMax_spec hl
      by_cases hle : e'.2 ≤ e.2
      · simp only [if_pos hle] at h
        cases h
        exact ⟨by simp, by simpa using fun a b hab => (hma (a, b) hab).trans hle⟩
      · simp only [if_neg hle] at h
        cases h
        exact ⟨by simp [hm], by simpa using ⟨le_of_not_ge hle, fun a b hab => hma (a, b) hab⟩⟩

def first (rebuild : ℕ → ℕ → Bool) : HeapImpl I P where
  pick := firstMax
  pick_mem h := (firstMax_spec h).1
  pick_max h := (firstMax_spec h).2
  pick_eq_none h := firstMax_eq_none h
  rebuild := rebuild

/-- Extending a heap pushes the elements one by one. -/
abbrev pushing : HeapImpl I P := first fun _ _ => false

end HeapImpl

structure KeyedQueue {I K : Type*} (key : I → K) (P : Type*) where
  entries : List (I × P)
  nodup : (entries.map fun e => key e.1).Nodup

namespace KeyedQueue

variable {I K P : Type*} {key : I → K} {q : KeyedQueue key P} {k : K} {f : I × P → I × P}
  {e : I × P} {q' : KeyedQueue key P}

theorem ext_entries (h : q.entries = q'.entries) : q = q' := by
  cases q
  cases q'
  simpa using h

def empty : KeyedQueue key P := ⟨[], by simp⟩

def map (q : KeyedQueue key P) (f : I × P → I × P) (hf : ∀ e, key (f e).1 = key e.1) :
    KeyedQueue key P where
  entries := q.entries.map f
  nodup := by
    have h : (fun e => key e.1) ∘ f = fun e : I × P => key e.1 := funext hf
    rw [map_map, h]
    exact q.nodup

variable [DecidableEq K]

def get? (q : KeyedQueue key P) (k : K) : Option (I × P) :=
  q.entries.find? fun e => key e.1 = k

def modify (q : KeyedQueue key P) (k : K) (f : I × P → I × P) (hf : ∀ e, key (f e).1 = key e.1) :
    KeyedQueue key P :=
  q.map (fun e => if key e.1 = k then f e else e) fun e => by
    by_cases h : key e.1 = k
    · rw [if_pos h, hf]
    · rw [if_neg h]

def erase (q : KeyedQueue key P) (k : K) : KeyedQueue key P where
  entries := q.entries.filter fun e => key e.1 ≠ k
  nodup := q.nodup.sublist (filter_sublist.map _)

def changePriority (q : KeyedQueue key P) (k : K) (p : P) : KeyedQueue key P :=
  q.modify k (fun e => (e.1, p)) fun _ => rfl

def changePriorityBy (q : KeyedQueue key P) (k : K) (f : P → P) : KeyedQueue key P :=
  q.modify k (fun e => (e.1, f e.2)) fun _ => rfl

theorem get?_eq_none : q.get? k = none ↔ ∀ e ∈ q.entries, key e.1 ≠ k := by
  simp [get?, List.find?_eq_none]

def add (q : KeyedQueue key P) (e : I × P) (h : q.get? (key e.1) = none) : KeyedQueue key P where
  entries := q.entries ++ [e]
  nodup := by
    rw [map_append, map_singleton]
    refine List.Nodup.append q.nodup (nodup_singleton _) ?_
    rw [disjoint_singleton]
    intro hmem
    obtain ⟨e', he', hk⟩ := mem_map.1 hmem
    exact get?_eq_none.1 h e' he' hk

def addOr (q : KeyedQueue key P) (e : I × P) (f : I × P → I × P)
    (hf : ∀ e, key (f e).1 = key e.1) : KeyedQueue key P :=
  if h : q.get? (key e.1) = none then q.add e h else q.modify (key e.1) f hf

def push (q : KeyedQueue key P) (e : I × P) : KeyedQueue key P :=
  q.addOr e (fun e' => (e'.1, e.2)) fun _ => rfl

def put (q : KeyedQueue key P) (e : I × P) : KeyedQueue key P :=
  q.addOr e (fun e' => if key e.1 = key e'.1 then e else e') fun e' => by
    by_cases h : key e.1 = key e'.1
    · rw [if_pos h, h]
    · rw [if_neg h]

def extend [LE P] (impl : HeapImpl I P) (q : KeyedQueue key P) (l : List (I × P)) :
    KeyedQueue key P :=
  if impl.rebuild q.entries.length l.length then l.foldl put q else l.foldl push q

def pop [LE P] (impl : HeapImpl I P) (q : KeyedQueue key P) : Option ((I × P) × KeyedQueue key P) :=
  (impl.pick q.entries).map fun e => (e, q.erase (key e.1))

variable {p : I × P → Prop}

theorem forall_modify {hf : ∀ e, key (f e).1 = key e.1} (hq : ∀ e ∈ q.entries, p e)
    (hp : ∀ e, p e → p (f e)) :
    ∀ e ∈ (q.modify k f hf).entries, p e := by
  intro e he
  obtain ⟨e', he', rfl⟩ := mem_map.1 he
  by_cases h : key e'.1 = k
  · simpa [h] using hp e' (hq e' he')
  · simpa [h] using hq e' he'

theorem forall_erase (hq : ∀ e ∈ q.entries, p e) (k : K) :
    ∀ e ∈ (q.erase k).entries, p e :=
  fun e he => hq e (mem_filter.1 he).1

theorem get?_key (h : q.get? k = some e) : key e.1 = k := by
  simpa using List.find?_some h

theorem mem_of_get? (h : q.get? k = some e) : e ∈ q.entries := mem_of_find?_eq_some h

variable {e' : I × P}

omit [DecidableEq K] in
theorem eq_of_key (he : e ∈ q.entries) (he' : e' ∈ q.entries) (h : key e.1 = key e'.1) : e = e' :=
  inj_on_of_nodup_map q.nodup he he' h

theorem get?_of_mem (he : e ∈ q.entries) : q.get? (key e.1) = some e := by
  cases h : q.get? (key e.1) with
  | none => exact absurd rfl (get?_eq_none.1 h e he)
  | some e' => rw [eq_of_key (mem_of_get? h) he (get?_key h)]

theorem get?_eq_some : q.get? k = some e ↔ e ∈ q.entries ∧ key e.1 = k := by
  constructor
  · intro h
    exact ⟨mem_of_get? h, get?_key h⟩
  · rintro ⟨he, rfl⟩
    exact get?_of_mem he

theorem get?_map (q : KeyedQueue key P) (hf : ∀ e, key (f e).1 = key e.1) (k : K) :
    (q.map f hf).get? k = (q.get? k).map f := by
  simp only [get?, map, List.find?_map]
  have h : (fun e => decide (key e.1 = k)) ∘ f = fun e : I × P => decide (key e.1 = k) := by
    funext e
    simp [hf]
  rw [h]

theorem get?_modify_self (q : KeyedQueue key P) (k : K) (hf : ∀ e, key (f e).1 = key e.1) :
    (q.modify k f hf).get? k = (q.get? k).map f := by
  rw [modify, get?_map]
  cases h : q.get? k with
  | none => rfl
  | some e => simp [get?_key h]

theorem get?_modify_of_ne (q : KeyedQueue key P) {k' : K} (hk : k' ≠ k)
    (hf : ∀ e, key (f e).1 = key e.1) : (q.modify k f hf).get? k' = q.get? k' := by
  rw [modify, get?_map]
  cases h : q.get? k' with
  | none => rfl
  | some e => simp [get?_key h, hk]

@[simp] theorem get?_erase_self (q : KeyedQueue key P) (k : K) : (q.erase k).get? k = none := by
  rw [get?_eq_none]
  intro e he
  simpa using (mem_filter.1 he).2

theorem erase_eq_self (h : q.get? k = none) : q.erase k = q :=
  ext_entries (filter_eq_self.2 fun e he => decide_eq_true (get?_eq_none.1 h e he))

theorem get?_erase_of_ne (q : KeyedQueue key P) {k' : K} (hk : k' ≠ k) :
    (q.erase k).get? k' = q.get? k' := by
  cases h : q.get? k' with
  | none =>
    rw [get?_eq_none] at h ⊢
    exact fun e he => h e (mem_filter.1 he).1
  | some e =>
    rw [get?_eq_some] at h ⊢
    refine ⟨mem_filter.2 ⟨h.1, ?_⟩, h.2⟩
    simpa [h.2] using hk

theorem get?_add_self (q : KeyedQueue key P) (h : q.get? (key e.1) = none) :
    (q.add e h).get? (key e.1) = some e :=
  get?_of_mem (mem_append_right _ (mem_singleton_self e))

theorem get?_add_of_ne (q : KeyedQueue key P) (h : q.get? (key e.1) = none) (hk : k ≠ key e.1) :
    (q.add e h).get? k = q.get? k := by
  cases hq : q.get? k with
  | none =>
    rw [get?_eq_none] at hq ⊢
    intro e' he'
    rcases mem_append.1 he' with he' | he'
    · exact hq e' he'
    · rw [mem_singleton.1 he']
      exact Ne.symm hk
  | some e' =>
    rw [get?_eq_some] at hq ⊢
    exact ⟨mem_append_left _ hq.1, hq.2⟩

theorem get?_addOr_self (q : KeyedQueue key P) (e : I × P) (hf : ∀ e, key (f e).1 = key e.1) :
    (q.addOr e f hf).get? (key e.1) = some (((q.get? (key e.1)).map f).getD e) := by
  unfold addOr
  by_cases h : q.get? (key e.1) = none
  · rw [dif_pos h, get?_add_self, h]
    rfl
  · rw [dif_neg h, get?_modify_self]
    obtain ⟨e', he'⟩ := Option.ne_none_iff_exists'.1 h
    rw [he']
    rfl

theorem get?_addOr_of_ne (q : KeyedQueue key P) (hf : ∀ e, key (f e).1 = key e.1)
    (hk : k ≠ key e.1) : (q.addOr e f hf).get? k = q.get? k := by
  unfold addOr
  by_cases h : q.get? (key e.1) = none
  · rw [dif_pos h, get?_add_of_ne q h hk]
  · rw [dif_neg h, get?_modify_of_ne q hk]

theorem get?_push_cases (h : (q.push e).get? k = some e') :
    (∃ e₀, q.get? k = some e₀ ∧ e₀.1 = e'.1 ∧ (e'.2 = e₀.2 ∨ e'.2 = e.2)) ∨
      (e' = e ∧ q.get? k = none) := by
  by_cases hk : k = key e.1
  · subst hk
    rw [push, get?_addOr_self] at h
    cases hq : q.get? (key e.1) with
    | none =>
      rw [hq] at h
      exact .inr ⟨(Option.some.inj h).symm, rfl⟩
    | some e₀ =>
      rw [hq] at h
      cases h
      exact .inl ⟨e₀, rfl, rfl, .inr rfl⟩
  · rw [push, get?_addOr_of_ne q _ hk] at h
    exact .inl ⟨e', h, rfl, .inl rfl⟩

theorem get?_put_cases (h : (q.put e).get? k = some e') :
    q.get? k = some e' ∨ e' = e := by
  by_cases hk : k = key e.1
  · subst hk
    rw [put, get?_addOr_self] at h
    cases hq : q.get? (key e.1) with
    | none =>
      rw [hq] at h
      exact .inr (Option.some.inj h).symm
    | some e₀ =>
      rw [hq] at h
      have h' := Option.some.inj h
      simp only [Option.map_some, Option.getD_some, get?_key hq, if_true] at h'
      exact .inr h'.symm
  · rw [put, get?_addOr_of_ne q _ hk] at h
    exact .inl h

theorem extend_rule [LE P] (impl : HeapImpl I P)
    {R : KeyedQueue key P → List (I × P) → KeyedQueue key P → Prop} (hn : ∀ q, R q [] q)
    (hpu : ∀ {q x l q'}, R (q.put x) l q' → R q (x :: l) q')
    (hp : ∀ {q x l q'}, R (q.push x) l q' → R q (x :: l) q') (q : KeyedQueue key P)
    (l : List (I × P)) : R q l (q.extend impl l) := by
  unfold extend
  cases impl.rebuild q.entries.length l.length with
  | true =>
    induction l generalizing q with
    | nil => exact hn q
    | cons x l ih => exact hpu (ih (q.put x))
  | false =>
    induction l generalizing q with
    | nil => exact hn q
    | cons x l ih => exact hp (ih (q.push x))

variable {l : List (I × P)}

theorem mem_extend [LE P] (impl : HeapImpl I P) (he : e ∈ (q.extend impl l).entries) :
    (∃ e' ∈ q.entries ++ l, e'.1 = e.1) ∧ ∃ e' ∈ q.entries ++ l, e'.2 = e.2 := by
  refine extend_rule impl (R := fun q l q' => e ∈ q'.entries →
    (∃ e' ∈ q.entries ++ l, e'.1 = e.1) ∧ ∃ e' ∈ q.entries ++ l, e'.2 = e.2) ?_ ?_ ?_ q l he
  · intro q he
    exact ⟨⟨e, by simpa using he, rfl⟩, e, by simpa using he, rfl⟩
  · -- put: the entries of the queue stay or become the new one
    intro q x l q' ih he
    obtain ⟨⟨a, ha, hae⟩, b, hb, hbe⟩ := ih he
    have step : ∀ y ∈ (q.put x).entries ++ l, y ∈ q.entries ++ x :: l := by
      intro y hy
      rcases mem_append.1 hy with hy | hy
      · rcases get?_put_cases (get?_of_mem hy) with hy | rfl
        · exact mem_append_left _ (mem_of_get? hy)
        · simp
      · simp [hy]
    exact ⟨⟨a, step a ha, hae⟩, b, step b hb, hbe⟩
  · -- push: an entry keeps its item and may take the new priority
    intro q x l q' ih he
    obtain ⟨⟨a, ha, hae⟩, b, hb, hbe⟩ := ih he
    have step : ∀ y ∈ (q.push x).entries ++ l,
        (∃ z ∈ q.entries ++ x :: l, z.1 = y.1) ∧ ∃ z ∈ q.entries ++ x :: l, z.2 = y.2 := by
      intro y hy
      rcases mem_append.1 hy with hy | hy
      · rcases get?_push_cases (get?_of_mem hy) with ⟨z, hz, h1, h2⟩ | ⟨rfl, -⟩
        · have hz' : z ∈ q.entries ++ x :: l := mem_append_left _ (mem_of_get? hz)
          rcases h2 with h2 | h2
          · exact ⟨⟨z, hz', h1⟩, z, hz', h2.symm⟩
          · exact ⟨⟨z, hz', h1⟩, x, by simp, h2.symm⟩
        · exact ⟨⟨y, by simp, rfl⟩, y, by simp, rfl⟩
      · exact ⟨⟨y, by simp [hy], rfl⟩, y, by simp [hy], rfl⟩
    obtain ⟨⟨a', ha', hae'⟩, -⟩ := step a ha
    obtain ⟨-, b', hb', hbe'⟩ := step b hb
    exact ⟨⟨a', ha', hae'.trans hae⟩, b', hb', hbe'.trans hbe⟩

def total (w : I → ℕ) (q : KeyedQueue key P) : ℕ :=
  (q.entries.map fun e => w e.1).sum

@[simp] theorem total_add (w : I → ℕ) (q : KeyedQueue key P) (h : q.get? (key e.1) = none) :
    (q.add e h).total w = q.total w + w e.1 := by
  simp [total, add]

theorem perm_cons_erase (he : e ∈ q.entries) :
    q.entries.Perm (e :: (q.erase (key e.1)).entries) := by
  have hnd : q.entries.Nodup := q.nodup.of_map _
  have hnd' : (q.erase (key e.1)).entries.Nodup := (q.erase (key e.1)).nodup.of_map _
  have hn : e ∉ (q.erase (key e.1)).entries := fun h => by simpa using (mem_filter.1 h).2
  refine (perm_ext_iff_of_nodup hnd (nodup_cons.2 ⟨hn, hnd'⟩)).2 fun e' => ?_
  rw [mem_cons]
  constructor
  · intro he'
    by_cases hk : key e'.1 = key e.1
    · exact .inl (eq_of_key he' he hk)
    · exact .inr (mem_filter.2 ⟨he', by simpa using hk⟩)
  · rintro (rfl | he')
    · exact he
    · exact (mem_filter.1 he').1

theorem total_eq_add_erase (w : I → ℕ) (he : e ∈ q.entries) :
    q.total w = w e.1 + (q.erase (key e.1)).total w := by
  simpa [total] using ((perm_cons_erase he).map fun e => w e.1).sum_eq

omit [DecidableEq K] in
theorem total_map (w : I → ℕ) (q : KeyedQueue key P) {f : I × P → I × P}
    (hf : ∀ e, key (f e).1 = key e.1) (hw : ∀ e ∈ q.entries, w (f e).1 = w e.1) :
    (q.map f hf).total w = q.total w := by
  simp only [total, map, map_map]
  exact congrArg List.sum (map_congr_left hw)

theorem erase_modify (q : KeyedQueue key P) (k : K) (hf : ∀ e, key (f e).1 = key e.1) :
    (q.modify k f hf).erase k = q.erase k := by
  apply ext_entries
  simp only [erase, modify, map, filter_map]
  have hp : (fun e : I × P => decide (key e.1 ≠ k)) ∘
      (fun e => if key e.1 = k then f e else e) = fun e => decide (key e.1 ≠ k) := by
    funext e
    by_cases h : key e.1 = k
    · simp [h, hf]
    · simp [h]
  rw [hp]
  conv_rhs => rw [← map_id (q.entries.filter _)]
  refine map_congr_left fun e he => ?_
  have hk : key e.1 ≠ k := by simpa using (mem_filter.1 he).2
  rw [if_neg hk, id]

theorem total_modify (w : I → ℕ) (he : q.get? k = some e) (hf : ∀ e, key (f e).1 = key e.1) :
    (q.modify k f hf).total w + w e.1 = q.total w + w (f e).1 := by
  have hk := get?_key he
  have h1 : f e ∈ (q.modify k f hf).entries := by
    apply mem_of_get? (k := k)
    rw [get?_modify_self, he, Option.map_some]
  rw [total_eq_add_erase w h1, total_eq_add_erase w (mem_of_get? he), hf, hk, erase_modify]
  omega

theorem modify_same (w : I → ℕ) (he : q.get? k = some e) (hf : ∀ e, key (f e).1 = key e.1)
    (hw : w (f e).1 = w e.1) :
    (q.modify k f hf).total w = q.total w ∧
      ∀ k', ((q.modify k f hf).get? k').map (fun e => w e.1) = (q.get? k').map fun e => w e.1 := by
  refine ⟨?_, fun k' => ?_⟩
  · have := total_modify w he hf
    omega
  · by_cases hk : k' = k
    · subst hk
      rw [get?_modify_self, he, Option.map_some, Option.map_some, Option.map_some, hw]
    · rw [get?_modify_of_ne q hk]

theorem addOr_of_present {e₀ : I × P} (h : q.get? (key e.1) = some e₀)
    (hf : ∀ e, key (f e).1 = key e.1) : q.addOr e f hf = q.modify (key e.1) f hf :=
  dif_neg (by rw [h]; exact Option.some_ne_none _)

theorem total_extend_same [LE P] (impl : HeapImpl I P) (w : I → ℕ)
    (h : ∀ e ∈ l, (q.get? (key e.1)).map (fun e => w e.1) = some (w e.1)) :
    (q.extend impl l).total w = q.total w := by
  refine extend_rule impl (R := fun q l q' =>
    (∀ e ∈ l, (q.get? (key e.1)).map (fun e => w e.1) = some (w e.1)) →
      q'.total w = q.total w) ?_ ?_ ?_ q l h
  · intro q _
    rfl
  · intro q x l q' ih h
    obtain ⟨e₀, he₀, hw⟩ := Option.map_eq_some_iff.1 (h x (by simp))
    have hs := modify_same w he₀ (f := fun e' => if key x.1 = key e'.1 then x else e')
      (fun e' => by split <;> simp_all) (by simp [get?_key he₀, hw])
    rw [← addOr_of_present he₀] at hs
    refine (ih fun e he => ?_).trans hs.1
    exact (hs.2 _).trans (h e (by simp [he]))
  · intro q x l q' ih h
    obtain ⟨e₀, he₀, hw⟩ := Option.map_eq_some_iff.1 (h x (by simp))
    have hs := modify_same w he₀ (f := fun e' => (e'.1, x.2)) (fun _ => rfl) rfl
    rw [← addOr_of_present he₀] at hs
    refine (ih fun e he => ?_).trans hs.1
    exact (hs.2 _).trans (h e (by simp [he]))

theorem modify_eq_self (h : q.get? k = none) (hf : ∀ e, key (f e).1 = key e.1) :
    q.modify k f hf = q := by
  apply ext_entries
  conv_rhs => rw [← map_id q.entries]
  refine map_congr_left fun e he => ?_
  rw [if_neg (get?_eq_none.1 h e he), id]

theorem modify_modify (q : KeyedQueue key P) (k : K) {f g : I × P → I × P}
    (hf : ∀ e, key (f e).1 = key e.1) (hg : ∀ e, key (g e).1 = key e.1) :
    (q.modify k f hf).modify k g hg
      = q.modify k (fun e => g (f e)) fun e => (hg (f e)).trans (hf e) := by
  apply ext_entries
  show (q.entries.map _).map _ = q.entries.map _
  rw [map_map]
  refine map_congr_left fun e _ => ?_
  by_cases h : key e.1 = k
  · simp [h, hf]
  · simp [h]

theorem push_eq_add (h : q.get? (key e.1) = none) : q.push e = q.add e h := dif_pos h

theorem pop_eq_some [LE P] {impl : HeapImpl I P} (h : q.pop impl = some (e, q')) :
    e ∈ q.entries ∧ (∀ e' ∈ q.entries, e'.2 ≤ e.2) ∧ q' = q.erase (key e.1) := by
  obtain ⟨e', he', heq⟩ := Option.map_eq_some_iff.1 h
  cases heq
  exact ⟨impl.pick_mem he', impl.pick_max he', rfl⟩

theorem pop_eq_none [LE P] {impl : HeapImpl I P} (h : q.pop impl = none) : q.entries = [] :=
  impl.pick_eq_none (Option.map_eq_none_iff.1 h)

inductive Pops [LE P] (impl : HeapImpl I P) :
    KeyedQueue key P → List (I × P) → KeyedQueue key P → Prop
  | nil (q : KeyedQueue key P) : Pops impl q [] q
  | cons {q q₁ q' : KeyedQueue key P} {e : I × P} {l : List (I × P)} :
      q.pop impl = some (e, q₁) → Pops impl q₁ l q' → Pops impl q (e :: l) q'

namespace Pops

variable {q q' : KeyedQueue key P} {l : List (I × P)}

theorem perm [LE P] {impl : HeapImpl I P} (h : Pops impl q l q') :
    q.entries.Perm (l ++ q'.entries) := by
  induction h with
  | nil q => exact List.Perm.refl _
  | cons hp _ ih =>
    obtain ⟨hm, -, rfl⟩ := pop_eq_some hp
    exact (perm_cons_erase hm).trans (ih.cons _)

theorem get?_eq [LE P] {impl : HeapImpl I P} (h : Pops impl q l q') (k : K) :
    q'.get? k = if k ∈ l.map fun e => key e.1 then none else q.get? k := by
  induction h with
  | nil q => rw [map_nil, if_neg not_mem_nil]
  | @cons q q₁ q' e l hp _ ih =>
    obtain ⟨-, -, rfl⟩ := pop_eq_some hp
    rw [ih, map_cons]
    by_cases hl : k ∈ l.map fun e => key e.1
    · rw [if_pos hl, if_pos (mem_cons_of_mem _ hl)]
    · rw [if_neg hl]
      by_cases hk : k = key e.1
      · rw [hk, get?_erase_self, if_pos mem_cons_self]
      · rw [get?_erase_of_ne q hk, if_neg (not_mem_cons_of_ne_of_not_mem hk hl)]

theorem le [LE P] {impl : HeapImpl I P} (h : Pops impl q l q') : l.Pairwise (fun a b => b.2 ≤ a.2) ∧
      ∀ a ∈ l, ∀ b ∈ q'.entries, b.2 ≤ a.2 := by
  induction h with
  | nil q => exact ⟨List.Pairwise.nil, fun a ha => absurd ha not_mem_nil⟩
  | @cons q q₁ q' e l hpo hr ih =>
    obtain ⟨hme, hm, rfl⟩ := pop_eq_some hpo
    obtain ⟨hp, hle⟩ := ih
    -- every entry that is popped later or stays was in the queue when `e` was popped
    have hbe : ∀ b ∈ l ++ q'.entries, b.2 ≤ e.2 := fun b hb =>
      hm b (mem_filter.1 (hr.perm.mem_iff.2 hb)).1
    refine ⟨pairwise_cons.2 ⟨fun b hb => hbe b (mem_append_left _ hb), hp⟩, ?_⟩
    intro a ha b hb
    rcases mem_cons.1 ha with rfl | ha
    · exact hbe b (mem_append_right _ hb)
    · exact hle a ha b hb

theorem le_of_ahead [Preorder P] {impl : HeapImpl I P} {fr back : List (I × P)} {a b : I × P}
    (h : Pops impl q (fr ++ a :: back) q') (hb : b ∈ q.entries) (hn : b ∉ fr) :
    b.2 ≤ a.2 := by
  obtain ⟨hp, hle⟩ := h.le
  rcases mem_append.1 (h.perm.mem_iff.1 hb) with hb | hb
  · rcases mem_cons.1 ((mem_append.1 hb).resolve_left hn) with rfl | hb
    · exact le_rfl
    · exact (pairwise_cons.1 (pairwise_append.1 hp).2.1).1 b hb
  · exact hle a (mem_append_right _ mem_cons_self) b hb

theorem exists_order [LinearOrder P] {impl : HeapImpl I P} (h : Pops impl q l q') :
    ∃ rest : List (I × P), rest.Perm q'.entries ∧ (l ++ rest).Perm q.entries ∧
      (l ++ rest).Pairwise fun a b => b.2 ≤ a.2 := by
  obtain ⟨hpa, hle⟩ := h.le
  have hp := mergeSort_perm q'.entries fun a b => decide (b.2 ≤ a.2)
  refine ⟨q'.entries.mergeSort fun a b => decide (b.2 ≤ a.2), hp,
    (hp.append_left l).trans h.perm.symm, pairwise_append.2 ⟨hpa, ?_, ?_⟩⟩
  · have hs : (q'.entries.mergeSort fun a b => decide (b.2 ≤ a.2)).Pairwise
        fun a b => decide (b.2 ≤ a.2) = true :=
      pairwise_mergeSort
        (fun a b c hab hbc => decide_eq_true ((of_decide_eq_true hbc).trans (of_decide_eq_true hab)))
        (fun a b => by simpa using le_total b.2 a.2) q'.entries
    exact hs.imp fun hab => of_decide_eq_true hab
  · exact fun a ha b hb => hle a ha b (hp.mem_iff.1 hb)

end Pops

end KeyedQueue
