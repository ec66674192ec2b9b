/-
Grouping keyed elements into a hash map.
-/
import Massbit.Lib.MapLoop
import Massbit.Lib.Outcome
import Mathlib.Algebra.Order.BigOperators.Group.List
import Mathlib.Algebra.Order.Ring.Nat
import Mathlib.Data.List.Perm.Basic

open Finmap

namespace List

variable {κ α : Type*} [DecidableEq κ]

def pushAt (map : HashMap κ (List α)) (e : κ × α) : HashMap κ (List α) :=
  map.insert e.1 ((map.lookup e.1).getD [] ++ [e.2])

def pushAll (l : List (κ × α)) : HashMap κ (List α) := l.foldl pushAt ∅

theorem getD_lookup_pushAt (map : HashMap κ (List α)) (e : κ × α) (k : κ) :
    ((pushAt map e).lookup k).getD []
      = (map.lookup k).getD [] ++ ([e].filter (·.1 = k)).map Prod.snd := by
  unfold pushAt
  by_cases h : e.1 = k
  · subst h
    simp
  · rw [lookup_insert_of_ne _ (Ne.symm h)]
    simp [h]

theorem getD_lookup_foldl_pushAt (l : List (κ × α)) (map : HashMap κ (List α)) (k : κ) :
    ((l.foldl pushAt map).lookup k).getD []
      = (map.lookup k).getD [] ++ (l.filter (·.1 = k)).map Prod.snd := by
  induction l generalizing map with
  | nil => simp
  | cons e l ih =>
    rw [foldl_cons, ih, getD_lookup_pushAt, append_assoc, ← map_append, ← filter_append,
      singleton_append]

theorem getD_lookup_pushAll (l : List (κ × α)) (k : κ) :
    ((pushAll l).lookup k).getD [] = (l.filter (·.1 = k)).map Prod.snd := by
  rw [pushAll, getD_lookup_foldl_pushAt]
  simp

variable {l : List (κ × α)} {k : κ}

theorem mem_pushAll : k ∈ pushAll l ↔ ∃ e ∈ l, e.1 = k := by
  suffices h : ∀ (l : List (κ × α)) (map : HashMap κ (List α)),
      k ∈ l.foldl pushAt map ↔ k ∈ map ∨ ∃ e ∈ l, e.1 = k by
    rw [pushAll, h l ∅, or_iff_right notMem_empty]
  intro l
  induction l with
  | nil => simp
  | cons e l ih =>
    intro map
    rw [foldl_cons, ih, pushAt, mem_insert]
    simp only [mem_cons, exists_eq_or_imp, @eq_comm _ k]
    tauto

variable {order : Finmap.IterOrder fun _ : κ => List α} {g : (_ : κ) × List α}

theorem mem_toList_pushAll :
    g ∈ order.toList (pushAll l) ↔
      (∃ e ∈ l, e.1 = g.1) ∧ g.2 = (l.filter (·.1 = g.1)).map Prod.snd := by
  obtain ⟨k, as⟩ := g
  rw [(order.enumerates _).mem_iff, ← mem_pushAll, ← getD_lookup_pushAll, mem_iff]
  constructor
  · intro h
    rw [h]
    exact ⟨⟨as, rfl⟩, rfl⟩
  · rintro ⟨⟨as', h⟩, has⟩
    rw [h] at has ⊢
    exact congrArg some has.symm

theorem mem_of_mem_group (hg : g ∈ order.toList (pushAll l)) {a : α} (ha : a ∈ g.2) :
    (g.1, a) ∈ l := by
  rw [(mem_toList_pushAll.1 hg).2] at ha
  obtain ⟨e, he, rfl⟩ := mem_map.mp ha
  rw [mem_filter, decide_eq_true_eq] at he
  rw [← he.2]
  exact he.1

theorem exists_group (order : Finmap.IterOrder fun _ : κ => List α) {a : α} (h : (k, a) ∈ l) :
    ∃ as, ⟨k, as⟩ ∈ order.toList (pushAll l) ∧ a ∈ as := by
  refine ⟨(l.filter (·.1 = k)).map Prod.snd, ?_, ?_⟩
  · exact mem_toList_pushAll.2 ⟨⟨(k, a), h, rfl⟩, rfl⟩
  · exact mem_map.2 ⟨(k, a), mem_filter.2 ⟨h, decide_eq_true rfl⟩, rfl⟩

section Loop

variable {E S : Type} {κ α : Type} [DecidableEq κ] {C : Type*} {v : S → C}
  {o : Finmap.IterOrder fun _ : κ => List α} {l : List (κ × α)}
  {f : S → (_ : κ) × List α → Outcome E S} {s s' : S}

theorem foldlM_groups_frame (h : (o.toList (pushAll l)).foldlM f s = .ok s')
    (hf : ∀ {g : (_ : κ) × List α} {s s'}, (∀ a ∈ g.2, (g.1, a) ∈ l) → f s g = .ok s' →
      v s' = v s) : v s' = v s :=
  Outcome.foldlM_frame h fun _ hg _ _ => hf fun _ ha => mem_of_mem_group hg ha

theorem foldlM_groups_at {R : C → C → Prop} {k : κ} {a : α} (ha : (k, a) ∈ l)
    (h : (o.toList (pushAll l)).foldlM f s = .ok s')
    (hf : ∀ {g : (_ : κ) × List α} {s s'}, g.1 ≠ k → (∀ a ∈ g.2, (g.1, a) ∈ l) →
      f s g = .ok s' → v s' = v s)
    (hat : ∀ {as s s'}, a ∈ as → (∀ b ∈ as, (k, b) ∈ l) → f s ⟨k, as⟩ = .ok s' →
      R (v s) (v s')) : R (v s) (v s') := by
  obtain ⟨as, hgr, has⟩ := exists_group o ha
  apply Outcome.foldlM_at (o.nodup_toList _) hgr h
  · intro g hg hne s s'
    refine hf (fun hk => hne ?_) fun b hb => mem_of_mem_group hg hb
    exact (o.enumerates _).nodupKeys.eq_of_fst_eq hg hgr hk
  · exact fun hs => hat has (fun b hb => mem_of_mem_group hgr hb) hs

end Loop

theorem perm_flatMap_filter (key : α → κ) (l : List α) :
    ∀ {ks : List κ}, ks.Nodup →
      (ks.flatMap fun k => l.filter (key · = k)).Perm (l.filter (key · ∈ ks))
  | [], _ => by simp
  | k :: ks, h => by
    obtain ⟨hk, hks⟩ := nodup_cons.1 h
    have hs : (l.filter (key · ∈ k :: ks)).Perm
        (l.filter (key · = k) ++ l.filter (key · ∈ ks)) := by
      have hl : (l.filter (key · ∈ k :: ks)).filter (key · = k) = l.filter (key · = k) := by
        rw [filter_filter]
        refine filter_congr fun a _ => ?_
        rw [← Bool.decide_and, decide_eq_decide, mem_cons]
        tauto
      have hr : (l.filter (key · ∈ k :: ks)).filter (fun a => !decide (key a = k))
          = l.filter (key · ∈ ks) := by
        rw [filter_filter]
        refine filter_congr fun a _ => ?_
        rw [← decide_not, ← Bool.decide_and, decide_eq_decide, mem_cons]
        constructor
        · tauto
        · intro ha
          exact ⟨fun e => hk (e ▸ ha), .inr ha⟩
      rw [← hl, ← hr]
      exact (filter_append_perm _ _).symm
    exact ((perm_flatMap_filter key l hks).append_left _).trans hs.symm

variable {ks : List κ}

theorem perm_flatMap_filter_self {key : α → κ} {l : List α} (hks : ks.Nodup)
    (hal : ∀ a ∈ l, key a ∈ ks) : (ks.flatMap fun k => l.filter (key · = k)).Perm l := by
  have hs : l.filter (key · ∈ ks) = l :=
    filter_eq_self.2 fun a ha => decide_eq_true (hal a ha)
  exact (perm_flatMap_filter key l hks).trans (.of_eq hs)

omit [DecidableEq κ] in
theorem perm_flatMap_iff_of_sublist {f g : κ → List α} (h : ∀ k ∈ ks, (f k).Sublist (g k)) :
    (ks.flatMap f).Perm (ks.flatMap g) ↔ ∀ k ∈ ks, f k = g k := by
  constructor
  · intro hp k hk
    apply (h k hk).eq_of_length
    by_contra hne
    have hlt : (ks.map fun k => (f k).length).sum < (ks.map fun k => (g k).length).sum := by
      apply sum_lt_sum
      · exact fun k hk => (h k hk).length_le
      · exact ⟨k, hk, lt_of_le_of_ne (h k hk).length_le hne⟩
    have hl := hp.length_eq
    rw [length_flatMap, length_flatMap] at hl
    exact hlt.ne hl
  · intro heq
    rw [flatMap_congr heq]

def extendAll (ls : List (List (κ × α))) : HashMap κ (List α) :=
  ls.foldl (fun map l => pushAll l ∪ map) ∅

theorem extendAll_concat (ls : List (List (κ × α))) (l : List (κ × α)) :
    extendAll (ls ++ [l]) = pushAll l ∪ extendAll ls := by
  rw [extendAll, foldl_append]
  rfl

theorem lookup_extendAll_concat (ls : List (List (κ × α))) (l : List (κ × α)) (k : κ) :
    ((extendAll (ls ++ [l])).lookup k).getD [] =
      if ∃ e ∈ l, e.1 = k then (l.filter (·.1 = k)).map Prod.snd
      else ((extendAll ls).lookup k).getD [] := by
  rw [extendAll_concat]
  split_ifs with h
  · rw [lookup_union_left (mem_pushAll.2 h), getD_lookup_pushAll]
  · rw [lookup_union_right fun hm => h (mem_pushAll.1 hm)]

theorem filter_key_eq_nil_iff :
    (l.filter (·.1 = k)).map Prod.snd = [] ↔ ¬∃ e ∈ l, e.1 = k := by
  rw [map_eq_nil_iff, filter_eq_nil_iff]
  simp only [decide_eq_true_eq, not_exists, not_and]

theorem mem_extendAll {ls : List (List (κ × α))} :
    k ∈ extendAll ls ↔ ∃ e ∈ ls.flatten, e.1 = k := by
  induction ls using List.reverseRecOn with
  | nil =>
    refine iff_of_false notMem_empty ?_
    rintro ⟨e, he, -⟩
    exact not_mem_nil he
  | append_singleton ls l ih =>
    rw [extendAll_concat, mem_union, mem_pushAll, ih]
    simp only [flatten_append, flatten_singleton, mem_append, or_and_right, exists_or]
    exact or_comm

theorem lookup_extendAll_sublist (ls : List (List (κ × α))) (k : κ) :
    (((extendAll ls).lookup k).getD []).Sublist ((ls.flatten.filter (·.1 = k)).map Prod.snd) := by
  induction ls using List.reverseRecOn with
  | nil => exact nil_sublist _
  | append_singleton ls l ih =>
    rw [lookup_extendAll_concat, flatten_append, flatten_singleton, filter_append, map_append]
    split_ifs with h
    · exact sublist_append_right _ _
    · exact ih.trans (sublist_append_left _ _)

theorem extendAll_complete_iff (ls : List (List (κ × α))) (k : κ) :
    ((extendAll ls).lookup k).getD [] = (ls.flatten.filter (·.1 = k)).map Prod.snd ↔
      ls.Pairwise fun l l' => ¬((∃ e ∈ l, e.1 = k) ∧ ∃ e ∈ l', e.1 = k) := by
  induction ls using List.reverseRecOn with
  | nil => exact iff_of_true rfl Pairwise.nil
  | append_singleton ls l ih =>
    rw [lookup_extendAll_concat, flatten_append, flatten_singleton, filter_append, map_append,
      pairwise_append]
    simp only [mem_singleton, forall_eq]
    by_cases h : ∃ e ∈ l, e.1 = k
    · -- what the lists before have is replaced
      rw [if_pos h, eq_comm, append_left_eq_self, filter_key_eq_nil_iff]
      simp only [h, and_true]
      constructor
      · intro hn
        have ha : ∀ l' ∈ ls, ¬∃ e ∈ l', e.1 = k := fun l' hl' ⟨e, he, hk⟩ =>
          hn ⟨e, mem_flatten_of_mem hl' he, hk⟩
        exact ⟨pairwise_of_forall_mem_list fun l₁ hl₁ _ _ hb => ha l₁ hl₁ hb.1,
          pairwise_singleton _ _, ha⟩
      · rintro ⟨-, -, ha⟩ ⟨e, he, hk⟩
        obtain ⟨l', hl', he⟩ := mem_flatten.mp he
        exact ha l' hl' ⟨e, he, hk⟩
    · rw [if_neg h, filter_key_eq_nil_iff.2 h, append_nil, ih]
      simp [h]

end List
