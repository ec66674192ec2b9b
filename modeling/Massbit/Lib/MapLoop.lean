/-
Loops over a hash map, which is Mathlib's `Finmap`.
-/
import Mathlib.Data.Finmap

open List

/-- A hash map from `K` to `V`. -/
abbrev HashMap (K V : Type*) := Finmap fun _ : K => V

theorem foldl_of_mem {A S : Type*} {f : S → A → S} {P : S → Prop} {l : List A} {a : A}
    (ha : a ∈ l) (hat : ∀ s, P (f s a)) (hk : ∀ s b, P s → P (f s b)) (s : S) :
    P (l.foldl f s) := by
  obtain ⟨pre, post, rfl⟩ := append_of_mem ha
  rw [foldl_append, foldl_cons]
  exact List.foldlRecOn post f (hat _) fun s hs b _ => hk s b hs

namespace Finmap

variable {α : Type*} {β : α → Type*} {γ δ : Type*}

/-- `l` lists the entries of `m`, each once, in some order. -/
def Enumerates (l : List (Sigma β)) (m : Finmap β) : Prop :=
  (l : Multiset (Sigma β)) = m.entries

instance [DecidableEq α] [∀ a, DecidableEq (β a)] (l : List (Sigma β)) (m : Finmap β) :
    Decidable (Enumerates l m) :=
  inferInstanceAs (Decidable ((l : Multiset (Sigma β)) = m.entries))

variable {l : List (Sigma β)} {m : Finmap β} {f : δ → Sigma β → δ}
  {hcomm : ∀ d e e', e.1 ≠ e'.1 → f (f d e) e' = f (f d e') e}

theorem Enumerates.nodupKeys (h : Enumerates l m) : l.NodupKeys := by
  have hm := m.nodupKeys
  rw [← h] at hm
  exact Multiset.coe_nodupKeys.1 hm

theorem Enumerates.dlookup [DecidableEq α] (h : Enumerates l m) (a : α) :
    l.dlookup a = m.lookup a := by
  induction m using Finmap.induction_on with
  | H s =>
    have hp : l.Perm s.entries := Multiset.coe_eq_coe.1 h
    exact perm_dlookup a h.nodupKeys hp

variable {a : α}

theorem Enumerates.mem_iff [DecidableEq α] (h : Enumerates l m) {b : β a} :
    ⟨a, b⟩ ∈ l ↔ m.lookup a = some b := by
  rw [← h.dlookup a]
  exact (mem_dlookup_iff h.nodupKeys).symm

theorem exists_enumerates (m : Finmap β) : ∃ l, Enumerates l m :=
  m.induction_on fun s => ⟨s.entries, rfl⟩

/-- A choice of the order in which each map is visited. -/
structure IterOrder (β : α → Type*) where
  toList : Finmap β → List (Sigma β)
  enumerates : ∀ m, Enumerates (toList m) m

noncomputable def IterOrder.prefer [DecidableEq α] [∀ a, DecidableEq (β a)]
    (l : List (Sigma β)) : IterOrder β where
  toList m := if Enumerates l m then l else (exists_enumerates m).choose
  enumerates m := by
    split
    next h => exact h
    next => exact (exists_enumerates m).choose_spec

/-- The opposite order. -/
def IterOrder.reverse (o : IterOrder β) : IterOrder β where
  toList m := (o.toList m).reverse
  enumerates m := (Multiset.coe_reverse _).trans (o.enumerates m)

noncomputable def IterOrder.preferAny [DecidableEq α] [∀ a, DecidableEq (β a)]
    (ls : List (List (Sigma β))) : IterOrder β where
  toList m := (ls.find? fun l => Enumerates l m).getD (exists_enumerates m).choose
  enumerates m := by
    rcases h : ls.find? fun l => Enumerates l m with - | l
    · exact (exists_enumerates m).choose_spec
    · have hl := List.find?_some h
      exact of_decide_eq_true hl

theorem IterOrder.nodup_toList (o : IterOrder β) (m : Finmap β) : (o.toList m).Nodup :=
  (o.enumerates m).nodupKeys.nodup

variable {h : β a → γ → γ} {g : δ → γ}

theorem foldl_at [DecidableEq α] (hne : ∀ d e, e.1 ≠ a → g (f d e) = g d)
    (hat : ∀ d b, g (f d ⟨a, b⟩) = h b (g d)) :
    ∀ {l : List (Sigma β)}, l.NodupKeys → ∀ d,
      g (l.foldl f d) = (l.dlookup a).elim (g d) fun b => h b (g d)
  | [], _, d => by simp
  | ⟨a', b⟩ :: l, hl, d => by
    rw [nodupKeys_cons] at hl
    obtain ⟨hn, hl⟩ := hl
    rw [foldl_cons, foldl_at hne hat hl]
    by_cases haa : a' = a
    · subst haa
      rw [dlookup_eq_none.2 hn, dlookup_cons_eq, Option.elim_none, Option.elim_some,
        hat]
    · rw [dlookup_cons_ne _ _ (Ne.symm haa), hne _ _ haa]

theorem foldl_perm (hcomm : ∀ d e e', e.1 ≠ e'.1 → f (f d e) e' = f (f d e') e)
    {l' : List (Sigma β)} (hl : l.NodupKeys) (hp : l.Perm l') (d : δ) :
    l.foldl f d = l'.foldl f d := by
  refine hp.foldl_eq' (fun x hx y hy z => ?_) d
  by_cases hxy : x.1 = y.1
  · rw [hl.eq_of_fst_eq hx hy hxy]
  · exact hcomm z x y hxy

def forEach (m : Finmap β) (f : δ → Sigma β → δ)
    (hcomm : ∀ d e e', e.1 ≠ e'.1 → f (f d e) e' = f (f d e') e) (d : δ) : δ :=
  m.liftOn (fun s => s.entries.foldl f d) fun s _ hp => foldl_perm hcomm s.nodupKeys hp d

theorem forEach_eq_foldl (hl : Enumerates l m) (d : δ) : m.forEach f hcomm d = l.foldl f d := by
  induction m using Finmap.induction_on with
  | H s =>
    exact (foldl_perm hcomm hl.nodupKeys (Multiset.coe_eq_coe.1 hl) d).symm

theorem forEach_at [DecidableEq α] (hne : ∀ d e, e.1 ≠ a → g (f d e) = g d)
    (hat : ∀ d b, g (f d ⟨a, b⟩) = h b (g d)) (d : δ) :
    g (m.forEach f hcomm d) = (m.lookup a).elim (g d) fun b => h b (g d) := by
  obtain ⟨l, hl⟩ := exists_enumerates m
  rw [forEach_eq_foldl hl, foldl_at hne hat hl.nodupKeys, hl.dlookup]

end Finmap

namespace Finset

variable {α : Type*}

/-- A choice of the order in which each hash set is visited. -/
structure IterOrder (α : Type*) where
  toList : Finset α → List α
  nodup : ∀ s, (toList s).Nodup
  mem_toList : ∀ {s a}, a ∈ toList s ↔ a ∈ s

noncomputable def IterOrder.choose : IterOrder α where
  toList := Finset.toList
  nodup := Finset.nodup_toList
  mem_toList := Finset.mem_toList

/-- The order that visits the element first in every set that has it. -/
noncomputable def IterOrder.startWith [DecidableEq α] (a : α) : IterOrder α where
  toList s := if a ∈ s then a :: (s.erase a).toList else s.toList
  nodup s := by
    split_ifs
    · simp [nodup_toList]
    · exact nodup_toList s
  mem_toList := by
    intro s b
    split_ifs with h
    · by_cases hb : b = a
      · simp [hb, h]
      · simp [hb]
    · exact Finset.mem_toList

theorem IterOrder.toList_singleton (o : IterOrder α) (a : α) : o.toList {a} = [a] := by
  have hm : ∀ b, b ∈ o.toList {a} ↔ b = a := fun b => o.mem_toList.trans mem_singleton
  have hn := o.nodup {a}
  rcases e : o.toList {a} with - | ⟨b, - | ⟨c, l⟩⟩
  · rw [e] at hm
    exact absurd ((hm a).mpr rfl) List.not_mem_nil
  · rw [e] at hm
    rw [(hm b).1 (by simp)]
  · rw [e] at hm hn
    have hbc : b = c := ((hm b).mp (by simp)).trans ((hm c).mp (by simp)).symm
    exact absurd (hbc ▸ List.mem_cons_self) (List.nodup_cons.mp hn).1

end Finset
