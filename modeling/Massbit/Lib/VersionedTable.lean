/-
Tables that keep every version of a record.
-/
import Mathlib.Order.Lattice
import Mathlib.Order.MinMax
import Mathlib.Data.List.Pairwise

structure Span (T : Type*) where
  lower : T
  upper : Option T
  deriving DecidableEq, Repr

namespace Span

variable {T : Type*} [LinearOrder T]

def since (t : T) : Span T := ⟨t, none⟩

def Contains (s : Span T) (t : T) : Prop := s.lower ≤ t ∧ ∀ u ∈ s.upper, t < u

instance (s : Span T) (t : T) : Decidable (s.Contains t) :=
  inferInstanceAs (Decidable (_ ∧ ∀ u ∈ s.upper, t < u))

def Overlaps (s s' : Span T) : Prop :=
  s.Contains (max s.lower s'.lower) ∧ s'.Contains (max s.lower s'.lower)

instance (s s' : Span T) : Decidable (s.Overlaps s') := inferInstanceAs (Decidable (_ ∧ _))

theorem contains_since {l t : T} : (since l).Contains t ↔ l ≤ t := ⟨And.left, fun h => ⟨h, nofun⟩⟩

variable {s s' : Span T}

theorem Overlaps.symm (h : s.Overlaps s') : s'.Overlaps s := by
  rw [Overlaps, max_comm]
  exact And.symm h

theorem Contains.overlaps {t : T} (h : s.Contains t) (h' : s'.Contains t) :
    s.Overlaps s' := by
  have hm : max s.lower s'.lower ≤ t := max_le h.1 h'.1
  exact ⟨⟨le_max_left _ _, fun u hu => hm.trans_lt (h.2 u hu)⟩,
    ⟨le_max_right _ _, fun u hu => hm.trans_lt (h'.2 u hu)⟩⟩

end Span

variable {R K T : Type*} [LinearOrder T]

structure VersionedTable (key : R → K) (span : R → Span T) where
  rows : List R
  exclusive : rows.Pairwise fun r r' => ¬ (key r = key r' ∧ (span r).Overlaps (span r'))

namespace VersionedTable

variable {key : R → K} {span : R → Span T}

def empty : VersionedTable key span := ⟨[], .nil⟩

variable [DecidableEq K]

def insert (t : VersionedTable key span) (row : R) : Option (VersionedTable key span) :=
  if h : ∀ r ∈ t.rows, ¬ (key r = key row ∧ (span r).Overlaps (span row)) then
    some ⟨t.rows ++ [row], List.pairwise_append.2
      ⟨t.exclusive, List.pairwise_singleton _ _, fun r hr _ hrow =>
        List.mem_singleton.1 hrow ▸ h r hr⟩⟩
  else none

variable {t : VersionedTable key span}

theorem rows_insert {t' : VersionedTable key span} {row : R} (h : t.insert row = some t') :
    t'.rows = t.rows ++ [row] := by
  unfold insert at h
  split at h
  · exact (congrArg rows (Option.some.inj h)).symm
  · cases h

def ofRows? (rows : List R) : Option (VersionedTable key span) :=
  if h : rows.Pairwise fun r r' => ¬ (key r = key r' ∧ (span r).Overlaps (span r')) then
    some ⟨rows, h⟩
  else none

theorem rows_ofRows? {rows : List R} (h : ofRows? rows = some t) : t.rows = rows := by
  unfold ofRows? at h
  split at h
  · exact (congrArg VersionedTable.rows (Option.some.inj h)).symm
  · cases h

def find? (t : VersionedTable key span) (k : K) (time : T) : Option R :=
  t.rows.find? fun r => key r = k ∧ (span r).Contains time

variable {time : T}

omit [DecidableEq K] in
theorem eq_of_contains (t : VersionedTable key span) {r r' : R} (hr : r ∈ t.rows)
    (hr' : r' ∈ t.rows) (hk : key r = key r') (h : (span r).Contains time)
    (h' : (span r').Contains time) : r = r' := by
  by_contra hne
  have : Std.Symm fun r r' => ¬ (key r = key r' ∧ (span r).Overlaps (span r')) :=
    ⟨fun _ _ hn hc => hn ⟨hc.1.symm, hc.2.symm⟩⟩
  exact t.exclusive.forall hr hr' hne ⟨hk, h.overlaps h'⟩

theorem find?_eq_some {k : K} {row : R} :
    t.find? k time = some row ↔ row ∈ t.rows ∧ key row = k ∧ (span row).Contains time := by
  constructor
  · intro h
    have hp := List.find?_some h
    exact ⟨List.mem_of_find?_eq_some h, of_decide_eq_true hp⟩
  · rintro ⟨hm, rfl, hc⟩
    rcases e : t.find? (key row) time with - | row'
    · exact absurd (decide_eq_true ⟨rfl, hc⟩) (List.find?_eq_none.1 e row hm)
    · have hp := List.find?_some e
      obtain ⟨hk', hc'⟩ := of_decide_eq_true hp
      have hm' := List.mem_of_find?_eq_some e
      rw [t.eq_of_contains hm hm' hk'.symm hc hc']

theorem find?_eq_none {k : K} :
    t.find? k time = none ↔ ∀ row ∈ t.rows, key row = k → ¬ (span row).Contains time := by
  rw [find?, List.find?_eq_none]
  simp only [decide_eq_true_eq, not_and]

end VersionedTable
