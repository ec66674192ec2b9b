/-
What happened to a record over time, and a table that keeps its versions.
-/
import Massbit.Lib.VersionedTable
import Mathlib.Data.List.Chain
import Mathlib.Data.Set.Image

open List Option

abbrev Timeline (T V : Type*) := List (T × Option V)

namespace Timeline

variable {T V : Type*}

def written (event : T × Option V) : Option (T × V) := event.2.map fun v => (event.1, v)

def current (self : Timeline T V) : Option (T × V) := self.getLast?.bind written

theorem current_concat (self : Timeline T V) (event : T × Option V) :
    current (self ++ [event]) = written event := by
  rw [current, List.getLast?_concat]
  rfl

/-- No value is replaced or removed at the time at which it was written. -/
def Lasting (self : Timeline T V) : Prop := self.IsChain fun e e' => e.2.isSome → e.1 ≠ e'.1

theorem lasting_concat (self : Timeline T V) (e : T × Option V) :
    Lasting (self ++ [e]) ↔ self.Lasting ∧ ¬∃ v, self.current = some (e.1, v) := by
  rw [Lasting, isChain_append]
  refine and_congr_right fun _ => ?_
  rw [and_iff_right (isChain_singleton _), current]
  rcases self.getLast? with - | ⟨time, - | v⟩
  · simp
  · simp [written]
  · simp [written]

variable [LinearOrder T]

def valueAt (self : Timeline T V) (t : T) : Option (T × V) :=
  current (self.filter fun event => event.1 ≤ t)

variable {t : T}

theorem valueAt_concat_of_le (self : Timeline T V) {event : T × Option V} (h : event.1 ≤ t) :
    valueAt (self ++ [event]) t = written event := by
  have hf : [event].filter (fun event => event.1 ≤ t) = [event] := by simp [h]
  rw [valueAt, filter_append, hf, current_concat]

theorem valueAt_concat_of_lt (self : Timeline T V) {e : T × Option V} (h : t < e.1) :
    valueAt (self ++ [e]) t = valueAt self t := by
  have hf : [e].filter (fun e => e.1 ≤ t) = [] := by simp [h]
  rw [valueAt, filter_append, hf, append_nil]
  rfl

variable {self : Timeline T V}

theorem valueAt_eq_current (h : ∀ e ∈ self, e.1 ≤ t) :
    valueAt self t = current self := by
  rw [valueAt, filter_eq_self.2 fun e he => decide_eq_true (h e he)]

theorem mem_of_valueAt {w : T × V} (h : valueAt self t = some w) :
    (w.1, some w.2) ∈ self := by
  obtain ⟨⟨time, v⟩, hl, hw⟩ := bind_eq_some_iff.1 h
  obtain ⟨v, rfl, rfl⟩ := map_eq_some_iff.1 hw
  exact (mem_filter.1 (mem_of_getLast? hl)).1

end Timeline

namespace Span

variable {T : Type*}

def clamp (self : Span T) (t : T) : Span T :=
  match self.upper with
  | none => ⟨self.lower, some t⟩
  | some _ => self

@[simp] theorem lower_clamp (s : Span T) (t : T) : (s.clamp t).lower = s.lower := by
  rcases s with ⟨l, - | u⟩ <;> rfl

theorem upper_clamp_ne_none (s : Span T) (t : T) : (s.clamp t).upper ≠ none := by
  rcases s with ⟨l, - | u⟩ <;> nofun

variable [LinearOrder T] {s : Span T}

theorem contains_clamp {t time : T} (h : ∀ u, s.upper = some u → u ≤ t) :
    (s.clamp t).Contains time ↔ s.Contains time ∧ time < t := by
  rcases s with ⟨l, - | u⟩
  · constructor
    · rintro ⟨hl, hu⟩
      exact ⟨⟨hl, nofun⟩, hu t rfl⟩
    · rintro ⟨⟨hl, -⟩, ht⟩
      exact ⟨hl, fun u hu => Option.some.inj hu ▸ ht⟩
  · constructor
    · intro hc
      exact ⟨hc, (hc.2 u rfl).trans_le (h u rfl)⟩
    · exact And.left

/-- No time lies in the span. -/
def IsEmpty (self : Span T) : Prop := ∃ u ∈ self.upper, u ≤ self.lower

theorem not_isEmpty_since (t : T) : ¬(since t).IsEmpty := by
  rintro ⟨u, hu, -⟩
  cases hu

theorem isEmpty_clamp {t : T} (h : s.upper = none → s.lower ≤ t) :
    (s.clamp t).IsEmpty ↔ s.IsEmpty ∨ s.upper = none ∧ s.lower = t := by
  rcases s with ⟨l, - | u⟩
  · simpa [IsEmpty, clamp] using ⟨fun hle => le_antisymm (h rfl) hle, fun heq => heq.ge⟩
  · simp [IsEmpty, clamp]

end Span

section

variable {R T V : Type*} [LinearOrder T]

open Timeline

structure Versions (span : R → Span T) (holds : R → V → Prop) (timeline : Timeline T V) (now : T)
    (rows : Set R) : Prop where
  sound : ∀ {r t}, r ∈ rows → (span r).Contains t →
    ∃ v, timeline.valueAt t = some ((span r).lower, v) ∧ holds r v
  complete : ∀ {t w}, timeline.valueAt t = some w → ∃ r ∈ rows, (span r).Contains t
  upper_le : ∀ {r u}, r ∈ rows → (span r).upper = some u → u ≤ now
  current_isSome : ∀ {r}, r ∈ rows → (span r).upper = none → timeline.current.isSome
  time_le : ∀ {event}, event ∈ timeline → event.1 ≤ now

namespace Versions

variable {span : R → Span T} {holds : R → V → Prop} {timeline : Timeline T V} {now t : T}
  {rows rows' : Set R} {v : V}

theorem nil (now : T) : Versions span holds [] now ∅ where
  sound h := h.elim
  complete h := nomatch h
  upper_le h := h.elim
  current_isSome h := h.elim
  time_le h := nomatch h

section

variable (h : Versions span holds timeline now rows)

include h

theorem mono (hn : now ≤ t) : Versions span holds timeline t rows :=
  { h with
    upper_le := fun hr hu => (h.upper_le hr hu).trans hn
    time_le := fun he => (h.time_le he).trans hn }

theorem lower_le {r : R} (hr : r ∈ rows) (ho : (span r).upper = none) : (span r).lower ≤ now := by
  have hc : (span r).Contains (span r).lower := by
    refine ⟨le_rfl, fun u hu => ?_⟩
    rw [ho] at hu
    cases hu
  obtain ⟨v, hv, -⟩ := h.sound hr hc
  exact h.time_le (mem_of_valueAt hv)

theorem valueAt_eq_none_iff : timeline.valueAt t = none ↔ ∀ r ∈ rows, ¬(span r).Contains t := by
  constructor
  · intro hnone r hr hcontains
    obtain ⟨v, hvalue, -⟩ := h.sound hr hcontains
    rw [hnone] at hvalue
    cases hvalue
  · intro hrows
    rw [eq_none_iff_forall_ne_some]
    intro w hw
    obtain ⟨r, hr, hcontains⟩ := h.complete hw
    exact hrows r hr hcontains

theorem exists_open_iff : (∃ r ∈ rows, (span r).upper = none ∧ (span r).lower = t) ↔
    ∃ v, timeline.current = some (t, v) := by
  have hc : timeline.valueAt now = timeline.current :=
    valueAt_eq_current fun e he => h.time_le he
  constructor
  · rintro ⟨r, hr, ho, rfl⟩
    obtain ⟨v, hva, -⟩ := h.sound hr ⟨h.lower_le hr ho, fun u hu => by rw [ho] at hu; cases hu⟩
    exact ⟨v, hc ▸ hva⟩
  · rintro ⟨v, hv⟩
    obtain ⟨r, hr, hco⟩ := h.complete (hc.trans hv)
    obtain ⟨v', hva, -⟩ := h.sound hr hco
    rw [hc, hv] at hva
    refine ⟨r, hr, ?_, congrArg Prod.fst (Option.some.inj hva).symm⟩
    by_contra hne
    obtain ⟨u, hu⟩ := ne_none_iff_exists'.1 hne
    exact absurd (h.upper_le hr hu) (not_le.2 (hco.2 u hu))

variable {f : R → R}

theorem isEmpty_image_iff (hn : now ≤ t) (hs : ∀ r ∈ rows, span (f r) = (span r).clamp t) :
    (∃ r ∈ Set.image f rows, (span r).IsEmpty) ↔
      (∃ r ∈ rows, (span r).IsEmpty) ∨ ∃ v, timeline.current = some (t, v) := by
  rw [← h.exists_open_iff]
  have hi : ∀ r ∈ rows, (span (f r)).IsEmpty ↔
      (span r).IsEmpty ∨ (span r).upper = none ∧ (span r).lower = t := fun r hr => by
    rw [hs r hr]
    exact Span.isEmpty_clamp fun ho => (h.lower_le hr ho).trans hn
  constructor
  · rintro ⟨_, ⟨r, hr, rfl⟩, hempty⟩
    exact ((hi r hr).mp hempty).imp (fun h => ⟨r, hr, h⟩) fun h => ⟨r, hr, h⟩
  · rintro (⟨r, hr, hempty⟩ | ⟨r, hr, ho⟩)
    · exact ⟨f r, ⟨r, hr, rfl⟩, (hi r hr).mpr (.inl hempty)⟩
    · exact ⟨f r, ⟨r, hr, rfl⟩, (hi r hr).mpr (.inr ho)⟩

theorem time_le_concat (hn : now ≤ t) {v : Option V} :
    ∀ {event}, event ∈ timeline ++ [(t, v)] → event.1 ≤ t := by
  intro event he
  rcases mem_append.1 he with he | he
  · exact (h.time_le he).trans hn
  · rw [mem_singleton.1 he]

/-- **A value is written** by new rows that start at the time. -/
theorem insert (hn : now ≤ t) (hcu : timeline.current = none) (ho : rows ⊆ rows')
    (hne : ∀ r ∈ rows', r ∈ rows ∨ span r = .since t ∧ holds r v)
    (he : ∃ r ∈ rows', span r = .since t) :
    Versions span holds (timeline ++ [(t, some v)]) t rows' where
  sound := by
    intro r time hr hc
    rcases hne r hr with hr | ⟨hs, hh⟩
    · -- an earlier row has ended
      obtain ⟨u, hu⟩ : ∃ u, (span r).upper = some u := by
        rw [← ne_none_iff_exists']
        intro hopen
        have hsome := h.current_isSome hr hopen
        rw [hcu] at hsome
        cases hsome
      have hlt : time < t := (hc.2 u hu).trans_le ((h.upper_le hr hu).trans hn)
      rw [valueAt_concat_of_lt _ hlt]
      exact h.sound hr hc
    · rw [hs] at hc ⊢
      rw [valueAt_concat_of_le _ hc.1]
      exact ⟨v, rfl, hh⟩
  complete := by
    intro time w hw
    rcases le_or_gt t time with hle | hlt
    · obtain ⟨r, hr, hs⟩ := he
      exact ⟨r, hr, hs ▸ Span.contains_since.mpr hle⟩
    · rw [valueAt_concat_of_lt _ hlt] at hw
      obtain ⟨r, hr, hc⟩ := h.complete hw
      exact ⟨r, ho hr, hc⟩
  upper_le := by
    intro r u hr hu
    rcases hne r hr with hr | ⟨hs, -⟩
    · exact (h.upper_le hr hu).trans hn
    · rw [hs] at hu
      cases hu
  current_isSome := by
    intro r _ _
    rw [current_concat]
    rfl
  time_le := h.time_le_concat hn

/-- **The record is removed** if the spans of its rows end. -/
theorem clamp (hn : now ≤ t) (hsp : ∀ r ∈ rows, span (f r) = (span r).clamp t)
    (hh : ∀ r ∈ rows, ∀ v, holds r v → holds (f r) v) :
    Versions span holds (timeline ++ [(t, none)]) t (Set.image f rows) := by
  have hc : ∀ {r time}, r ∈ rows →
      ((span (f r)).Contains time ↔ (span r).Contains time ∧ time < t) := by
    intro r time hr
    rw [hsp r hr]
    exact Span.contains_clamp fun u hu => (h.upper_le hr hu).trans hn
  constructor
  · rintro _ time ⟨r, hr, rfl⟩ hva
    obtain ⟨hva, hlt⟩ := (hc hr).mp hva
    obtain ⟨v, hvl, hv⟩ := h.sound hr hva
    refine ⟨v, ?_, hh r hr v hv⟩
    rw [valueAt_concat_of_lt _ hlt, hsp r hr, Span.lower_clamp]
    exact hvl
  · intro time w hw
    rcases le_or_gt t time with hle | hlt
    · rw [valueAt_concat_of_le _ hle] at hw
      cases hw
    · rw [valueAt_concat_of_lt _ hlt] at hw
      obtain ⟨r, hr, hva⟩ := h.complete hw
      exact ⟨f r, ⟨r, hr, rfl⟩, (hc hr).mpr ⟨hva, hlt⟩⟩
  · rintro _ u ⟨r, hr, rfl⟩ hu
    rw [hsp r hr] at hu
    rcases hs : span r with ⟨l, - | u'⟩
    · rw [hs] at hu
      exact (Option.some.inj hu).ge
    · rw [hs] at hu
      cases hu
      exact (h.upper_le hr (hs ▸ rfl)).trans hn
  · rintro _ ⟨r, hr, rfl⟩ hopen
    rw [hsp r hr] at hopen
    exact absurd hopen (Span.upper_clamp_ne_none _ _)
  · exact h.time_le_concat hn

/-- **The record is overwritten** if the spans of its rows end and new rows start. -/
theorem overwrite (hn : now ≤ t) (hs : ∀ r ∈ rows, span (f r) = (span r).clamp t)
    (hh : ∀ r ∈ rows, ∀ v, holds r v → holds (f r) v) (hol : Set.image f rows ⊆ rows')
    (hne : ∀ r ∈ rows', r ∈ Set.image f rows ∨ span r = .since t ∧ holds r v)
    (he : ∃ r ∈ rows', span r = .since t) :
    Versions span holds (timeline ++ [(t, some v)]) t rows' := by
  have hb := (h.clamp hn hs hh).insert le_rfl (current_concat _ _) hol hne he
  -- the removal in between can not be seen
  have hv : ∀ time, valueAt (timeline ++ [(t, some v)]) time =
      valueAt (timeline ++ [(t, none)] ++ [(t, some v)]) time := by
    intro time
    rcases le_or_gt t time with hle | hlt
    · rw [valueAt_concat_of_le _ hle, valueAt_concat_of_le _ hle]
    · rw [valueAt_concat_of_lt _ hlt, valueAt_concat_of_lt _ hlt, valueAt_concat_of_lt _ hlt]
  have hcu : current (timeline ++ [(t, some v)]) =
      current (timeline ++ [(t, none)] ++ [(t, some v)]) := by
    rw [current_concat, current_concat]
  constructor
  · intro r time hr hc
    rw [hv]
    exact hb.sound hr hc
  · intro time w hw
    rw [hv] at hw
    exact hb.complete hw
  · exact hb.upper_le
  · intro r hr ho
    rw [hcu]
    exact hb.current_isSome hr ho
  · exact h.time_le_concat hn

end

end Versions

end
