/-
Tasks that run concurrently over a shared state.
-/
import Massbit.Lib.Run
import Mathlib.Data.List.Basic

/-- A shared state, with the tasks that work on it. -/
structure Tasks (S A : Type*) where
  shared : S
  pending : List (List A)

structure TaskEffect (S A : Type*) where
  shared : S
  next : List A := []
  spawned : List (List A) := []

open List

namespace Tasks

variable {S A D : Type*} {act : S → A → D → Option (TaskEffect S A)}

def step (act : S → A → D → Option (TaskEffect S A)) (p : Tasks S A) (l : ℕ × D) :
    Option (Tasks S A) :=
  match p.pending[l.1]? with
  | some (a :: rest) =>
    (act p.shared a l.2).map fun effect =>
      ⟨effect.shared, p.pending.set l.1 (effect.next ++ rest) ++ effect.spawned⟩
  | some [] | none => none

variable {p : Tasks S A} {pending : List (List A)} {i : ℕ} {rest : List A}

theorem step_of_getElem? {d : D} {a : A} {e : TaskEffect S A}
    (hi : p.pending[i]? = some (a :: rest)) (ha : act p.shared a d = some e) :
    step act p (i, d) = some ⟨e.shared, p.pending.set i (e.next ++ rest) ++ e.spawned⟩ := by
  show (match p.pending[i]? with
    | some (a :: rest) => _
    | some [] | none => none) = _
  rw [hi]
  show (act p.shared a d).map _ = _
  rw [ha]
  rfl

variable {p' : Tasks S A}

theorem step_eq_some {l : ℕ × D} (h : step act p l = some p') :
    ∃ a rest e, p.pending[l.1]? = some (a :: rest) ∧ act p.shared a l.2 = some e ∧
      p' = ⟨e.shared, p.pending.set l.1 (e.next ++ rest) ++ e.spawned⟩ := by
  obtain ⟨i, d⟩ := l
  rcases hi : p.pending[i]? with - | ⟨- | ⟨a, rest⟩⟩
  · simp only [step, hi, reduceCtorEq] at h
  · simp only [step, hi, reduceCtorEq] at h
  · rcases ha : act p.shared a d with - | e
    · simp only [step, hi, ha, Option.map_none, reduceCtorEq] at h
    · rw [step_of_getElem? hi ha] at h
      exact ⟨a, rest, e, rfl, ha, (Option.some.inj h).symm⟩

theorem step_set {d : D} {a : A} {s : S} (hi : p.pending[i]? = some (a :: rest))
    (ha : act p.shared a d = some { shared := s }) :
    step act p (i, d) = some ⟨s, p.pending.set i rest⟩ := by
  rw [step_of_getElem? hi ha, append_nil]
  rfl

def All (P : A → Prop) (pending : List (List A)) : Prop := ∀ task ∈ pending, ∀ a ∈ task, P a

variable {P : A → Prop} {task : List A}

theorem All.getElem? (h : All P pending) (hi : pending[i]? = some task) :
    ∀ a ∈ task, P a :=
  h task (mem_of_getElem? hi)

theorem All.append {s : List (List A)} (h : All P pending) (hs : All P s) :
    All P (pending ++ s) := by
  intro task ht
  rcases mem_append.1 ht with ht | ht
  · exact h task ht
  · exact hs task ht

theorem All.set (h : All P pending) (i : ℕ) (hta : ∀ a ∈ task, P a) :
    All P (pending.set i task) := by
  intro t ht
  rcases mem_or_eq_of_mem_set ht with ht | rfl
  · exact h t ht
  · exact hta

theorem invariant {I : S → Prop} {ok : Tasks S A → ℕ × D → Prop} {ls : List (ℕ × D)}
    (hr : Run (step act) ok p ls p') (h0 : I p.shared) (hp : All P p.pending)
    (hac : ∀ {s a d effect}, I s → P a → act s a d = some effect → I effect.shared ∧
      (∀ b ∈ effect.next, P b) ∧ All P effect.spawned) :
    I p'.shared ∧ All P p'.pending := by
  apply Run.invariant (I := fun _ p => I p.shared ∧ All P p.pending) hr ⟨h0, hp⟩
  rintro _ p l p' ⟨hI, hP⟩ _ hst
  obtain ⟨a, rest, effect, hi, ha, rfl⟩ := step_eq_some hst
  have ht := hP.getElem? hi
  obtain ⟨hI', hn, hs⟩ := hac hI (ht a mem_cons_self) ha
  refine ⟨hI', (hP.set _ fun b hb => ?_).append hs⟩
  rcases mem_append.mp hb with hb | hb
  · exact hn b hb
  · exact ht b (mem_cons_of_mem _ hb)

end Tasks
