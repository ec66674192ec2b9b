/-
A transaction of a database, as the client sees it.
-/
import Mathlib.Data.List.Defs
import Mathlib.Tactic.Common

/-- What a server does with a statement of type `C`, over databases `D` and with errors `E`. -/
structure Server (C D E : Type*) where
  run : C → D → Except E D
  ignored : E
  disconnected : E

inductive Session (D : Type*) where
  | active (work : D)
  | aborted
  | closed

inductive Delivery (E : Type*) where
  | sent
  | refused (e : E)
  | lost (e : E)

inductive CommitFate (E : Type*) where
  | acknowledged
  | rejected (e : E)
  | lost (committed : Bool) (e : E)

namespace Session

variable {C D E : Type*} (server : Server C D E)

def execute (c : C) : Delivery E → Session D → Except E Unit × Session D
  | .refused e, s => (.error e, s)
  | .lost e, _ => (.error e, closed)
  | .sent, active work =>
    match server.run c work with
    | .ok work' => (.ok (), active work')
    | .error e => (.error e, aborted)
  | .sent, aborted => (.error server.ignored, aborted)
  | .sent, closed => (.error server.disconnected, closed)

def commit (db : D) : CommitFate E → Session D → Except E Unit × D
  | _, closed => (.error server.disconnected, db)
  | .acknowledged, active work => (.ok (), work)
  | .acknowledged, aborted => (.ok (), db)
  | .rejected e, _ => (.error e, db)
  | .lost true e, active work => (.error e, work)
  | .lost _ e, _ => (.error e, db)

variable {server} {s : Session D}

theorem execute_fst_eq_ok {c : C} {d : Delivery E} :
    (s.execute server c d).1 = .ok () ↔
      d = .sent ∧ ∃ work work', s = active work ∧ server.run c work = .ok work' ∧
        (s.execute server c d).2 = active work' := by
  constructor
  · intro h
    rcases d with - | e | e
    · rcases s with work | - | -
      · cases hr : server.run c work with
        | error e =>
          rw [execute, hr] at h
          cases h
        | ok work' =>
          refine ⟨rfl, work, work', rfl, hr, ?_⟩
          rw [execute, hr]
      · cases h
      · cases h
    · cases h
    · cases h
  · rintro ⟨rfl, work, work', rfl, hr, -⟩
    rw [execute, hr]

theorem commit_active_eq_ok {db work : D} {fate : CommitFate E}
    (h : ((active work).commit server db fate).1 = .ok ()) :
    ((active work).commit server db fate).2 = work := by
  rcases fate with - | e | ⟨c, e⟩
  · rfl
  · cases h
  · cases c
    · cases h
    · cases h

end Session
