/-
Poll functions that are loops around a state machine.
-/
import Massbit.Lib.Run

inductive Poll (A : Type*) where
  | pending
  | ready (a : A)

structure Turn (S E R : Type*) where
  state : S
  events : List E
  result : Option R

/-- A polled machine: its state, its events and the results of the calls. -/
structure Polled (S E R : Type*) where
  state : S
  events : List E
  results : List R

namespace Polled

variable {S E R L : Type*}

def start (s : S) : Polled S E R := ⟨s, [], []⟩

def step (turn : S → L → Turn S E R) (p : Polled S E R) (l : L) : Option (Polled S E R) :=
  some ⟨(turn p.state l).state, p.events ++ (turn p.state l).events,
    p.results ++ (turn p.state l).result.toList⟩

theorem invariant {turn : S → L → Turn S E R} {ok : Polled S E R → L → Prop}
    {I : S → List E → List R → Prop} {s : S} {p : Polled S E R} {ls : List L}
    (hr : Run (step turn) ok (start s) ls p) (h0 : I s [] [])
    (ht : ∀ {s es rs l}, I s es rs → ok ⟨s, es, rs⟩ l →
      I (turn s l).state (es ++ (turn s l).events) (rs ++ (turn s l).result.toList)) :
    I p.state p.events p.results := by
  refine hr.invariant (I := fun _ p => I p.state p.events p.results) h0 ?_
  intro ls p l p' hI hok hs
  cases hs
  exact ht hI hok

end Polled
