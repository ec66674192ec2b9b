/-
Runs of a state machine `step : S → L → Option S`, where `none` means that the step does not return.
-/
import Mathlib.Logic.Basic

/-- A run of `step` from one state to another, all of whose steps meet `ok`. -/
inductive Run {S L : Type*} (step : S → L → Option S) (ok : S → L → Prop) : S → List L → S → Prop
  | nil (s : S) : Run step ok s [] s
  | snoc {s s' s'' : S} {ls : List L} {l : L} :
      Run step ok s ls s' → ok s' l → step s' l = some s'' → Run step ok s (ls ++ [l]) s''

namespace Run

variable {S L : Type*} {step : S → L → Option S} {ok ok' : S → L → Prop} {s s' : S} {ls : List L}

theorem invariant {I : List L → S → Prop} (h : Run step ok s ls s') (h0 : I [] s)
    (hst : ∀ {ls s l s'}, I ls s → ok s l → step s l = some s' → I (ls ++ [l]) s') : I ls s' := by
  induction h with
  | nil => exact h0
  | snoc _ hok hs ih => exact hst ih hok hs

theorem cons {s₁ : S} {l : L} (hok : ok s l) (hs : step s l = some s₁) (h : Run step ok s₁ ls s') :
    Run step ok s (l :: ls) s' := by
  induction h with
  | nil => exact .snoc (.nil s) hok hs
  | snoc _ hok' hs' ih => exact .snoc ih hok' hs'

theorem append {s₁ : S} {ls' : List L} (h : Run step ok s ls s₁) (h' : Run step ok s₁ ls' s') :
    Run step ok s (ls ++ ls') s' := by
  induction h' with
  | nil => rwa [List.append_nil]
  | snoc _ hok hs ih =>
    rw [← List.append_assoc]
    exact .snoc ih hok hs

theorem of_foldlM_of_forall : ∀ {ls : List L} {s s' : S}, (∀ l ∈ ls, ∀ s, ok s l) →
    ls.foldlM step s = some s' → Run step ok s ls s'
  | [], s, s', _, h => by
    obtain rfl : s = s' := Option.some.inj h
    exact .nil s
  | l :: ls, s, s', hok, h => by
    obtain ⟨s₁, hs, h⟩ := Option.bind_eq_some_iff.1 h
    have hr : ∀ l ∈ ls, ∀ s, ok s l := fun l hl => hok l (List.mem_cons_of_mem _ hl)
    exact cons (hok l List.mem_cons_self s) hs (of_foldlM_of_forall hr h)

theorem of_foldlM (h : ls.foldlM step s = some s') : Run step (fun _ _ => True) s ls s' :=
  of_foldlM_of_forall (fun _ _ _ => trivial) h

theorem foldlM_eq (h : Run step ok s ls s') : ls.foldlM step s = some s' := by
  refine h.invariant (I := fun ls s' => ls.foldlM step s = some s') rfl fun ih _ hs => ?_
  rw [List.foldlM_append, ih]
  exact (bind_pure (step _ _)).trans hs

theorem mono {I : S → Prop} (h : Run step ok s ls s') (h0 : I s)
    (hst : ∀ {s l s'}, I s → ok s l → step s l = some s' → I s')
    (hok : ∀ {s l}, I s → ok s l → ok' s l) : Run step ok' s ls s' := by
  suffices hb : Run step ok' s ls s' ∧ I s' from hb.1
  induction h with
  | nil => exact ⟨.nil _, h0⟩
  | snoc _ hl hs ih => exact ⟨.snoc ih.1 (hok ih.2 hl) hs, hst ih.2 hl hs⟩

end Run
