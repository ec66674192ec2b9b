/-
Computations over a state that only grows.
-/
import Massbit.Lib.Outcome

structure Growth (S : Type) where
  Inv : S → Prop
  Le : S → S → Prop
  refl : ∀ s, Le s s
  trans : ∀ {s s' s''}, Le s s' → Le s' s'' → Le s s''

namespace Growth

variable {S E A B : Type} (g : Growth S)

def Stays (s : S) (P : S → Prop) : Prop := ∀ s', g.Inv s' → g.Le s s' → P s'

variable {g}

theorem Stays.now {s : S} {P : S → Prop} (h : g.Stays s P) (hi : g.Inv s) : P s := h s hi (g.refl s)

theorem Stays.imp {s : S} {P Q : S → Prop} (h : g.Stays s P) (hPQ : ∀ s', P s' → Q s') :
    g.Stays s Q := fun s' hi hle => hPQ s' (h s' hi hle)

variable (g)

def Ensures (fails : E → Prop) (s : S) (x : StateT S (Outcome E) A) (Q : A → S → Prop) : Prop :=
  match x.run s with
  | .ok (a, s') => g.Inv s' ∧ g.Le s s' ∧ Q a s'
  | .err e => fails e
  | .panic => False

variable {g} {fails : E → Prop} {s : S} {x : StateT S (Outcome E) A} {Q : A → S → Prop} {a : A}

theorem ensures_of_ok {s' : S} (hx : x.run s = .ok (a, s')) (hi : g.Inv s') (hle : g.Le s s')
    (hQ : Q a s') : g.Ensures fails s x Q := by
  unfold Ensures
  rw [hx]
  exact ⟨hi, hle, hQ⟩

theorem ensures_of_err {e : E} (hx : x.run s = .err e) (he : fails e) : g.Ensures fails s x Q := by
  unfold Ensures
  rw [hx]
  exact he

theorem ensures_pure (hi : g.Inv s) (hQ : Q a s) :
    g.Ensures fails s (pure a : StateT S (Outcome E) A) Q :=
  ensures_of_ok rfl hi (g.refl s) hQ

variable {f : A → StateT S (Outcome E) B} {P : A → S → Prop}

theorem ensures_bind {Q : B → S → Prop} (hx : g.Ensures fails s x P)
    (hf : ∀ a s', g.Inv s' → g.Le s s' → P a s' → g.Ensures fails s' (f a) Q) :
    g.Ensures fails s (x >>= f) Q := by
  unfold Ensures at hx ⊢
  rw [StateT.run_bind]
  rcases hru : x.run s with ⟨a, s'⟩ | e | -
  · rw [hru] at hx
    obtain ⟨hi, hle, hP⟩ := hx
    have hr := hf a s' hi hle hP
    unfold Ensures at hr
    show match (f a).run s' with
      | .ok (b, s'') => g.Inv s'' ∧ g.Le s s'' ∧ Q b s''
      | .err e => fails e
      | .panic => False
    rcases hr' : (f a).run s' with ⟨b, s''⟩ | e | -
    · rw [hr'] at hr
      exact ⟨hr.1, g.trans hle hr.2.1, hr.2.2⟩
    · rw [hr'] at hr
      exact hr
    · rw [hr'] at hr
      exact hr
  · rw [hru] at hx
    exact hx
  · rw [hru] at hx
    exact hx

theorem ensures_lift_bind {x : Outcome E A} {Q : B → S → Prop} (hx : x = .ok a)
    (hf : g.Ensures fails s (f a) Q) :
    g.Ensures fails s ((liftM x : StateT S (Outcome E) A) >>= f) Q := by
  subst hx
  exact hf

theorem ensures_lift {x : Outcome E A} (hi : g.Inv s) (hx : x = .ok a) (hQ : Q a s) :
    g.Ensures fails s (liftM x : StateT S (Outcome E) A) Q := by
  subst hx
  exact ensures_pure hi hQ

theorem ensures_get_bind {f : S → StateT S (Outcome E) B} {Q : B → S → Prop}
    (hf : g.Ensures fails s (f s) Q) : g.Ensures fails s (get >>= f) Q := hf

theorem Ensures.mono (h : g.Ensures fails s x P)
    (hPQ : ∀ a s', g.Inv s' → g.Le s s' → P a s' → Q a s') : g.Ensures fails s x Q := by
  unfold Ensures at h ⊢
  rcases hr : x.run s with ⟨a, s'⟩ | e | -
  · rw [hr] at h
    exact ⟨h.1, h.2.1, hPQ a s' h.1 h.2.1 h.2.2⟩
  · rw [hr] at h
    exact h
  · rw [hr] at h
    exact h

theorem Ensures.cases (h : g.Ensures fails s x Q) : (∃ e, fails e ∧ x.run s = .err e) ∨
      ∃ a s', x.run s = .ok (a, s') ∧ g.Inv s' ∧ g.Le s s' ∧ Q a s' := by
  unfold Ensures at h
  rcases hr : x.run s with ⟨a, s'⟩ | e | -
  · rw [hr] at h
    exact .inr ⟨a, s', rfl, h⟩
  · rw [hr] at h
    exact .inl ⟨e, h, rfl⟩
  · rw [hr] at h
    exact h.elim

end Growth
