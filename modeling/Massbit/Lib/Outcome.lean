/-
How a call of a fallible function ends: with a value, an error or a panic.
-/
import Mathlib.Data.List.Forall2

open List

variable {A B : Type*}

theorem List.Forall₂.exists_of_mem {R : A → B → Prop} {l : List A} {l' : List B}
    (h : List.Forall₂ R l l') {a : A} (ha : a ∈ l) : ∃ b ∈ l', R a b := by
  induction h with
  | nil => cases ha
  | cons hab _ ih =>
    rcases mem_cons.1 ha with rfl | ha
    · exact ⟨_, mem_cons_self, hab⟩
    · obtain ⟨b, hb, hr⟩ := ih ha
      exact ⟨b, mem_cons_of_mem _ hb, hr⟩

theorem List.Forall₂.map_eq {K : Type*} {f : A → K} {g : B → K} {l : List A} {l' : List B}
    (h : List.Forall₂ (fun a b => f a = g b) l l') : l.map f = l'.map g := by
  rw [← forall₂_eq_eq_eq, forall₂_map_left_iff, forall₂_map_right_iff]
  exact h

theorem List.Forall₂.pairwise {R : A → B → Prop} {S : A → A → Prop} {T : B → B → Prop}
    {l : List A} {l' : List B} (h : List.Forall₂ R l l') (hl' : l'.Pairwise T)
    (hST : ∀ {a a' b b'}, R a b → R a' b' → T b b' → S a a') : l.Pairwise S := by
  induction h with
  | nil => exact .nil
  | cons hab hr ih =>
    obtain ⟨hf, hl'⟩ := pairwise_cons.1 hl'
    refine pairwise_cons.2 ⟨?_, ih hl'⟩
    intro a' ha'
    obtain ⟨b', hb', hr⟩ := hr.exists_of_mem ha'
    exact hST hab hr (hf b' hb')

theorem exists_forall₂ {R : A → B → Prop} :
    ∀ {l : List A}, (∀ a ∈ l, ∃ b, R a b) → ∃ l', List.Forall₂ R l l'
  | [], _ => ⟨[], .nil⟩
  | a :: l, h => by
    obtain ⟨b, hb⟩ := h a mem_cons_self
    obtain ⟨l', hl'⟩ := exists_forall₂ (l := l) fun a' ha' => h a' (mem_cons_of_mem _ ha')
    exact ⟨b :: l', .cons hb hl'⟩

inductive Outcome (E A : Type*) where
  | ok (a : A)
  | err (e : E)
  | panic

namespace Outcome

variable {E E' A B S : Type*}

def bind (x : Outcome E A) (f : A → Outcome E B) : Outcome E B :=
  match x with
  | ok a => f a
  | err e => err e
  | panic => panic

instance : Monad (Outcome E) where
  pure := ok
  bind := bind

instance : LawfulMonad (Outcome E) := LawfulMonad.mk' (Outcome E)
  (fun x => by cases x <;> rfl) (fun _ _ => rfl) (fun x _ _ => by cases x <;> rfl)

def ofOption : Option A → Outcome E A
  | some a => ok a
  | none => panic

def ofExcept : Except E A → Outcome E A
  | .ok a => ok a
  | .error e => err e

def mapErr (f : E → E') : Outcome E A → Outcome E' A
  | ok a => ok a
  | err e => err (f e)
  | panic => panic

def value? : Outcome E A → Option A
  | ok a => some a
  | err _ | panic => none

theorem value?_eq_some {x : Outcome E A} {a : A} : x.value? = some a ↔ x = ok a := by
  cases x <;> simp [value?]

theorem ne_err_of_isSome {x : Outcome E A} {e : E} (h : x.value?.isSome) : x ≠ err e := by
  rintro rfl
  cases h

theorem bind_eq_ok {E A B : Type} {x : Outcome E A} {f : A → Outcome E B} {b : B} :
    (x >>= f) = ok b ↔ ∃ a, x = ok a ∧ f a = ok b := by
  constructor
  · intro h
    cases x with
    | ok a => exact ⟨a, rfl, h⟩
    | err e => cases h
    | panic => cases h
  · rintro ⟨a, rfl, h⟩
    exact h

theorem bind_pure_eq_ok {E A B : Type} {x : Outcome E A} {f : A → B} {b : B} :
    (x >>= fun a => pure (f a)) = ok b ↔ ∃ a, x = ok a ∧ f a = b := by
  rw [bind_eq_ok]
  exact exists_congr fun a => and_congr_right fun _ => ⟨ok.inj, congrArg ok⟩

theorem bind_ne_panic_iff {E A B : Type} {x : Outcome E A} {f : A → Outcome E B} :
    (x >>= f) ≠ panic ↔ x ≠ panic ∧ ∀ a, x = ok a → f a ≠ panic := by
  cases x with
  | ok a =>
    have hb : (ok a >>= f) = f a := rfl
    rw [hb]
    constructor
    · exact fun h => ⟨nofun, by rintro _ ⟨⟩; exact h⟩
    · exact fun h => h.2 a rfl
  | err e => exact iff_of_true nofun ⟨nofun, nofun⟩
  | panic => exact iff_of_false (· rfl) fun h => h.1 rfl

theorem bind_ne_panic {E A B : Type} {x : Outcome E A} {f : A → Outcome E B} (hx : x ≠ panic)
    (hf : ∀ a, x = ok a → f a ≠ panic) : (x >>= f) ≠ panic :=
  bind_ne_panic_iff.2 ⟨hx, hf⟩

theorem ite_ne_panic {E A : Type} {p : Prop} [Decidable p] {x y : Outcome E A} (hx : p → x ≠ panic)
    (hy : ¬p → y ≠ panic) : (if p then x else y) ≠ panic := by
  split
  next h => exact hx h
  next h => exact hy h

theorem bind_congr {E A B : Type} {x : Outcome E A} {f g : A → Outcome E B}
    (h : ∀ a, x = ok a → f a = g a) : (x >>= f) = (x >>= g) := by
  cases x with
  | ok a => exact h a rfl
  | err e => rfl
  | panic => rfl

@[simp] theorem ofOption_eq_ok {x : Option A} {a : A} :
    (ofOption x : Outcome E A) = ok a ↔ x = some a := by
  cases x <;> simp [ofOption]

@[simp] theorem ofExcept_eq_ok {x : Except E A} {a : A} :
    (ofExcept x : Outcome E A) = ok a ↔ x = .ok a := by
  cases x <;> simp [ofExcept]

@[simp] theorem mapErr_eq_ok {f : E → E'} {x : Outcome E A} {a : A} :
    x.mapErr f = ok a ↔ x = ok a := by
  cases x <;> simp [mapErr]

theorem run_bind_eq_ok {S E A B : Type} {x : StateT S (Outcome E) A}
    {f : A → StateT S (Outcome E) B} {s s' : S} {b : B} :
    (x >>= f) s = ok (b, s') ↔ ∃ a s₁, x s = ok (a, s₁) ∧ f a s₁ = ok (b, s') := by
  show (x s >>= fun r => f r.1 r.2) = ok (b, s') ↔ _
  rw [bind_eq_ok]
  exact Prod.exists

theorem run_bind_pure_eq_ok {S E A B : Type} {x : StateT S (Outcome E) A} {f : A → B} {s s' : S}
    {b : B} : (x >>= fun a => pure (f a)) s = ok (b, s') ↔ ∃ a, x s = ok (a, s') ∧ f a = b := by
  rw [run_bind_eq_ok]
  constructor
  · rintro ⟨a, s₁, hx, h⟩
    cases h
    exact ⟨a, hx, rfl⟩
  · rintro ⟨a, hx, rfl⟩
    exact ⟨a, s', hx, rfl⟩

theorem run_lift_eq_ok {S E A : Type} {x : Outcome E A} {s s' : S} {a : A} :
    (liftM x : StateT S (Outcome E) A) s = ok (a, s') ↔ x = ok a ∧ s' = s := by
  show (x >>= fun a => ok (a, s)) = ok (a, s') ↔ _
  rw [bind_eq_ok]
  constructor
  · rintro ⟨a', rfl, h⟩
    cases h
    exact ⟨rfl, rfl⟩
  · rintro ⟨rfl, rfl⟩
    exact ⟨a, rfl, rfl⟩

theorem mapM_eq_ok {E A B : Type} {f : A → Outcome E B} :
    ∀ {l : List A} {bs : List B}, l.mapM f = ok bs ↔ List.Forall₂ (fun a b => f a = ok b) l bs
  | [], bs => by
    rw [mapM_nil, forall₂_nil_left_iff]
    exact ⟨fun h => (Outcome.ok.inj h).symm, fun h => congrArg ok h.symm⟩
  | a :: l, bs => by
    rw [mapM_cons, bind_eq_ok, forall₂_cons_left_iff]
    constructor
    · rintro ⟨b, hb, h⟩
      obtain ⟨bs', hbs', h⟩ := bind_eq_ok.1 h
      exact ⟨b, bs', hb, mapM_eq_ok.1 hbs', (Outcome.ok.inj h).symm⟩
    · rintro ⟨b, bs', hb, hbs', rfl⟩
      exact ⟨b, hb, bind_eq_ok.2 ⟨bs', mapM_eq_ok.2 hbs', rfl⟩⟩

theorem exists_mapM_eq_ok {E A B : Type} {f : A → Outcome E B} {R : A → B → Prop} {l : List A}
    (h : ∀ a ∈ l, ∃ b, f a = ok b ∧ R a b) : ∃ bs, l.mapM f = ok bs ∧ List.Forall₂ R l bs := by
  obtain ⟨bs, hbs⟩ := exists_forall₂ h
  exact ⟨bs, mapM_eq_ok.2 (hbs.imp fun _ _ hab => hab.1), hbs.imp fun _ _ hab => hab.2⟩

theorem exists_mapM_iff {E A B : Type} {f : A → Outcome E B} {l : List A} :
    (∃ bs, l.mapM f = ok bs) ↔ ∀ a ∈ l, ∃ b, f a = ok b := by
  constructor
  · rintro ⟨bs, hbs⟩ a ha
    obtain ⟨b, -, hb⟩ := (mapM_eq_ok.1 hbs).exists_of_mem ha
    exact ⟨b, hb⟩
  · intro h
    obtain ⟨bs, hbs⟩ := exists_forall₂ h
    exact ⟨bs, mapM_eq_ok.mpr hbs⟩

theorem mapM_eq_ok_iff {E A B : Type} {f : A → Outcome E B} {p : A → Prop} {g : A → B}
    (h : ∀ {a b}, f a = ok b ↔ p a ∧ g a = b) {l : List A} {bs : List B} :
    l.mapM f = ok bs ↔ (∀ a ∈ l, p a) ∧ l.map g = bs := by
  rw [mapM_eq_ok]
  simp only [h]
  rw [forall₂_and_left, ← forall₂_map_left_iff, forall₂_eq_eq_eq]

theorem exists_optionMapM {E A B : Type} {f : A → Outcome E B} {x : Option A} :
    (∃ r, x.mapM f = ok r) ↔ ∀ a, x = some a → ∃ b, f a = ok b := by
  cases x with
  | none => exact iff_of_true ⟨none, rfl⟩ nofun
  | some a =>
    have h (r : Option B) : (some a).mapM f = ok r ↔ ∃ b, f a = ok b ∧ some b = r :=
      bind_pure_eq_ok
    constructor
    · rintro ⟨r, hr⟩ _ ⟨⟩
      obtain ⟨b, hb, -⟩ := (h r).1 hr
      exact ⟨b, hb⟩
    · intro hf
      obtain ⟨b, hb⟩ := hf a rfl
      exact ⟨some b, (h _).2 ⟨b, hb, rfl⟩⟩

theorem exists_bind_iff {E A B : Type} {x : Outcome E A} {f : A → Outcome E B} :
    (∃ b, x >>= f = ok b) ↔ ∃ a, x = ok a ∧ ∃ b, f a = ok b := by
  simp only [bind_eq_ok]
  exact ⟨fun ⟨b, a, ha, hb⟩ => ⟨a, ha, b, hb⟩, fun ⟨a, ha, b, hb⟩ => ⟨b, a, ha, hb⟩⟩

/-- The computation returns the value under the condition, and no value otherwise. -/
def Gives (x : Outcome E A) (p : Prop) (a : A) : Prop := ∀ b, x = ok b ↔ p ∧ b = a

section Gives

variable {E A B : Type} {x : Outcome E A} {p q : Prop} {a : A}

theorem Gives.iff (h : x.Gives p a) : x = ok a ↔ p := (h a).trans (and_iff_left rfl)

theorem Gives.congr (h : x.Gives p a) (hpq : p ↔ q) : x.Gives q a := fun b =>
  (h b).trans (and_congr_left fun _ => hpq)

theorem gives_true : x.Gives True a ↔ x = ok a := by
  refine ⟨fun h => h.iff.2 trivial, ?_⟩
  rintro rfl b
  simp [eq_comm]

theorem Gives.bind {f : A → Outcome E B} {b : B} (hx : x.Gives p a) (hf : (f a).Gives q b) :
    (x >>= f).Gives (p ∧ q) b := by
  intro c
  rw [bind_eq_ok]
  constructor
  · rintro ⟨a', ha, hc⟩
    obtain ⟨hp, rfl⟩ := (hx a').1 ha
    obtain ⟨hq, rfl⟩ := (hf c).1 hc
    exact ⟨⟨hp, hq⟩, rfl⟩
  · rintro ⟨⟨hp, hq⟩, rfl⟩
    exact ⟨a, hx.iff.2 hp, hf.iff.2 hq⟩

theorem Gives.map (hx : x.Gives p a) (f : A → B) : (x >>= fun a => pure (f a)).Gives p (f a) := by
  have hf : (pure (f a) : Outcome E B).Gives True (f a) := gives_true.2 rfl
  exact (hx.bind hf).congr (and_iff_left trivial)

theorem gives_mapM {f : A → Outcome E B} {p : A → Prop} {l : List A} {bs : List B}
    (h : Forall₂ (fun a b => (f a).Gives (p a) b) l bs) : (l.mapM f).Gives (∀ a ∈ l, p a) bs := by
  induction h with
  | nil => exact (gives_true.2 rfl).congr (iff_of_true trivial (forall_mem_nil _))
  | cons ha _ ih =>
    rw [mapM_cons]
    exact (ha.bind (ih.map _)).congr forall_mem_cons.symm

end Gives

theorem exists_foldlM_eq_ok {E A S : Type} {f : S → A → Outcome E S} :
    ∀ {l : List A}, (∀ a ∈ l, ∀ s, ∃ s', f s a = ok s') → ∀ s, ∃ s', l.foldlM f s = ok s'
  | [], _, s => ⟨s, rfl⟩
  | a :: l, h, s => by
    obtain ⟨s₁, h₁⟩ := h a (by simp) s
    obtain ⟨s', hs'⟩ := exists_foldlM_eq_ok (l := l) (fun b hb => h b (by simp [hb])) s₁
    rw [foldlM_cons]
    exact ⟨s', bind_eq_ok.mpr ⟨s₁, h₁, hs'⟩⟩

theorem foldlM_eq_foldl {E A S : Type} {f : S → A → Outcome E S} {g : S → A → S} :
    ∀ {l : List A}, (∀ a ∈ l, ∀ s, f s a = ok (g s a)) → ∀ s, l.foldlM f s = ok (l.foldl g s)
  | [], _, _ => rfl
  | a :: l, h, s => by
    rw [foldlM_cons, h a mem_cons_self s]
    exact foldlM_eq_foldl (fun b hb => h b (mem_cons_of_mem _ hb)) (g s a)

theorem foldlM_invariant {E A S : Type} {f : S → A → Outcome E S} {I : List A → S → Prop}
    {l : List A} {s s' : S} (h : l.foldlM f s = ok s') (h0 : I [] s)
    (hst : ∀ {pre a s s'}, (∀ b ∈ pre ++ [a], b ∈ l) → I pre s → f s a = ok s' →
      I (pre ++ [a]) s') : I l s' := by
  -- the induction is over what is left of the list, for every visited part
  suffices hal : ∀ (rest pre : List A) (s : S), (∀ b ∈ pre ++ rest, b ∈ l) → I pre s →
      rest.foldlM f s = ok s' → I (pre ++ rest) s' from
    hal l [] s (fun _ ha => ha) h0 h
  intro rest
  induction rest with
  | nil =>
    intro pre s _ hI hs
    obtain rfl : s = s' := Outcome.ok.inj hs
    rwa [append_nil]
  | cons a rest ih =>
    intro pre s hm hI hs
    obtain ⟨s₁, h₁, hs⟩ := bind_eq_ok.1 hs
    rw [append_cons] at hm ⊢
    have hI₁ : I (pre ++ [a]) s₁ := hst (fun b hb => hm b (mem_append_left _ hb)) hI h₁
    exact ih (pre ++ [a]) s₁ hm hI₁ hs

theorem foldlM_of_mem {E A S : Type} {f : S → A → Outcome E S} {P : S → Prop} {l : List A} {a : A}
    (ha : a ∈ l) {s s' : S} (h : l.foldlM f s = ok s') (hat : ∀ {s s'}, f s a = ok s' → P s')
    (hk : ∀ b ∈ l, ∀ {s s'}, P s → f s b = ok s' → P s') : P s' := by
  have hI := foldlM_invariant h (I := fun pre s => a ∈ pre → P s)
    (fun hm => absurd hm not_mem_nil) (by
      intro pre b s₁ s₂ hm hI hs hp
      have hb : b ∈ l := hm b (mem_append_right _ (mem_singleton_self b))
      rcases mem_append.1 hp with hp | hp
      · exact hk b hb (hI hp) hs
      · obtain rfl := mem_singleton.1 hp
        exact hat hs)
  exact hI ha

theorem foldlM_frame {E A S : Type} {C : Type*} {f : S → A → Outcome E S} {v : S → C}
    {l : List A} {s s' : S} (h : l.foldlM f s = ok s')
    (hf : ∀ a ∈ l, ∀ {s s'}, f s a = ok s' → v s' = v s) : v s' = v s := by
  apply foldlM_invariant h (I := fun _ s' => v s' = v s) rfl
  intro pre a s₁ s₂ hmem hI hs
  have ha : a ∈ l := hmem a (mem_append_right _ (mem_singleton_self a))
  exact (hf a ha hs).trans hI

theorem foldlM_at {E A S : Type} {C : Type*} {f : S → A → Outcome E S} {v : S → C}
    {R : C → C → Prop} {l : List A} (hn : l.Nodup) {a : A} (ha : a ∈ l) {s s' : S}
    (h : l.foldlM f s = ok s') (hf : ∀ b ∈ l, b ≠ a → ∀ {s s'}, f s b = ok s' → v s' = v s)
    (hat : ∀ {s s'}, f s a = ok s' → R (v s) (v s')) : R (v s) (v s') := by
  obtain ⟨pre, post, rfl⟩ := append_of_mem ha
  rw [nodup_append, nodup_cons] at hn
  obtain ⟨-, ⟨hp, -⟩, hpr⟩ := hn
  rw [foldlM_append] at h
  obtain ⟨s₁, h₁, h⟩ := bind_eq_ok.1 h
  obtain ⟨s₂, h₂, h₃⟩ := bind_eq_ok.1 h
  have hbe : v s₁ = v s := foldlM_frame h₁ fun b hb =>
    hf b (mem_append_left _ hb) (hpr b hb a mem_cons_self)
  have haf : v s' = v s₂ := foldlM_frame h₃ fun b hb =>
    hf b (mem_append_right _ (mem_cons_of_mem _ hb)) fun heq => hp (heq ▸ hb)
  rw [← hbe, haf]
  exact hat h₂

end Outcome

export Outcome (value?_eq_some bind_eq_ok bind_pure_eq_ok bind_ne_panic bind_ne_panic_iff
  ite_ne_panic ofOption_eq_ok ofExcept_eq_ok mapErr_eq_ok run_bind_eq_ok run_bind_pure_eq_ok
  run_lift_eq_ok exists_bind_iff
  foldlM_invariant)

namespace Except

variable {E A B : Type} {f : A → Except E B}

theorem bind_eq_ok {x : Except E A} {b : B} : (x >>= f) = ok b ↔ ∃ a, x = ok a ∧ f a = ok b := by
  constructor
  · intro h
    cases x with
    | ok a => exact ⟨a, rfl, h⟩
    | error e => cases h
  · rintro ⟨a, rfl, h⟩
    exact h

theorem mapM_eq_ok :
    ∀ {l : List A} {bs : List B}, l.mapM f = ok bs ↔ List.Forall₂ (fun a b => f a = ok b) l bs
  | [], bs => by
    rw [mapM_nil, forall₂_nil_left_iff]
    exact ⟨fun h => (Except.ok.inj h).symm, fun h => congrArg ok h.symm⟩
  | a :: l, bs => by
    rw [mapM_cons, bind_eq_ok, forall₂_cons_left_iff]
    constructor
    · rintro ⟨b, hb, h⟩
      obtain ⟨bs', hbs', h⟩ := bind_eq_ok.1 h
      exact ⟨b, bs', hb, mapM_eq_ok.1 hbs', (Except.ok.inj h).symm⟩
    · rintro ⟨b, bs', hb, hbs', rfl⟩
      exact ⟨b, hb, bind_eq_ok.2 ⟨bs', mapM_eq_ok.2 hbs', rfl⟩⟩

theorem exists_mapM_iff {l : List A} : (∃ bs, l.mapM f = ok bs) ↔ ∀ a ∈ l, ∃ b, f a = ok b := by
  constructor
  · rintro ⟨bs, hbs⟩ a ha
    obtain ⟨b, -, hb⟩ := (mapM_eq_ok.1 hbs).exists_of_mem ha
    exact ⟨b, hb⟩
  · intro h
    obtain ⟨bs, hbs⟩ := exists_forall₂ h
    exact ⟨bs, mapM_eq_ok.mpr hbs⟩

theorem mapM_eq_map {g : A → B} {l : List A} (h : ∀ a ∈ l, f a = ok (g a)) :
    l.mapM f = ok (l.map g) :=
  mapM_eq_ok.2 (forall₂_map_right_iff.2 (forall₂_same.2 h))

end Except
