/-
The sizes of structs and of properties (`schema.rs`).

A property without a declared length has the width of its integer type, or the size of the struct that
the definitions give for its type.  `Leaves` lists the widths to which a struct comes when all
references are followed.  `get_size` follows them by recursion, without a list of what was
visited, and adds them up as `usize` numbers.  So it returns the sum of the leaves if and only if
the references from the struct end and the sum is a `usize` (`sizesRight_iff`).
-/
import Massbit.Lib.Outcome
import Mathlib.Algebra.Order.Ring.Nat
import Mathlib.Order.WellFoundedSet

open List Outcome Relation

namespace Massbit.SolCli

abbrev Usize := Fin (2 ^ 64)

instance neZeroUsize : NeZero (2 ^ 64) := ⟨by decide⟩

structure Property where
  name : String
  dataType : String
  length : Option Usize
  arrayLength : Option Usize
  deriving DecidableEq

structure Schema where
  properties : Option (List Property)

abbrev Definitions := List (String × Schema)

def integerTypes : List (String × ℕ) :=
  [("u8", 1), ("i8", 1), ("u16", 2), ("i16", 2), ("u32", 4), ("i32", 4), ("u64", 8), ("i64", 8),
    ("u128", 16), ("i128", 16)]

def isIntegerType (dataType : String) : Bool := (integerTypes.lookup dataType).isSome

inductive StackOverflow where
  | stackOverflow

/-- What the generator computes; it has no errors of its own. -/
abbrev Generated (A : Type) := Outcome StackOverflow A

def addUsize (a b : ℕ) : Generated ℕ := if a + b < 2 ^ 64 then .ok (a + b) else .panic

def Property.getSizeWith (definitions : Definitions) (size : Schema → Generated (Option ℕ))
    (self : Property) : Generated ℕ :=
  match self.length with
  | some len => .ok len
  | none =>
    match integerTypes.lookup self.dataType with
    | some width => .ok width
    | none =>
      match definitions.lookup self.dataType with
      | some schema => return (← size schema).getD 1
      | none => .ok 1

/-- The fuel is the depth of the stack. -/
def Schema.getSize (definitions : Definitions) : ℕ → Schema → Generated (Option ℕ)
  | 0, _ => .err .stackOverflow
  | fuel + 1, self =>
    match self.properties with
    | none => .ok none
    | some properties => do
      let size ← properties.foldlM (fun size property => do
        addUsize size (← property.getSizeWith definitions (getSize definitions fuel))) 0
      return some size

def Property.getSize (definitions : Definitions) (fuel : ℕ) (self : Property) : Generated ℕ :=
  self.getSizeWith definitions (Schema.getSize definitions fuel)

/-- The width that is declared, or that of the integer type. -/
def Property.width (self : Property) : Option ℕ :=
  match self.length with
  | some len => some len
  | none => integerTypes.lookup self.dataType

variable (definitions : Definitions)

/-- A property of the first definition has the second one as its type. -/
def Refers (a b : String) : Prop :=
  ∃ properties, definitions.lookup a = some ⟨some properties⟩ ∧
    ∃ p ∈ properties, p.width = none ∧ p.dataType = b

/-- References lead from the definition into a cycle. -/
def Cyclic (a : String) : Prop :=
  ∃ b, ReflTransGen (Refers definitions) a b ∧ TransGen (Refers definitions) b b

/-- The widths of the leaves of a struct; a type that is no defined struct counts as one byte. -/
inductive Leaves : List Property → List ℕ → Prop
  | nil : Leaves [] []
  | width {p ps w ws} : p.width = some w → Leaves ps ws → Leaves (p :: ps) (w :: ws)
  | struct {p ps qs vs ws} : p.width = none → definitions.lookup p.dataType = some ⟨some qs⟩ →
      Leaves qs vs → Leaves ps ws → Leaves (p :: ps) (vs ++ ws)
  | unknown {p ps ws} : p.width = none →
      (∀ qs, definitions.lookup p.dataType ≠ some ⟨some qs⟩) → Leaves ps ws →
      Leaves (p :: ps) (1 :: ws)

/-- The size is returned, whatever the size of the stack from some size on. -/
def Property.HasSize (self : Property) (size : ℕ) : Prop :=
  ∃ fuel, ∀ n ≥ fuel, self.getSize definitions n = .ok size

def Schema.HasSize (self : Schema) (size : Option ℕ) : Prop :=
  ∃ fuel, ∀ n ≥ fuel, self.getSize definitions n = .ok size

/-- The sizes of a struct and of its properties are returned, and are the sums of the leaves. -/
structure SizesRight (properties : List Property) : Prop where
  schema : ∃ widths, Leaves definitions properties widths ∧
    (Schema.mk (some properties)).HasSize definitions (some widths.sum)
  property : ∀ p ∈ properties, ∃ widths, Leaves definitions [p] widths ∧
    p.HasSize definitions widths.sum

/-! ### The size of one property -/

variable {definitions} {p : Property} {ps qs : List Property} {w s t : ℕ} {vs ws : List ℕ}

theorem getSize_of_width (h : p.width = some w) (n : ℕ) : p.getSize definitions n = .ok w := by
  unfold Property.width at h
  unfold Property.getSize Property.getSizeWith
  split at h
  · cases h
    rfl
  · rw [h]

theorem getSize_of_width_eq_none (h : p.width = none) (n : ℕ) :
    p.getSize definitions n = match definitions.lookup p.dataType with
      | some schema => do return (← schema.getSize definitions n).getD 1
      | none => .ok 1 := by
  unfold Property.width at h
  unfold Property.getSize Property.getSizeWith
  split at h
  · cases h
  · rw [h]

theorem getSize_of_struct (h : p.width = none)
    (hl : definitions.lookup p.dataType = some ⟨some qs⟩) (n : ℕ) :
    p.getSize definitions n =
      (Schema.mk (some qs)).getSize definitions n >>= fun size => pure (size.getD 1) := by
  rw [getSize_of_width_eq_none h, hl]

theorem getSize_of_unknown (h : p.width = none)
    (hl : ∀ qs, definitions.lookup p.dataType ≠ some ⟨some qs⟩) (n : ℕ) :
    p.getSize definitions (n + 1) = .ok 1 := by
  rw [getSize_of_width_eq_none h]
  cases heq : definitions.lookup p.dataType with
  | none => rfl
  | some schema =>
    obtain ⟨- | qs⟩ := schema
    · rfl
    · exact absurd heq (hl qs)

/-! ### The sum over the properties of a struct -/

variable (definitions) in
/-- The loop of `get_size`. -/
def addSizes (fuel size : ℕ) (properties : List Property) : Generated ℕ :=
  properties.foldlM (fun size property => do
    addUsize size (← property.getSize definitions fuel)) size

theorem getSize_succ (n : ℕ) (ps : List Property) :
    (Schema.mk (some ps)).getSize definitions (n + 1) =
      addSizes definitions n 0 ps >>= fun size => pure (some size) := rfl

variable {n : ℕ}

theorem addSizes_cons (h : p.getSize definitions n = .ok w) :
    addSizes definitions n s (p :: ps) =
      if s + w < 2 ^ 64 then addSizes definitions n (s + w) ps else .panic := by
  rw [addSizes, foldlM_cons, h]
  show (addUsize s w >>= fun size => addSizes definitions n size ps) = _
  unfold addUsize
  split
  · rfl
  · rfl

theorem addSizes_cons_of_panic (h : p.getSize definitions n = .panic) :
    addSizes definitions n s (p :: ps) = .panic := by
  rw [addSizes, foldlM_cons, h]
  rfl

/-- One property of a known size, and the rest. -/
theorem addSizes_cons_eq_ite (hw : p.getSize definitions n = .ok w)
    (hps : ∀ s < 2 ^ 64, addSizes definitions n s ps =
      if s + ws.sum < 2 ^ 64 then .ok (s + ws.sum) else .panic) :
    addSizes definitions n s (p :: ps) =
      if s + (w + ws.sum) < 2 ^ 64 then .ok (s + (w + ws.sum)) else .panic := by
  rw [addSizes_cons hw, ← Nat.add_assoc]
  split
  next hlt => rw [hps _ hlt]
  next hge => rw [if_neg (by omega)]

/-- The loop adds the leaves, or panics when their sum is no `usize`. -/
theorem Leaves.exists_addSizes (h : Leaves definitions ps ws) : ∃ k, ∀ n ≥ k, ∀ s < 2 ^ 64,
    addSizes definitions n s ps = if s + ws.sum < 2 ^ 64 then .ok (s + ws.sum) else .panic := by
  induction h with
  | nil => exact ⟨0, fun n _ s hs => (if_pos hs).symm⟩
  | width hw _ ih =>
    obtain ⟨k, hk⟩ := ih
    refine ⟨k, fun n hn s _ => ?_⟩
    rw [sum_cons]
    exact addSizes_cons_eq_ite (getSize_of_width hw n) (hk n hn)
  | unknown hw hl _ ih =>
    obtain ⟨k, hk⟩ := ih
    refine ⟨k + 1, fun n hn s _ => ?_⟩
    obtain ⟨n, rfl⟩ := Nat.exists_eq_add_of_le' (Nat.le_of_add_left_le hn)
    rw [sum_cons]
    exact addSizes_cons_eq_ite (getSize_of_unknown hw hl n) (hk _ (by omega))
  | @struct p ps qs vs ws hw hl _ _ ihq ihp =>
    obtain ⟨k, hk⟩ := ihq
    obtain ⟨l, hl'⟩ := ihp
    refine ⟨max k l + 1, fun n hn s _ => ?_⟩
    obtain ⟨n, rfl⟩ := Nat.exists_eq_add_of_le' (Nat.le_of_add_left_le hn)
    have hsize := getSize_of_struct hw hl (n + 1)
    rw [getSize_succ, hk n (by omega) 0 (by decide), Nat.zero_add] at hsize
    rw [sum_append]
    split at hsize
    · exact addSizes_cons_eq_ite hsize (hl' _ (by omega))
    next hge => rw [addSizes_cons_of_panic hsize, if_neg (by omega)]

theorem Leaves.cons (hp : Leaves definitions [p] vs) (hps : Leaves definitions ps ws) :
    Leaves definitions (p :: ps) (vs ++ ws) := by
  cases hp with
  | width hw h =>
    cases h
    exact .width hw hps
  | struct hw hl hq h =>
    cases h
    rw [append_nil]
    exact .struct hw hl hq hps
  | unknown hw hl h =>
    cases h
    exact .unknown hw hl hps

theorem Leaves.of_cons {us : List ℕ} (h : Leaves definitions (p :: ps) us) :
    ∃ vs ws, Leaves definitions [p] vs ∧ Leaves definitions ps ws ∧ us = vs ++ ws := by
  cases h with
  | @width _ _ w ws hw hps => exact ⟨[w], ws, .width hw .nil, hps, rfl⟩
  | @struct _ _ qs vs ws hw hl hq hps =>
    exact ⟨vs ++ [], ws, .struct hw hl hq .nil, hps, by rw [append_nil]⟩
  | @unknown _ _ ws hw hl hps => exact ⟨[1], ws, .unknown hw hl .nil, hps, rfl⟩

theorem exists_leaves_of_addSizes (hp : ∀ p w, p.getSize definitions n = .ok w →
      ∃ vs, Leaves definitions [p] vs ∧ vs.sum = w) (h : addSizes definitions n s ps = .ok t) :
    ∃ ws, Leaves definitions ps ws ∧ s + ws.sum = t := by
  induction ps generalizing s with
  | nil =>
    cases h
    exact ⟨[], .nil, rfl⟩
  | cons p ps ih =>
    rw [addSizes, foldlM_cons] at h
    obtain ⟨size, hadd, h⟩ := bind_eq_ok.1 h
    obtain ⟨w, hw, hadd⟩ := bind_eq_ok.1 hadd
    obtain ⟨vs, hvs, rfl⟩ := hp p w hw
    unfold addUsize at hadd
    split at hadd
    · cases hadd
      obtain ⟨ws, hws, rfl⟩ := ih h
      exact ⟨vs ++ ws, hvs.cons hws, by rw [sum_append, Nat.add_assoc]⟩
    · cases hadd

/-- What is returned for a property is the sum of its leaves. -/
theorem exists_leaves_of_getSize (h : p.getSize definitions n = .ok w) :
    ∃ vs, Leaves definitions [p] vs ∧ vs.sum = w := by
  -- on the stack: the size of a struct is returned by a call that is one deeper
  induction n generalizing p w with
  | zero =>
    cases hw : p.width with
    | some v =>
      rw [getSize_of_width hw] at h
      cases h
      exact ⟨[w], .width hw .nil, sum_singleton⟩
    | none =>
      rw [getSize_of_width_eq_none hw] at h
      cases hl : definitions.lookup p.dataType with
      | none =>
        rw [hl] at h
        cases h
        exact ⟨[1], .unknown hw (fun qs heq => by rw [hl] at heq; cases heq) .nil, rfl⟩
      | some schema =>
        rw [hl] at h
        cases h
  | succ n ih =>
    cases hw : p.width with
    | some v =>
      rw [getSize_of_width hw] at h
      cases h
      exact ⟨[w], .width hw .nil, sum_singleton⟩
    | none =>
      by_cases hl : ∃ qs, definitions.lookup p.dataType = some ⟨some qs⟩
      · obtain ⟨qs, hl⟩ := hl
        rw [getSize_of_struct hw hl, getSize_succ] at h
        obtain ⟨sum?, hsize, h⟩ := bind_eq_ok.1 h
        obtain ⟨size, hadd, hpure⟩ := bind_eq_ok.1 hsize
        cases hpure
        cases h
        obtain ⟨vs, hvs, rfl⟩ := exists_leaves_of_addSizes (fun p w => ih) hadd
        exact ⟨vs ++ [], .struct hw hl hvs .nil, by simp⟩
      · have hl : ∀ qs, definitions.lookup p.dataType ≠ some ⟨some qs⟩ := fun qs heq => hl ⟨qs, heq⟩
        rw [getSize_of_unknown hw hl] at h
        cases h
        exact ⟨[1], .unknown hw hl .nil, rfl⟩

/-! ### References that end -/

theorem Cyclic.exists_refers {a : String} (h : Cyclic definitions a) :
    ∃ b, Refers definitions a b ∧ Cyclic definitions b := by
  obtain ⟨c, hac, hcc⟩ := h
  obtain rfl | ⟨b, hab, hbc⟩ := hac.cases_head
  · obtain ⟨b, hab, hba⟩ := TransGen.head'_iff.1 hcc
    exact ⟨b, hab, a, hba, hcc⟩
  · exact ⟨b, hab, c, hbc, hcc⟩

theorem Refers.cyclic {a b : String} (hab : Refers definitions a b) (h : Cyclic definitions b) :
    Cyclic definitions a := by
  obtain ⟨c, hbc, hcc⟩ := h
  exact ⟨c, hbc.head hab, hcc⟩

theorem Leaves.not_cyclic (h : Leaves definitions ps ws) :
    ∀ p ∈ ps, p.width = none → ¬Cyclic definitions p.dataType := by
  induction h with
  | nil => exact fun p hp => absurd hp not_mem_nil
  | width hw _ ih =>
    refine forall_mem_cons.2 ⟨fun hnone => ?_, ih⟩
    rw [hw] at hnone
    cases hnone
  | struct hw hl _ _ ihq ihp =>
    refine forall_mem_cons.2 ⟨fun _ hc => ?_, ihp⟩
    obtain ⟨b, ⟨rs, hr, q, hq, hqw, rfl⟩, hb⟩ := hc.exists_refers
    cases hl.symm.trans hr
    exact ihq q hq hqw hb
  | unknown hw hl _ ih =>
    refine forall_mem_cons.2 ⟨fun _ hc => ?_, ih⟩
    obtain ⟨b, ⟨rs, hr, -⟩, -⟩ := hc.exists_refers
    exact hl rs hr

/-- A relation without cycles is well founded if it relates only finitely many elements to
others. -/
theorem wellFounded_of_finite {A : Type} {r : A → A → Prop} {s : Set A} (hs : s.Finite)
    (hmem : ∀ {b a}, r b a → a ∈ s) (hcycle : ∀ a, ¬TransGen r a a) : WellFounded r := by
  have : IsStrictOrder A (TransGen r) := { irrefl := hcycle, trans := fun _ _ _ => .trans }
  have hout {a} (ha : a ∉ s) : Acc r a := ⟨a, fun b hb => absurd (hmem hb) ha⟩
  have hin {a} (ha : a ∈ s) : Acc r a := by
    refine (hs.wellFoundedOn (r := TransGen r)).induction ha fun b hb ih => ⟨b, fun c hc => ?_⟩
    by_cases hm : c ∈ s
    · exact ih c hm (.single hc)
    · exact hout hm
  exact ⟨fun a => (em (a ∈ s)).elim hin hout⟩

variable (definitions) in
theorem wellFounded_refers :
    WellFounded fun b a => Refers definitions a b ∧ ¬Cyclic definitions a := by
  refine wellFounded_of_finite (s := {a | a ∈ definitions.map Prod.fst}) (finite_toSet _) ?_ ?_
  · -- only defined names refer to others
    rintro b a ⟨⟨qs, hl, -⟩, -⟩
    obtain ⟨l, l', rfl, -⟩ := lookup_eq_some_iff.1 hl
    simp
  · intro a ha
    have hcycle : TransGen (Refers definitions) a a :=
      transGen_swap.1 (TransGen.mono (fun _ _ h => h.1) a a ha)
    obtain ⟨b, -, hba⟩ := TransGen.tail'_iff.1 ha
    exact hba.2 ⟨a, .refl, hcycle⟩

theorem exists_leaves (h : ∀ p ∈ ps, p.width = none → ¬Cyclic definitions p.dataType) :
    ∃ ws, Leaves definitions ps ws := by
  -- a list of properties has leaves if the structs that are their types have
  have hlist : ∀ {ps : List Property}, (∀ p ∈ ps, p.width = none → ∀ qs,
      definitions.lookup p.dataType = some ⟨some qs⟩ → ∃ vs, Leaves definitions qs vs) →
      ∃ ws, Leaves definitions ps ws := by
    intro ps hps
    induction ps with
    | nil => exact ⟨[], .nil⟩
    | cons p ps ih =>
      rw [forall_mem_cons] at hps
      obtain ⟨ws, hws⟩ := ih hps.2
      cases hw : p.width with
      | some w => exact ⟨w :: ws, .width hw hws⟩
      | none =>
        by_cases hl : ∃ qs, definitions.lookup p.dataType = some ⟨some qs⟩
        · obtain ⟨qs, hl⟩ := hl
          obtain ⟨vs, hvs⟩ := hps.1 hw qs hl
          exact ⟨vs ++ ws, .struct hw hl hvs hws⟩
        · exact ⟨1 :: ws, .unknown hw (fun qs heq => hl ⟨qs, heq⟩) hws⟩
  have hstruct : ∀ a, ¬Cyclic definitions a → ∀ qs, definitions.lookup a = some ⟨some qs⟩ →
      ∃ vs, Leaves definitions qs vs := by
    intro a
    induction a using (wellFounded_refers definitions).induction with
    | _ a ih =>
      intro hcyclic qs hl
      refine hlist fun q hq hw => ?_
      have hrefers : Refers definitions a q.dataType := ⟨qs, hl, q, hq, hw, rfl⟩
      exact ih q.dataType ⟨hrefers, hcyclic⟩ fun hc => hcyclic (hrefers.cyclic hc)
  exact hlist fun p hp hw => hstruct p.dataType (h p hp hw)

/-! ### The sizes that are returned -/

theorem Leaves.exists_of_mem (h : Leaves definitions ps ws) (hp : p ∈ ps) :
    ∃ vs, Leaves definitions [p] vs ∧ vs.sum ≤ ws.sum := by
  induction ps generalizing ws with
  | nil => cases hp
  | cons q ps ih =>
    obtain ⟨us, ws, hus, hws, rfl⟩ := h.of_cons
    rw [sum_append]
    obtain rfl | hp := mem_cons.1 hp
    · exact ⟨us, hus, Nat.le_add_right _ _⟩
    · obtain ⟨vs, hvs, hle⟩ := ih hws hp
      exact ⟨vs, hvs, Nat.le_add_left_of_le hle⟩

theorem Leaves.schema_hasSize (h : Leaves definitions ps ws) (hsum : ws.sum < 2 ^ 64) :
    (Schema.mk (some ps)).HasSize definitions (some ws.sum) := by
  obtain ⟨k, hk⟩ := h.exists_addSizes
  refine ⟨k + 1, fun n hn => ?_⟩
  obtain ⟨n, rfl⟩ := Nat.exists_eq_add_of_le' (Nat.le_of_add_left_le hn)
  rw [getSize_succ, hk n (by omega) 0 (by decide), Nat.zero_add, if_pos hsum]
  rfl

theorem Leaves.property_hasSize (h : Leaves definitions [p] ws) (hsum : ws.sum < 2 ^ 64) :
    p.HasSize definitions ws.sum := by
  cases h with
  | @width _ _ w _ hw hnil =>
    cases hnil
    exact ⟨0, fun n _ => by rw [getSize_of_width hw, sum_singleton]⟩
  | @struct _ _ qs vs _ hw hl hq hnil =>
    cases hnil
    rw [append_nil] at hsum ⊢
    obtain ⟨k, hk⟩ := hq.schema_hasSize hsum
    refine ⟨k, fun n hn => ?_⟩
    rw [getSize_of_struct hw hl, hk n hn]
    rfl
  | unknown hw hl hnil =>
    cases hnil
    refine ⟨1, fun n hn => ?_⟩
    obtain ⟨n, rfl⟩ := Nat.exists_eq_add_of_le' hn
    rw [getSize_of_unknown hw hl, sum_singleton]

theorem Schema.HasSize.exists_leaves {size : Option ℕ}
    (h : (Schema.mk (some ps)).HasSize definitions size) :
    ∃ ws, Leaves definitions ps ws ∧ size = some ws.sum ∧ ws.sum < 2 ^ 64 := by
  obtain ⟨k, hk⟩ := h
  have hsize := hk (k + 1) (Nat.le_succ k)
  rw [getSize_succ] at hsize
  obtain ⟨sum, hsum, heq⟩ := bind_eq_ok.1 hsize
  obtain ⟨ws, hws, rfl⟩ := exists_leaves_of_addSizes (fun p w => exists_leaves_of_getSize) hsum
  cases heq
  refine ⟨ws, hws, by rw [Nat.zero_add], ?_⟩
  -- the loop would have panicked
  obtain ⟨l, hl⟩ := hws.exists_addSizes
  have hlarge := hk (max k l + 1) (by omega)
  rw [getSize_succ, hl _ (by omega) 0 (by decide)] at hlarge
  by_contra hge
  rw [Nat.zero_add, if_neg hge] at hlarge
  cases hlarge

theorem Leaves.unique (h : Leaves definitions ps vs) (h' : Leaves definitions ps ws) : vs = ws := by
  induction h generalizing ws with
  | nil =>
    cases h'
    rfl
  | width hw _ ih =>
    cases h' with
    | width hw' h' =>
      rw [ih h', Option.some.inj (hw.symm.trans hw')]
    | struct hw' => cases hw.symm.trans hw'
    | unknown hw' => cases hw.symm.trans hw'
  | struct hw hl _ _ ihq ihp =>
    cases h' with
    | width hw' => cases hw.symm.trans hw'
    | struct _ hl' hq' h' =>
      cases hl.symm.trans hl'
      rw [ihq hq', ihp h']
    | unknown _ hl' => exact absurd hl (hl' _)
  | unknown hw hl _ ih =>
    cases h' with
    | width hw' => cases hw.symm.trans hw'
    | struct _ hl' => exact absurd hl' (hl _)
    | unknown _ _ h' => rw [ih h']

/-- **The sizes of a struct and of its properties are the sums of the leaves if and only if no
references from it lead into a cycle and the sum is a `usize`.** -/
theorem sizesRight_iff (definitions : Definitions) (properties : List Property) :
    SizesRight definitions properties ↔
      (∀ p ∈ properties, p.width = none → ¬Cyclic definitions p.dataType) ∧
        ∀ widths, Leaves definitions properties widths → widths.sum < 2 ^ 64 := by
  constructor
  · intro h
    obtain ⟨_, -, hsize⟩ := h.schema
    obtain ⟨ws, hws, -, hlt⟩ := hsize.exists_leaves
    refine ⟨hws.not_cyclic, fun vs hvs => ?_⟩
    rwa [hvs.unique hws]
  · rintro ⟨hcyclic, hsum⟩
    obtain ⟨ws, hws⟩ := exists_leaves hcyclic
    refine ⟨⟨ws, hws, hws.schema_hasSize (hsum ws hws)⟩, fun p hp => ?_⟩
    obtain ⟨vs, hvs, hle⟩ := hws.exists_of_mem hp
    exact ⟨vs, hvs, hvs.property_hasSize (Nat.lt_of_le_of_lt hle (hsum ws hws))⟩

def cyclicDefinitions : Definitions :=
  [("Order", ⟨some [⟨"side", "Side", none, none⟩]⟩),
    ("Side", ⟨some [⟨"order", "Order", none, none⟩]⟩)]

/-- Two properties whose sizes add up to no `usize`. -/
def longProperties : List Property :=
  [⟨"left", "Bytes", some 9223372036854775808, none⟩,
    ⟨"right", "Bytes", some 9223372036854775808, none⟩]

theorem cyclic_not_sized :
    (¬∃ size, (Schema.mk (some [⟨"side", "Side", none, none⟩])).HasSize cyclicDefinitions size) ∧
      Schema.getSize [] 1 ⟨some longProperties⟩ = .panic := by
  refine ⟨?_, rfl⟩
  rintro ⟨size, h⟩
  obtain ⟨ws, hws, -⟩ := h.exists_leaves
  have hr : Refers cyclicDefinitions "Order" "Side" := ⟨_, rfl, _, mem_cons_self, by decide, rfl⟩
  have hs : Refers cyclicDefinitions "Side" "Order" := ⟨_, rfl, _, mem_cons_self, by decide, rfl⟩
  exact hws.not_cyclic _ mem_cons_self (by decide) ⟨"Side", .refl, .tail (.single hs) hr⟩

end Massbit.SolCli
