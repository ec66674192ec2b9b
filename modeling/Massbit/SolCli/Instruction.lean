/-
The code that the generator writes to unpack a struct (`generator/instruction.rs`), as a syntax
tree.

The function splits its input by `array_refs!`, which returns a tuple of slices, and decodes the
slices by expressions that the templates write out of the names and types of the properties.
`UnpackFn.WellFormed` says that every expression finds a slice of the width that it needs under the
name that it uses.  `expandStructUnpack_wellFormed_iff` says for which declared types and lengths
this is so.
-/
import Massbit.SolCli.SchemaSize
import Mathlib.Data.List.Nodup

open List Outcome Function

namespace Massbit.SolCli

inductive Slice where
  | name (name : String)
  | element (i : ℕ)
  deriving DecidableEq

inductive Decode where
  | newNonZero (dataType innerType : String) (slice : Slice)
  | fromLeBytes (dataType : String) (slice : Slice)
  | unpack (dataType : String) (slice : Slice)
  deriving DecidableEq

inductive Expr where
  | data (e : Decode)
  | array (source : String) (sizes : List ℕ) (elements : List Decode)
  | vecDefault
  deriving DecidableEq

structure UnpackFn where
  size : Option ℕ
  refs : List (String × ℕ)
  assignments : List (String × Expr)
  fields : List (String × Option Expr)

def nonZeroInner (dataType : String) : Option String :=
  if "NonZero".toList <+: dataType.toList then
    some (.ofList ((dataType.toList.drop 7).map Char.toLower))
  else none

def expandDataUnpack (slice : Slice) (dataType : String) : Decode :=
  match nonZeroInner dataType with
  | some innerType => .newNonZero dataType innerType slice
  | none => if isIntegerType dataType then .fromLeBytes dataType slice else .unpack dataType slice

def isOptionValue (property : Property) : Bool :=
  property.arrayLength.getD 0 = 0 && !isIntegerType property.dataType

def expandPropertyUnpack (property : Property) : Generated Expr :=
  match property.arrayLength with
  | some val =>
    let totalSize := (property.length.getD 0).val
    if val.val > 0 ∧ totalSize > 0 then
      -- the size of a single vector element
      let elmSize := totalSize / val.val
      if elmSize * val.val < totalSize then .panic
      else .ok (.array "owner" (replicate val.val elmSize)
        ((range val.val).map fun i => expandDataUnpack (.element i) property.dataType))
    else .ok .vecDefault
  | none => .ok (.data (expandDataUnpack (.name property.name) property.dataType))

abbrev Item := Property × ℕ × Expr

def expandItem (definitions : Definitions) (fuel : ℕ) (property : Property) : Generated Item := do
  return (property, ← property.getSize definitions fuel, ← expandPropertyUnpack property)

def Item.assignment (item : Item) : Option (String × Expr) :=
  if isOptionValue item.1 then some (item.1.name, item.2.2) else none

def UnpackFn.ofItems (size : Option ℕ) (items : List Item) : UnpackFn where
  size := size
  refs := items.map fun item => (item.1.name, item.2.1)
  assignments := items.filterMap Item.assignment
  fields := items.map fun item =>
    (item.1.name, if isOptionValue item.1 then none else some item.2.2)

def expandStructUnpack (definitions : Definitions) (fuel : ℕ) (schema : Schema) :
    Generated UnpackFn := do
  let structSize ← schema.getSize definitions (fuel + 1)
  let items ← (← Outcome.ofOption schema.properties).mapM (expandItem definitions fuel)
  return .ofItems structSize items

/-- The names that stand for slices, with the widths of the slices. -/
abbrev Scope := List (String × ℕ)

/-- The number of bytes that `from_le_bytes` takes. -/
def byteWidth (dataType : String) : Option ℕ :=
  (integerTypes ++ [("usize", 8), ("isize", 8)]).lookup dataType

section

variable (definitions : Definitions)

/-- The `unpack` of a struct takes an array of its size, that of an enum any slice. -/
def Decode.Needs (width : ℕ) : Decode → Prop
  | .newNonZero _ innerType _ => byteWidth innerType = some width
  | .fromLeBytes dataType _ => byteWidth dataType = some width
  | .unpack dataType _ => ∃ schema, definitions.lookup dataType = some schema ∧
      (schema.properties.isSome → schema.HasSize definitions (some width))

def Decode.slice : Decode → Slice
  | .newNonZero _ _ slice | .fromLeBytes _ slice | .unpack _ slice => slice

/-- The names are bound to slices of the widths that are needed. -/
def Expr.WellFormed (scope : Scope) : Expr → Prop
  | .data e => ∃ name width, e.slice = .name name ∧ (name, width) ∈ scope ∧
      e.Needs definitions width
  | .array source sizes elements => (source, sizes.sum) ∈ scope ∧
      ∀ e ∈ elements, ∃ i width, e.slice = .element i ∧ sizes[i]? = some width ∧
        e.Needs definitions width
  | .vecDefault => True

def assignmentsWellFormed : Scope → List (String × Expr) → Prop
  | _, [] => True
  | scope, (name, value) :: assignments =>
    value.WellFormed definitions scope ∧
      assignmentsWellFormed (scope.filter (·.1 ≠ name)) assignments

/-- The pattern is a list of names in parentheses, and so no tuple pattern if there is one name: this
name is bound to the tuple. -/
def UnpackFn.bound (fn : UnpackFn) : Scope :=
  if fn.refs.length = 1 then [] else fn.refs

def UnpackFn.scope (fn : UnpackFn) : Scope :=
  fn.bound.filter fun r => r.1 ∉ fn.assignments.map Prod.fst

structure UnpackFn.WellFormed (fn : UnpackFn) : Prop where
  size : fn.size = some (fn.refs.map Prod.snd).sum
  names : (fn.refs.map Prod.fst).Nodup
  assignments : assignmentsWellFormed definitions fn.bound fn.assignments
  fields : ∀ field ∈ fn.fields, match field.2 with
    | some value => value.WellFormed definitions fn.scope
    | none => field.1 ∈ fn.assignments.map Prod.fst

/-- The type is decoded from that many bytes; an enum from any number. -/
def TypeDecodes (dataType : String) (width : ℕ) : Prop :=
  match nonZeroInner dataType with
  | some innerType => byteWidth innerType = some width
  | none =>
    match integerTypes.lookup dataType with
    | some typeWidth => typeWidth = width
    | none => ∃ schema, definitions.lookup dataType = some schema ∧
        ∀ properties, schema.properties = some properties →
          ∃ widths, Leaves definitions properties widths ∧ widths.sum = width

/-- A declared length is that of the type.  Without one the type is an integer or is defined; a
`NonZero` type gets one byte, or the size of a struct of that name. -/
def Property.Declared (self : Property) : Prop :=
  match self.length with
  | some len => TypeDecodes definitions self.dataType len
  | none =>
    match nonZeroInner self.dataType with
    | some innerType => ∃ widths, Leaves definitions [self] widths ∧
        byteWidth innerType = some widths.sum
    | none => isIntegerType self.dataType ∨ (definitions.lookup self.dataType).isSome

/-- A property that is no array is not the only one and is declared with the length of its type; the
elements of an array have the length of the type, and some property named `owner` that of the
array. -/
def Property.Decodable (properties : List Property) (self : Property) : Prop :=
  match self.arrayLength with
  | none => properties.length ≠ 1 ∧ self.Declared definitions
  | some val => val.val = 0 ∨ (self.length.getD 0).val = 0 ∨
      TypeDecodes definitions self.dataType ((self.length.getD 0).val / val.val) ∧
        properties.length ≠ 1 ∧ ∃ owner ∈ properties, owner.name = "owner" ∧
          isOptionValue owner = false ∧
          ∃ widths, Leaves definitions [owner] widths ∧ widths.sum = (self.length.getD 0).val

end

variable {definitions : Definitions} {item : Item} {scope : Scope}

theorem slice_expandDataUnpack (slice : Slice) (dt : String) :
    (expandDataUnpack slice dt).slice = slice := by
  unfold expandDataUnpack
  split
  · rfl
  · split_ifs <;> rfl

/-! ### Types and the expressions that decode them -/

variable {dataType : String} {width : ℕ}

theorem byteWidth_eq_some (h : integerTypes.lookup dataType = some width) :
    byteWidth dataType = some width := by
  rw [byteWidth, lookup_append, h]
  rfl

theorem needs_expandDataUnpack {s : Slice} (hw : width < 2 ^ 64) :
    (expandDataUnpack s dataType).Needs definitions width ↔
      TypeDecodes definitions dataType width := by
  unfold expandDataUnpack TypeDecodes isIntegerType
  cases hn : nonZeroInner dataType with
  | some innerType => rfl
  | none =>
    cases hi : integerTypes.lookup dataType with
    | some typeWidth =>
      show byteWidth dataType = some width ↔ _
      rw [byteWidth_eq_some hi, Option.some.injEq]
    | none =>
      refine exists_congr fun schema => and_congr_right fun _ => ?_
      obtain ⟨- | properties⟩ := schema
      · simp
      · simp only [Option.isSome_some, true_implies, Option.some.injEq, forall_eq']
        constructor
        · intro h
          obtain ⟨ws, hws, heq, -⟩ := h.exists_leaves
          exact ⟨ws, hws, (Option.some.inj heq).symm⟩
        · rintro ⟨ws, hws, rfl⟩
          exact hws.schema_hasSize hw

variable {p : Property}

theorem declared_iff {ws : List ℕ} (h : Leaves definitions [p] ws) :
    p.Declared definitions ↔ TypeDecodes definitions p.dataType ws.sum := by
  unfold Property.Declared
  cases hlen : p.length with
  | some len =>
    have hw : p.width = some len.val := by rw [Property.width, hlen]
    rw [h.unique (.width hw .nil), sum_singleton]
  | none =>
    have hw : p.width = integerTypes.lookup p.dataType := by rw [Property.width, hlen]
    unfold TypeDecodes
    cases hn : nonZeroInner p.dataType with
    | some innerType =>
      constructor
      · rintro ⟨vs, hvs, hinner⟩
        rwa [h.unique hvs]
      · exact fun hinner => ⟨ws, h, hinner⟩
    | none =>
      unfold isIntegerType
      cases hi : integerTypes.lookup p.dataType with
      | some width =>
        rw [h.unique (.width (hw.trans hi) .nil), sum_singleton]
        simp
      | none =>
        -- the type is defined; the leaves are those of its struct
        simp only [Option.isSome_none, Bool.false_eq_true, false_or, Option.isSome_iff_exists]
        refine exists_congr fun schema => ?_
        refine ⟨fun hl => ⟨hl, fun qs hq => ?_⟩, And.left⟩
        obtain ⟨properties⟩ := schema
        cases hq
        cases h with
        | width hw' => cases (hw.trans hi).symm.trans hw'
        | @struct _ _ rs vs _ _ hl' hvs hnil =>
          cases hl.symm.trans hl'
          cases hnil
          exact ⟨vs, hvs, by rw [append_nil]⟩
        | unknown _ hl' => exact absurd hl (hl' qs)

/-! ### The values of the properties -/

/-- The size is the sum of the leaves, and the value is what the template writes. -/
def IsItem (definitions : Definitions) (item : Item) : Prop :=
  (∃ ws, Leaves definitions [item.1] ws ∧ ws.sum = item.2.1) ∧ item.2.1 < 2 ^ 64 ∧
    expandPropertyUnpack item.1 = .ok item.2.2

/-- `P` says that the name of the property stands for a slice. -/
theorem wellFormed_value {P : Prop} (h : expandPropertyUnpack item.1 = .ok item.2.2)
    (hlt : item.2.1 < 2 ^ 64) (hs : ∀ w, (item.1.name, w) ∈ scope ↔ P ∧ w = item.2.1) :
    item.2.2.WellFormed definitions scope ↔
      match item.1.arrayLength with
      | none => P ∧ TypeDecodes definitions item.1.dataType item.2.1
      | some val => val.val = 0 ∨ (item.1.length.getD 0).val = 0 ∨
          TypeDecodes definitions item.1.dataType ((item.1.length.getD 0).val / val.val) ∧
            ("owner", (item.1.length.getD 0).val) ∈ scope := by
  revert h
  fun_cases expandPropertyUnpack item.1
  case case1 => nofun
  case case2 val ha total hp size hdi =>
    intro h
    rw [← Outcome.ok.inj h, ha]
    have hl : (replicate val.val size).sum = (item.1.length.getD 0).val := by
      rw [sum_replicate_nat, Nat.mul_comm]
      exact Nat.le_antisymm (Nat.div_mul_le_self _ _) (Nat.not_lt.1 hdi)
    have hsize : size < 2 ^ 64 :=
      Nat.lt_of_le_of_lt (Nat.div_le_self _ _) (item.1.length.getD 0).isLt
    have he : (∀ e ∈ (range val.val).map fun i => expandDataUnpack (.element i) item.1.dataType,
        ∃ i w, e.slice = .element i ∧ (replicate val.val size)[i]? = some w ∧
          e.Needs definitions w) ↔ TypeDecodes definitions item.1.dataType size := by
      rw [forall_mem_map]
      constructor
      · intro hal
        obtain ⟨i, w, -, hw, hn⟩ := hal 0 (mem_range.2 hp.1)
        rw [eq_of_mem_replicate (mem_of_getElem? hw)] at hn
        exact (needs_expandDataUnpack hsize).1 hn
      · intro hd i hi
        exact ⟨i, size, slice_expandDataUnpack _ _, getElem?_replicate_of_lt (mem_range.1 hi),
          (needs_expandDataUnpack hsize).2 hd⟩
    simp only [Expr.WellFormed, he, hl]
    constructor
    · rintro ⟨howner, hd⟩
      exact .inr (.inr ⟨hd, howner⟩)
    · rintro (hz | hz | ⟨hd, howner⟩)
      · exact absurd hz (Nat.ne_of_gt hp.1)
      · exact absurd hz (Nat.ne_of_gt hp.2)
      · exact ⟨howner, hd⟩
  case case3 val ha total hp =>
    intro h
    rw [← Outcome.ok.inj h, ha]
    simp only [Expr.WellFormed, true_iff]
    rw [not_and_or, Nat.not_lt, Nat.le_zero, Nat.not_lt, Nat.le_zero] at hp
    exact hp.imp_right .inl
  case case4 ha =>
    intro h
    rw [← Outcome.ok.inj h, ha]
    simp only [Expr.WellFormed, slice_expandDataUnpack, Slice.name.injEq, exists_eq_left', hs,
      and_assoc, exists_and_left, exists_eq_left, needs_expandDataUnpack hlt]

variable {name : String}

theorem wellFormed_filter (h : expandPropertyUnpack item.1 = .ok item.2.2)
    (ho : isOptionValue item.1 = true) (hne : item.1.name ≠ name) :
    item.2.2.WellFormed definitions (scope.filter (·.1 ≠ name)) ↔
      item.2.2.WellFormed definitions scope := by
  revert h
  have hz : item.1.arrayLength.getD 0 = 0 := by
    rw [isOptionValue, Bool.and_eq_true, decide_eq_true_eq] at ho
    exact ho.1
  fun_cases expandPropertyUnpack item.1
  case case1 => nofun
  case case2 val ha total hp size hd =>
    rw [ha, Option.getD_some] at hz
    rw [hz] at hp
    exact absurd hp.1 (Nat.lt_irrefl 0)
  case case3 =>
    intro h
    rw [← Outcome.ok.inj h]
    rfl
  case case4 =>
    intro h
    rw [← Outcome.ok.inj h]
    simp [Expr.WellFormed, slice_expandDataUnpack, hne]

theorem assignmentsWellFormed_iff : ∀ {items : List Item} {scope : Scope},
    (∀ item ∈ items, expandPropertyUnpack item.1 = .ok item.2.2) →
    (items.map (·.1.name)).Nodup →
    (assignmentsWellFormed definitions scope (items.filterMap Item.assignment) ↔
      ∀ item ∈ items, isOptionValue item.1 → item.2.2.WellFormed definitions scope)
  | [], _, _, _ => by simp [assignmentsWellFormed]
  | item :: items, scope, hv, hnodup => by
    rw [forall_mem_cons] at hv ⊢
    rw [map_cons, nodup_cons, mem_map] at hnodup
    rw [filterMap_cons, Item.assignment]
    split_ifs with ho
    · simp only [assignmentsWellFormed, ho, true_implies]
      rw [assignmentsWellFormed_iff hv.2 hnodup.2]
      refine and_congr_right fun _ => forall₂_congr fun o hot => ?_
      refine imp_congr_right fun ho' => ?_
      exact wellFormed_filter (hv.2 o hot) ho' fun heq => hnodup.1 ⟨o, hot, heq⟩
    · rw [assignmentsWellFormed_iff hv.2 hnodup.2]
      simp [ho]

theorem mem_assignments {items : List Item} :
    name ∈ (items.filterMap Item.assignment).map Prod.fst ↔
      ∃ item ∈ items, isOptionValue item.1 = true ∧ item.1.name = name := by
  simp only [mem_map, mem_filterMap, Item.assignment, Option.ite_none_right_eq_some,
    Option.some.injEq]
  grind

section

variable {size : Option ℕ} {its : List Item} {name : String} {width : ℕ}

theorem mem_bound :
    (name, width) ∈ (UnpackFn.ofItems size its).bound ↔
      its.length ≠ 1 ∧ ∃ item ∈ its, item.1.name = name ∧ item.2.1 = width := by
  simp only [UnpackFn.bound, UnpackFn.ofItems, length_map]
  split
  next hone => simp [hone]
  next hone => simp [hone]

variable (hno : (its.map (·.1.name)).Nodup)

include hno

theorem mem_scope :
    (name, width) ∈ (UnpackFn.ofItems size its).scope ↔ its.length ≠ 1 ∧
      ∃ item ∈ its, item.1.name = name ∧ isOptionValue item.1 = false ∧ item.2.1 = width := by
  rw [UnpackFn.scope, mem_filter, decide_eq_true_eq, mem_bound]
  simp only [UnpackFn.ofItems, mem_assignments]
  constructor
  · rintro ⟨⟨hone, item, hi, rfl, rfl⟩, hnot⟩
    refine ⟨hone, item, hi, rfl, ?_, rfl⟩
    exact Bool.eq_false_of_not_eq_true fun hopt => hnot ⟨item, hi, hopt, rfl⟩
  · rintro ⟨hone, item, hi, rfl, hopt, rfl⟩
    refine ⟨⟨hone, item, hi, rfl, rfl⟩, ?_⟩
    rintro ⟨o, ho, hopt', hn⟩
    rw [inj_on_of_nodup_map hno ho hi hn, hopt] at hopt'
    cases hopt'

theorem decodable_iff (size : Option ℕ) (ha : ∀ item ∈ its, IsItem definitions item)
    (hi : item ∈ its) :
    item.1.Decodable definitions (its.map Prod.fst) ↔
      item.2.2.WellFormed definitions (if isOptionValue item.1 then
        (UnpackFn.ofItems size its).bound else (UnpackFn.ofItems size its).scope) := by
  obtain ⟨⟨ws, hws, hsum⟩, hlt, hv⟩ := ha item hi
  have how : ((its.map Prod.fst).length ≠ 1 ∧ ∃ o ∈ its.map Prod.fst, o.name = "owner" ∧
      isOptionValue o = false ∧
      ∃ ws, Leaves definitions [o] ws ∧ ws.sum = (item.1.length.getD 0).val) ↔
      ("owner", (item.1.length.getD 0).val) ∈ (UnpackFn.ofItems size its).scope := by
    rw [mem_scope hno, length_map]
    refine and_congr_right fun _ => ?_
    constructor
    · rintro ⟨_, how, hn, ho, us, hus, hsum⟩
      obtain ⟨o, hm, rfl⟩ := mem_map.1 how
      obtain ⟨vs, hvs, hvsum⟩ := (ha o hm).1
      exact ⟨o, hm, hn, ho, by rw [← hvsum, hvs.unique hus, hsum]⟩
    · rintro ⟨o, how, hn, ho, hw⟩
      obtain ⟨vs, hvs, hvsum⟩ := (ha o how).1
      exact ⟨o.1, mem_map_of_mem how, hn, ho, vs, hvs, hvsum.trans hw⟩
  -- the name of the property stands for its slice, unless it is the only one
  rw [wellFormed_value (P := its.length ≠ 1) hv hlt]
  · unfold Property.Decodable
    split
    · rw [length_map, declared_iff hws, hsum]
    next val har =>
      split
      next ho =>
        -- an array that is optional has no elements
        rw [isOptionValue, har, Bool.and_eq_true, decide_eq_true_eq, Option.getD_some] at ho
        have hz : val.val = 0 := by rw [ho.1]; rfl
        exact iff_of_true (.inl hz) (.inl hz)
      next => rw [how]
  · intro w
    split
    next ho =>
      rw [mem_bound]
      refine and_congr_right fun _ => ?_
      constructor
      · rintro ⟨other, hother, hn, rfl⟩
        rw [inj_on_of_nodup_map hno hother hi hn]
      · rintro rfl
        exact ⟨item, hi, rfl, rfl⟩
    next ho =>
      rw [mem_scope hno]
      refine and_congr_right fun _ => ?_
      constructor
      · rintro ⟨other, hother, hn, -, rfl⟩
        rw [inj_on_of_nodup_map hno hother hi hn]
      · rintro rfl
        exact ⟨item, hi, rfl, eq_false_of_ne_true ho, rfl⟩

theorem ofItems_wellFormed (hs : size = some (its.map (·.2.1)).sum)
    (ha : ∀ item ∈ its, IsItem definitions item) :
    (UnpackFn.ofItems size its).WellFormed definitions ↔
      ∀ item ∈ its, item.1.Decodable definitions (its.map Prod.fst) := by
  have hv := fun item hi => (ha item hi).2.2
  constructor
  · intro h item hi
    refine (decodable_iff hno size ha hi).2 ?_
    split
    next ho =>
      exact (assignmentsWellFormed_iff hv hno).1 h.assignments item hi ho
    next ho =>
      have hf := h.fields _ (mem_map_of_mem hi)
      rwa [if_neg ho] at hf
  · intro h
    have hd := fun item hi => (decodable_iff hno size ha hi).1 (h item hi)
    refine ⟨?_, ?_, (assignmentsWellFormed_iff hv hno).2 ?_, ?_⟩
    · simpa [UnpackFn.ofItems, comp_def] using hs
    · simpa [UnpackFn.ofItems, comp_def] using hno
    · intro item hi ho
      simpa only [if_pos ho] using hd item hi
    · intro f hf
      obtain ⟨item, hi, rfl⟩ := mem_map.1 hf
      have hva := hd item hi
      by_cases ho : isOptionValue item.1
      · simp only [if_pos ho]
        exact mem_assignments.2 ⟨item, hi, ho, rfl⟩
      · rw [if_neg ho] at hva
        simpa only [if_neg ho] using hva

end

theorem exists_expandPropertyUnpack (h : ∀ val, p.arrayLength = some val →
      val.val ∣ (p.length.getD 0).val) :
    ∃ value, expandPropertyUnpack p = .ok value := by
  fun_cases expandPropertyUnpack p
  case case1 val ha total hp size hlt =>
    exact absurd (Nat.div_mul_cancel (h val ha)) (Nat.ne_of_lt hlt)
  all_goals exact ⟨_, rfl⟩

/-! ### The generated function -/

variable {properties : List Property} {widths : List ℕ}

/-- What the loop over the properties collects. -/
theorem exists_items (hleaves : Leaves definitions properties widths) (hsum : widths.sum < 2 ^ 64)
    (harrays : ∀ property ∈ properties, ∀ val, property.arrayLength = some val →
      val.val ∣ (property.length.getD 0).val) :
    ∃ items : List Item, items.map Prod.fst = properties ∧
      (∀ item ∈ items, IsItem definitions item) ∧ (items.map (·.2.1)).sum = widths.sum ∧
      ∃ k, ∀ n ≥ k, properties.mapM (expandItem definitions n) = .ok items := by
  induction properties generalizing widths with
  | nil =>
    cases hleaves
    exact ⟨[], rfl, fun item hi => absurd hi not_mem_nil, rfl, 0, fun n _ => rfl⟩
  | cons p ps ih =>
    obtain ⟨vs, ws, hvs, hws, rfl⟩ := hleaves.of_cons
    rw [sum_append] at hsum
    rw [forall_mem_cons] at harrays
    obtain ⟨items, rfl, hitems, hsizes, k, hk⟩ := ih hws (by omega) harrays.2
    obtain ⟨value, hvalue⟩ := exists_expandPropertyUnpack harrays.1
    have hlt : vs.sum < 2 ^ 64 := by omega
    obtain ⟨l, hl⟩ := hvs.property_hasSize hlt
    refine ⟨(p, vs.sum, value) :: items, rfl, ?_, ?_, max k l, fun n hn => ?_⟩
    · exact forall_mem_cons.2 ⟨⟨⟨vs, hvs, rfl⟩, hlt, hvalue⟩, hitems⟩
    · rw [map_cons, sum_cons, sum_append, hsizes]
    · rw [mapM_cons, hk n (by omega), expandItem, hl n (by omega), hvalue]
      rfl

theorem exists_expandStructUnpack (hleaves : Leaves definitions properties widths)
    (hsum : widths.sum < 2 ^ 64)
    (harrays : ∀ property ∈ properties, ∀ val, property.arrayLength = some val →
      val.val ∣ (property.length.getD 0).val) :
    ∃ fn, (∃ k, ∀ n ≥ k, expandStructUnpack definitions n ⟨some properties⟩ = .ok fn) ∧
      (fn.WellFormed definitions ↔ (properties.map Property.name).Nodup ∧
        ∀ property ∈ properties, property.Decodable definitions properties) := by
  obtain ⟨items, rfl, hitems, hsizes, k, hk⟩ := exists_items hleaves hsum harrays
  obtain ⟨l, hl⟩ := hleaves.schema_hasSize hsum
  refine ⟨.ofItems (some widths.sum) items, ⟨max k l, fun n hn => ?_⟩, ?_⟩
  · rw [expandStructUnpack, hl (n + 1) (by omega)]
    show (items.map Prod.fst).mapM (expandItem definitions n) >>= _ = _
    rw [hk n (by omega)]
    rfl
  · rw [← hsizes, map_map, forall_mem_map]
    constructor
    · intro h
      have hnodup : (items.map (·.1.name)).Nodup := by
        simpa [UnpackFn.ofItems, comp_def] using h.names
      exact ⟨hnodup, (ofItems_wellFormed hnodup rfl hitems).1 h⟩
    · rintro ⟨hnodup, h⟩
      exact (ofItems_wellFormed hnodup rfl hitems).2 h

/-- **For a struct whose array lengths divide the declared lengths, the generator returns a well
formed function if and only if** the names are distinct, no references lead into a cycle, the
size is a `usize`, and every property can be decoded. -/
theorem expandStructUnpack_wellFormed_iff (definitions : Definitions) {properties : List Property}
    (harrays : ∀ property ∈ properties, ∀ val, property.arrayLength = some val →
      val.val ∣ (property.length.getD 0).val) :
    (∃ fn, (∃ k, ∀ n ≥ k, expandStructUnpack definitions n ⟨some properties⟩ = .ok fn) ∧
      fn.WellFormed definitions) ↔
    (properties.map Property.name).Nodup ∧
      (∀ property ∈ properties, property.width = none → ¬Cyclic definitions property.dataType) ∧
      (∀ widths, Leaves definitions properties widths → widths.sum < 2 ^ 64) ∧
      ∀ property ∈ properties, property.Decodable definitions properties := by
  constructor
  · rintro ⟨fn, ⟨k, hk⟩, hwf⟩
    have hsize : (Schema.mk (some properties)).HasSize definitions fn.size := by
      refine ⟨k + 1, fun n hn => ?_⟩
      obtain ⟨n, rfl⟩ := Nat.exists_eq_add_of_le' (Nat.le_of_add_left_le hn)
      obtain ⟨size, hsize, h⟩ := bind_eq_ok.1 (hk n (by omega))
      obtain ⟨ps, -, h⟩ := bind_eq_ok.1 h
      obtain ⟨items, -, rfl⟩ := bind_pure_eq_ok.1 h
      exact hsize
    obtain ⟨ws, hws, -, hlt⟩ := hsize.exists_leaves
    obtain ⟨fn', ⟨l, hl⟩, hiff⟩ := exists_expandStructUnpack hws hlt harrays
    have heq : fn = fn' :=
      Outcome.ok.inj ((hk (max k l) (by omega)).symm.trans (hl (max k l) (by omega)))
    rw [heq, hiff] at hwf
    exact ⟨hwf.1, hws.not_cyclic, fun vs hvs => hvs.unique hws ▸ hlt, hwf.2⟩
  · rintro ⟨hnodup, hcyclic, hsum, hd⟩
    obtain ⟨ws, hws⟩ := exists_leaves hcyclic
    obtain ⟨fn, hfn, hiff⟩ := exists_expandStructUnpack hws (hsum ws hws) harrays
    exact ⟨fn, hfn, hiff.2 ⟨hnodup, hd⟩⟩

def sideDefinitions : Definitions := [("Side", ⟨some [⟨"tag", "u32", none, none⟩]⟩)]

/-- A property of each kind, with an array of the length of its `owner`. -/
def orderProperties : List Property :=
  [⟨"side", "Side", none, none⟩, ⟨"owner", "u64", none, none⟩,
    ⟨"quantity", "NonZeroU16", some 2, none⟩, ⟨"levels", "u32", some 8, some 2⟩]

theorem order_wellFormed :
    ∃ fn, (∃ k, ∀ n ≥ k, expandStructUnpack sideDefinitions n ⟨some orderProperties⟩ = .ok fn) ∧
      fn.WellFormed sideDefinitions := by
  have hwidths : Leaves sideDefinitions orderProperties ([4] ++ [8, 2, 8]) :=
    .struct rfl rfl (.width rfl .nil) (.width rfl (.width rfl (.width rfl .nil)))
  have harrays : ∀ p ∈ orderProperties, ∀ val, p.arrayLength = some val →
      val.val ∣ (p.length.getD 0).val := by
    simp only [orderProperties, forall_mem_cons, not_mem_nil]
    refine ⟨?_, ?_, ?_, ?_, ?_⟩
    · rintro val ⟨⟩
    · rintro val ⟨⟩
    · rintro val ⟨⟩
    · rintro val ⟨⟩
      decide
    · rintro p ⟨⟩
  refine (expandStructUnpack_wellFormed_iff sideDefinitions harrays).2
    ⟨by decide, hwidths.not_cyclic, fun ws hws => ?_, ?_⟩
  · rw [hws.unique hwidths]
    decide
  simp only [orderProperties, forall_mem_cons]
  refine ⟨⟨by decide, ?_⟩, ⟨by decide, ?_⟩, ⟨by decide, ?_⟩, ?_, fun p hp => absurd hp not_mem_nil⟩
  · exact .inr rfl
  · exact .inl rfl
  · show byteWidth "u16" = some 2
    rfl
  · refine .inr (.inr ⟨rfl, by decide, ⟨"owner", "u64", none, none⟩, by decide, rfl, by decide, ?_⟩)
    exact ⟨[8], .width rfl .nil, rfl⟩

def price : Property := ⟨"price", "u64", none, none⟩

/-- An array without an `owner`, a `NonZero` type without a length, and a single property. -/
theorem arrays_not_wellFormed :
    (∃ fn, expandStructUnpack [] 1 ⟨some [price, ⟨"amounts", "u64", some 16, some 2⟩]⟩ = .ok fn ∧
      ¬ fn.WellFormed []) ∧
    (∃ fn, expandStructUnpack [] 1 ⟨some [price, ⟨"quantity", "NonZeroU64", none, none⟩]⟩ = .ok fn ∧
      ¬ fn.WellFormed []) ∧
    ∃ fn, expandStructUnpack [] 1 ⟨some [price]⟩ = .ok fn ∧ ¬ fn.WellFormed [] := by
  refine ⟨⟨_, rfl, ?_⟩, ⟨_, rfl, ?_⟩, _, rfl, ?_⟩
  · intro h
    have howner := (h.fields _ (mem_cons_of_mem _ mem_cons_self)).1
    exact absurd howner (by decide)
  · intro h
    obtain ⟨name, w, hname, hm, hn⟩ := h.assignments.1
    cases hname
    have hw : w = 1 := by
      have hm : ("quantity", w) ∈ [("price", 8), ("quantity", 1)] := hm
      simpa using hm
    rw [hw] at hn
    exact absurd (show byteWidth "u64" = some 1 from hn) (by decide)
  · intro h
    obtain ⟨name, w, -, hm, -⟩ := h.fields _ mem_cons_self
    exact absurd hm not_mem_nil

end Massbit.SolCli
