/-
The entity types of the variants of an instruction (`generator/graphql.rs`), and what the generated
handlers insert (`generator/handler.rs`): `entities_right_iff`.
-/
import Massbit.Postgres.Naming
import Massbit.SolCli.SchemaSize

open List Outcome Function

namespace Massbit.SolCli

open GraphQL (ObjectTypeDefinition FieldDefinition InputSchema)

structure AccountInfo where
  index : ℕ
  name : String

structure Variant where
  name : EntityType
  innerType : Option String
  accounts : Option (List AccountInfo)

def mappingRustTypesToDb : List (String × String) :=
  [("bool", "Bool"), ("i8", "BigInt"), ("u8", "BigInt"), ("i16", "BigInt"), ("u16", "BigInt"),
    ("NonZeroU8", "BigInt"), ("NonZeroU16", "BigInt"), ("NonZeroI8", "BigInt"),
    ("NonZeroI16", "BigInt"), ("i32", "Integer"), ("u32", "Integer"), ("NonZeroI32", "Integer"),
    ("NonZeroU32", "Integer"), ("i64", "BigInt"), ("u64", "BigInt"), ("isize", "BigInt"),
    ("usize", "BigInt"), ("NonZeroU64", "BigInt"), ("NonZeroU128", "BigInt"),
    ("NonZeroUsize", "BigInt"), ("NonZeroI64", "BigInt"), ("NonZeroI128", "BigInt"),
    ("NonZeroIsize", "BigInt"), ("f32", "Float"), ("f64", "Double"), ("str", "String"),
    ("String", "String"), ("char", "String")]

def defaultTypeDb : String := "String"

def Property.field (self : Property) : FieldDefinition :=
  let dbType := .namedType ((mappingRustTypesToDb.lookup self.dataType).getD defaultTypeDb)
  ⟨self.name, if self.arrayLength.isSome then .listType dbType else dbType, []⟩

def innerFields (definitions : Definitions) (innerType : String) : List FieldDefinition :=
  match definitions.lookup innerType with
  | some schema => (schema.properties.getD []).map Property.field
  | none =>
    match mappingRustTypesToDb.lookup innerType with
    -- a primitive type is stored as a value field
    | some dbType => [⟨"value", .namedType dbType, []⟩]
    | none => []

def generateVariantEntity (definitions : Definitions) (variant : Variant) :
    ObjectTypeDefinition where
  name := variant.name
  implementsInterfaces := []
  directives := [⟨"entity", []⟩]
  fields := ⟨"id", .nonNullType (.namedType "ID"), []⟩ ::
    (variant.accounts.getD []).map (fun account => ⟨account.name, .namedType "String", []⟩) ++
      variant.innerType.elim [] (innerFields definitions)

def generateGraphqlSchema (definitions : Definitions) (variants : Option (List Variant)) :
    List ObjectTypeDefinition :=
  (variants.getD []).map (generateVariantEntity definitions)

inductive HandlerValue where
  | uuid
  | account (index : ℕ)
  | arg
  | field (name : String) (nonZero : Bool)
  | elements (name : String) (nonZero : Bool)
  | json (name : String)

def expandEntityAssignment (property : Property) : String × HandlerValue :=
  let nonZero := decide ("NonZero".toList <+: property.dataType.toList)
  (property.name, match mappingRustTypesToDb.lookup property.dataType, property.arrayLength with
    | some _, some _ => .elements property.name nonZero
    | some _, none => .field property.name nonZero
    | none, _ => .json property.name)

def expandFunctionBody (definitions : Definitions) (variant : Variant) :
    List (String × HandlerValue) :=
  ("id", .uuid) ::
    (variant.accounts.getD []).map (fun account => (account.name, .account account.index)) ++
      variant.innerType.elim [] fun innerType =>
        match definitions.lookup innerType with
        | some innerSchema => (innerSchema.properties.getD []).map expandEntityAssignment
        | none =>
          if (mappingRustTypesToDb.lookup innerType).isSome then [("value", .arg)] else []

def parse (id : DeploymentHash) (types : List ObjectTypeDefinition) : Option InputSchema :=
  if types.isEmpty then none
  else
    let withId (t : ObjectTypeDefinition) : ObjectTypeDefinition :=
      if t.name ≠ schemaTypeName ∧ t.directives.all (fun d => d.name ≠ "indexerId") then
        { t with directives := t.directives ++ [⟨"indexerId", [("id", .string id)]⟩] }
      else t
    some ⟨id, ⟨types.map fun t => .object (withId t)⟩, []⟩

variable {definitions : Definitions} {variants : List Variant} {config : LayoutConfig}
  {catalog : Catalog} {id : DeploymentHash}

theorem expandFunctionBody_names (v : Variant) :
    (expandFunctionBody definitions v).map Prod.fst =
      (generateVariantEntity definitions v).fields.map FieldDefinition.name := by
  have hi : ∀ ity, (match definitions.lookup ity with
      | some isc => (isc.properties.getD []).map expandEntityAssignment
      | none => if (mappingRustTypesToDb.lookup ity).isSome then [("value", .arg)]
          else []).map Prod.fst = (innerFields definitions ity).map FieldDefinition.name := by
    intro ity
    unfold innerFields
    split
    · simp [expandEntityAssignment, Property.field, comp_def]
    · cases mappingRustTypesToDb.lookup ity <;> rfl
  unfold expandFunctionBody generateVariantEntity
  simp only [map_cons, map_append, map_map, comp_def, cons_append]
  cases v.innerType with
  | none => rfl
  | some ity => simp only [Option.elim_some, hi]

/-- There is a column for a field if its type is that of an entity or available in the store. -/
def FieldAccepted (config : LayoutConfig) (names : List EntityType) (name : String)
    (fieldType : FieldType) : Prop :=
  if config.toSnakeCase name = primaryKeyColumn then (IdType.ofFieldType fieldType).isOk = true
  else fieldType.named ∈ names ∨ ValueType.isScalar fieldType.named = true

instance (names : List EntityType) (name : String) (fieldType : FieldType) :
    Decidable (FieldAccepted config names name fieldType) := by
  unfold FieldAccepted
  infer_instance

variable {ns : List EntityType} {ity : IdTypeMap}

theorem exists_columnNew {tn : SqlName} {f : GraphQL.Field}
    (hn : ∀ name, (ity name).isSome ↔ name ∈ ns)
    (hna : SqlName.checkValidIdentifier f.name "attribute" = .ok ()) :
    (∃ c, Column.new config tn f catalog [] ity = .ok c) ↔
      FieldAccepted config ns f.name f.fieldType := by
  have hc : ∀ {x : Except StoreError ColumnType} {g : ColumnType → Column},
      (∃ c, (x >>= fun t => pure (g t)) = .ok c) ↔ x.isOk = true := by
    intro x g
    cases x with
    | error e => exact ⟨nofun, nofun⟩
    | ok t => exact ⟨fun _ => rfl, fun _ => ⟨_, rfl⟩⟩
  have hne : Column.new config tn f catalog [] ity =
      (if config.toSnakeCase f.name = primaryKeyColumn then
        (IdType.ofFieldType f.fieldType).map IdType.toColumnType
      else ColumnType.fromFieldType config f.fieldType catalog [] ity
        (catalog.isExistingTextColumn tn (config.toSnakeCase f.name))) >>= fun t =>
          pure ⟨config.toSnakeCase f.name, f.name, f.fieldType, t⟩ := by
    unfold Column.new
    rw [hna]
    show (if _ then _ else _) = _
    split_ifs <;> rfl
  rw [hne, hc, FieldAccepted]
  split_ifs with hid
  · cases IdType.ofFieldType f.fieldType <;> rfl
  · rw [← hn, ValueType.isScalar, ColumnType.fromFieldType]
    rcases ity f.fieldType.named with - | t
    · rcases ValueType.fromStr f.fieldType.named with e | v
      · exact ⟨.inr, fun h => h.resolve_left nofun⟩
      · cases v <;> exact ⟨fun _ => .inr rfl, fun _ => rfl⟩
    · exact ⟨fun _ => .inl rfl, fun _ => rfl⟩

/-- The name can be used for types and attributes. -/
def IsIdentifier (name : String) : Prop :=
  ∀ kind, SqlName.checkValidIdentifier name kind = .ok ()

theorem exists_tableNew (hn : ∀ name, (ity name).isSome ↔ name ∈ ns) {t : GraphQL.ObjectType}
    {i : ℕ} (hna : IsIdentifier t.name)
    (hfi : ∀ f ∈ t.fields, f.isDerived = false ∧ IsIdentifier f.name) :
    (∃ ta, LayoutTable.new config t catalog [] ity i = .ok ta) ↔
      ∀ f ∈ t.fields, FieldAccepted config ns f.name f.fieldType := by
  have hfl : t.fields.filter (fun f => !f.isDerived) = t.fields :=
    filter_eq_self.2 fun f hf => by simp [(hfi f hf).1]
  have hc : (∃ cs, t.fields.mapM (fun f => Column.new config
      (config.toSnakeCase t.name) f catalog [] ity) = .ok cs) ↔
      ∀ f ∈ t.fields, FieldAccepted config ns f.name f.fieldType :=
    Except.exists_mapM_iff.trans (forall₂_congr fun f hf =>
      exists_columnNew hn ((hfi f hf).2 _))
  rw [← hc]
  unfold LayoutTable.new
  rw [hna, hfl]
  constructor
  · rintro ⟨ta, h⟩
    obtain ⟨-, -, h⟩ := Except.bind_eq_ok.1 h
    obtain ⟨cs, hc, -⟩ := Except.bind_eq_ok.1 h
    exact ⟨cs, hc⟩
  · rintro ⟨cs, hc⟩
    exact ⟨_, Except.bind_eq_ok.2 ⟨(), rfl, Except.bind_eq_ok.2 ⟨cs, hc, rfl⟩⟩⟩

variable {s : Massbit.Schema}

theorem exists_newIdTypes (hi : s.typesForInterface = [])
    (hid : ∀ t ∈ s.storedTypes, IdType.ofObjectType t = .ok .string) :
    ∃ ity, SchemaLayout.newIdTypes s = .ok ity ∧
      ∀ name, (ity name).isSome ↔ name ∈ s.entityTypes := by
  have ho : s.storedTypes.mapM (fun t => do return (t.name, ← IdType.ofObjectType t)) =
      ok (s.storedTypes.map fun t => (t.name, IdType.string)) := by
    refine mapM_eq_ok.2 (forall₂_map_right_iff.2 (forall₂_same.2 fun t ht => ?_))
    rw [hid t ht]
    rfl
  refine ⟨_, bind_eq_ok.2 ⟨_, ho, bind_eq_ok.2 ⟨[], ?_, rfl⟩⟩, ?_⟩
  · rw [hi]
    rfl
  · intro name
    simp [lookup_isSome_iff, Schema.entityTypes]
    grind

def Variant.names (definitions : Definitions) (self : Variant) : List String :=
  self.name :: (self.accounts.getD []).map AccountInfo.name ++
    self.innerType.elim [] fun innerType => ((definitions.lookup innerType).bind
      Schema.properties).getD [] |>.map Property.name

def storedNames (variants : List Variant) : List EntityType :=
  (variants.map Variant.name).filter (· ≠ schemaTypeName)

/-- There is a layout for the generated schema, and the handlers insert the attributes of its types.
-/
def EntitiesRight (definitions : Definitions) (config : LayoutConfig) (catalog : Catalog)
    (id : DeploymentHash) (variants : List Variant) : Prop :=
  (∃ schema layout, parse id (generateGraphqlSchema definitions (some variants)) = some schema ∧
    SchemaLayout.new config schema.toSchema catalog = .ok layout) ∧
  ∀ variant ∈ variants, (expandFunctionBody definitions variant).map Prod.fst =
    ((generateVariantEntity definitions variant).toObjectType.fields.filter fun field =>
      !field.isDerived).map GraphQL.Field.name

theorem field_isIdentifier {v : Variant} (hn : ∀ name ∈ v.names definitions, IsIdentifier name) :
    ∀ f ∈ (generateVariantEntity definitions v).fields,
      IsIdentifier f.name ∧ f.directives = [] := by
  simp only [Variant.names, cons_append, forall_mem_cons, forall_mem_append, forall_mem_map] at hn
  simp only [generateVariantEntity, cons_append, forall_mem_cons, forall_mem_append, forall_mem_map]
  refine ⟨⟨fun _ => rfl, trivial⟩, fun a h => ⟨hn.2.1 a h, trivial⟩, ?_⟩
  cases hi : v.innerType with
  | none => simp
  | some ity =>
    have hp := hn.2.2
    simp only [hi, Option.elim_some, innerFields] at hp ⊢
    cases hl : definitions.lookup ity with
    | some s => simpa [hl, Property.field] using hp
    | none =>
      cases mappingRustTypesToDb.lookup ity with
      | none => simp
      | some dt =>
        rintro f hf
        rw [mem_singleton.1 hf]
        exact ⟨show IsIdentifier "value" from fun _ => rfl, rfl⟩

theorem toSchema_of_parse {ts : List ObjectTypeDefinition} {s : InputSchema}
    (h : parse id ts = some s) : ts ≠ [] ∧
      s.toSchema = ⟨id, ts.map ObjectTypeDefinition.toObjectType, [], []⟩ := by
  unfold parse at h
  split at h
  next => cases h
  next hne =>
    refine ⟨by simpa using hne, ?_⟩
    rw [← Option.some.inj h]
    simp only [InputSchema.toSchema, GraphQL.Document.getObjectTypeDefinitions,
      GraphQL.Document.getEnumDefinitions, filterMap_map, comp_def, map_nil]
    rw [filterMap_eq_map', map_map]
    simp only [Massbit.Schema.mk.injEq, filterMap_none, and_true, true_and]
    refine map_congr_left fun t _ => ?_
    simp only [comp_apply]
    split_ifs <;> rfl

theorem exists_layoutNew (he : s.enums = []) (hin : s.typesForInterface = [])
    (hid : ∀ t ∈ s.storedTypes, IdType.ofObjectType t = .ok .string)
    (hna : ∀ t ∈ s.storedTypes, IsIdentifier t.name) (hf : ∀ t ∈ s.storedTypes, ∀ f ∈ t.fields,
      f.isDerived = false ∧ IsIdentifier f.name) :
    (∃ l, SchemaLayout.new config s catalog = .ok l) ↔
      ∀ t ∈ s.storedTypes, ∀ f ∈ t.fields,
        FieldAccepted config s.entityTypes f.name f.fieldType := by
  obtain ⟨ity, hit, hn⟩ := exists_newIdTypes hin hid
  have hne : SchemaLayout.new config s catalog = (do
      let ts ← s.storedTypes.zipIdx.mapM fun e =>
        Outcome.ofExcept (LayoutTable.new config e.1 catalog [] ity e.2)
      return ⟨ts.foldl SchemaLayout.insertTable [], []⟩) := by
    unfold SchemaLayout.new
    rw [SchemaLayout.newEnums, he, hit]
    rfl
  have htb : (∃ ts, s.storedTypes.zipIdx.mapM (fun e =>
      Outcome.ofExcept (LayoutTable.new config e.1 catalog [] ity e.2)) = .ok ts) ↔
      ∀ t ∈ s.storedTypes, ∀ f ∈ t.fields,
        FieldAccepted config s.entityTypes f.name f.fieldType := by
    rw [exists_mapM_iff]
    constructor
    · intro h t ht
      obtain ⟨i, hi⟩ := getElem?_of_mem ht
      obtain ⟨ta, hta⟩ := h (t, i) (mk_mem_zipIdx_iff_getElem?.2 hi)
      exact (exists_tableNew hn (hna t ht) (hf t ht)).1 ⟨ta, ofExcept_eq_ok.1 hta⟩
    · rintro h ⟨t, i⟩ hm
      have ht : t ∈ s.storedTypes := mem_of_getElem? (mk_mem_zipIdx_iff_getElem?.1 hm)
      obtain ⟨ta, hta⟩ := (exists_tableNew hn (hna t ht) (hf t ht)).2 (h t ht)
      exact ⟨ta, ofExcept_eq_ok.2 hta⟩
  rw [hne, exists_bind_iff, ← htb]
  exact exists_congr fun ts => and_iff_left ⟨_, rfl⟩

/-- The generated schema and the handlers are right if and only if there is a variant and the store
accepts the types of all fields. -/
theorem entities_right_iff
    (hnames : ∀ variant ∈ variants, ∀ name ∈ variant.names definitions, IsIdentifier name) :
    EntitiesRight definitions config catalog id variants ↔ variants ≠ [] ∧
      ∀ variant ∈ variants, variant.name ≠ schemaTypeName →
        ∀ field ∈ (generateVariantEntity definitions variant).fields,
          FieldAccepted config (storedNames variants) field.name field.fieldType := by
  have hd : ∀ variant ∈ variants, ∀ field ∈
      (generateVariantEntity definitions variant).toObjectType.fields,
        field.isDerived = false ∧ IsIdentifier field.name := by
    intro variant hv field hf
    obtain ⟨field, hm, rfl⟩ := mem_map.1 hf
    obtain ⟨hn, hdirectives⟩ := field_isIdentifier (hnames variant hv) field hm
    exact ⟨by simp [hdirectives], hn⟩
  have hh : ∀ variant ∈ variants, (expandFunctionBody definitions variant).map Prod.fst =
      ((generateVariantEntity definitions variant).toObjectType.fields.filter fun field =>
        !field.isDerived).map GraphQL.Field.name := by
    intro variant hv
    rw [expandFunctionBody_names, filter_eq_self.2]
    · simp [ObjectTypeDefinition.toObjectType, comp_def]
    · intro field hf
      simp [(hd variant hv field hf).1]
  unfold EntitiesRight
  rw [and_iff_left hh]
  by_cases hne : variants = []
  · subst hne
    constructor
    · rintro ⟨_, _, h, -⟩
      cases h
    · exact fun h => absurd rfl h.1
  obtain ⟨schema, hp⟩ : ∃ schema, parse id (generateGraphqlSchema definitions (some variants)) =
      some schema := ⟨_, if_neg (by simpa [generateGraphqlSchema] using hne)⟩
  obtain ⟨-, hs⟩ := toSchema_of_parse hp
  simp only [hp, Option.some.injEq, exists_eq_left', exists_and_left]
  have hst : ∀ t, t ∈ schema.toSchema.storedTypes ↔ ∃ variant ∈ variants,
      variant.name ≠ schemaTypeName ∧
        (generateVariantEntity definitions variant).toObjectType = t := by
    intro t
    simp only [hs, Massbit.Schema.storedTypes, generateGraphqlSchema, Option.getD_some,
      mem_filter, mem_map]
    grind [ObjectTypeDefinition.toObjectType, generateVariantEntity]
  have he : schema.toSchema.entityTypes = storedNames variants := by
    rw [hs, Massbit.Schema.entityTypes, Massbit.Schema.storedTypes, storedNames, filter_map]
    simp only [generateGraphqlSchema, Option.getD_some, map_map, filter_map]
    rfl
  rw [exists_layoutNew (by rw [hs]) (by rw [hs])]
  · rw [he]
    rw [and_iff_right hne]
    constructor
    · intro h variant hv hn field hf
      exact h _ ((hst _).2 ⟨variant, hv, hn, rfl⟩) _ (mem_map_of_mem hf)
    · intro h t ht field hf
      obtain ⟨variant, hv, hn, rfl⟩ := (hst t).1 ht
      obtain ⟨field, hm, rfl⟩ := mem_map.1 hf
      exact h variant hv hn field hm
  · intro t ht
    obtain ⟨variant, hv, -, rfl⟩ := (hst t).1 ht
    rfl
  · intro t ht
    obtain ⟨variant, hv, -, rfl⟩ := (hst t).1 ht
    exact hnames variant hv _ mem_cons_self
  · intro t ht
    obtain ⟨variant, hv, -, rfl⟩ := (hst t).1 ht
    exact hd variant hv

def transfer (dataType : String) : Definitions × Variant :=
  ([("TransferData", ⟨some [⟨"amount", dataType, none, none⟩]⟩)],
    ⟨"Transfer", some "TransferData", some [⟨0, "sender"⟩]⟩)

theorem transfer_u64_right : EntitiesRight (transfer "u64").1 SchemaLayout.snakeCase
    ⟨"sgd1", []⟩ "Qm" [(transfer "u64").2] := by
  refine (entities_right_iff ?_).2 ⟨by simp, ?_⟩
  · intro v hv name hn
    obtain rfl := mem_singleton.1 hv
    have hn : name ∈ ["Transfer", "sender", "amount"] := hn
    simp only [mem_cons, not_mem_nil, or_false] at hn
    rcases hn with rfl | rfl | rfl <;> exact fun _ => rfl
  · decide +kernel

theorem transfer_u32_rejected : ∃ schema, parse "Qm"
      (generateGraphqlSchema (transfer "u32").1 (some [(transfer "u32").2])) = some schema ∧
      SchemaLayout.new SchemaLayout.snakeCase schema.toSchema ⟨"sgd1", []⟩ =
        .err (.unknown "Type not available in this context: Integer") := by
  refine ⟨_, rfl, ?_⟩
  rfl

end Massbit.SolCli
