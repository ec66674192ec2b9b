/-
From the GraphQL schema of an indexer to the tables of its database schema (`relational.rs`,
`catalog.rs`).
-/
import Massbit.Lib.Outcome
import Massbit.Postgres.Layout

open List Except

namespace Massbit

namespace GraphQL

structure Field where
  name : String
  fieldType : FieldType
  isDerived : Bool
  deriving DecidableEq, Repr

structure ObjectType where
  name : EntityType
  fields : List Field
  deriving DecidableEq, Repr

def ObjectType.field (self : ObjectType) (name : String) : Option Field :=
  self.fields.find? fun field => field.name = name

structure EnumType where
  name : String
  values : List String
  deriving DecidableEq, Repr

end GraphQL

/-- A validated and preprocessed GraphQL schema for an indexer. -/
structure Schema where
  id : DeploymentHash
  objectTypes : List GraphQL.ObjectType
  enums : List GraphQL.EnumType
  typesForInterface : List (EntityType × List GraphQL.ObjectType)
  deriving DecidableEq, Repr

def schemaTypeName : EntityType := "_Schema_"

namespace Schema

def storedTypes (self : Schema) : List GraphQL.ObjectType :=
  self.objectTypes.filter fun objType => objType.name ≠ schemaTypeName

def entityTypes (self : Schema) : List EntityType := self.storedTypes.map GraphQL.ObjectType.name

end Schema

def FieldType.named : FieldType → String
  | namedType name => name
  | listType child => child.named
  | nonNullType child => child.named

inductive ValueType where
  | boolean
  | bigInt
  | bytes
  | bigDecimal
  | int
  | string
  deriving DecidableEq, Repr

def ValueType.fromStr : String → Except StoreError ValueType
  | "Boolean" => .ok boolean
  | "BigInt" => .ok bigInt
  | "Bytes" => .ok bytes
  | "BigDecimal" => .ok bigDecimal
  | "Int" => .ok int
  | "String" | "ID" => .ok string
  | s => .error (.unknown ("Type not available in this context: " ++ s))

def ValueType.isScalar (s : String) : Bool := (ValueType.fromStr s).isOk

def IdType.ofFieldType (fieldType : FieldType) : Except StoreError IdType := do
  match ← ValueType.fromStr fieldType.named with
  | .string => return .string
  | .bytes => return .bytes
  | .boolean | .bigInt | .bigDecimal | .int =>
    throw (.unknown ("The `id` field has type `" ++ fieldType.named ++
      "` but only `String`, `Bytes`, and `ID` are allowed"))

def IdType.ofObjectType (objType : GraphQL.ObjectType) : Outcome StoreError IdType :=
  match objType.field primaryKeyColumn with
  | some pk => .ofExcept (ofFieldType pk.fieldType)
  | none => .panic

structure LayoutConfig where
  toSnakeCase : String → SqlName
  accountTables : List SqlName

def SqlName.checkValidIdentifier (name kind : String) : Except StoreError Unit :=
  match name.toList with
  | [] => .error (.invalidIdentifier ("can not use an empty name for a " ++ kind))
  | c :: chars =>
    if !c.isAlpha && c != '_' then
      .error (.invalidIdentifier ("the name `" ++ name ++ "` can not be used for a " ++ kind ++
        "; it must start with an ASCII alphabetic character or `_`"))
    else if chars.all fun c => c.isAlphanum || c == '_' then .ok ()
    else .error (.invalidIdentifier ("the name `" ++ name ++ "` can not be used for a " ++ kind ++
      "; it can only contain alphanumeric characters and `_`"))

abbrev Namespace := String

def SqlName.qualifiedName (nsp : Namespace) (name : SqlName) : SqlName :=
  "\"" ++ nsp ++ "\".\"" ++ name ++ "\""

def vidColumn : SqlName := "vid"

abbrev EnumMap := List (String × List String)

def EnumMap.insert (name : String) (values : List String) : EnumMap → EnumMap
  | [] => [(name, values)]
  | (name', values') :: enums =>
    if name < name' then (name, values) :: (name', values') :: enums
    else if name = name' then (name, values) :: enums
    else (name', values') :: EnumMap.insert name values enums

abbrev IdTypeMap := EntityType → Option IdType

structure Catalog where
  nsp : Namespace
  textColumns : List (SqlName × SqlName)
  deriving Repr

def Catalog.isExistingTextColumn (self : Catalog) (table column : SqlName) : Bool :=
  (table, column) ∈ self.textColumns

def IdType.toColumnType : IdType → ColumnType
  | bytes => .bytesId
  | string => .string

namespace ColumnType

def fromFieldType (config : LayoutConfig) (fieldType : FieldType) (catalog : Catalog)
    (enums : EnumMap) (idTypes : IdTypeMap) (isExistingTextColumn : Bool) :
    Except StoreError ColumnType := do
  let name := fieldType.named
  match idTypes name, enums.lookup name with
  -- an object type of the schema
  | some idType, _ => return idType.toColumnType
  | none, some values =>
    if isExistingTextColumn then return .string
    else return .enum ⟨.qualifiedName catalog.nsp (config.toSnakeCase name), values⟩
  | none, none =>
    match ← ValueType.fromStr name with
    | .boolean => return .boolean
    | .bigDecimal => return .bigDecimal
    | .bigInt => return .bigInt
    | .bytes => return .bytes
    | .int => return .int
    | .string => return .string

def sqlType : ColumnType → SqlName
  | boolean => "boolean"
  | bigDecimal => "numeric"
  | bigInt => "numeric"
  | bytes => "bytea"
  | int => "integer"
  | string => "text"
  | enum type => type.name
  | bytesId => "bytea"

end ColumnType

namespace Column

def new (config : LayoutConfig) (tableName : SqlName) (field : GraphQL.Field) (catalog : Catalog)
    (enums : EnumMap) (idTypes : IdTypeMap) : Except StoreError Column := do
  SqlName.checkValidIdentifier field.name "attribute"
  let sqlName := config.toSnakeCase field.name
  let columnType ← if sqlName = primaryKeyColumn then
      (IdType.ofFieldType field.fieldType).map IdType.toColumnType
    else
      ColumnType.fromFieldType config field.fieldType catalog enums idTypes
        (catalog.isExistingTextColumn tableName sqlName)
  return ⟨sqlName, field.name, field.fieldType, columnType⟩

def isEnum (self : Column) : Bool :=
  match self.columnType with
  | .enum _ => true
  | .boolean | .bigDecimal | .bigInt | .bytes | .int | .string | .bytesId => false

end Column

/-- The table for an entity type, as it is computed from the schema. -/
structure LayoutTable extends Table where
  name : SqlName
  position : ℕ
  deriving DecidableEq, Repr

def LayoutTable.new (config : LayoutConfig) (defn : GraphQL.ObjectType) (catalog : Catalog)
    (enums : EnumMap) (idTypes : IdTypeMap) (position : ℕ) : Except StoreError LayoutTable := do
  SqlName.checkValidIdentifier defn.name "object"
  let tableName := config.toSnakeCase defn.name
  let columns ← (defn.fields.filter fun field => !field.isDerived).mapM fun field =>
    Column.new config tableName field catalog enums idTypes
  let qualifiedName := SqlName.qualifiedName catalog.nsp tableName
  return { object := defn.name
           qualifiedName
           columns
           isAccountLike := decide (qualifiedName ∈ config.accountTables)
           name := tableName
           position }

structure SchemaLayout where
  tables : List LayoutTable
  enums : EnumMap
  deriving Repr

namespace SchemaLayout

def insertTable (tables : List LayoutTable) (table : LayoutTable) : List LayoutTable :=
  tables.filter (fun table' => table'.object ≠ table.object) ++ [table]

def newEnums (schema : Schema) : Except StoreError EnumMap :=
  schema.enums.foldlM (fun enums enumType => do
    SqlName.checkValidIdentifier enumType.name "enum"
    return enums.insert enumType.name (enumType.values.dedup.mergeSort fun v w => v ≤ w)) []

def interfaceIdType (entry : EntityType × List GraphQL.ObjectType) :
    Outcome StoreError (EntityType × IdType) := do
  let types ← entry.2.mapM IdType.ofObjectType
  if 1 < types.dedup.length then
    .err (.unknown ("The implementations of interface `" ++ entry.1 ++
      "` use different types for the `id` field"))
  -- an interface that is not implemented at all has a string `id`
  else return (entry.1, types.head?.getD .string)

def newIdTypes (schema : Schema) : Outcome StoreError IdTypeMap := do
  let objects ← schema.storedTypes.mapM fun objType => do
    return (objType.name, ← IdType.ofObjectType objType)
  let interfaces ← schema.typesForInterface.mapM interfaceIdType
  return fun name => (objects ++ interfaces).reverse.lookup name

def new (config : LayoutConfig) (schema : Schema) (catalog : Catalog) :
    Outcome StoreError SchemaLayout := do
  let enums ← .ofExcept (newEnums schema)
  let idTypes ← newIdTypes schema
  let tables ← schema.storedTypes.zipIdx.mapM fun (objType, i) =>
    Outcome.ofExcept (LayoutTable.new config objType catalog enums idTypes i)
  return ⟨tables.foldl insertTable [], enums⟩

end SchemaLayout

inductive Statement where
  | createType (name : SqlName) (values : List String)
  | createTable (table : LayoutTable)
  | createIndex (name : SqlName)
  deriving DecidableEq, Repr

def LayoutTable.asDdl (self : LayoutTable) : List Statement :=
  .createTable self :: .createIndex ("brin_" ++ self.name) ::
    .createIndex (self.name ++ "_block_range_closed") ::
    -- arrays of enums are not indexed
    ((self.columns.filter fun c => !(c.isList && c.isEnum)).zipIdx.map fun (c, i) =>
      .createIndex ("attr_" ++ toString self.position ++ "_" ++ toString i ++ "_" ++ self.name ++
        "_" ++ c.name))

def SchemaLayout.asDdl (config : LayoutConfig) (self : SchemaLayout) : List Statement :=
  self.enums.map (fun (name, values) => .createType (config.toSnakeCase name) values) ++
    self.tables.flatMap LayoutTable.asDdl

def SqlName.truncate (name : SqlName) : SqlName := String.ofList (name.toList.take 63)

structure DatabaseSchema where
  types : List SqlName
  relations : List SqlName
  tables : List LayoutTable
  sublist : (tables.map fun table => table.name.truncate).Sublist relations
  nodup : relations.Nodup
  deriving DecidableEq

namespace DatabaseSchema

def empty : DatabaseSchema where
  types := []
  relations := []
  tables := []
  sublist := .slnil
  nodup := .nil

def alreadyExists (kind : String) (name : SqlName) : StoreError :=
  .unknown (kind ++ " \"" ++ name.truncate ++ "\" already exists")

theorem nodup_concat {ns : List SqlName} {name : SqlName} (h : ns.Nodup)
    (hn : name ∉ ns) : (ns ++ [name]).Nodup := by
  rw [← concat_eq_append]
  exact h.concat hn

def execute (self : DatabaseSchema) : Statement → Outcome StoreError DatabaseSchema
  | .createType name _ =>
    if name.truncate ∈ self.types then .err (alreadyExists "type" name)
    else .ok { self with types := self.types ++ [name.truncate] }
  | .createTable table =>
    if h : table.name.truncate ∈ self.relations then .err (alreadyExists "relation" table.name)
    -- a table has a type of the same name
    else if table.name.truncate ∈ self.types then .err (alreadyExists "type" table.name)
    else if ((table.columns.map fun c => c.name.truncate) ++ [vidColumn, blockRangeColumn]).Nodup then
      .ok { types := self.types ++ [table.name.truncate]
            relations := self.relations ++ [table.name.truncate]
            tables := self.tables ++ [table]
            sublist := by
              rw [map_append]
              exact self.sublist.append (.refl _)
            nodup := nodup_concat self.nodup h }
    else .err (.unknown "column specified more than once")
  | .createIndex name =>
    if h : name.truncate ∈ self.relations then .err (alreadyExists "relation" name)
    else .ok { self with
      relations := self.relations ++ [name.truncate]
      sublist := self.sublist.trans (sublist_append_left _ _)
      nodup := nodup_concat self.nodup h }

def batchExecute (self : DatabaseSchema) (statements : List Statement) :
    Outcome StoreError DatabaseSchema :=
  statements.foldlM execute self

def getTextColumns (self : DatabaseSchema) : List (SqlName × SqlName) :=
  self.tables.flatMap fun table =>
    (table.columns.filter fun c => !c.isList && c.columnType.sqlType == "text").map fun c =>
      (table.name, c.name)

structure HasTablesFor (self : DatabaseSchema) (schema : Schema) : Prop where
  mem_iff : ∀ t, (∃ table ∈ self.tables, table.object = t) ↔ t ∈ schema.entityTypes
  objects_nodup : (self.tables.map fun table => table.object).Nodup
  names_nodup : (self.tables.map fun table => table.name.truncate).Nodup

end DatabaseSchema

def createRelationalSchema (config : LayoutConfig) (nsp : Namespace) (schema : Schema)
    (db : DatabaseSchema) : Outcome StoreError (SchemaLayout × DatabaseSchema) := do
  let layout ← SchemaLayout.new config schema ⟨nsp, db.getTextColumns⟩
  let db' ← db.batchExecute (layout.asDdl config)
  return (layout, db')

namespace SchemaLayout

variable {ts : List LayoutTable}

theorem exists_mem_insertTable {ta : LayoutTable} {t : EntityType} :
    (∃ t' ∈ insertTable ts ta, t'.object = t) ↔
      (∃ t' ∈ ts, t'.object = t) ∨ ta.object = t := by
  constructor
  · rintro ⟨t', hm, rfl⟩
    rcases mem_append.mp hm with hm | hm
    · exact .inl ⟨t', mem_of_mem_filter hm, rfl⟩
    · obtain rfl := mem_singleton.mp hm
      exact .inr rfl
  · intro h
    by_cases ht : ta.object = t
    · exact ⟨ta, mem_append_right _ (mem_singleton_self _), ht⟩
    · obtain ⟨t', hm, rfl⟩ := h.resolve_right ht
      exact ⟨t', mem_append_left _ (mem_filter.mpr ⟨hm, decide_eq_true (Ne.symm ht)⟩),
        rfl⟩

theorem nodup_insertTable (t : LayoutTable) (h : (ts.map fun t => t.object).Nodup) :
    ((insertTable ts t).map fun t => t.object).Nodup := by
  rw [insertTable, map_append]
  refine DatabaseSchema.nodup_concat (h.sublist (filter_sublist.map _)) ?_
  intro hmem
  obtain ⟨table', hmem, heq⟩ := mem_map.mp hmem
  exact of_decide_eq_true (mem_filter.mp hmem).2 heq

theorem foldl_insertTable (news : List LayoutTable) (h : (ts.map fun ta => ta.object).Nodup) :
    ((news.foldl insertTable ts).map fun ta => ta.object).Nodup ∧
      ∀ t, (∃ ta ∈ news.foldl insertTable ts, ta.object = t) ↔
        (∃ ta ∈ ts, ta.object = t) ∨ t ∈ news.map fun ta => ta.object := by
  induction news generalizing ts with
  | nil => exact ⟨h, fun t => by simp⟩
  | cons ta news ih =>
    obtain ⟨hn, hm⟩ := ih (nodup_insertTable ta h)
    refine ⟨hn, fun t => (hm t).trans ?_⟩
    rw [exists_mem_insertTable, map_cons, mem_cons, or_assoc, eq_comm (b := t)]

variable {co : LayoutConfig} {ity : IdTypeMap} {es : EnumMap} {ca : Catalog}

theorem column_name_of_new {tn : SqlName} {f : GraphQL.Field} {c : Column}
    (h : Column.new co tn f ca es ity = .ok c) :
    co.toSnakeCase f.name = c.name := by
  obtain ⟨-, -, h⟩ := bind_eq_ok.1 h
  dsimp only at h
  split at h
  all_goals
    obtain ⟨ct, -, h⟩ := bind_eq_ok.1 h
    cases h
    rfl

theorem names_of_new {c : LayoutConfig} {defn : GraphQL.ObjectType} {p : ℕ} {t : LayoutTable}
    (h : LayoutTable.new c defn ca es ity p = .ok t) :
    t.object = defn.name ∧ t.name = c.toSnakeCase defn.name ∧
      t.columns.map Column.name = (defn.fields.filter fun f => !f.isDerived).map
        fun f => c.toSnakeCase f.name := by
  obtain ⟨-, -, h⟩ := bind_eq_ok.1 h
  obtain ⟨cs, hc, h⟩ := bind_eq_ok.1 h
  cases h
  refine ⟨rfl, rfl, ?_⟩
  exact (List.Forall₂.map_eq ((mapM_eq_ok.1 hc).imp fun _ _ =>
    column_name_of_new)).symm

theorem new_eq_ok {s : Schema} {c : Catalog} {l : SchemaLayout} (h : new co s c = .ok l) :
    (l.tables.map fun ta => ta.object).Nodup ∧
      ∀ t, (∃ ta ∈ l.tables, ta.object = t) ↔ t ∈ s.entityTypes := by
  obtain ⟨es, -, h⟩ := bind_eq_ok.1 h
  obtain ⟨ity, -, h⟩ := bind_eq_ok.1 h
  obtain ⟨ts, ht, rfl⟩ := bind_pure_eq_ok.1 h
  have ho : ts.map (fun ta => ta.object) = s.entityTypes := by
    have ha := Outcome.mapM_eq_ok.1 ht
    have hn : s.storedTypes.zipIdx.map (fun p => p.1.name) = ts.map fun ta => ta.object :=
      List.Forall₂.map_eq (ha.imp fun p ta hp =>
        (names_of_new (ofExcept_eq_ok.1 hp)).1.symm)
    rw [← hn]
    exact (map_map (f := Prod.fst) (g := GraphQL.ObjectType.name)).symm.trans
      (congrArg _ (zipIdx_map_fst _ _))
  have hni : (([] : List LayoutTable).map fun ta => ta.object).Nodup := nodup_nil
  obtain ⟨hno, hm⟩ := foldl_insertTable ts hni
  refine ⟨hno, fun t => (hm t).trans ?_⟩
  rw [ho]
  exact ⟨fun h => h.resolve_left nofun, .inr⟩

end SchemaLayout

def Statement.table? : Statement → Option LayoutTable
  | createTable table => some table
  | createType _ _ | createIndex _ => none

theorem SchemaLayout.filterMap_asDdl (c : LayoutConfig) (self : SchemaLayout) :
    (self.asDdl c).filterMap Statement.table? = self.tables := by
  have hn : ∀ {A : Type} {f : A → Statement} {l : List A}, (∀ a, (f a).table? = none) →
      (l.map f).filterMap Statement.table? = [] := by
    intro A f l hf
    rw [filterMap_map]
    exact filterMap_eq_nil_iff.mpr fun a _ => hf a
  have ht : ∀ t : LayoutTable, t.asDdl.filterMap Statement.table? = [t] :=
    fun t => congrArg (t :: ·) (hn fun _ => rfl)
  rw [SchemaLayout.asDdl, filterMap_append, hn fun _ => rfl, nil_append, filterMap_flatMap]
  simp only [ht, flatMap_singleton']

namespace DatabaseSchema

variable {db db' : DatabaseSchema}

theorem execute_eq_ok {s : Statement} (h : db.execute s = .ok db') :
    db'.tables = db.tables ++ s.table?.toList := by
  cases s with
  | createType name vs =>
    rw [execute] at h
    split at h
    · cases h
    · cases h
      exact (append_nil _).symm
  | createTable t =>
    rw [execute] at h
    split at h
    · cases h
    split at h
    · cases h
    split at h
    · cases h
      rfl
    · cases h
  | createIndex name =>
    rw [execute] at h
    split at h
    · cases h
    · cases h
      exact (append_nil _).symm

theorem batchExecute_eq_ok {ss : List Statement} (h : db.batchExecute ss = .ok db') :
    db'.tables = db.tables ++ ss.filterMap Statement.table? := by
  refine foldlM_invariant
    (I := fun pre s => s.tables = db.tables ++ pre.filterMap Statement.table?) h ?_ ?_
  · exact (append_nil _).symm
  · intro pre st s s' _ hp hst
    rw [execute_eq_ok hst, hp, filterMap_append, append_assoc]
    cases hs : st.table? <;> simp [hs]

end DatabaseSchema

theorem createRelationalSchema_eq_ok {c : LayoutConfig} {nsp : Namespace} {schema : Schema}
    {l : SchemaLayout} {db : DatabaseSchema}
    (h : createRelationalSchema c nsp schema .empty = .ok (l, db)) :
    db.HasTablesFor schema := by
  obtain ⟨l, hne, h⟩ := bind_eq_ok.1 h
  obtain ⟨db', hd, h⟩ := bind_eq_ok.1 h
  obtain ⟨rfl, rfl⟩ := Prod.mk.inj (Outcome.ok.inj h)
  obtain ⟨hn, hm⟩ := SchemaLayout.new_eq_ok hne
  have ht : db'.tables = l.tables := by
    rw [DatabaseSchema.batchExecute_eq_ok hd, SchemaLayout.filterMap_asDdl]
    rfl
  rw [← ht] at hn hm
  exact ⟨hm, hn, db'.nodup.sublist db'.sublist⟩

end Massbit
