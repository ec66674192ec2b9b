/-
The names that a layout makes (`relational.rs`).
-/
import Massbit.GraphQL.Validation
import Mathlib.Data.String.Basic

open List

namespace Massbit

def toSnakeCase (s : String) : SqlName :=
  let chars := s.toList
  let isLower i := (chars.getD i 'A').isLower
  let trimmed := (chars.reverse.dropWhile fun c => !c.isAlphanum).reverse
  .ofList (trimmed.zipIdx.foldl (fun (first, result) (c, i) =>
    if !c.isAlphanum then if first then (first, result) else (true, result ++ ['_'])
    else if !first && c == c.toUpper && (isLower (i + 1) || isLower (i - 1)) then
      (false, result ++ ['_', c.toLower])
    else (false, result ++ [c.toLower])) (true, [])).2

def GraphQL.ObjectTypeDefinition.toObjectType (self : ObjectTypeDefinition) : ObjectType where
  name := self.name
  fields := self.fields.map fun field => ⟨field.name, field.fieldType,
    field.directives.any fun directive => directive.name = "derivedFrom"⟩

def GraphQL.InputSchema.toSchema (self : InputSchema) : Schema where
  id := self.id
  objectTypes := self.document.getObjectTypeDefinitions.map ObjectTypeDefinition.toObjectType
  enums := self.document.getEnumDefinitions
  typesForInterface := self.typesForInterface.map fun (name, types) =>
    (name, types.map ObjectTypeDefinition.toObjectType)

/-- Different types, enums and fields have different names in the database. Of two types of the same
name the last one makes the table. -/
structure Schema.DistinctNames (config : LayoutConfig) (schema : Schema) : Prop where
  types : ∀ t ∈ schema.entityTypes, ∀ t' ∈ schema.entityTypes,
    config.toSnakeCase t = config.toSnakeCase t' → t = t'
  enums : ∀ e ∈ schema.enums, ∀ e' ∈ schema.enums,
    config.toSnakeCase e.name = config.toSnakeCase e'.name → e.name = e'.name
  disjoint : ∀ e ∈ schema.enums, ∀ t ∈ schema.entityTypes,
    config.toSnakeCase e.name ≠ config.toSnakeCase t
  fields : ∀ {pre objType post}, schema.storedTypes = pre ++ objType :: post →
    (∀ objType' ∈ post, objType'.name ≠ objType.name) →
    ((objType.fields.filter fun field => !field.isDerived).map (fun field =>
      config.toSnakeCase field.name) ++ [vidColumn, blockRangeColumn]).Nodup

theorem EnumMap.keys_insert (name : String) (vs : List String) : ∀ {es : EnumMap},
    (es.map Prod.fst).Pairwise (· < ·) →
      ((es.insert name vs).map Prod.fst).Pairwise (· < ·) ∧
        ∀ k, k ∈ (es.insert name vs).map Prod.fst ↔ k = name ∨ k ∈ es.map Prod.fst
  | [], _ => by simp [EnumMap.insert]
  | (name', values') :: es, h => by
    obtain ⟨hlt, ht⟩ := pairwise_cons.1 h
    rw [EnumMap.insert]
    split
    next hn =>
      refine ⟨.cons (fun k hk => ?_) h, fun k => by simp⟩
      rcases mem_cons.mp hk with rfl | hk
      · exact hn
      · exact hn.trans (hlt k hk)
    next hn =>
      split
      next heq =>
        subst heq
        exact ⟨h, fun k => by simp⟩
      next hne =>
        obtain ⟨hke, hm⟩ := EnumMap.keys_insert name vs ht
        have hlt' : name' < name := lt_of_le_of_ne (not_lt.1 hn) (Ne.symm hne)
        refine ⟨.cons (fun k hk => ?_) hke, fun k => ?_⟩
        · rcases (hm k).1 hk with rfl | hk
          · exact hlt'
          · exact hlt k hk
        · rw [map_cons, mem_cons, hm, map_cons, mem_cons, or_left_comm]

namespace SchemaLayout

variable {config : LayoutConfig} {schema : Schema} {catalog : Catalog} {layout : SchemaLayout}

theorem keys_foldlM_insert {es : EnumMap} : ∀ {ts : List GraphQL.EnumType} {s : EnumMap},
    (s.map Prod.fst).Pairwise (· < ·) →
    ts.foldlM (fun es et => do
      SqlName.checkValidIdentifier et.name "enum"
      return es.insert et.name (et.values.dedup.mergeSort fun v w => v ≤ w)) s = .ok es →
    (es.map Prod.fst).Pairwise (· < ·) ∧
      ∀ k, k ∈ es.map Prod.fst ↔ k ∈ s.map Prod.fst ∨ ∃ e ∈ ts, e.name = k
  | [], s, hlt, h => by
    cases h
    exact ⟨hlt, fun k => (or_iff_left fun ⟨_, he, _⟩ => not_mem_nil he).symm⟩
  | et :: ts, s, hlt, h => by
    obtain ⟨next, hn, h⟩ := Except.bind_eq_ok.1 h
    obtain ⟨-, -, hn⟩ := Except.bind_eq_ok.1 hn
    cases hn
    obtain ⟨hlt', hm'⟩ := EnumMap.keys_insert _ _ hlt
    obtain ⟨hlt'', hm''⟩ := keys_foldlM_insert hlt' h
    refine ⟨hlt'', fun k => ?_⟩
    rw [hm'', hm']
    simp only [mem_cons, exists_eq_or_imp, eq_comm (a := k)]
    tauto

theorem keys_of_new (h : new config schema catalog = .ok layout) :
    (layout.enums.map Prod.fst).Pairwise (· < ·) ∧
      ∀ k, k ∈ layout.enums.map Prod.fst ↔ ∃ e ∈ schema.enums, e.name = k := by
  obtain ⟨es, he, h⟩ := bind_eq_ok.1 h
  obtain ⟨ity, -, h⟩ := bind_eq_ok.1 h
  obtain ⟨ts, -, rfl⟩ := bind_pure_eq_ok.1 h
  obtain ⟨hlt, hm⟩ := keys_foldlM_insert .nil (ofExcept_eq_ok.1 he)
  exact ⟨hlt, fun k => (hm k).trans (or_iff_right not_mem_nil)⟩

/-- Of the tables of one object the last one stays. -/
theorem mem_foldl_insertTable {t : LayoutTable} : ∀ {news ts : List LayoutTable},
    t ∈ news.foldl insertTable ts ↔ (t ∈ ts ∧ ∀ t' ∈ news, t'.object ≠ t.object) ∨
      ∃ pre post, news = pre ++ t :: post ∧ ∀ t' ∈ post, t'.object ≠ t.object
  | [], ts => by simp
  | new :: news, ts => by
    have hin : t ∈ insertTable ts new ↔ (t ∈ ts ∧ new.object ≠ t.object) ∨ t = new := by
      rw [insertTable, mem_append, mem_filter, mem_singleton, decide_eq_true_eq, ne_comm]
    rw [foldl_cons, mem_foldl_insertTable, hin]
    constructor
    · rintro (⟨⟨ht, hne⟩ | rfl, hnews⟩ | ⟨pre, post, rfl, hpost⟩)
      · exact .inl ⟨ht, forall_mem_cons.2 ⟨hne, hnews⟩⟩
      · exact .inr ⟨[], news, rfl, hnews⟩
      · exact .inr ⟨new :: pre, post, rfl, hpost⟩
    · rintro (⟨ht, hnews⟩ | ⟨pre, post, heq, hpost⟩)
      · obtain ⟨hne, hnews⟩ := forall_mem_cons.1 hnews
        exact .inl ⟨.inl ⟨ht, hne⟩, hnews⟩
      · rcases cons_eq_append_iff.1 heq with ⟨rfl, heq⟩ | ⟨pre, rfl, rfl⟩
        · obtain ⟨rfl, rfl⟩ := cons.inj heq
          exact .inl ⟨.inr rfl, hpost⟩
        · exact .inr ⟨pre, post, rfl, hpost⟩

/-- The table is named after the type, and has a column for each of its stored fields. -/
def MadeOf (config : LayoutConfig) (objType : GraphQL.ObjectType) (table : LayoutTable) : Prop :=
  table.object = objType.name ∧ table.name = config.toSnakeCase objType.name ∧
    table.columns.map Column.name = (objType.fields.filter fun field => !field.isDerived).map
      fun field => config.toSnakeCase field.name

theorem exists_forall₂_madeOf (h : new config schema catalog = .ok layout) :
    ∃ tables, layout.tables = tables.foldl insertTable [] ∧
      Forall₂ (MadeOf config) schema.storedTypes tables := by
  obtain ⟨es, -, h⟩ := bind_eq_ok.1 h
  obtain ⟨ity, -, h⟩ := bind_eq_ok.1 h
  obtain ⟨tables, ht, rfl⟩ := bind_pure_eq_ok.1 h
  refine ⟨tables, rfl, ?_⟩
  rw [← zipIdx_map_fst 0 schema.storedTypes, forall₂_map_left_iff]
  exact (Outcome.mapM_eq_ok.1 ht).imp fun _ _ hn => names_of_new (ofExcept_eq_ok.1 hn)

theorem exists_of_append_cons {A B : Type} {R : A → B → Prop} {l : List A} {pre post : List B}
    {b : B} (h : Forall₂ R l (pre ++ b :: post)) :
    ∃ pre' a post', l = pre' ++ a :: post' ∧ R a b ∧ Forall₂ R post' post := by
  obtain ⟨a, post', ha, hpost, heq⟩ := forall₂_cons_right_iff.1 (forall₂_drop_append l pre _ h)
  exact ⟨l.take pre.length, a, post', by rw [← heq, take_append_drop], ha, hpost⟩

theorem exists_type_of_table (h : new config schema catalog = .ok layout) {table : LayoutTable}
    (htable : table ∈ layout.tables) : ∃ pre objType post,
      schema.storedTypes = pre ++ objType :: post ∧
      (∀ objType' ∈ post, objType'.name ≠ objType.name) ∧ MadeOf config objType table := by
  obtain ⟨tables, heq, hmade⟩ := exists_forall₂_madeOf h
  rw [heq, mem_foldl_insertTable] at htable
  obtain ⟨pre, post, rfl, hpost⟩ := htable.resolve_left fun hn => not_mem_nil hn.1
  obtain ⟨pre', objType, post', hsplit, hm, hpost'⟩ := exists_of_append_cons hmade
  refine ⟨pre', objType, post', hsplit, fun objType' ho => ?_, hm⟩
  obtain ⟨table', ht', hm'⟩ := hpost'.exists_of_mem ho
  rw [← hm'.1, ← hm.1]
  exact hpost table' ht'

theorem exists_table_of_type (h : new config schema catalog = .ok layout)
    {pre post : List GraphQL.ObjectType} {objType : GraphQL.ObjectType}
    (hsplit : schema.storedTypes = pre ++ objType :: post)
    (hlast : ∀ objType' ∈ post, objType'.name ≠ objType.name) :
    ∃ table ∈ layout.tables, MadeOf config objType table := by
  obtain ⟨tables, heq, hmade⟩ := exists_forall₂_madeOf h
  rw [hsplit] at hmade
  obtain ⟨pre', table, post', rfl, hm, hpost⟩ := exists_of_append_cons hmade.flip
  refine ⟨table, heq ▸ mem_foldl_insertTable.2 (.inr ⟨pre', post', rfl, fun t ht => ?_⟩), hm⟩
  obtain ⟨objType', ho, hm'⟩ := hpost.exists_of_mem ht
  rw [hm'.1, hm.1]
  exact hlast objType' ho

/-- **The names of a layout are distinct if and only if** those of the schema are in snake case: of
tables and enums, and of the columns of a table. -/
theorem new_distinct_iff (h : new config schema catalog = .ok layout) :
    (((layout.enums.map fun e => config.toSnakeCase e.1) ++
      layout.tables.map LayoutTable.name).Nodup ∧
    ∀ table ∈ layout.tables,
      (table.columns.map Column.name ++ [vidColumn, blockRangeColumn]).Nodup ∧
        ∀ c ∈ table.columns, table.column c.name = some c) ↔
    schema.DistinctNames config := by
  obtain ⟨hlt, hke⟩ := keys_of_new h
  obtain ⟨ho, hobjects⟩ := new_eq_ok h
  have htb : layout.tables.map LayoutTable.name =
      (layout.tables.map fun table => table.object).map config.toSnakeCase := by
    rw [map_map]
    refine map_congr_left fun table ht => ?_
    obtain ⟨_, _, _, -, -, hm⟩ := exists_type_of_table h ht
    rw [hm.2.1, ← hm.1]
    rfl
  have hen : (layout.enums.map fun e => config.toSnakeCase e.1) =
      (layout.enums.map Prod.fst).map config.toSnakeCase := (map_map ..).symm
  have hmem : ∀ {t}, t ∈ layout.tables.map (fun table => table.object) ↔
      t ∈ schema.entityTypes := fun {t} => mem_map.trans (hobjects t)
  rw [htb, hen, nodup_append]
  constructor
  · rintro ⟨⟨henums, htypes, hdisjoint⟩, hcolumns⟩
    refine ⟨fun t ht t' ht' heq => ?_, fun e he e' he' heq => ?_, fun e he t ht => ?_, ?_⟩
    · exact inj_on_of_nodup_map htypes (hmem.2 ht) (hmem.2 ht') heq
    · exact inj_on_of_nodup_map henums ((hke _).2 ⟨e, he, rfl⟩) ((hke _).2 ⟨e', he', rfl⟩) heq
    · exact hdisjoint _ (mem_map_of_mem ((hke _).2 ⟨e, he, rfl⟩)) _ (mem_map_of_mem (hmem.2 ht))
    · intro pre objType post hsplit hlast
      obtain ⟨table, ht, hm⟩ := exists_table_of_type h hsplit hlast
      rw [← hm.2.2]
      exact (hcolumns table ht).1
  · intro hnames
    refine ⟨⟨?_, ?_, ?_⟩, fun table ht => ?_⟩
    · have hkn : (layout.enums.map Prod.fst).Nodup := hlt.imp ne_of_lt
      refine hkn.map_on fun k hk k' hk' heq => ?_
      obtain ⟨e, he, rfl⟩ := (hke k).1 hk
      obtain ⟨e', he', rfl⟩ := (hke k').1 hk'
      exact hnames.enums e he e' he' heq
    · exact ho.map_on fun t ht t' ht' heq => hnames.types t (hmem.1 ht) t' (hmem.1 ht') heq
    · intro n hn n' hn'
      obtain ⟨k, hk, rfl⟩ := mem_map.1 hn
      obtain ⟨e, he, rfl⟩ := (hke k).1 hk
      obtain ⟨t, ht, rfl⟩ := mem_map.1 hn'
      exact hnames.disjoint e he t (hmem.1 ht)
    · obtain ⟨pre, objType, post, hsplit, hlast, hm⟩ := exists_type_of_table h ht
      have hno := hnames.fields hsplit hlast
      rw [← hm.2.2] at hno
      exact ⟨hno, fun c hc => Table.column_eq_some_of_nodup hno.of_append_left hc⟩

def snakeCase : LayoutConfig := ⟨toSnakeCase, []⟩

open GraphQL in
def entities (types : List (EntityType × List FieldDefinition)) : InputSchema where
  id := "Qm"
  document := ⟨types.map fun (name, fields) => .object
    ⟨name, [], [⟨"entity", []⟩], ⟨"id", .nonNullType (.namedType "ID"), []⟩ :: fields⟩⟩
  typesForInterface := []

open GraphQL in
theorem distinct_pair : ∃ layout,
    new snakeCase (entities [("Token", []),
      ("TokenPair", [⟨"token0", .namedType "Token", []⟩, ⟨"reserveUsd", .namedType "BigDecimal", []⟩])
      ]).toSchema ⟨"sgd1", []⟩ = .ok layout ∧
      (layout.tables.map LayoutTable.name).Nodup ∧ ∀ table ∈ layout.tables,
        (table.columns.map Column.name ++ [vidColumn, blockRangeColumn]).Nodup := by
  obtain ⟨layout, hl⟩ := Option.isSome_iff_exists.1 (show (new snakeCase (entities [("Token", []),
    ("TokenPair", [⟨"token0", .namedType "Token", []⟩, ⟨"reserveUsd", .namedType "BigDecimal", []⟩])
    ]).toSchema ⟨"sgd1", []⟩).value?.isSome by decide +kernel)
  have hn := value?_eq_some.1 hl
  have hd := (new_distinct_iff hn).2 ⟨by decide +kernel, by decide +kernel, by decide +kernel, ?_⟩
  · exact ⟨layout, hn, hd.1.of_append_right, fun table ht => (hd.2 table ht).1⟩
  · intro pre objType post hsplit _
    have hall : ∀ objType ∈ (entities [("Token", []), ("TokenPair",
        [⟨"token0", .namedType "Token", []⟩, ⟨"reserveUsd", .namedType "BigDecimal", []⟩])
        ]).toSchema.storedTypes, ((objType.fields.filter fun field => !field.isDerived).map
          (fun field => snakeCase.toSnakeCase field.name) ++ [vidColumn, blockRangeColumn]).Nodup := by
      decide +kernel
    exact hall objType (hsplit ▸ mem_append_right _ mem_cons_self)

theorem tables_clash :
    (∀ fmt, (entities [("TokenPair", []), ("Token_Pair", [])]).validate fmt ∅ = .ok ()) ∧
    ∃ layout, new snakeCase (entities [("TokenPair", []), ("Token_Pair", [])]).toSchema ⟨"sgd1", []⟩
        = .ok layout ∧
      layout.tables.map LayoutTable.name = ["token_pair", "token_pair"] := by
  refine ⟨fun fmt => rfl, ?_⟩
  obtain ⟨layout, hl, hn⟩ := Option.map_eq_some_iff.1 (show (new snakeCase (entities
      [("TokenPair", []), ("Token_Pair", [])]).toSchema ⟨"sgd1", []⟩).value?.map
        (fun layout => layout.tables.map LayoutTable.name) = some ["token_pair", "token_pair"] by
    decide +kernel)
  exact ⟨layout, value?_eq_some.1 hl, hn⟩

end SchemaLayout

def isObjectType (fieldType : FieldType) (enums : EnumMap) : Bool :=
  (enums.lookup fieldType.named).isNone && !ValueType.isScalar fieldType.named

def Column.isReference (enums : EnumMap) (self : Column) : Bool :=
  self.name != primaryKeyColumn && isObjectType self.fieldType enums

inductive RelationshipType where
  | object
  | array
  deriving DecidableEq, Repr

structure Relationship where
  type : RelationshipType
  table : SqlName
  name : String
  remoteTable : SqlName
  columnMapping : SqlName × SqlName
  deriving DecidableEq, Repr

namespace SchemaLayout

def references (self : SchemaLayout) : List (LayoutTable × Column) :=
  self.tables.flatMap fun table =>
    (table.columns.filter fun c => c.isReference self.enums && !c.isList).map fun c => (table, c)

def createHasuraTrackingRelationships (config : LayoutConfig) (self : SchemaLayout) :
    List Relationship × List (SqlName × String) :=
  (self.references.flatMap fun (table, column) =>
      let fieldType := column.fieldType.named
      let reference := config.toSnakeCase fieldType
      [⟨.object, table.name, fieldType ++ "_" ++ column.name, reference,
          (column.name, primaryKeyColumn)⟩,
        ⟨.array, reference, table.name ++ "_" ++ column.name, table.name, ("id", column.name)⟩],
    self.references.flatMap fun (table, column) =>
      let fieldType := column.fieldType.named
      [(table.name, fieldType ++ "_" ++ column.name),
        (config.toSnakeCase fieldType, table.name ++ "_" ++ column.name)])

def HasColumn (self : SchemaLayout) (table column : SqlName) : Prop :=
  ∃ t ∈ self.tables, t.name = table ∧ ∃ c ∈ t.columns, c.name = column

/-- The relationships are between columns of tables, those of one table have different names, and
what is created is dropped. -/
structure Tracked (config : LayoutConfig) (layout : SchemaLayout) : Prop where
  columns : ∀ r ∈ (layout.createHasuraTrackingRelationships config).1,
    layout.HasColumn r.table r.columnMapping.1 ∧ layout.HasColumn r.remoteTable r.columnMapping.2
  names_nodup : ((layout.createHasuraTrackingRelationships config).1.map fun r =>
    (r.table, r.name)).Nodup
  dropped : (layout.createHasuraTrackingRelationships config).2 =
    (layout.createHasuraTrackingRelationships config).1.map fun r => (r.table, r.name)

/-- The texts `w_c` and `w'_c'` are the same: the names are, or a part `x` is at the end of the one and
at the start of the other. -/
def Ambiguous (w c w' c' : String) : Prop :=
  (w = w' ∧ c = c') ∨ (∃ x, w' = w ++ "_" ++ x ∧ c = x ++ "_" ++ c') ∨
    ∃ x, w = w' ++ "_" ++ x ∧ c' = x ++ "_" ++ c

theorem ambiguous_iff {w c w' c' : String} :
    Ambiguous w c w' c' ↔ w ++ "_" ++ c = w' ++ "_" ++ c' := by
  constructor
  · rintro (⟨rfl, rfl⟩ | ⟨x, rfl, rfl⟩ | ⟨x, rfl, rfl⟩)
    · rfl
    · simp only [String.append_assoc]
    · simp only [String.append_assoc]
  · intro h
    have hl : w.toList ++ '_' :: c.toList = w'.toList ++ '_' :: c'.toList := by
      have := congrArg String.toList h
      simpa using this
    rcases append_eq_append_iff.1 hl with ⟨x, hw, hc⟩ | ⟨x, hw, hc⟩
    · cases x with
      | nil =>
        rw [append_nil] at hw
        exact .inl ⟨(String.toList_injective hw).symm,
          String.toList_injective (cons.inj hc).2⟩
      | cons d x =>
        obtain ⟨rfl, hc⟩ := cons.inj hc
        refine .inr (.inl ⟨.ofList x, ?_, ?_⟩)
        · exact String.toList_injective (by simpa using hw)
        · exact String.toList_injective (by simpa using hc)
    · cases x with
      | nil =>
        rw [append_nil] at hw
        exact .inl ⟨String.toList_injective hw,
          (String.toList_injective (cons.inj hc).2).symm⟩
      | cons d x =>
        obtain ⟨rfl, hc⟩ := cons.inj hc
        refine .inr (.inr ⟨.ofList x, ?_, ?_⟩)
        · exact String.toList_injective (by simpa using hw)
        · exact String.toList_injective (by simpa using hc)

instance {w c w' c' : String} : Decidable (Ambiguous w c w' c') :=
  decidable_of_iff' _ ambiguous_iff

/-- The names of the relationships that two references make: on their own table after the type they
refer to, and on the table of that type after their table. -/
@[mk_iff]
structure NamesApart (config : LayoutConfig) (r r' : LayoutTable × Column) : Prop where
  object : r.1.name = r'.1.name →
    ¬Ambiguous r.2.fieldType.named r.2.name r'.2.fieldType.named r'.2.name
  array : config.toSnakeCase r.2.fieldType.named = config.toSnakeCase r'.2.fieldType.named →
    ¬Ambiguous r.1.name r.2.name r'.1.name r'.2.name
  object_array : r.1.name = config.toSnakeCase r'.2.fieldType.named →
    ¬Ambiguous r.2.fieldType.named r.2.name r'.1.name r'.2.name
  array_object : config.toSnakeCase r.2.fieldType.named = r'.1.name →
    ¬Ambiguous r.1.name r.2.name r'.2.fieldType.named r'.2.name

/-- Every reference is to a type that has a table with an `id`, no reference is of a table that has
the name of its type to itself, and any two of them make different names. -/
@[mk_iff]
structure Trackable (config : LayoutConfig) (layout : SchemaLayout) : Prop where
  entity : ∀ r ∈ layout.references,
    layout.HasColumn (config.toSnakeCase r.2.fieldType.named) primaryKeyColumn
  self : ∀ r ∈ layout.references, r.1.name = config.toSnakeCase r.2.fieldType.named →
    r.2.fieldType.named ≠ r.1.name
  apart : layout.references.Pairwise (NamesApart config)

section Trackable

variable {config : LayoutConfig} {layout : SchemaLayout}

instance (table column : SqlName) : Decidable (layout.HasColumn table column) :=
  inferInstanceAs (Decidable (∃ t ∈ layout.tables, _))

instance (r r' : LayoutTable × Column) : Decidable (NamesApart config r r') :=
  decidable_of_iff' _ (namesApart_iff config r r')

instance : Decidable (layout.Trackable config) :=
  decidable_of_iff' _ (trackable_iff config layout)

theorem mem_references {r : LayoutTable × Column} (h : r ∈ layout.references) :
    r.1 ∈ layout.tables ∧ r.2 ∈ r.1.columns := by
  obtain ⟨t, ht, h⟩ := mem_flatMap.mp h
  obtain ⟨c, hc, rfl⟩ := mem_map.mp h
  exact ⟨ht, mem_of_mem_filter hc⟩

theorem columns_iff : (∀ rel ∈ (layout.createHasuraTrackingRelationships config).1,
      layout.HasColumn rel.table rel.columnMapping.1 ∧
        layout.HasColumn rel.remoteTable rel.columnMapping.2) ↔
    ∀ r ∈ layout.references,
      layout.HasColumn (config.toSnakeCase r.2.fieldType.named) primaryKeyColumn := by
  unfold createHasuraTrackingRelationships
  rw [forall_mem_flatMap]
  refine forall₂_congr fun r hr => ?_
  obtain ⟨ht, hc⟩ := mem_references hr
  have hown : layout.HasColumn r.1.name r.2.name := ⟨r.1, ht, rfl, r.2, hc, rfl⟩
  refine forall_mem_cons.trans ⟨fun h => h.1.2, fun h => ⟨⟨hown, h⟩, ?_⟩⟩
  exact forall_mem_singleton.2 ⟨h, hown⟩

theorem namesApart_iff_disjoint {r r' : LayoutTable × Column} :
    NamesApart config r r' ↔ List.Disjoint
      [(r.1.name, r.2.fieldType.named ++ "_" ++ r.2.name),
        (config.toSnakeCase r.2.fieldType.named, r.1.name ++ "_" ++ r.2.name)]
      [(r'.1.name, r'.2.fieldType.named ++ "_" ++ r'.2.name),
        (config.toSnakeCase r'.2.fieldType.named, r'.1.name ++ "_" ++ r'.2.name)] := by
  rw [namesApart_iff]
  simp only [disjoint_cons_left, disjoint_nil_left, mem_cons, not_mem_nil, or_false, not_or,
    Prod.mk.injEq, not_and, ambiguous_iff, and_true]
  tauto

/-- **The relationships are between columns of tables and have names of their own if and only if**
every reference is to a table with an `id`, and no two names can be read in two ways. -/
theorem tracked_iff (config : LayoutConfig) (layout : SchemaLayout) :
    layout.Tracked config ↔ layout.Trackable config := by
  have hd : (layout.createHasuraTrackingRelationships config).2 =
      (layout.createHasuraTrackingRelationships config).1.map fun r => (r.table, r.name) := by
    rw [createHasuraTrackingRelationships, map_flatMap]
    rfl
  have hnames : ((layout.createHasuraTrackingRelationships config).1.map fun r =>
      (r.table, r.name)).Nodup ↔
      (∀ r ∈ layout.references, r.1.name = config.toSnakeCase r.2.fieldType.named →
        r.2.fieldType.named ≠ r.1.name) ∧ layout.references.Pairwise (NamesApart config) := by
    rw [← hd]
    refine nodup_flatMap.trans (and_congr (forall₂_congr fun r _ => ?_) ?_)
    · refine nodup_cons.trans ((and_iff_left (nodup_singleton _)).trans ?_)
      rw [mem_singleton, Prod.mk.injEq, not_and, String.append_assoc, String.append_assoc,
        String.append_left_inj]
    · exact Pairwise.iff fun _ _ => namesApart_iff_disjoint.symm
  constructor
  · rintro ⟨hc, hn, -⟩
    obtain ⟨hself, hapart⟩ := hnames.1 hn
    exact ⟨columns_iff.1 hc, hself, hapart⟩
  · rintro ⟨he, hself, hapart⟩
    exact ⟨columns_iff.2 he, hnames.2 ⟨hself, hapart⟩, hd⟩

end Trackable

open GraphQL in
def pairSchema (tokenType : EntityType) : InputSchema :=
  entities [("Token", []), ("Pair", [⟨"token0", .nonNullType (.namedType tokenType), []⟩])]

open GraphQL in
theorem tracked_tokenPair : ∃ layout,
    new snakeCase (entities [("Token", []),
      ("TokenPair", [⟨"token", .nonNullType (.namedType "Token"), []⟩])]).toSchema ⟨"sgd1", []⟩ =
      .ok layout ∧ layout.Tracked snakeCase := by
  obtain ⟨layout, hl, ht⟩ := Option.map_eq_some_iff.1 (show (new snakeCase (entities [("Token", []),
    ("TokenPair", [⟨"token", .nonNullType (.namedType "Token"), []⟩])]).toSchema
    ⟨"sgd1", []⟩).value?.map (fun layout => decide (layout.Trackable snakeCase)) = some true by
      decide +kernel)
  exact ⟨layout, value?_eq_some.1 hl, (tracked_iff _ _).2 (of_decide_eq_true ht)⟩

open GraphQL in
def namedSchema : InputSchema where
  id := "Qm"
  document := ⟨.interface ⟨"Named", [⟨"id", .nonNullType (.namedType "ID"), []⟩]⟩ ::
    (pairSchema "Named").document.definitions⟩
  typesForInterface := [("Named", [])]

theorem interface_untracked :
    (∀ fmt, namedSchema.validate fmt ∅ = .ok ()) ∧
    ∃ layout, new snakeCase namedSchema.toSchema ⟨"sgd1", []⟩ = .ok layout ∧
      (layout.createHasuraTrackingRelationships snakeCase).1.map Relationship.remoteTable
        = ["named", "pair"] ∧
      layout.tables.map LayoutTable.name = ["token", "pair"] := by
  refine ⟨fun fmt => rfl, ?_⟩
  obtain ⟨layout, hl, hn⟩ := Option.map_eq_some_iff.1 (show (new snakeCase
      namedSchema.toSchema ⟨"sgd1", []⟩).value?.map (fun layout =>
        ((layout.createHasuraTrackingRelationships snakeCase).1.map Relationship.remoteTable,
          layout.tables.map LayoutTable.name)) = some (["named", "pair"], ["token", "pair"]) by
    decide +kernel)
  exact ⟨layout, value?_eq_some.1 hl, Prod.mk.inj hn⟩

end SchemaLayout

end Massbit
