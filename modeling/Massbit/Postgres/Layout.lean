/-
The relational layout of a deployment (`relational.rs`).
-/
import Massbit.Store.Interface
import Massbit.Lib.VersionedTable

open Option

namespace Massbit

abbrev SqlName := String

def primaryKeyColumn : SqlName := "id"

def blockRangeColumn : SqlName := "block_range"

def blockNumberMax : BlockNumber := 2147483647

abbrev BlockRange := Span ℤ

def BlockRange.display (range : BlockRange) : String :=
  "[" ++ toString range.lower ++ "," ++ (range.upper.map toString).getD "" ++ ")"

inductive FieldType where
  | namedType (name : String)
  | listType (child : FieldType)
  | nonNullType (child : FieldType)
  deriving DecidableEq, Repr

namespace FieldType

def isList : FieldType → Bool
  | namedType _ => false
  | listType _ => true
  | nonNullType child => child.isList

def isNullable : FieldType → Bool
  | nonNullType _ => false
  | namedType _ | listType _ => true

end FieldType

inductive IdType where
  | string
  | bytes
  deriving DecidableEq, Repr

structure EnumType where
  name : SqlName
  values : List String
  deriving DecidableEq, Repr

inductive ColumnType where
  | boolean
  | bigDecimal
  | bigInt
  | bytes
  | int
  | string
  | enum (type : EnumType)
  | bytesId
  deriving DecidableEq, Repr

namespace ColumnType

def idType : ColumnType → Option IdType
  | string => some .string
  | bytesId => some .bytes
  | boolean | bigDecimal | bigInt | bytes | int | enum _ => none

def debug : ColumnType → String
  | boolean => "Boolean"
  | bigDecimal => "BigDecimal"
  | bigInt => "BigInt"
  | bytes => "Bytes"
  | int => "Int"
  | string => "String"
  | enum type => "Enum(EnumType \x7b name: SqlName(\"" ++ type.name ++ "\"), values: \x7b" ++
      String.intercalate ", " (type.values.map fun v => "\"" ++ v ++ "\"") ++ "\x7d \x7d)"
  | bytesId => "BytesId"

end ColumnType

structure Column where
  name : SqlName
  field : String
  fieldType : FieldType
  columnType : ColumnType
  deriving DecidableEq, Repr

namespace Column

def isNullable (self : Column) : Bool := self.fieldType.isNullable

def isList (self : Column) : Bool := self.fieldType.isList

def isPrimaryKey (self : Column) : Bool := self.name = primaryKeyColumn

def isNotNull (self : Column) : Bool := self.isPrimaryKey || !self.isNullable

end Column

structure Table where
  object : EntityType
  qualifiedName : SqlName
  columns : List Column
  isAccountLike : Bool
  deriving DecidableEq, Repr

namespace Table

def column (self : Table) (name : SqlName) : Option Column :=
  self.columns.find? fun c => c.name = name

def primaryKey (self : Table) : Option Column :=
  self.columns.find? Column.isPrimaryKey

def idType (self : Table) : Option IdType := self.primaryKey.bind fun c => c.columnType.idType

end Table

structure Layout where
  tables : HashMap EntityType Table

def Layout.tableForEntity (self : Layout) (entity : EntityType) : Except StoreError Table :=
  match self.tables.lookup entity with
  | some table => .ok table
  | none => .error (.unknownTable entity)

variable {table : Table}

theorem Layout.tableForEntity_eq_ok {self : Layout} {e : EntityType} :
    self.tableForEntity e = .ok table ↔ self.tables.lookup e = some table := by
  unfold tableForEntity
  cases self.tables.lookup e <;> simp

structure Table.Deployed (table : Table) : Prop where
  names_nodup : (table.columns.map Column.name).Nodup
  fields_nodup : (table.columns.map Column.field).Nodup
  exists_id : ∃ c ∈ table.columns, c.name = primaryKeyColumn ∧ c.field = "id" ∧
    c.isList = false ∧ (c.columnType = .string ∨ c.columnType = .bytesId)
  name_ne_blockRange : ∀ c ∈ table.columns, c.name ≠ blockRangeColumn
  name_ne_parentId : ∀ c ∈ table.columns, c.name ≠ "g$parent_id"

structure DeployedLayout extends Layout where
  object_eq : ∀ {t table}, tables.lookup t = some table → table.object = t
  deployed : ∀ {t table}, tables.lookup t = some table → table.Deployed
  qualifiedName_inj : ∀ {t t' table table'}, tables.lookup t = some table →
    tables.lookup t' = some table' → table.qualifiedName = table'.qualifiedName → t = t'

theorem DeployedLayout.lookup_object (l : DeployedLayout) {t : EntityType}
    (h : l.tables.lookup t = some table) : l.tables.lookup table.object = some table := by
  rw [l.object_eq h]
  exact h

theorem Table.column_eq_some_of_nodup (h : (table.columns.map Column.name).Nodup) {c : Column}
    (hc : c ∈ table.columns) : table.column c.name = some c := by
  rcases e : table.column c.name with - | c'
  · have hno := List.find?_eq_none.1 e c hc
    exact absurd (decide_eq_true rfl) hno
  · have hp := List.find?_some e
    have hn : c'.name = c.name := of_decide_eq_true hp
    rw [List.inj_on_of_nodup_map h (List.mem_of_find?_eq_some e) hc hn]

namespace Table.Deployed

variable {t : Table}

theorem column_eq_some (h : t.Deployed) {c : Column} (hc : c ∈ t.columns) :
    t.column c.name = some c := column_eq_some_of_nodup h.names_nodup hc

theorem eq_of_field (h : t.Deployed) {c c' : Column} (hc : c ∈ t.columns)
    (hc' : c' ∈ t.columns) (hf : c.field = c'.field) : c = c' :=
  List.inj_on_of_nodup_map h.fields_nodup hc hc' hf

theorem exists_primaryKey (h : t.Deployed) :
    ∃ c ∈ t.columns, t.primaryKey = some c ∧ c.name = primaryKeyColumn ∧ c.field = "id" ∧
      c.isList = false ∧ (c.columnType = .string ∨ c.columnType = .bytesId) := by
  obtain ⟨c, hc, hn, hf, hl, ht⟩ := h.exists_id
  have heq : t.primaryKey = some c := by
    rw [← h.column_eq_some hc, hn]
    rfl
  exact ⟨c, hc, heq, hn, hf, hl, ht⟩

theorem idType_cases (h : t.Deployed) :
    t.idType = some .string ∨ t.idType = some .bytes := by
  obtain ⟨c, -, hc, -, -, -, ht | ht⟩ := h.exists_primaryKey
  · left
    rw [Table.idType, hc, bind_some, ht]
    rfl
  · right
    rw [Table.idType, hc, bind_some, ht]
    rfl

theorem exists_stringId (h : t.Deployed) (hid : t.idType = some .string) :
    ∃ c ∈ t.columns, c.name = primaryKeyColumn ∧ c.field = "id" ∧ c.isList = false ∧
      c.columnType = .string := by
  obtain ⟨c, hm, hc, hn, hf, hl, ht | ht⟩ := h.exists_primaryKey
  · exact ⟨c, hm, hn, hf, hl, ht⟩
  · rw [Table.idType, hc, bind_some, ht] at hid
    cases hid

end Table.Deployed

end Massbit
