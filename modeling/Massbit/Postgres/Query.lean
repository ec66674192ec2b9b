/-
The statements that read and write entities (`relational_queries.rs`, `relational.rs`), with what
Postgres does for them: `Table.Writes.read_iff`.
-/
import Massbit.Lib.Chunks
import Massbit.Postgres.Value
import Mathlib.Data.List.Sort

open List Finmap

namespace Massbit

variable (lib : Libraries)

structure Row where
  cells : List (SqlName × Datum)
  blockRange : BlockRange
  deriving DecidableEq, Repr

def Row.cell (self : Row) (name : SqlName) : Datum := (self.cells.lookup name).getD .null

abbrev EntityTable := VersionedTable (fun r : Row => r.cell primaryKeyColumn) Row.blockRange

abbrev EntityTables := SqlName → EntityTable

def Row.members (self : Row) (table : Table) : List (String × Json) :=
  (blockRangeColumn, .string self.blockRange.display) ::
    table.columns.map fun c => (c.name, (self.cell c.name).toJsonb lib)

def Row.toJsonb (self : Row) (table : Table) : Json :=
  .object ((self.members lib table).insertionSort fun a b => a.1 ≤ b.1)

structure EntityData where
  entity : String
  data : Json

def EntityData.insertMember (table : Table) (out : Entity) (member : String × Json) :
    Outcome StoreError Entity :=
  if member.1 = "g$parent_id" then do
    let value ← fromColumnValue lib .string member.2
    return out.insert "g$parent_id" value
  else match table.column member.1 with
    | some column => do
      let value ← fromColumnValue lib column.columnType member.2
      return if value = .null then out else out.insert column.field value
    -- a column that is only used internally, such as the block range
    | none => .ok out

def EntityData.deserializeWithLayout (self : EntityData) (layout : Layout) :
    Outcome StoreError Entity := do
  let table ← .ofExcept (layout.tableForEntity self.entity)
  match self.data with
  | .object members =>
    members.foldlM (insertMember lib table) (Entity.new.typed self.entity)
  | _ => .panic

def Row.read (self : Row) (layout : Layout) (table : Table) : Outcome StoreError Entity :=
  (EntityData.mk table.object (self.toJsonb lib table)).deserializeWithLayout lib layout

def Table.bindId (self : Table) (id : String) : Outcome StoreError Datum := do
  let idType ← .ofOption self.idType
  match idType with
  | .string => return .scalar (.text id)
  | .bytes => match Bytes.fromStr id with
    | .ok bs => return .scalar (.bytea bs)
    | .error e => .err (.unknown e.display)

def Table.blockRangeContains (self : Table) (range : BlockRange) (block : ℤ) : Bool :=
  range.Contains block &&
    -- redundant conditions that let Postgres use an index
    (!(self.isAccountLike && block < blockNumberMax) ||
      (range.upper.getD blockNumberMax > block && range.lower ≤ block))

structure FindQuery where
  table : Table
  id : String
  block : ℤ

def FindQuery.getResult (self : FindQuery) (rows : EntityTable) :
    Outcome StoreError (Option EntityData) := do
  let id ← self.table.bindId self.id
  let row? := rows.rows.find? fun r =>
    r.cell primaryKeyColumn = id ∧ self.table.blockRangeContains r.blockRange self.block
  return row?.map fun r => ⟨self.table.object, r.toJsonb lib self.table⟩

def Layout.find (self : Layout) (tables : EntityTables) (entity : EntityType) (id : String)
    (block : ℤ) : Outcome StoreError (Option Entity) := do
  let table ← .ofExcept (self.tableForEntity entity)
  let data? ← (FindQuery.mk table id block).getResult lib (tables table.qualifiedName)
  match data? with
  | none => return none
  | some data => do
    let entity ← data.deserializeWithLayout lib self
    return some entity

/-- Insert versions of entities that are valid from a block on. -/
structure InsertQuery where
  table : Table
  entities : List (EntityKey × Entity)
  uniqueColumns : List Column
  block : ℤ

namespace InsertQuery

def addColumns (table : Table) (map : HashMap SqlName Column) (entity : Entity) :
    HashMap SqlName Column :=
  table.columns.foldl (fun map c =>
    if (entity.lookup c.field).isSome ∧ c.name ∉ map then map.insert c.name c else map) map

def columnMap (table : Table) (entities : List (EntityKey × Entity)) : HashMap SqlName Column :=
  entities.foldl (fun map x => addColumns table map x.2) ∅

def uniqueColumnsOf (order : Finmap.IterOrder fun _ : SqlName => Column) (table : Table)
    (entities : List (EntityKey × Entity)) : List Column :=
  (order.toList (columnMap table entities)).map Sigma.snd

def missing (table : Table) (entities : List (EntityKey × Entity)) : Option (EntityKey × Column) :=
  entities.findSome? fun x =>
    (table.columns.find? fun c => !c.isNullable && (x.2.lookup c.field).isNone).map fun c =>
      (x.1, c)

def new (order : Finmap.IterOrder fun _ : SqlName => Column) (table : Table)
    (entities : List (EntityKey × Entity)) (block : ℤ) : Except StoreError InsertQuery :=
  match missing table entities with
  | some (key, column) => .error (.queryExecutionError
      ("can not insert entity " ++ key.entityType ++ "[" ++ key.entityId ++
        "] since value for non-nullable attribute " ++ column.field ++ " is missing. " ++
        "To fix this, mark the attribute as nullable in the GraphQL schema or change the " ++
        "mapping code to always set this attribute."))
  | none => .ok ⟨table, entities, uniqueColumnsOf order table entities, block⟩

def columnValue (entity : Entity) (c : Column) : Outcome StoreError SqlExpr :=
  match entity.lookup c.field with
  | some value => queryValue lib value c.columnType
  -- if the entity does not have the attribute, null stands in its place
  | none => .ok .null

def walkAst (self : InsertQuery) : Outcome StoreError (List (List SqlExpr)) :=
  self.entities.mapM fun x => self.uniqueColumns.mapM (columnValue lib x.2)

end InsertQuery

def Column.evalCell (c : Column) (e : SqlExpr) : Outcome StoreError (SqlName × Datum) := do
  let d ← orUnknown (e.eval lib)
  let d ← orUnknown (c.assign lib d)
  return (c.name, d)

def EntityTable.addRow (table : Table) (rows : EntityTable) (row : Row) :
    Outcome StoreError EntityTable :=
  match table.columns.find? fun c => c.isNotNull && row.cell c.name = .null with
  | some c => .err (.unknown ("null value in column \"" ++ c.name ++
      "\" violates not-null constraint"))
  | none => match rows.insert row with
    | some rows => .ok rows
    | none => .err (.unknown "conflicting key value violates exclusion constraint")

def EntityTable.insertRow (table : Table) (columns : List Column) (block : ℤ) (rows : EntityTable)
    (values : List SqlExpr) : Outcome StoreError EntityTable := do
  let cells ← (columns.zip values).mapM fun x => x.1.evalCell lib x.2
  addRow table rows ⟨cells, .since block⟩

def InsertQuery.getResults (self : InsertQuery) (rows : EntityTable) :
    Outcome StoreError (EntityTable × ℕ) := do
  let values ← self.walkAst lib
  let rows ← values.foldlM (EntityTable.insertRow lib self.table self.uniqueColumns self.block) rows
  return (rows, values.length)

def postgresMaxParameters : ℕ := 65535

def Table.chunkSize (self : Table) : ℕ := postgresMaxParameters / (self.columns.length + 1)

def Layout.insertChunk (order : Finmap.IterOrder fun _ : SqlName => Column) (table : Table)
    (block : ℤ) (acc : EntityTable × ℕ) (chunk : List (EntityKey × Entity)) :
    Outcome StoreError (EntityTable × ℕ) := do
  let query ← .ofExcept (InsertQuery.new order table chunk block)
  let result ← query.getResults lib acc.1
  return (result.1, acc.2 + result.2)

def Layout.insert (order : Finmap.IterOrder fun _ : SqlName => Column) (self : Layout)
    (tables : EntityTables) (entityType : EntityType) (entities : List (EntityKey × Entity))
    (block : ℤ) : Outcome StoreError (EntityTables × ℕ) := do
  let table ← .ofExcept (self.tableForEntity entityType)
  if table.chunkSize = 0 then .panic
  else do
    let result ← (entities.chunks table.chunkSize).foldlM (insertChunk lib order table block)
      (tables table.qualifiedName, 0)
    return (Function.update tables table.qualifiedName result.1, result.2)

/-! ### Reading a row -/

namespace Table

theorem bindId_string {table : Table} (h : table.idType = some .string) (id : String) :
    table.bindId id = .ok (.scalar (.text id)) := by
  rw [bindId, h]
  rfl

section

variable {t : Table} (h : t.idType = some .bytes)

include h

theorem bindId_bytes (id : String) :
    t.bindId id = match Bytes.fromStr id with
      | .ok bs => .ok (.scalar (.bytea bs))
      | .error e => .err (.unknown e.display) := by
  rw [bindId, h]
  rfl

theorem bindId_encode (bs : Bytes) :
    t.bindId (Bytes.encode bs) = .ok (.scalar (.bytea bs)) := by
  rw [bindId_bytes h, Bytes.fromStr_encode]

theorem bindId_hexAlias (id : String) (n : ℕ) :
    t.bindId (Bytes.hexAlias id n) = t.bindId id := by
  rw [bindId_bytes h, bindId_bytes h, Bytes.fromStr_hexAlias]

end

end Table

theorem Table.blockRangeContains_eq (table : Table) (r : BlockRange) (block : ℤ) :
    table.blockRangeContains r block = decide (r.Contains block) := by
  by_cases h : r.Contains block
  · have hu : block < blockNumberMax → block < r.upper.getD blockNumberMax := by
      intro hlt
      rcases e : r.upper with - | u
      · exact hlt
      · exact h.2 u e
    by_cases hlt : block < blockNumberMax <;>
      simp [blockRangeContains, h, h.1, hlt, hu]
  · simp [blockRangeContains, h]

theorem FindQuery.getResult_eq (table : Table) (id : String) (block : ℤ) (rows : EntityTable) :
    (FindQuery.mk table id block).getResult lib rows
      = (table.bindId id >>= fun d => .ok ((rows.find? d block).map fun r =>
          ⟨table.object, r.toJsonb lib table⟩)) := by
  unfold getResult VersionedTable.find?
  simp only [Table.blockRangeContains_eq, decide_eq_true_eq]
  rfl

section Read

variable {lib} {table : Table} (hd : table.Deployed)

include hd

theorem EntityData.insertMember_column {c : Column} (hc : c ∈ table.columns) (out : Entity)
    (json : Json) : insertMember lib table out (c.name, json)
      = (fromColumnValue lib c.columnType json >>= fun v =>
          .ok (if v = .null then out else out.insert c.field v)) := by
  rw [insertMember, if_neg (hd.name_ne_parentId c hc), hd.column_eq_some hc]
  rfl

theorem EntityData.insertMember_blockRange (out : Entity) (json : Json) :
    insertMember lib table out (blockRangeColumn, json) = .ok out := by
  have hco : table.column blockRangeColumn = none :=
    List.find?_eq_none.2 fun c hc => by simpa using hd.name_ne_blockRange c hc
  have hne : blockRangeColumn ≠ "g$parent_id" := by decide
  rw [insertMember, if_neg hne, hco]

omit hd in
variable (lib table) in
def Row.Visited (row : Row) (names : List SqlName) (out : Entity) : Prop :=
  (∀ c ∈ table.columns, c.name ∈ names → ∃ v, c.load lib (row.cell c.name) = .ok v ∧
    (c.field ≠ typenameAttribute → out.lookup c.field = if v = .null then none else some v)) ∧
  ∀ a, a ≠ typenameAttribute → (∀ c ∈ table.columns, c.name ∈ names → c.field ≠ a) →
    out.lookup a = none

omit hd in
theorem Row.visited_nil (row : Row) (t : EntityType) :
    row.Visited lib table [] (Entity.new.typed t) := by
  refine ⟨fun c _ hc => absurd hc not_mem_nil, fun a ha _ => ?_⟩
  rw [Entity.lookup_typed, if_neg ha]
  rfl

variable {row : Row} {names : List SqlName} {out : Entity}

theorem Row.Visited.blockRange (h : row.Visited lib table names out) :
    row.Visited lib table (names ++ [blockRangeColumn]) out := by
  have hm : ∀ c ∈ table.columns, c.name ∈ names ++ [blockRangeColumn] → c.name ∈ names := by
    intro c hc hn
    rcases mem_append.1 hn with hn | hn
    · exact hn
    · exact absurd (mem_singleton.1 hn) (hd.name_ne_blockRange c hc)
  exact ⟨fun c hc hn => h.1 c hc (hm c hc hn), fun a ha hno =>
    h.2 a ha fun c hc hn => hno c hc (mem_append_left _ hn)⟩

theorem Row.Visited.column (h : row.Visited lib table names out) {c₀ : Column}
    (hc₀ : c₀ ∈ table.columns) {v₀ : Value} (hv₀ : c₀.load lib (row.cell c₀.name) = .ok v₀) :
    row.Visited lib table (names ++ [c₀.name])
      (if v₀ = .null then out else out.insert c₀.field v₀) := by
  have ho : ∀ {a}, a ≠ c₀.field →
      (if v₀ = .null then out else out.insert c₀.field v₀).lookup a = out.lookup a := by
    intro a ha
    split
    · rfl
    · exact lookup_insert_of_ne out ha
  refine ⟨fun c hc hn => ?_, fun a ha hno => ?_⟩
  · by_cases hcc : c = c₀
    · subst hcc
      refine ⟨v₀, hv₀, fun hfi => ?_⟩
      split
      next hnu =>
        -- nothing is inserted, and nothing was there before
        by_cases hvi : c.name ∈ names
        · obtain ⟨v, hv, hl⟩ := h.1 c hc hvi
          obtain rfl : v = v₀ := Outcome.ok.inj (hv.symm.trans hv₀)
          rw [hl hfi, if_pos hnu]
        · refine h.2 _ hfi fun c' hc' hn' hf => hvi ?_
          rwa [← hd.eq_of_field hc' hc hf]
      next => exact lookup_insert out
    · have hfi : c.field ≠ c₀.field := fun hf => hcc (hd.eq_of_field hc hc₀ hf)
      have hvi : c.name ∈ names := by
        rcases mem_append.1 hn with hn | hn
        · exact hn
        · exact absurd (inj_on_of_nodup_map hd.names_nodup hc hc₀
            (mem_singleton.1 hn)) hcc
      rw [ho hfi]
      exact h.1 c hc hvi
  · have hne : a ≠ c₀.field := Ne.symm (hno c₀ hc₀ (by simp))
    rw [ho hne]
    exact h.2 a ha fun c hc hn => hno c hc (mem_append_left _ hn)

omit hd in
theorem Row.mem_members {x : String × Json} (hx : x ∈ row.members lib table) :
    x = (blockRangeColumn, .string row.blockRange.display) ∨
      ∃ c ∈ table.columns, x = (c.name, (row.cell c.name).toJsonb lib) := by
  rcases mem_cons.1 hx with rfl | hx
  · exact .inl rfl
  · obtain ⟨c, hc, rfl⟩ := mem_map.mp hx
    exact .inr ⟨c, hc, rfl⟩

variable {layout : Layout}

omit hd in
theorem Row.read_eq_foldlM (ht : layout.tables.lookup table.object = some table) (row : Row) :
    row.read lib layout table = ((row.members lib table).insertionSort fun a b => a.1 ≤ b.1).foldlM
      (EntityData.insertMember lib table) (Entity.new.typed table.object) := by
  rw [read, EntityData.deserializeWithLayout, Layout.tableForEntity, ht]
  rfl

variable {e : Entity}

theorem Row.read_spec (ht : layout.tables.lookup table.object = some table)
    (h : row.read lib layout table = .ok e) :
    (∀ c ∈ table.columns, ∃ v, c.load lib (row.cell c.name) = .ok v ∧
      (c.field ≠ typenameAttribute → e.lookup c.field = if v = .null then none else some v)) ∧
    ∀ a, a ≠ typenameAttribute → (∀ c ∈ table.columns, c.field ≠ a) → e.lookup a = none := by
  rw [Row.read_eq_foldlM ht] at h
  have hp := perm_insertionSort (fun a b : String × Json => a.1 ≤ b.1) (row.members lib table)
  have hvi := foldlM_invariant h
    (I := fun pre out => row.Visited lib table (pre.map Prod.fst) out)
    (row.visited_nil table.object) (by
      intro pre x out out' hme hI hs
      rw [map_append]
      have hx : x ∈ row.members lib table := hp.mem_iff.1 (hme x (by simp))
      rcases Row.mem_members hx with rfl | ⟨c, hc, rfl⟩
      · rw [EntityData.insertMember_blockRange hd] at hs
        cases hs
        exact hI.blockRange hd
      · rw [EntityData.insertMember_column hd hc] at hs
        obtain ⟨v, hv, rfl⟩ := bind_pure_eq_ok.1 hs
        exact hI.column hd hc hv)
  have hal : ∀ c ∈ table.columns,
      c.name ∈ ((row.members lib table).insertionSort fun a b => a.1 ≤ b.1).map Prod.fst := by
    intro c hc
    have hm : (c.name, (row.cell c.name).toJsonb lib) ∈ row.members lib table :=
      mem_cons_of_mem _ (mem_map_of_mem hc)
    exact mem_map.2 ⟨_, hp.mem_iff.2 hm, rfl⟩
  exact ⟨fun c hc => hvi.1 c hc (hal c hc), fun a ha hn =>
    hvi.2 a ha fun c hc _ => hn c hc⟩

theorem Row.exists_read (ht : layout.tables.lookup table.object = some table)
    (h : ∀ c ∈ table.columns, ∃ v, c.load lib (row.cell c.name) = .ok v) :
    ∃ e, row.read lib layout table = .ok e := by
  rw [Row.read_eq_foldlM ht]
  refine Outcome.exists_foldlM_eq_ok (fun x hx out => ?_) _
  have hx := (perm_insertionSort _ _).mem_iff.1 hx
  rcases Row.mem_members hx with rfl | ⟨c, hc, rfl⟩
  · exact ⟨out, EntityData.insertMember_blockRange hd out _⟩
  · obtain ⟨v, hv⟩ := h c hc
    exact ⟨_, (EntityData.insertMember_column hd hc out _).trans (bind_eq_ok.2 ⟨v, hv, rfl⟩)⟩

theorem Row.id_read (ht : layout.tables.lookup table.object = some table)
    (hid : table.idType = some .string) {s : String}
    (hce : row.cell primaryKeyColumn = .scalar (.text s)) (he : row.read lib layout table = .ok e) :
    e.id = .ok s := by
  obtain ⟨c, hc, hn, hf, -, hty⟩ := hd.exists_stringId hid
  obtain ⟨v, hv, hl⟩ := (Row.read_spec hd ht he).1 c hc
  rw [hn, hce, Column.load_text hty] at hv
  cases hv
  have hne : "id" ≠ typenameAttribute := by decide
  rw [hf] at hl
  exact Entity.id_eq_ok.2 (hl hne)

end Read

namespace InsertQuery

variable {table : Table} {entity : Entity} {name : SqlName}

theorem mem_addColumns {map : HashMap SqlName Column} (h : name ∈ map) :
    name ∈ addColumns table map entity := by
  refine List.foldlRecOn (motive := fun map => name ∈ map) _ _ h fun map hm c _ => ?_
  split
  · exact mem_insert.2 (.inr hm)
  · exact hm

variable {c : Column} {entities : List (EntityKey × Entity)}

theorem name_mem_addColumns (map : HashMap SqlName Column) (hc : c ∈ table.columns)
    (h : (entity.lookup c.field).isSome) :
    c.name ∈ addColumns table map entity := by
  refine foldl_of_mem (P := fun map => c.name ∈ map) hc (fun map => ?_) (fun map c' hm => ?_) map
  · by_cases hme : c.name ∈ map
    · rwa [if_neg fun hand => hand.2 hme]
    · rw [if_pos ⟨h, hme⟩]
      exact mem_insert.mpr (.inl rfl)
  · split
    · exact mem_insert.2 (.inr hm)
    · exact hm

theorem columnMap_lookup (h : (columnMap table entities).lookup name = some c) :
    c ∈ table.columns ∧ c.name = name := by
  let Named (map : HashMap SqlName Column) : Prop :=
    ∀ name c, map.lookup name = some c → c ∈ table.columns ∧ c.name = name
  have hna : Named (columnMap table entities) := by
    refine List.foldlRecOn (motive := Named) entities _ (fun _ _ h => nomatch h) ?_
    intro map hm x _
    refine List.foldlRecOn (motive := Named) table.columns _ hm ?_
    intro map hm c' hc' name c h
    split at h
    · by_cases hn : name = c'.name
      · subst hn
        rw [lookup_insert] at h
        cases h
        exact ⟨hc', rfl⟩
      · rw [lookup_insert_of_ne _ hn] at h
        exact hm name c h
    · exact hm name c h
  exact hna name c h

variable {x : EntityKey × Entity}

theorem name_mem_columnMap (hx : x ∈ entities) (hc : c ∈ table.columns)
    (h : (x.2.lookup c.field).isSome) : c.name ∈ columnMap table entities :=
  foldl_of_mem (P := fun map => c.name ∈ map) hx
    (fun map => name_mem_addColumns map hc h) (fun _ _ => mem_addColumns) ∅

variable {order : Finmap.IterOrder fun _ : SqlName => Column}

theorem mem_columns_of_mem_uniqueColumnsOf (h : c ∈ uniqueColumnsOf order table entities) :
    c ∈ table.columns := by
  obtain ⟨⟨name, c⟩, hm, rfl⟩ := mem_map.1 h
  exact (columnMap_lookup ((order.enumerates _).mem_iff.1 hm)).1

theorem nodup_uniqueColumnsOf (entities : List (EntityKey × Entity)) :
    ((uniqueColumnsOf order table entities).map Column.name).Nodup := by
  have hk : (order.toList (columnMap table entities)).NodupKeys := (order.enumerates _).nodupKeys
  have hm : (uniqueColumnsOf order table entities).map Column.name
      = (order.toList (columnMap table entities)).keys := by
    rw [uniqueColumnsOf, map_map, List.keys]
    refine map_congr_left fun x hx => ?_
    exact (columnMap_lookup ((order.enumerates _).mem_iff.1 hx)).2
  rw [hm]
  exact hk

theorem mem_uniqueColumnsOf (hd : table.Deployed) (hx : x ∈ entities) (hc : c ∈ table.columns)
    (h : (x.2.lookup c.field).isSome) :
    c ∈ uniqueColumnsOf order table entities := by
  obtain ⟨c', hc'⟩ := mem_iff.1 (name_mem_columnMap hx hc h)
  obtain ⟨hm, hn⟩ := columnMap_lookup hc'
  obtain rfl := inj_on_of_nodup_map hd.names_nodup hm hc hn
  exact mem_map.2 ⟨⟨_, c'⟩, (order.enumerates _).mem_iff.2 hc', rfl⟩

end InsertQuery

/-! ### Writing a row -/

/-- The row is the one that is written for the entity at the block. -/
structure Table.Writes (table : Table) (block : ℤ) (entity : Entity) (row : Row) : Prop where
  blockRange : row.blockRange = .since block
  cell_of_none : ∀ {c}, c ∈ table.columns → entity.lookup c.field = none → row.cell c.name = .null
  cell_of_some : ∀ {c v}, c ∈ table.columns → entity.lookup c.field = some v →
    c.store lib v = .ok (row.cell c.name)

variable {lib}

section Write

variable {t : Table} {block : ℤ}

variable (lib) in
structure Column.Gets (entity : Entity) (c : Column) (cell : SqlName × Datum) : Prop where
  name_eq : cell.1 = c.name
  of_none : entity.lookup c.field = none → cell.2 = .null
  of_some : ∀ {v}, entity.lookup c.field = some v → c.store lib v = .ok cell.2

variable {entity : Entity}

theorem Column.gets_of_evalCell {c : Column} {e : SqlExpr} {cell : SqlName × Datum}
    (he : InsertQuery.columnValue lib entity c = .ok e) (hc : c.evalCell lib e = .ok cell) :
    c.Gets lib entity cell := by
  obtain ⟨d, hd, hc⟩ := bind_eq_ok.1 hc
  obtain ⟨d', hd', rfl⟩ := bind_pure_eq_ok.1 hc
  refine ⟨rfl, fun hn => ?_, fun {v} hv => ?_⟩
  · rw [InsertQuery.columnValue, hn] at he
    cases he
    obtain rfl : .null = d := Outcome.ok.inj hd
    exact (Outcome.ok.inj hd').symm
  · rw [InsertQuery.columnValue, hv] at he
    exact bind_eq_ok.2 ⟨e, he, bind_eq_ok.2 ⟨d, hd, hd'⟩⟩

theorem forall₂_gets :
    ∀ {cs : List Column} {vs : List SqlExpr} {ces : List (SqlName × Datum)},
      List.Forall₂ (fun c e => InsertQuery.columnValue lib entity c = .ok e) cs vs →
      List.Forall₂ (fun x cell => x.1.evalCell lib x.2 = .ok cell) (cs.zip vs) ces →
      List.Forall₂ (Column.Gets lib entity) cs ces
  | [], _, _, .nil, .nil => .nil
  | _ :: _, _, _, .cons he hv, .cons hce hc =>
    .cons (Column.gets_of_evalCell he hce) (forall₂_gets hv hc)

variable {cs : List Column}

theorem lookup_cells {ces : List (SqlName × Datum)}
    (h : List.Forall₂ (Column.Gets lib entity) cs ces) (hn : (cs.map Column.name).Nodup) :
    (∀ name, name ∉ cs.map Column.name → ces.lookup name = none) ∧
    ∀ c ∈ cs, ∃ d, ces.lookup c.name = some d ∧ c.Gets lib entity (c.name, d) := by
  induction h with
  | nil => exact ⟨fun _ _ => rfl, fun _ hc => absurd hc not_mem_nil⟩
  | @cons c₀ cell cs ces hg _ ih =>
    rw [map_cons, nodup_cons] at hn
    obtain ⟨hno, hs⟩ := ih hn.2
    obtain ⟨name₀, d₀⟩ := cell
    obtain rfl : name₀ = c₀.name := hg.name_eq
    have hsk : ∀ {name}, name ≠ c₀.name →
        ((c₀.name, d₀) :: ces).lookup name = ces.lookup name := by
      intro name hna
      rw [lookup_cons, beq_false_of_ne hna]
    refine ⟨fun name hna => ?_, fun c hc => ?_⟩
    · rw [map_cons, mem_cons, not_or] at hna
      rw [hsk hna.1]
      exact hno name hna.2
    · rcases mem_cons.mp hc with rfl | hc
      · exact ⟨d₀, lookup_cons_self, hg⟩
      · have hne : c.name ≠ c₀.name := fun heq => hn.1 (heq ▸ mem_map_of_mem hc)
        rw [hsk hne]
        exact hs c hc

variable {rows : EntityTable} {rows' : EntityTable}

theorem EntityTable.rows_addRow {row : Row} (h : addRow t rows row = .ok rows') :
    rows'.rows = rows.rows ++ [row] := by
  unfold addRow at h
  split at h
  · cases h
  · split at h
    next hinsert =>
      cases h
      exact VersionedTable.rows_insert hinsert
    next => cases h

theorem EntityTable.rows_insertRow (hno : (cs.map Column.name).Nodup)
    (hli : ∀ c ∈ t.columns, (entity.lookup c.field).isSome → c ∈ cs) (hsu : ∀ c ∈ cs, c ∈ t.columns)
    (hd : t.Deployed) {vs : List SqlExpr}
    (hva : cs.mapM (InsertQuery.columnValue lib entity) = .ok vs)
    (h : insertRow lib t cs block rows vs = .ok rows') :
    ∃ row, rows'.rows = rows.rows ++ [row] ∧ t.Writes lib block entity row := by
  obtain ⟨ces, hce, h⟩ := bind_eq_ok.1 h
  have hge := forall₂_gets (Outcome.mapM_eq_ok.1 hva) (Outcome.mapM_eq_ok.1 hce)
  obtain ⟨hnn, hs⟩ := lookup_cells hge hno
  refine ⟨⟨ces, .since block⟩, rows_addRow h, rfl, ?_, ?_⟩
  · intro c hc hf
    by_cases hm : c ∈ cs
    · obtain ⟨d, hl, hg⟩ := hs c hm
      show (ces.lookup c.name).getD .null = .null
      rw [hl]
      exact hg.of_none hf
    · have hn : c.name ∉ cs.map Column.name := by
        intro hn
        obtain ⟨c', hc', heq⟩ := mem_map.1 hn
        exact hm (inj_on_of_nodup_map hd.names_nodup (hsu c' hc') hc heq ▸ hc')
      show (ces.lookup c.name).getD .null = .null
      rw [hnn _ hn]
      rfl
  · intro c v hc hv
    obtain ⟨d, hl, hg⟩ := hs c (hli c hc (by rw [hv]; rfl))
    show c.store lib v = .ok ((ces.lookup c.name).getD .null)
    rw [hl]
    exact hg.of_some hv

variable {order : Finmap.IterOrder fun _ : SqlName => Column} {entities : List (EntityKey × Entity)}

theorem InsertQuery.rows_getResults (hd : t.Deployed) {q : InsertQuery}
    (hq : new order t entities block = .ok q) {r : EntityTable × ℕ}
    (h : q.getResults lib rows = .ok r) :
    ∃ rs, r.1.rows = rows.rows ++ rs ∧
      List.Forall₂ (fun x row => t.Writes lib block x.2 row) entities rs := by
  unfold new at hq
  split at hq
  · cases hq
  · cases hq
    obtain ⟨vas, hv, h⟩ := bind_eq_ok.1 h
    obtain ⟨rows', hr', rfl⟩ := bind_pure_eq_ok.1 h
    replace hv := Outcome.mapM_eq_ok.1 hv
    -- the induction is over the entities, for a statement that lists the columns of all of them
    suffices ha : ∀ {es : List (EntityKey × Entity)} {vas : List (List SqlExpr)}
        {rows : EntityTable}, (∀ x ∈ es, x ∈ entities) →
        List.Forall₂ (fun x vs => (uniqueColumnsOf order t entities).mapM
          (columnValue lib x.2) = .ok vs) es vas →
        vas.foldlM (EntityTable.insertRow lib t (uniqueColumnsOf order t entities) block)
          rows = .ok rows' →
        ∃ rs, rows'.rows = rows.rows ++ rs ∧
          List.Forall₂ (fun x row => t.Writes lib block x.2 row) es rs from
      ha (fun _ hx => hx) hv hr'
    intro es vas rows hs hv hr
    induction hv generalizing rows with
    | nil =>
      cases hr
      exact ⟨[], (append_nil _).symm, .nil⟩
    | @cons x vs es vas hvs _ ih =>
      obtain ⟨rows₁, hr₁, hr⟩ := bind_eq_ok.1 hr
      obtain ⟨row, hro, hw⟩ := EntityTable.rows_insertRow
        (nodup_uniqueColumnsOf entities)
        (fun c hc hf => mem_uniqueColumnsOf hd (hs x (by simp)) hc hf)
        (fun c hc => mem_columns_of_mem_uniqueColumnsOf hc) hd hvs hr₁
      obtain ⟨rs, hrs, hfo⟩ := ih (fun y hy => hs y (by simp [hy])) hr
      refine ⟨row :: rs, ?_, .cons hw hfo⟩
      rw [hrs, hro, append_assoc]
      rfl

theorem Layout.insert_spec {layout : DeployedLayout} {tables : EntityTables} {et : EntityType}
    {r : EntityTables × ℕ} (h : layout.insert lib order tables et entities block = .ok r) :
    ∃ t rs, layout.tables.lookup et = some t ∧
      (r.1 t.qualifiedName).rows = (tables t.qualifiedName).rows ++ rs ∧
      List.Forall₂ (fun x row => t.Writes lib block x.2 row) entities rs ∧
      ∀ name, name ≠ t.qualifiedName → r.1 name = tables name := by
  obtain ⟨t, hta, h⟩ := bind_eq_ok.mp h
  replace hta := Layout.tableForEntity_eq_ok.mp (ofExcept_eq_ok.mp hta)
  split at h
  · cases h
  · obtain ⟨acc, ha, rfl⟩ := bind_pure_eq_ok.mp h
    have hro := foldlM_invariant ha (I := fun cs acc =>
      ∃ rs, acc.1.rows = (tables t.qualifiedName).rows ++ rs ∧
        List.Forall₂ (fun x row => t.Writes lib block x.2 row) cs.flatten rs)
      ⟨[], (append_nil _).symm, .nil⟩ (by
        rintro pre ch acc acc' - ⟨rs, hrs, hf⟩ hs
        obtain ⟨q, hq, hs⟩ := bind_eq_ok.mp hs
        obtain ⟨r, hr, rfl⟩ := bind_pure_eq_ok.mp hs
        obtain ⟨rs', hrs', hf'⟩ := InsertQuery.rows_getResults (layout.deployed hta)
          (ofExcept_eq_ok.mp hq) hr
        refine ⟨rs ++ rs', ?_, ?_⟩
        · rw [hrs', hrs, append_assoc]
        · rw [flatten_append, flatten_singleton]
          exact rel_append hf hf')
    rw [chunks_flatten] at hro
    obtain ⟨rs, hrs, hf⟩ := hro
    refine ⟨t, rs, hta, ?_, hf, fun name hname => Function.update_of_ne hname _ _⟩
    show (Function.update tables t.qualifiedName acc.1 t.qualifiedName).rows = _
    rw [Function.update_self, hrs]

end Write

/-! ### Reading what was written -/

variable (lib) in
structure Table.Restores (table : Table) (entity : Entity) : Prop where
  exists_column : ∀ {a v}, entity.stored.lookup a = some v → ∃ c ∈ table.columns, c.field = a
  roundTrip : ∀ {c v}, c ∈ table.columns → entity.lookup c.field = some v →
    ∃ v', c.roundTrip lib v = .ok v' ∧ (c.field ≠ typenameAttribute → v' = v)

variable (lib) in
structure Table.Keeps (table : Table) (entity : Entity) : Prop where
  exists_column : ∀ {a v}, entity.stored.lookup a = some v → ∃ c ∈ table.columns, c.field = a
  roundTrip : ∀ {c v}, c ∈ table.columns → c.field ≠ typenameAttribute →
    entity.lookup c.field = some v → c.roundTrip lib v = .ok v

theorem Table.Restores.keeps {table : Table} {entity : Entity} (h : table.Restores lib entity) :
    table.Keeps lib entity where
  exists_column := h.exists_column
  roundTrip := by
    intro c v hc hf hv
    obtain ⟨v', hv', heq⟩ := h.roundTrip hc hv
    rw [heq hf] at hv'
    exact hv'

namespace Table.Writes

variable {l : Layout} {t : Table} {b : ℤ} {entity : Entity} {row : Row}

theorem load_cell (h : t.Writes lib b entity row) {c : Column} (hc : c ∈ t.columns) :
    c.load lib (row.cell c.name) = (entity.lookup c.field).elim (.ok .null) (c.roundTrip lib) := by
  rcases e : entity.lookup c.field with - | v
  · rw [h.cell_of_none hc e]
    exact c.load_null lib
  · exact (Column.roundTrip_eq (h.cell_of_some hc e)).symm

theorem cell_bindId (h : t.Writes lib b entity row) (hd : t.Deployed) {id : String}
    (hid : entity.id = .ok id) : t.bindId id = .ok (row.cell primaryKeyColumn) := by
  obtain ⟨c, hc, hk, hn, hf, hli, hty⟩ := hd.exists_primaryKey
  have hl : entity.lookup c.field = some (.string id) := hf ▸ Entity.id_eq_ok.1 hid
  have hs := h.cell_of_some hc hl
  rw [hn] at hs
  rw [← hs, bindId, idType, hk, Option.bind_some]
  rcases hty with hty | hty
  · rw [Column.store_string hty hli, hty]
    rfl
  · rw [Column.store_bytesId hty hli, hty]
    cases Bytes.fromStr id <;> rfl

theorem cell_id (h : t.Writes lib b entity row) (hd : t.Deployed) (hid : t.idType = some .string)
    {s : String} (hs : entity.id = .ok s) : row.cell primaryKeyColumn = .scalar (.text s) :=
  Outcome.ok.inj ((h.cell_bindId hd hs).symm.trans (bindId_string hid s))

section

variable (h : t.Writes lib b entity row) (hd : t.Deployed)
  (ht : l.tables.lookup t.object = some t)

include h hd ht

variable {e : Entity}

theorem restores_of_read (he : row.read lib l t = .ok e) (heq : e.untyped = entity.stored) :
    t.Restores lib entity := by
  obtain ⟨hco, ho⟩ := Row.read_spec hd ht he
  have hl : ∀ a, a ≠ typenameAttribute → e.lookup a = entity.stored.lookup a := by
    intro a ha
    rw [← heq, Entity.lookup_untyped, if_neg ha]
  constructor
  · intro a v hv
    have ha : a ≠ typenameAttribute := by
      intro ha
      rw [Entity.lookup_stored, if_pos (.inl ha)] at hv
      cases hv
    by_contra hnone
    have hnot : ∀ c ∈ t.columns, c.field ≠ a := fun c hc hf => hnone ⟨c, hc, hf⟩
    rw [← hl a ha, ho a ha hnot] at hv
    cases hv
  · intro c v hc hv
    obtain ⟨v', hv', hr⟩ := hco c hc
    rw [h.load_cell hc, hv] at hv'
    refine ⟨v', hv', fun hf => ?_⟩
    have hs := hr hf
    rw [hl _ hf, Entity.lookup_stored, hv] at hs
    by_cases hn : v = .null
    · -- a null stays a null
      subst hn
      exact (Outcome.ok.inj ((Column.roundTrip_null c).symm.trans hv')).symm
    · rw [if_neg (by simp [hf, hn])] at hs
      split at hs
      · cases hs
      · exact (Option.some.inj hs).symm

theorem exists_read_of_restores (hr : t.Restores lib entity) :
    ∃ e, row.read lib l t = .ok e := by
  refine Row.exists_read hd ht fun c hc => ?_
  rw [h.load_cell hc]
  rcases e : entity.lookup c.field with - | v
  · exact ⟨.null, rfl⟩
  · obtain ⟨v', hv', -⟩ := hr.roundTrip hc e
    exact ⟨v', hv'⟩

theorem untyped_of_keeps (hk : t.Keeps lib entity) (he : row.read lib l t = .ok e) :
    e.untyped = entity.stored := by
  obtain ⟨hcl, ho⟩ := Row.read_spec hd ht he
  refine ext_lookup fun a => ?_
  rw [Entity.lookup_untyped, Entity.lookup_stored]
  by_cases ha : a = typenameAttribute
  · rw [if_pos ha, if_pos (.inl ha)]
  · rw [if_neg ha]
    by_cases hco : ∃ c ∈ t.columns, c.field = a
    · obtain ⟨c, hc, rfl⟩ := hco
      obtain ⟨v, hv, hr⟩ := hcl c hc
      rw [hr ha]
      rw [h.load_cell hc] at hv
      rcases e : entity.lookup c.field with - | w
      · rw [e] at hv
        cases hv
        simp
      · rw [e] at hv
        obtain rfl : w = v := Outcome.ok.inj ((hk.roundTrip hc ha e).symm.trans hv)
        by_cases hn : w = .null <;> simp [hn, ha]
    · have hno : ∀ c ∈ t.columns, c.field ≠ a := fun c hc hf => hco ⟨c, hc, hf⟩
      rw [ho a ha hno]
      rcases e : entity.stored.lookup a with - | v
      · rw [Entity.lookup_stored] at e
        exact e.symm
      · exact absurd (hk.exists_column e) hco

theorem read_iff :
    (∃ e, row.read lib l t = .ok e ∧ e.untyped = entity.stored) ↔ t.Restores lib entity := by
  constructor
  · rintro ⟨e, he, heq⟩
    exact h.restores_of_read hd ht he heq
  · intro hr
    obtain ⟨e, he⟩ := h.exists_read_of_restores hd ht hr
    exact ⟨e, he, h.untyped_of_keeps hd ht hr.keeps he⟩

end

end Table.Writes

end Massbit
