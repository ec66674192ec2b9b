/-
The store of an indexer (`store/indexer_store.rs`, `postgres_queries.rs`).
-/
import Massbit.Postgres.DeploymentStore
import Massbit.Solana.HandlerProxy
import Mathlib.Data.Set.Image

open List Function

namespace Massbit

open Std (TreeMap)

def Row.isCurrent (self : Row) : Bool := self.blockRange.Contains blockNumberMax

def Row.endAt (self : Row) (block : ℤ) : Row :=
  { self with blockRange := ⟨self.blockRange.lower, some block⟩ }

structure ClampRangeQuery where
  table : Table
  entityIds : List String
  block : ℤ

def ClampRangeQuery.selects (ids : List Datum) (row : Row) : Bool :=
  row.cell primaryKeyColumn ∈ ids && row.isCurrent

def ClampRangeQuery.execute (self : ClampRangeQuery) (rows : EntityTable) :
    Outcome StoreError (EntityTable × ℕ) := do
  let ids ← self.entityIds.mapM self.table.bindId
  if rows.rows.any fun row => selects ids row && self.block < row.blockRange.lower then
    .err (.unknown "range lower bound must be less than or equal to range upper bound")
  else match VersionedTable.ofRows? (rows.rows.map fun row =>
      if selects ids row then row.endAt self.block else row) with
    | some rows' => .ok (rows', rows.rows.countP (selects ids))
    | none => .err (.unknown "conflicting key value violates exclusion constraint")

structure FindManyQuery where
  tables : List Table
  idsForType : TreeMap EntityType (List String)
  block : ℤ

def FindManyQuery.loadTable (lib : Libraries) (self : FindManyQuery) (tables : EntityTables)
    (table : Table) : Outcome StoreError (List EntityData) := do
  let entityIds ← .ofOption self.idsForType[table.object]?
  let ids ← entityIds.mapM table.bindId
  let rows := (tables table.qualifiedName).rows.filter fun row =>
    row.cell primaryKeyColumn ∈ ids && table.blockRangeContains row.blockRange self.block
  return rows.map fun row => ⟨table.object, row.toJsonb lib table⟩

def FindManyQuery.load (lib : Libraries) (self : FindManyQuery) (tables : EntityTables) :
    Outcome StoreError (List EntityData) := do
  let data ← self.tables.mapM (self.loadTable lib tables)
  return data.flatten

def deleteOperationChunkSize : ℕ := 1000

def QueryExecutionError.display : QueryExecutionError → String
  | resolveEntityError _ entity id e =>
    "Failed to get `" ++ entity ++ "` entity with ID `" ++ id ++ "` from store: " ++ e
  | entityParseError s => "Broken entity found in store: " ++ s
  | storeError e => "Store error: " ++ e.display

structure IndexerStore where
  lib : Libraries
  conn : Except StoreError Unit
  layout : DeployedLayout
  groupOrder : Finmap.IterOrder fun _ : EntityType => List (EntityKey × Entity)
  removalOrder : Finmap.IterOrder fun _ : EntityType => List String
  columnOrder : Finmap.IterOrder fun _ : SqlName => Column
  debugError : StoreError → String
  debugQueryError : QueryExecutionError → String

namespace IndexerStore

variable (self : IndexerStore)

def getConn : Outcome QueryExecutionError Unit := (Outcome.ofExcept self.conn).mapErr .storeError

def deserialize (data : EntityData) : Outcome QueryExecutionError (Option Entity) := do
  let entity ← (data.deserializeWithLayout self.lib self.layout.toLayout).mapErr fun e =>
    .entityParseError ("Invalid entity " ++ self.debugError e)
  return some entity

def get (db : Database) (key : EntityKey) : Outcome QueryExecutionError (Option Entity) := do
  self.getConn
  let table ← (Outcome.ofExcept (self.layout.tableForEntity key.entityType)).mapErr .storeError
  let query : FindQuery := ⟨table, key.entityId, blockNumberMax⟩
  let data? ← (query.getResult self.lib (db.tables table.qualifiedName)).mapErr .storeError
  match data? with
  | none => return none
  | some data => self.deserialize data

def pushEntity (map : TreeMap EntityType (List Entity)) (data : EntityData) :
    Outcome StoreError (TreeMap EntityType (List Entity)) := do
  let entity ← data.deserializeWithLayout self.lib self.layout.toLayout
  return map.insert data.entity (map.getD data.entity [] ++ [entity])

def getMany (db : Database) (idsForType : TreeMap EntityType (List String)) :
    Outcome StoreError (TreeMap EntityType (List Entity)) :=
  if idsForType.isEmpty then .ok ∅
  else do
    self.getConn.mapErr fun e => .queryExecutionError (self.debugQueryError e)
    let tables ← idsForType.keys.mapM fun t => .ofExcept (self.layout.tableForEntity t)
    let query : FindManyQuery := ⟨tables, idsForType, blockNumberMax⟩
    let data ← query.load self.lib db.tables
    data.foldlM self.pushEntity ∅

def insertEntities (tables : EntityTables) (group : (_ : EntityType) × List (EntityKey × Entity))
    (ptr : Solana.BlockPtr) : Outcome StoreError (EntityTables × ℕ) :=
  self.layout.insert self.lib self.columnOrder tables group.1 group.2 ptr.number

def overwriteEntities (tables : EntityTables)
    (group : (_ : EntityType) × List (EntityKey × Entity)) (ptr : Solana.BlockPtr) :
    Outcome StoreError (EntityTables × ℕ) := do
  let table ← .ofExcept (self.layout.tableForEntity group.1)
  let entityKeys := group.2.map fun x => x.1.entityId
  let clamped ← (ClampRangeQuery.mk table entityKeys ptr.number).execute
    (tables table.qualifiedName)
  self.layout.insert self.lib self.columnOrder
    (Function.update tables table.qualifiedName clamped.1) group.1 group.2 ptr.number

def removeChunk (table : Table) (ptr : Solana.BlockPtr) (acc : EntityTable × ℕ)
    (chunk : List String) : Outcome StoreError (EntityTable × ℕ) := do
  let clamped ← (ClampRangeQuery.mk table chunk ptr.number).execute acc.1
  return (clamped.1, acc.2 + clamped.2)

def removeEntities (tables : EntityTables) (group : (_ : EntityType) × List String)
    (ptr : Solana.BlockPtr) : Outcome StoreError (EntityTables × ℕ) := do
  let table ← .ofExcept (self.layout.tableForEntity group.1)
  let result ← (group.2.chunks deleteOperationChunkSize).foldlM (removeChunk table ptr)
    (tables table.qualifiedName, 0)
  return (Function.update tables table.qualifiedName result.1, result.2)

def applyGroup {A : Type} (op : EntityTables → A → Solana.BlockPtr →
      Outcome StoreError (EntityTables × ℕ)) (count : ℤ → ℕ → ℤ) (ptr : Solana.BlockPtr)
    (acc : EntityTables × ℤ) (group : A) : Outcome StoreError (EntityTables × ℤ) := do
  let result ← op acc.1 group ptr
  return (result.1, count acc.2 result.2)

def applyEntityModifications (tables : EntityTables) (mods : List EntityModification)
    (ptr : Solana.BlockPtr) : Outcome StoreError (EntityTables × ℤ) := do
  let groups := mods.foldl ModificationGroups.add {}
  let inserted ← (self.groupOrder.toList groups.inserts).foldlM
    (applyGroup self.insertEntities (fun count n => count + n) ptr) (tables, 0)
  -- the number of entities remains the same
  let overwritten ← (self.groupOrder.toList groups.overwrites).foldlM
    (applyGroup self.overwriteEntities (fun count _ => count) ptr) inserted
  (self.removalOrder.toList groups.removals).foldlM
    (applyGroup self.removeEntities (fun count n => count - n) ptr) overwritten

def transactBlockOperations (db : Database) (blockPtrTo : Solana.BlockPtr)
    (mods : List EntityModification) : Outcome StoreError Unit × Database :=
  match self.conn with
  | .error e => (.err (.queryExecutionError (QueryExecutionError.display (.storeError e))), db)
  | .ok () => transaction (fun db => do
      let applied ← self.applyEntityModifications db.tables mods blockPtrTo
      return ((), { db with tables := applied.1 })) db

end IndexerStore

section Versions

variable {lib : Libraries} {table : Table} {d : Datum} {block : ℤ}

/-! ### The versions of an entity -/

def EntityTable.versions (rows : EntityTable) (d : Datum) : Set Row :=
  {row | row ∈ rows.rows ∧ row.cell primaryKeyColumn = d}

variable {rows : EntityTable}

theorem EntityTable.mem_versions {row : Row} :
    row ∈ EntityTable.versions rows d ↔ row ∈ rows.rows ∧ row.cell primaryKeyColumn = d := Iff.rfl

def Row.clampTo (block : ℤ) (row : Row) : Row := if row.isCurrent then row.endAt block else row

theorem Row.cells_clampTo (row : Row) : (row.clampTo block).cells = row.cells := by
  unfold clampTo
  split <;> rfl

theorem Row.cell_clampTo (row : Row) (name : SqlName) :
    (row.clampTo block).cell name = row.cell name := by
  rw [cell, cell, row.cells_clampTo]

theorem Row.lower_clampTo (row : Row) :
    (row.clampTo block).blockRange.lower = row.blockRange.lower := by
  unfold clampTo
  split <;> rfl

theorem Row.clampTo_clampTo (hb : block ≤ blockNumberMax) (row : Row) :
    (row.clampTo block).clampTo block = row.clampTo block := by
  have he : (row.endAt block).isCurrent = false := by
    apply decide_eq_false
    rintro ⟨-, hu⟩
    exact absurd (hu block rfl) (not_lt.2 hb)
  rcases h : row.isCurrent with - | -
  · simp [clampTo, h]
  · simp [clampTo, h, he]

variable {result : EntityTable × ℕ}

theorem ClampRangeQuery.execute_eq_ok {q : ClampRangeQuery} (h : q.execute rows = .ok result) :
    ∃ ids, q.entityIds.mapM q.table.bindId = .ok ids ∧
      result.1.rows = rows.rows.map fun row =>
        if row.cell primaryKeyColumn ∈ ids then row.clampTo q.block else row := by
  obtain ⟨ids, hi, h⟩ := bind_eq_ok.1 h
  refine ⟨ids, hi, ?_⟩
  split at h
  · cases h
  · split at h
    next rows' hr =>
      cases h
      rw [VersionedTable.rows_ofRows? hr]
      apply map_congr_left
      intro row _
      unfold selects Row.clampTo
      by_cases hm : row.cell primaryKeyColumn ∈ ids <;> simp [hm]
    next => cases h

theorem ClampRangeQuery.versions_execute {ei : List String}
    (h : (mk table ei block).execute rows = .ok result) :
    (∀ id ∈ ei, table.bindId id ≠ .ok d) ∧
        EntityTable.versions result.1 d = EntityTable.versions rows d ∨
      (∃ id ∈ ei, table.bindId id = .ok d) ∧
        EntityTable.versions result.1 d
          = Set.image (Row.clampTo block) (EntityTable.versions rows d) := by
  obtain ⟨ids, hi, hro⟩ := execute_eq_ok h
  replace hi := Outcome.mapM_eq_ok.mp hi
  by_cases hd : d ∈ ids
  · right
    obtain ⟨id, hid, hbind⟩ := hi.flip.exists_of_mem hd
    refine ⟨⟨id, hid, hbind⟩, ?_⟩
    ext row
    simp only [EntityTable.mem_versions, Set.mem_image, hro, mem_map]
    constructor
    · rintro ⟨⟨row, hr, rfl⟩, hc⟩
      have hk : row.cell primaryKeyColumn = d := by
        rw [← hc]
        split
        · exact (row.cell_clampTo _).symm
        · rfl
      exact ⟨row, ⟨hr, hk⟩, (if_pos (hk ▸ hd)).symm⟩
    · rintro ⟨row, ⟨hr, hk⟩, rfl⟩
      exact ⟨⟨row, hr, if_pos (hk ▸ hd)⟩, (row.cell_clampTo _).trans hk⟩
  · left
    constructor
    · intro id hid hbind
      obtain ⟨d', hd', hb'⟩ := hi.exists_of_mem hid
      exact hd (Outcome.ok.inj (hbind.symm.trans hb') ▸ hd')
    · ext row
      simp only [EntityTable.mem_versions, hro, mem_map]
      constructor
      · rintro ⟨⟨row, hr, rfl⟩, hc⟩
        by_cases hm : row.cell primaryKeyColumn ∈ ids
        · rw [if_pos hm, row.cell_clampTo] at hc
          exact absurd (hc ▸ hm) hd
        · rw [if_neg hm] at hc ⊢
          exact ⟨hr, hc⟩
      · rintro ⟨hr, hc⟩
        exact ⟨⟨row, hr, if_neg (hc ▸ hd)⟩, hc⟩

variable (lib table block) in
structure Adds (data : Entity) (before after : Set Row) : Prop where
  old : before ⊆ after
  new : ∀ row ∈ after, row ∈ before ∨ table.Writes lib block data row
  exists_new : ∃ row ∈ after, table.Writes lib block data row

end Versions

namespace IndexerStore

def record (m : EntityModification) : EntityType × String :=
  (m.entityKey.entityType, m.entityKey.entityId)

def KeysMatch (mods : List EntityModification) : Prop :=
  ∀ m ∈ mods, ∀ data, m.data? = some data → data.id = .ok m.entityKey.entityId

/-- The database takes no other id of the modifications for this one. -/
def NoAlias (table : Table) (t : EntityType) (id : String) (mods : List EntityModification) : Prop :=
  ∀ m ∈ mods, m.entityKey.entityType = t → table.bindId m.entityKey.entityId = table.bindId id →
    m.entityKey.entityId = id

theorem noAlias_of_string {table : Table} (h : table.idType = some .string) (t : EntityType)
    (id : String) (mods : List EntityModification) : NoAlias table t id mods := by
  intro m _ _ hbind
  rw [table.bindId_string h, table.bindId_string h] at hbind
  have hdatum := Outcome.ok.inj hbind
  injection hdatum with hscalar
  injection hscalar

section Groups

variable {s : IndexerStore} {t : EntityType} {table : Table} {id : String} {d : Datum}
  {tables : EntityTables} {ptr : Solana.BlockPtr} {t' : EntityType}

theorem qualifiedName_ne (htable : s.layout.tables.lookup t = some table) {ta' : Table}
    (ht' : s.layout.tables.lookup t' = some ta') (hne : t' ≠ t) :
    table.qualifiedName ≠ ta'.qualifiedName :=
  fun heq => hne (s.layout.qualifiedName_inj ht' htable heq.symm)

variable {es : List (EntityKey × Entity)} {result : EntityTables × ℕ} {block : ℤ}

theorem insert_frame (htable : s.layout.tables.lookup t = some table)
    (h : s.layout.insert s.lib s.columnOrder tables t' es block = .ok result)
    (hid : ∀ x ∈ es, x.2.id = .ok x.1.entityId)
    (hne : t' = t → ∀ x ∈ es, table.bindId x.1.entityId ≠ .ok d) :
    EntityTable.versions (result.1 table.qualifiedName) d
      = EntityTable.versions (tables table.qualifiedName) d := by
  obtain ⟨ta', rs, ht', hro, hf, ho⟩ := Layout.insert_spec h
  by_cases ht : t' = t
  · subst ht
    obtain rfl := Option.some.inj (htable.symm.trans ht')
    ext row
    simp only [EntityTable.mem_versions, hro, mem_append]
    constructor
    · rintro ⟨hr | hr, hc⟩
      · exact ⟨hr, hc⟩
      · obtain ⟨x, hx, hw⟩ := hf.flip.exists_of_mem hr
        have hbind := hw.cell_bindId (s.layout.deployed htable) (hid x hx)
        exact absurd (hc ▸ hbind) (hne rfl x hx)
    · rintro ⟨hr, hc⟩
      exact ⟨.inl hr, hc⟩
  · rw [ho _ (qualifiedName_ne htable ht' ht)]

theorem insert_adds (htable : s.layout.tables.lookup t = some table)
    (h : s.layout.insert s.lib s.columnOrder tables t es block = .ok result)
    (hid : ∀ x ∈ es, x.2.id = .ok x.1.entityId) {x : EntityKey × Entity} (hx : x ∈ es)
    (hbind : table.bindId x.1.entityId = .ok d)
    (ho : ∀ y ∈ es, table.bindId y.1.entityId = .ok d → y = x) :
    Adds s.lib table block x.2 (EntityTable.versions (tables table.qualifiedName) d)
      (EntityTable.versions (result.1 table.qualifiedName) d) := by
  obtain ⟨t', rs, ht', hro, hf, -⟩ := Layout.insert_spec h
  obtain rfl := Option.some.inj (htable.symm.trans ht')
  have hc : ∀ {y row}, y ∈ es → table.Writes s.lib block y.2 row →
      table.bindId y.1.entityId = .ok (row.cell primaryKeyColumn) := fun hy hw =>
    hw.cell_bindId (s.layout.deployed htable) (hid _ hy)
  constructor
  · rintro row ⟨hr, hk⟩
    refine ⟨?_, hk⟩
    rw [hro]
    exact mem_append_left _ hr
  · rintro row ⟨hr, hk⟩
    rw [hro] at hr
    rcases mem_append.1 hr with hr | hr
    · exact .inl ⟨hr, hk⟩
    · obtain ⟨y, hy, hw⟩ := hf.flip.exists_of_mem hr
      obtain rfl := ho y hy (hk ▸ hc hy hw)
      exact .inr hw
  · obtain ⟨row, hr, hw⟩ := hf.exists_of_mem hx
    refine ⟨row, ⟨?_, ?_⟩, hw⟩
    · rw [hro]
      exact mem_append_right _ hr
    · exact Outcome.ok.inj ((hc hx hw).symm.trans hbind)

theorem overwriteEntities_eq_ok {g : (_ : EntityType) × List (EntityKey × Entity)}
    (h : s.overwriteEntities tables g ptr = .ok result) :
    ∃ t' c, s.layout.tables.lookup g.1 = some t' ∧
      (ClampRangeQuery.mk t' (g.2.map fun x => x.1.entityId) ptr.number).execute
        (tables t'.qualifiedName) = .ok c ∧
      s.layout.insert s.lib s.columnOrder
        (Function.update tables t'.qualifiedName c.1) g.1 g.2 ptr.number
        = .ok result := by
  obtain ⟨t', ht', h⟩ := bind_eq_ok.1 h
  obtain ⟨c, hclamped, h⟩ := bind_eq_ok.mp h
  exact ⟨t', c, Layout.tableForEntity_eq_ok.mp (ofExcept_eq_ok.mp ht'),
    hclamped, h⟩

section

variable (hta : s.layout.tables.lookup t = some table)

include hta

theorem overwriteEntities_frame {g : (_ : EntityType) × List (EntityKey × Entity)}
    (h : s.overwriteEntities tables g ptr = .ok result) (hid : ∀ x ∈ g.2, x.2.id = .ok x.1.entityId)
    (hne : g.1 = t → ∀ x ∈ g.2, table.bindId x.1.entityId ≠ .ok d) :
    EntityTable.versions (result.1 table.qualifiedName) d
      = EntityTable.versions (tables table.qualifiedName) d := by
  obtain ⟨t', c, ht', hc, h⟩ := overwriteEntities_eq_ok h
  rw [insert_frame hta h hid hne]
  by_cases ht : g.1 = t
  · rw [ht] at ht'
    obtain rfl := Option.some.inj (hta.symm.trans ht')
    rw [update_self]
    rcases ClampRangeQuery.versions_execute hc with ⟨-, heq⟩ | ⟨⟨i, hi, hbind⟩, -⟩
    · exact heq
    · obtain ⟨x, hx, rfl⟩ := mem_map.mp hi
      exact absurd hbind (hne ht x hx)
  · rw [update_of_ne (qualifiedName_ne hta ht' ht)]

theorem overwriteEntities_adds (h : s.overwriteEntities tables ⟨t, es⟩ ptr = .ok result)
    (hid : ∀ x ∈ es, x.2.id = .ok x.1.entityId) {x : EntityKey × Entity} (hx : x ∈ es)
    (hbind : table.bindId x.1.entityId = .ok d)
    (ho : ∀ y ∈ es, table.bindId y.1.entityId = .ok d → y = x) :
    Adds s.lib table ptr.number x.2
      (Set.image (Row.clampTo ptr.number) (EntityTable.versions (tables table.qualifiedName) d))
      (EntityTable.versions (result.1 table.qualifiedName) d) := by
  obtain ⟨t', c, ht', hc, h⟩ := overwriteEntities_eq_ok h
  obtain rfl := Option.some.inj (hta.symm.trans ht')
  have ha := insert_adds hta h hid hx hbind ho
  rw [update_self] at ha
  rcases ClampRangeQuery.versions_execute (d := d) hc with ⟨hnone, -⟩ | ⟨-, heq⟩
  · exact absurd hbind (hnone _ (mem_map_of_mem hx))
  · rwa [heq] at ha

theorem removeEntities_spec (hbl : ptr.number ≤ blockNumberMax) {g : (_ : EntityType) × List String}
    (h : s.removeEntities tables g ptr = .ok result) :
    ((g.1 = t → ∀ id ∈ g.2, table.bindId id ≠ .ok d) →
        EntityTable.versions (result.1 table.qualifiedName) d
          = EntityTable.versions (tables table.qualifiedName) d) ∧
      (g.1 = t → (∃ id ∈ g.2, table.bindId id = .ok d) →
        EntityTable.versions (result.1 table.qualifiedName) d = Set.image (Row.clampTo ptr.number)
          (EntityTable.versions (tables table.qualifiedName) d)) := by
  obtain ⟨t', ht', h⟩ := bind_eq_ok.1 h
  replace ht' := Layout.tableForEntity_eq_ok.1 (ofExcept_eq_ok.1 ht')
  obtain ⟨acc, hac, rfl⟩ := bind_pure_eq_ok.1 h
  by_cases ht : g.1 = t
  · rw [ht] at ht'
    obtain rfl := Option.some.inj (hta.symm.trans ht')
    simp only [update_self]
    -- the invariant says what the ids of the chunks so far have done
    have hI := foldlM_invariant hac (I := fun cs acc =>
      ((∀ id ∈ cs.flatten, table.bindId id ≠ .ok d) → EntityTable.versions acc.1 d
        = EntityTable.versions (tables table.qualifiedName) d) ∧
      ((∃ id ∈ cs.flatten, table.bindId id = .ok d) → EntityTable.versions acc.1 d
        = Set.image (Row.clampTo ptr.number) (EntityTable.versions (tables table.qualifiedName) d)))
      ⟨fun _ => rfl, fun ⟨_, hm, _⟩ => absurd hm not_mem_nil⟩ (by
        rintro pre ch acc acc' - ⟨hf, hcl⟩ hs
        obtain ⟨c, hc, rfl⟩ := bind_pure_eq_ok.1 hs
        simp only [flatten_append, flatten_singleton, mem_append]
        rcases ClampRangeQuery.versions_execute (d := d) hc with
          ⟨hn, heq⟩ | ⟨⟨i, hi, hbind⟩, heq⟩
        · rw [heq]
          refine ⟨fun ha => hf fun id hid => ha id (.inl hid), ?_⟩
          rintro ⟨id, hid | hid, hbind⟩
          · exact hcl ⟨id, hid, hbind⟩
          · exact absurd hbind (hn id hid)
        · rw [heq]
          refine ⟨fun ha => absurd hbind (ha i (.inr hi)), fun _ => ?_⟩
          by_cases hbe : ∃ id ∈ pre.flatten, table.bindId id = .ok d
          · rw [hcl hbe, Set.image_image]
            exact Set.image_congr fun row _ => row.clampTo_clampTo hbl
          · rw [hf fun id hid hb => hbe ⟨id, hid, hb⟩])
    rw [chunks_flatten] at hI
    exact ⟨fun ha => hI.1 (ha ht), fun _ => hI.2⟩
  · simp only [update_of_ne (qualifiedName_ne hta ht' ht)]
    exact ⟨fun _ => trivial, fun heq => absurd heq ht⟩

end

variable (t table d) in
structure WritesGroup (ptr : Solana.BlockPtr) (lib : Libraries)
    (op : EntityTables → (_ : EntityType) × List (EntityKey × Entity) → Solana.BlockPtr →
      Outcome StoreError (EntityTables × ℕ)) (before : Set Row → Set Row) : Prop where
  frame : ∀ {tables group result}, op tables group ptr = .ok result →
    (∀ x ∈ group.2, x.2.id = .ok x.1.entityId) →
    (group.1 = t → ∀ x ∈ group.2, table.bindId x.1.entityId ≠ .ok d) →
    EntityTable.versions (result.1 table.qualifiedName) d
      = EntityTable.versions (tables table.qualifiedName) d
  adds : ∀ {tables es result x}, op tables ⟨t, es⟩ ptr = .ok result →
    (∀ x ∈ es, x.2.id = .ok x.1.entityId) → x ∈ es → table.bindId x.1.entityId = .ok d →
    (∀ y ∈ es, table.bindId y.1.entityId = .ok d → y = x) →
    Adds lib table ptr.number x.2 (before (EntityTable.versions (tables table.qualifiedName) d))
      (EntityTable.versions (result.1 table.qualifiedName) d)

theorem insertEntities_writesGroup (htable : s.layout.tables.lookup t = some table) :
    WritesGroup t table d ptr s.lib s.insertEntities (fun before => before) where
  frame h hid hne := insert_frame htable h hid hne
  adds h hid hx hd ho := insert_adds htable h hid hx hd ho

theorem overwriteEntities_writesGroup (htable : s.layout.tables.lookup t = some table) :
    WritesGroup t table d ptr s.lib s.overwriteEntities
      (Set.image (Row.clampTo ptr.number)) where
  frame h hid hne := overwriteEntities_frame htable h hid hne
  adds h hid hx hd ho := overwriteEntities_adds htable h hid hx hd ho

end Groups

section Block

variable {store : IndexerStore} {t : EntityType} {table : Table} {id : String} {d : Datum}
  {tables : EntityTables} {ptr : Solana.BlockPtr} {mods : List EntityModification}

/-! ### One call -/

variable (store table ptr) in
def Effect : Option EntityModification → Set Row → Set Row → Prop
  | none, before, after => after = before
  | some (.insert _ data), before, after =>
    Adds store.lib table ptr.number data before after
  | some (.overwrite _ data), before, after =>
    Adds store.lib table ptr.number data (Set.image (Row.clampTo ptr.number) before) after
  | some (.remove _), before, after => after = Set.image (Row.clampTo ptr.number) before

theorem NoAlias.bindId_ne (halias : NoAlias table t id mods) (hbind : table.bindId id = .ok d)
    {m : EntityModification} (hm : m ∈ mods) (hne : record m ≠ (t, id))
    (ht : m.entityKey.entityType = t) : table.bindId m.entityKey.entityId ≠ .ok d :=
  fun hd => hne (Prod.ext ht (halias m hm ht (hd.trans hbind.symm)))

variable {c : ℤ → ℕ → ℤ} {acc acc' : EntityTables × ℤ}

theorem applyGroup_eq_ok {A : Type}
    {op : EntityTables → A → Solana.BlockPtr → Outcome StoreError (EntityTables × ℕ)} {g : A}
    (h : applyGroup op c ptr acc g = .ok acc') :
    ∃ result, op acc.1 g ptr = .ok result ∧ acc'.1 = result.1 := by
  obtain ⟨result, hr, rfl⟩ := bind_pure_eq_ok.1 h
  exact ⟨result, hr, rfl⟩

variable (hbi : table.bindId id = .ok d) (has : NoAlias table t id mods)

include hbi has

section Writes

variable {lib : Libraries} {op : EntityTables → (_ : EntityType) × List (EntityKey × Entity) →
    Solana.BlockPtr → Outcome StoreError (EntityTables × ℕ)} {b : Set Row → Set Row}
  {c : ℤ → ℕ → ℤ} {s : EntityModification → Option (EntityType × EntityKey × Entity)}
  {order : Finmap.IterOrder fun _ : EntityType => List (EntityKey × Entity)}
  {acc acc' : EntityTables × ℤ} (hop : WritesGroup t table d ptr lib op b)
  (he : ∀ {m t x}, s m = some (t, x) →
    m.entityKey = x.1 ∧ m.data? = some x.2 ∧ x.1.entityType = t)
  (hmatch : KeysMatch mods)
  (h : (order.toList (mods.filterMap s).pushAll).foldlM (applyGroup op c ptr) acc
    = .ok acc')

include hop he hmatch h

omit hbi has hop h in
theorem id_of_mem_group {t' : EntityType} {es : List (EntityKey × Entity)}
    (hes : ∀ x ∈ es, (t', x) ∈ mods.filterMap s) : ∀ x ∈ es, x.2.id = .ok x.1.entityId := by
  intro x hx
  obtain ⟨m, hm, hs⟩ := mem_filterMap.1 (hes x hx)
  obtain ⟨hk, hd, -⟩ := he hs
  rw [← hk]
  exact hmatch m hm _ hd

theorem writes_frame (hn : ∀ m ∈ mods, ∀ e, s m = some e → record m ≠ (t, id)) :
    EntityTable.versions (acc'.1 table.qualifiedName) d
      = EntityTable.versions (acc.1 table.qualifiedName) d := by
  apply foldlM_groups_frame h (v := fun acc => EntityTable.versions (acc.1 table.qualifiedName) d)
  intro g acc acc' hg hst
  obtain ⟨result, hr, heq⟩ := applyGroup_eq_ok hst
  rw [heq]
  apply hop.frame hr (id_of_mem_group he hmatch hg)
  rintro rfl x hx
  obtain ⟨m, hm, hs⟩ := mem_filterMap.1 (hg x hx)
  obtain ⟨hk, -, ht⟩ := he hs
  rw [← hk] at ht ⊢
  exact has.bindId_ne hbi hm (hn m hm _ hs) ht

theorem writes_at {m : EntityModification} {x : EntityKey × Entity} (hm : m ∈ mods)
    (hx : s m = some (t, x)) (hre : record m = (t, id))
    (ho : ∀ m' ∈ mods, record m' = (t, id) → m' = m) :
    Adds lib table ptr.number x.2
      (b (EntityTable.versions (acc.1 table.qualifiedName) d))
      (EntityTable.versions (acc'.1 table.qualifiedName) d) := by
  refine foldlM_groups_at (a := x) (mem_filterMap.2 ⟨m, hm, hx⟩) h
    (v := fun acc => EntityTable.versions (acc.1 table.qualifiedName) d)
    (R := fun rows rows' => Adds lib table ptr.number x.2 (b rows) rows') ?_ ?_
  · intro g acc acc' hne hg hs
    obtain ⟨result, hr, heq⟩ := applyGroup_eq_ok hs
    rw [heq]
    exact hop.frame hr (id_of_mem_group he hmatch hg) fun ht => absurd ht hne
  · intro es acc acc' hme hes hs
    obtain ⟨result, hr, heq⟩ := applyGroup_eq_ok hs
    rw [heq]
    have hid : table.bindId x.1.entityId = .ok d := by
      rw [← (he hx).1, (Prod.mk.inj hre).2]
      exact hbi
    refine hop.adds hr (id_of_mem_group he hmatch hes) hme hid fun y hy hd => ?_
    -- another entry of the group with this id is of the same modification
    obtain ⟨m', hm', hy⟩ := mem_filterMap.1 (hes y hy)
    obtain ⟨hk, -, ht⟩ := he hy
    rw [← hk] at ht hd
    obtain rfl := ho m' hm' (Prod.ext ht (has m' hm' ht (hd.trans hbi.symm)))
    exact (Prod.mk.inj (Option.some.inj (hy.symm.trans hx))).2

end Writes

variable (hta : store.layout.tables.lookup t = some table)

include hta

theorem removals_frame (hb : ptr.number ≤ blockNumberMax)
    (h : (store.removalOrder.toList (mods.filterMap EntityModification.removal?).pushAll).foldlM
      (applyGroup store.removeEntities c ptr) acc = .ok acc')
    (hn : ∀ m ∈ mods, ∀ e, m.removal? = some e → record m ≠ (t, id)) :
    EntityTable.versions (acc'.1 table.qualifiedName) d
      = EntityTable.versions (acc.1 table.qualifiedName) d := by
  apply foldlM_groups_frame h (v := fun acc => EntityTable.versions (acc.1 table.qualifiedName) d)
  intro g acc acc' hg hs
  obtain ⟨result, hr, heq⟩ := applyGroup_eq_ok hs
  rw [heq]
  apply (removeEntities_spec hta hb hr).1
  rintro rfl i hi
  obtain ⟨key, hm, ht, rfl⟩ := mem_removals.1 (hg i hi)
  exact has.bindId_ne hbi hm (hn _ hm _ rfl) ht

omit has in
theorem removals_at (hb : ptr.number ≤ blockNumberMax)
    (h : (store.removalOrder.toList (mods.filterMap EntityModification.removal?).pushAll).foldlM
      (applyGroup store.removeEntities c ptr) acc = .ok acc')
    {key : EntityKey} (hm : .remove key ∈ mods) (hre : record (.remove key) = (t, id)) :
    EntityTable.versions (acc'.1 table.qualifiedName) d = Set.image (Row.clampTo ptr.number)
      (EntityTable.versions (acc.1 table.qualifiedName) d) := by
  cases hre
  refine foldlM_groups_at (mem_removals.2 ⟨key, hm, rfl, rfl⟩) h
    (v := fun acc => EntityTable.versions (acc.1 table.qualifiedName) d)
    (R := fun before a => a = Set.image (Row.clampTo ptr.number) before) ?_ ?_
  · intro g acc acc' hne _ hs
    obtain ⟨result, hr, heq⟩ := applyGroup_eq_ok hs
    rw [heq]
    exact (removeEntities_spec hta hb hr).1 fun ht => absurd ht hne
  · intro ids acc acc' hi _ hs
    obtain ⟨result, hr, heq⟩ := applyGroup_eq_ok hs
    rw [heq]
    exact (removeEntities_spec hta hb hr).2 rfl ⟨_, hi, hbi⟩

theorem applyEntityModifications_effect (hmatch : KeysMatch mods)
    (hb : ptr.number ≤ blockNumberMax) (hn : (mods.map record).Nodup)
    {result : EntityTables × ℤ} (h : store.applyEntityModifications tables mods ptr = .ok result) :
    Effect store table ptr (mods.find? fun m => record m = (t, id))
      (EntityTable.versions (tables table.qualifiedName) d)
      (EntityTable.versions (result.1 table.qualifiedName) d) := by
  unfold applyEntityModifications at h
  rw [ModificationGroups.foldl_add] at h
  obtain ⟨i, hi, h⟩ := bind_eq_ok.mp h
  obtain ⟨o, ho, hrd⟩ := bind_eq_ok.mp h
  have hin := writes_frame hbi has (insertEntities_writesGroup hta)
    EntityModification.insert?_eq_some hmatch hi
  have hov := writes_frame hbi has (overwriteEntities_writesGroup hta)
    EntityModification.overwrite?_eq_some hmatch ho
  have hrm := removals_frame hbi has hta hb hrd
  rcases hf : mods.find? fun m => record m = (t, id) with - | m
  · have hno : ∀ m ∈ mods, record m ≠ (t, id) := by simpa using hf
    show EntityTable.versions (result.1 table.qualifiedName) d = _
    rw [hrm fun m hm _ _ => hno m hm, hov fun m hm _ _ => hno m hm,
      hin fun m hm _ _ => hno m hm]
  · have hm := mem_of_find?_eq_some hf
    have hre : record m = (t, id) := by simpa using List.find?_some hf
    have hon : ∀ m' ∈ mods, record m' = (t, id) → m' = m := fun m' hm' hr =>
      inj_on_of_nodup_map hn hm' hm (hr.trans hre.symm)
    -- the loops over modifications of another kind do not change the versions
    have hot : ∀ {A : Type} {select : EntityModification → Option A}, select m = none →
        ∀ m' ∈ mods, ∀ e, select m' = some e → record m' ≠ (t, id) := by
      intro A select hno m' hm' e he hr
      rw [hon m' hm' hr, hno] at he
      cases he
    cases m with
    | insert key data =>
      obtain ⟨rfl, -⟩ := Prod.mk.inj hre
      rw [hrm (hot rfl), hov (hot rfl)]
      exact writes_at hbi has (insertEntities_writesGroup hta)
        EntityModification.insert?_eq_some hmatch hi hm rfl hre hon
    | overwrite key data =>
      obtain ⟨rfl, -⟩ := Prod.mk.inj hre
      rw [hrm (hot rfl), ← hin (hot rfl)]
      exact writes_at hbi has (overwriteEntities_writesGroup hta)
        EntityModification.overwrite?_eq_some hmatch ho hm rfl hre hon
    | remove key =>
      rw [← hin (hot rfl), ← hov (hot rfl)]
      exact removals_at hbi hta hb hrd hm hre

end Block

end IndexerStore

end Massbit
