/-
The store of a deployment (`deployment_store.rs`, `deployment.rs`, `detail.rs`, `dynds.rs`).
-/
import Massbit.Indexer.BlockState
import Massbit.Lib.GroupBy
import Massbit.Postgres.Query
import Mathlib.Data.Set.Finite.Basic

open List

namespace Massbit

structure IndexerDeployment where
  deployment : DeploymentHash
  latestEthereumBlockHash : Option Bytes
  latestEthereumBlockNumber : Option ℤ
  deriving DecidableEq, Repr

structure DynamicEthereumContractDataSource where
  name : String
  address : Address
  abi : String
  startBlock : BlockNumber
  ethereumBlockHash : Bytes
  ethereumBlockNumber : ℤ
  deployment : DeploymentHash
  context : Option String
  deriving DecidableEq, Repr

structure Database where
  tables : EntityTables
  deployments : List IndexerDeployment
  dynamicDataSources : List DynamicEthereumContractDataSource

def transaction {A : Type} (body : Database → Outcome StoreError (A × Database)) (db : Database) :
    Outcome StoreError A × Database :=
  match body db with
  | .ok result => (.ok result.1, result.2)
  | .err e => (.err e, db)
  | .panic => (.panic, db)

variable {db : Database}

theorem transaction_eq_ok {A : Type} {body : Database → Outcome StoreError (A × Database)} {a : A}
    (h : (transaction body db).1 = .ok a) :
    body db = .ok (a, (transaction body db).2) := by
  unfold transaction at h ⊢
  rcases e : body db with r | error | -
  · rw [e] at h
    cases h
    rfl
  · rw [e] at h
    cases h
  · rw [e] at h
    cases h

theorem transaction_unchanged {A : Type} {body : Database → Outcome StoreError (A × Database)}
    (h : ∀ a, (transaction body db).1 ≠ .ok a) : (transaction body db).2 = db := by
  unfold transaction at h ⊢
  rcases e : body db with result | error | -
  · rw [e] at h
    exact absurd rfl (h result.1)
  · rfl
  · rfl

def dynamicDataSourceRow (deployment : DeploymentHash) (blockPtr : BlockPtr)
    (ds : StoredDynamicDataSource) : Except StoreError DynamicEthereumContractDataSource :=
  match ds.source.address with
  | some address => .ok ⟨ds.name, address, ds.source.abi, ds.source.startBlock, blockPtr.hash,
      blockPtr.number, deployment, ds.context⟩
  | none => .error (.constraintViolation
      ("dynamic data sources must have an address, but `" ++ ds.name ++ "` has none"))

def Database.insertDynamicDataSources (self : Database) (deployment : DeploymentHash)
    (dataSources : List StoredDynamicDataSource) (blockPtr : BlockPtr) :
    Except StoreError (Database × ℕ) :=
  if dataSources.isEmpty then .ok (self, 0)
  else do
    let dds ← dataSources.mapM (dynamicDataSourceRow deployment blockPtr)
    return ({ self with dynamicDataSources := self.dynamicDataSources ++ dds }, dds.length)

def detailBlock (lib : Libraries) (id name : String) (hash : Option Bytes) (number : Option ℤ) :
    Outcome StoreError (Option BlockPtr) :=
  match hash, number with
  | some hash, some number =>
    -- the conversion to a hash panics for another length
    if hash.length ≠ 32 then .panic
    else if number < 0 ∨ 2 ^ 64 ≤ number then
      .err (.constraintViolation ("the block number " ++ toString number ++ " for " ++ name ++
        " in " ++ id ++ " is not representable as a u64"))
    -- and so does the conversion to a block number
    else if blockNumberMax < number then .panic
    else .ok (some ⟨hash, number⟩)
  | none, none => .ok none
  | hash, number => .err (.constraintViolation
      ("the hash and number of a block pointer must either both be null or both have a value, " ++
        "but for `" ++ id ++ "` the hash of " ++ name ++ " is `" ++ lib.debugHash hash ++
        "` and the number is `" ++ lib.debugNumber number ++ "`"))

namespace Database

def blockPtr (lib : Libraries) (self : Database) (id : DeploymentHash) :
    Outcome StoreError (Option BlockPtr) :=
  match self.deployments.find? fun d => d.deployment = id with
  | none => .err (.deploymentNotFound id)
  | some d => detailBlock lib id "latest_ethereum_block" d.latestEthereumBlockHash
      d.latestEthereumBlockNumber

def isBehind (id : DeploymentHash) (number : ℤ) (d : IndexerDeployment) : Bool :=
  d.deployment = id &&
    match d.latestEthereumBlockNumber with
    | some latest => latest < number
    | none => true

def forwardBlockPtr (lib : Libraries) (self : Database) (id : DeploymentHash) (ptr : BlockPtr) :
    Outcome StoreError Database :=
  match self.deployments.countP (isBehind id ptr.number) with
  -- the common case: one row was updated
  | 1 => .ok { self with
      deployments := self.deployments.map fun d => if isBehind id ptr.number d then
        { d with latestEthereumBlockHash := some ptr.hash,
                 latestEthereumBlockNumber := some ptr.number } else d }
  | 0 => do
    let from? ← self.blockPtr lib id
    match from? with
    | some blockPtrFrom =>
      if blockPtrFrom.number ≥ ptr.number then .err (.duplicateBlockProcessing id ptr.number)
      else .err (.unknown "unknown error forwarding block ptr")
    | none => .err (.unknown "unknown error forwarding block ptr")
  | _ => .err (.constraintViolation "duplicate deployments in shard")

variable {ptr : BlockPtr}

theorem forwardBlockPtr_eq_ok {lib : Libraries} {self db : Database} {id : DeploymentHash}
    (h : self.forwardBlockPtr lib id ptr = .ok db) :
    (∃ d ∈ self.deployments, isBehind id ptr.number d = true) ∧
      db = { self with deployments := self.deployments.map fun d => if isBehind id ptr.number d then
        { d with latestEthereumBlockHash := some ptr.hash,
                 latestEthereumBlockNumber := some ptr.number } else d } := by
  unfold forwardBlockPtr at h
  split at h
  next hc =>
    refine ⟨?_, (Outcome.ok.inj h).symm⟩
    apply countP_pos_iff.mp
    omega
  next =>
    obtain ⟨from?, -, h⟩ := bind_eq_ok.1 h
    split at h
    · split at h <;> cases h
    · cases h
  next => cases h

theorem insertDynamicDataSources_eq_ok {self : Database} {d : DeploymentHash}
    {dataSources : List StoredDynamicDataSource} {r : Database × ℕ}
    (h : self.insertDynamicDataSources d dataSources ptr = .ok r) :
    ∃ rows, dataSources.mapM (dynamicDataSourceRow d ptr) = .ok rows ∧
      r.1 = { self with dynamicDataSources := self.dynamicDataSources ++ rows } := by
  unfold insertDynamicDataSources at h
  split at h
  next he =>
    cases h
    rw [isEmpty_iff.1 he]
    exact ⟨[], rfl, by simp⟩
  next =>
    rcases e : dataSources.mapM (dynamicDataSourceRow d ptr) with er | rows
    · rw [e] at h
      cases h
    · rw [e] at h
      cases h
      exact ⟨rows, rfl, rfl⟩

end Database

structure Site where
  deployment : DeploymentHash
  deriving DecidableEq, Repr

structure DeploymentStore where
  lib : Libraries
  conn : Except StoreError Unit
  layout : Site → Except StoreError DeployedLayout
  groupOrder : Finmap.IterOrder fun _ : EntityType => List (EntityKey × Entity)
  columnOrder : Finmap.IterOrder fun _ : SqlName => Column

structure ModificationGroups where
  inserts : HashMap EntityType (List (EntityKey × Entity)) := ∅
  overwrites : HashMap EntityType (List (EntityKey × Entity)) := ∅
  removals : HashMap EntityType (List String) := ∅

def ModificationGroups.add (self : ModificationGroups) : EntityModification → ModificationGroups
  | .insert key data =>
    { self with inserts := List.pushAt self.inserts (key.entityType, key, data) }
  | .overwrite key data =>
    { self with overwrites := List.pushAt self.overwrites (key.entityType, key, data) }
  | .remove key => { self with removals := List.pushAt self.removals (key.entityType, key.entityId) }

def StoreError.display : StoreError → String
  | unknown e => "store error: " ++ e
  | unknownTable name => "unknown table '" ++ name ++ "'"
  | queryExecutionError e => "query execution failed: " ++ e
  | invalidIdentifier msg => "invalid identifier: " ++ msg
  | duplicateBlockProcessing hash number => "indexer `" ++ hash ++
      "` has already processed block `" ++ toString number ++
      "`; there are most likely two (or more) nodes indexing this indexer"
  | constraintViolation msg => "internal constraint violated: " ++ msg
  | deploymentNotFound hash => "deployment not found: " ++ hash
  | unknownShard shard =>
    "shard not found: " ++ shard ++ " (this usually indicates a misconfiguration)"

namespace DeploymentStore

variable (self : DeploymentStore)

def get (db : Database) (site : Site) (key : EntityKey) :
    Outcome QueryExecutionError (Option Entity) := do
  let _ ← (Outcome.ofExcept self.conn).mapErr .storeError
  let layout ← (Outcome.ofExcept (self.layout site)).mapErr .storeError
  (layout.find self.lib db.tables key.entityType key.entityId blockNumberMax).mapErr fun e =>
    .resolveEntityError key.indexerId key.entityType key.entityId ("Invalid entity " ++ e.display)

def insertEntities (layout : Layout) (ptr : BlockPtr) (acc : EntityTables × ℕ)
    (group : (_ : EntityType) × List (EntityKey × Entity)) :
    Outcome StoreError (EntityTables × ℕ) := do
  let result ← layout.insert self.lib self.columnOrder acc.1 group.1 group.2 ptr.number
  return (result.1, acc.2 + result.2)

def applyEntityModifications (layout : Layout) (tables : EntityTables)
    (mods : List EntityModification) (ptr : BlockPtr) : Outcome StoreError (EntityTables × ℕ) :=
  let groups := mods.foldl ModificationGroups.add {}
  (self.groupOrder.toList groups.inserts).foldlM (self.insertEntities layout ptr) (tables, 0)

def transactBlockOperations (db : Database) (site : Site) (blockPtrTo : BlockPtr)
    (mods : List EntityModification) (dataSources : List StoredDynamicDataSource) :
    Outcome StoreError Unit × Database :=
  -- all operations must be for the deployment
  if mods.any fun m => m.entityKey.indexerId ≠ site.deployment then (.panic, db)
  else match self.conn with
    | .error e => (.err e, db)
    | .ok () => transaction (fun db => do
        let layout ← .ofExcept (self.layout site)
        let applied ← self.applyEntityModifications layout.toLayout db.tables mods blockPtrTo
        let inserted ← .ofExcept (Database.insertDynamicDataSources { db with tables := applied.1 }
          site.deployment dataSources blockPtrTo)
        let db ← inserted.1.forwardBlockPtr self.lib site.deployment blockPtrTo
        return ((), db)) db

end DeploymentStore

variable {lib : Libraries} {layout : DeployedLayout} {tables tables' : EntityTables}

/-! ### Reading after writing -/

def Layout.readVersion (lib : Libraries) (layout : Layout) (table : Table) :
    Option Row → Outcome StoreError (Option Entity)
  | none => .ok none
  | some row => row.read lib layout table >>= fun e => .ok (some e)

theorem Layout.find_blockNumberMax (layout : Layout) (tables : EntityTables) (t : EntityType)
    (id : String) : layout.find lib tables t id bnm
      = (.ofExcept (layout.tableForEntity t) >>= fun ta => ta.bindId id >>= fun d =>
          layout.readVersion lib ta ((tables ta.qualifiedName).find? d bnm)) := by
  unfold find
  congr 1
  funext ta
  rw [FindQuery.getResult_eq, bind_assoc]
  congr 1
  funext d
  rcases (tables ta.qualifiedName).find? d bnm with - | row
  · rfl
  · rfl

variable {t : EntityType} {x : EntityKey × Entity} {mods : List EntityModification}

theorem Layout.find_eq_ok {layout : Layout} {id : String} {r : Option Entity} :
    layout.find lib tables t id blockNumberMax = .ok r ↔
      ∃ ta d, layout.tables.lookup t = some ta ∧ ta.bindId id = .ok d ∧
        layout.readVersion lib ta ((tables ta.qualifiedName).find? d blockNumberMax)
          = .ok r := by
  rw [find_blockNumberMax, bind_eq_ok]
  constructor
  · rintro ⟨ta, htable, h⟩
    obtain ⟨d, hd, h⟩ := bind_eq_ok.mp h
    exact ⟨ta, d, tableForEntity_eq_ok.mp (ofExcept_eq_ok.mp htable), hd, h⟩
  · rintro ⟨ta, d, htable, hd, h⟩
    exact ⟨ta, ofExcept_eq_ok.mpr (tableForEntity_eq_ok.mpr htable),
      bind_eq_ok.mpr ⟨d, hd, h⟩⟩

theorem Layout.readVersion_eq_some {layout : Layout} {ta : Table} {row? : Option Row}
    {e : Entity} : layout.readVersion lib ta row? = .ok (some e) ↔
      ∃ row, row? = some row ∧ row.read lib layout ta = .ok e := by
  rcases row? with - | row
  · refine iff_of_false (fun h => ?_) fun ⟨_, h, _⟩ => nomatch h
    cases Outcome.ok.inj h
  · constructor
    · intro h
      obtain ⟨e', he', h⟩ := bind_eq_ok.1 h
      obtain rfl := Option.some.inj (Outcome.ok.inj h)
      exact ⟨row, rfl, he'⟩
    · rintro ⟨_, hr, he⟩
      cases hr
      exact bind_eq_ok.2 ⟨e, he, rfl⟩

variable (lib layout) in
structure Inserted (block : ℤ) (P : EntityKey × Entity → Prop)
    (tables tables' : EntityTables) : Prop where
  old : ∀ {name row}, row ∈ (tables name).rows → row ∈ (tables' name).rows
  written : ∀ {x}, P x → ∃ table row, layout.tables.lookup x.1.entityType = some table ∧
    row ∈ (tables' table.qualifiedName).rows ∧ table.Writes lib block x.2 row
  new : ∀ {name row}, row ∈ (tables' name).rows → row ∈ (tables name).rows ∨
    ∃ x table, P x ∧ layout.tables.lookup x.1.entityType = some table ∧
      table.qualifiedName = name ∧ table.Writes lib block x.2 row

namespace Inserted

variable {b : ℤ} {P Q : EntityKey × Entity → Prop} {tables'' : EntityTables}

theorem refl (tables : EntityTables) :
    Inserted lib layout b (fun _ => False) tables tables where
  old h := h
  written h := h.elim
  new h := .inl h

theorem trans (h : Inserted lib layout b P tables tables')
    (h' : Inserted lib layout b Q tables' tables'') :
    Inserted lib layout b (fun x => P x ∨ Q x) tables tables'' where
  old hr := h'.old (h.old hr)
  written := by
    rintro x (hx | hx)
    · obtain ⟨ta, row, htable, hr, hwrites⟩ := h.written hx
      exact ⟨ta, row, htable, h'.old hr, hwrites⟩
    · exact h'.written hx
  new := by
    intro name row hr
    rcases h'.new hr with hr | ⟨x, ta, hx, hn⟩
    · rcases h.new hr with hr | ⟨x, ta, hx, hn⟩
      · exact .inl hr
      · exact .inr ⟨x, ta, .inl hx, hn⟩
    · exact .inr ⟨x, ta, .inr hx, hn⟩

theorem congr (h : Inserted lib layout b P tables tables') (hPQ : ∀ x, P x ↔ Q x) :
    Inserted lib layout b Q tables tables' := by
  obtain rfl : P = Q := funext fun x => propext (hPQ x)
  exact h

theorem of_insert {o : Finmap.IterOrder fun _ : SqlName => Column} {et : EntityType}
    {es : List (EntityKey × Entity)} {r : EntityTables × ℕ} (hty : ∀ x ∈ es, x.1.entityType = et)
    (h : layout.insert lib o tables et es b = .ok r) :
    Inserted lib layout b (fun x => x ∈ es) tables r.1 := by
  obtain ⟨ta, rs, ht, hro, hf, ho⟩ := Layout.insert_spec h
  constructor
  · intro name row hr
    by_cases hn : name = ta.qualifiedName
    · subst hn
      rw [hro]
      exact mem_append_left _ hr
    · rwa [ho name hn]
  · intro x hx
    obtain ⟨row, hr, hw⟩ := hf.exists_of_mem hx
    refine ⟨ta, row, (hty x hx).symm ▸ ht, ?_, hw⟩
    rw [hro]
    exact mem_append_right _ hr
  · intro name row hr
    by_cases hn : name = ta.qualifiedName
    · subst hn
      rw [hro] at hr
      rcases mem_append.1 hr with hr | hr
      · exact .inl hr
      · obtain ⟨x, hx, hw⟩ := hf.flip.exists_of_mem hr
        exact .inr ⟨x, ta, hx, (hty x hx).symm ▸ ht, rfl, hw⟩
    · rw [ho name hn] at hr
      exact .inl hr

section

variable (h : Inserted lib layout b P tables tables')

include h

theorem find?_of_some {name : SqlName} {d : Datum} {row : Row}
    (hr : (tables name).find? d blockNumberMax = some row) :
    (tables' name).find? d blockNumberMax = some row := by
  obtain ⟨hmem, hspec⟩ := VersionedTable.find?_eq_some.mp hr
  exact VersionedTable.find?_eq_some.mpr ⟨h.old hmem, hspec⟩

theorem find_of_some {t : EntityType} {id : String} {e : Entity}
    (he : layout.find lib tables t id blockNumberMax = .ok (some e)) :
    layout.find lib tables' t id blockNumberMax = .ok (some e) := by
  obtain ⟨table, d, ht, hd, hr⟩ := Layout.find_eq_ok.mp he
  obtain ⟨row, hro, hr⟩ := Layout.readVersion_eq_some.mp hr
  refine Layout.find_eq_ok.mpr ⟨table, d, ht, hd, Layout.readVersion_eq_some.mpr ?_⟩
  exact ⟨row, h.find?_of_some hro, hr⟩

theorem find_of_ne {t : EntityType} {id : String}
    (hne : ∀ x ta row d, P x → x.1.entityType = t → layout.tables.lookup t = some ta →
      ta.Writes lib b x.2 row → ta.bindId id = .ok d → row.cell primaryKeyColumn ≠ d) :
    layout.find lib tables' t id blockNumberMax = layout.find lib tables t id blockNumberMax := by
  rw [Layout.find_blockNumberMax, Layout.find_blockNumberMax]
  refine Outcome.bind_congr fun ta ht => Outcome.bind_congr fun d hd => congrArg _ ?_
  replace ht := Layout.tableForEntity_eq_ok.1 (ofExcept_eq_ok.1 ht)
  rcases e : (tables ta.qualifiedName).find? d blockNumberMax with - | row
  · refine VersionedTable.find?_eq_none.2 fun row hr hk hc => ?_
    rcases h.new hr with hr | ⟨x, t', hx, ht', hn, hw⟩
    · exact VersionedTable.find?_eq_none.1 e row hr hk hc
    · have hty : x.1.entityType = t := layout.qualifiedName_inj ht' ht hn
      rw [hty, ht] at ht'
      cases ht'
      exact hne x ta row d hx hty ht hw hd hk
  · exact h.find?_of_some e

theorem find_of_insert (hb : b ≤ blockNumberMax) {x : EntityKey × Entity} (hx : P x) :
    ∃ ta row, layout.tables.lookup x.1.entityType = some ta ∧
      ta.Writes lib b x.2 row ∧
      ∀ id, ta.bindId id = .ok (row.cell primaryKeyColumn) → ∀ e,
        (layout.find lib tables' x.1.entityType id blockNumberMax = .ok (some e) ↔
          row.read lib layout.toLayout ta = .ok e) := by
  obtain ⟨ta, row, ht, hro, hw⟩ := h.written hx
  refine ⟨ta, row, ht, hw, fun id hid e => ?_⟩
  have hc : row.blockRange.Contains blockNumberMax := by
    rw [hw.blockRange]
    exact Span.contains_since.mpr hb
  have hf : (tables' ta.qualifiedName).find? (row.cell primaryKeyColumn) blockNumberMax
      = some row := VersionedTable.find?_eq_some.mpr ⟨hro, rfl, hc⟩
  rw [Layout.find_eq_ok]
  constructor
  · rintro ⟨table', d, htable', hd, hread⟩
    rw [ht] at htable'
    cases htable'
    rw [hid] at hd
    cases hd
    obtain ⟨row', hrow', hread⟩ := Layout.readVersion_eq_some.mp hread
    rw [hf] at hrow'
    cases hrow'
    exact hread
  · intro hread
    exact ⟨ta, _, ht, hid, Layout.readVersion_eq_some.mpr ⟨row, hf, hread⟩⟩

end

end Inserted

/-! ### The groups of a block -/

def EntityModification.insert? : EntityModification → Option (EntityType × EntityKey × Entity)
  | insert key data => some (key.entityType, key, data)
  | _ => none

def EntityModification.overwrite? : EntityModification → Option (EntityType × EntityKey × Entity)
  | overwrite key data => some (key.entityType, key, data)
  | _ => none

def EntityModification.removal? : EntityModification → Option (EntityType × String)
  | remove key => some (key.entityType, key.entityId)
  | _ => none

theorem ModificationGroups.foldl_add (mods : List EntityModification) :
    mods.foldl add {} = ⟨(mods.filterMap EntityModification.insert?).pushAll,
      (mods.filterMap EntityModification.overwrite?).pushAll,
      (mods.filterMap EntityModification.removal?).pushAll⟩ := by
  suffices h : ∀ (mods : List EntityModification) (gs : ModificationGroups),
      mods.foldl add gs =
        ⟨(mods.filterMap EntityModification.insert?).foldl List.pushAt gs.inserts,
          (mods.filterMap EntityModification.overwrite?).foldl List.pushAt gs.overwrites,
          (mods.filterMap EntityModification.removal?).foldl List.pushAt gs.removals⟩ from
    h mods {}
  intro mods
  induction mods with
  | nil => exact fun _ => rfl
  | cons m mods ih =>
    intro gs
    rw [foldl_cons, ih]
    cases m <;> rfl

variable {m : EntityModification}

theorem EntityModification.insert?_eq_some (h : m.insert? = some (t, x)) :
    m.entityKey = x.1 ∧ m.data? = some x.2 ∧ x.1.entityType = t := by
  cases m with
  | insert key data =>
    cases h
    exact ⟨rfl, rfl, rfl⟩
  | overwrite => cases h
  | remove => cases h

theorem EntityModification.overwrite?_eq_some (h : m.overwrite? = some (t, x)) :
    m.entityKey = x.1 ∧ m.data? = some x.2 ∧ x.1.entityType = t := by
  cases m with
  | insert => cases h
  | overwrite key data =>
    cases h
    exact ⟨rfl, rfl, rfl⟩
  | remove => cases h

theorem mem_inserts :
    (t, x) ∈ mods.filterMap EntityModification.insert? ↔
      .insert x.1 x.2 ∈ mods ∧ x.1.entityType = t := by
  rw [mem_filterMap]
  constructor
  · rintro ⟨m, hm, h⟩
    cases m with
    | insert key data =>
      cases h
      exact ⟨hm, rfl⟩
    | overwrite => cases h
    | remove => cases h
  · rintro ⟨hm, rfl⟩
    exact ⟨_, hm, rfl⟩

theorem mem_removals {id : String} :
    (t, id) ∈ mods.filterMap EntityModification.removal? ↔
      ∃ key, .remove key ∈ mods ∧ key.entityType = t ∧ key.entityId = id := by
  rw [mem_filterMap]
  constructor
  · rintro ⟨m, hm, h⟩
    cases m with
    | insert => cases h
    | overwrite => cases h
    | remove key =>
      cases h
      exact ⟨key, hm, rfl, rfl⟩
  · rintro ⟨key, hm, rfl, rfl⟩
    exact ⟨_, hm, rfl⟩

namespace DeploymentStore

variable {s : DeploymentStore}

theorem inserted_of_apply {mods : List EntityModification} {ptr : BlockPtr} {r : EntityTables × ℕ}
    (h : s.applyEntityModifications layout.toLayout tables mods ptr = .ok r) :
    Inserted s.lib layout ptr.number (fun x => .insert x.1 x.2 ∈ mods) tables r.1 := by
  unfold applyEntityModifications at h
  rw [ModificationGroups.foldl_add] at h
  -- the induction is over the groups, in the order in which they are visited
  have hI := foldlM_invariant h (I := fun gs acc =>
    Inserted s.lib layout ptr.number (fun x => ∃ g ∈ gs, x ∈ g.2) tables acc.1)
    ((Inserted.refl tables).congr fun x => by simp) (by
      intro pre g acc acc' hme hI hs
      obtain ⟨r, hr, rfl⟩ := bind_pure_eq_ok.1 hs
      have ht : ∀ x ∈ g.2, x.1.entityType = g.1 := fun x hx =>
        (mem_inserts.1 (mem_of_mem_group (hme g (by simp)) hx)).2
      refine (hI.trans (Inserted.of_insert ht hr)).congr fun x => ?_
      simp [or_and_right, exists_or])
  refine hI.congr fun x => ?_
  constructor
  · rintro ⟨g, hg, hx⟩
    exact (mem_inserts.1 (mem_of_mem_group hg hx)).1
  · intro hm
    obtain ⟨es, hes, hx⟩ := exists_group s.groupOrder (mem_inserts.2 ⟨hm, rfl⟩)
    exact ⟨_, hes, hx⟩

variable {db : Database} {site : Site} {ptr : BlockPtr} {mods : List EntityModification}
  {ds : List StoredDynamicDataSource}

theorem transact_eq_ok (h : (s.transactBlockOperations db site ptr mods ds).1 = .ok ()) :
    ∃ layout a rows, s.conn = .ok () ∧ s.layout site = .ok layout ∧
      (∀ m ∈ mods, m.entityKey.indexerId = site.deployment) ∧
      s.applyEntityModifications layout.toLayout db.tables mods ptr = .ok a ∧
      ds.mapM (dynamicDataSourceRow site.deployment ptr) = .ok rows ∧
      (∃ d ∈ db.deployments, Database.isBehind site.deployment ptr.number d = true) ∧
      (s.transactBlockOperations db site ptr mods ds).2
        = { tables := a.1
            deployments := db.deployments.map fun d =>
              if Database.isBehind site.deployment ptr.number d then
                { d with latestEthereumBlockHash := some ptr.hash,
                         latestEthereumBlockNumber := some ptr.number } else d
            dynamicDataSources := db.dynamicDataSources ++ rows } := by
  unfold transactBlockOperations at h ⊢
  split at h
  next => cases h
  next hal =>
    rw [if_neg hal]
    rcases hc : s.conn with e | ⟨⟨⟩⟩
    · rw [hc] at h
      cases h
    · rw [hc] at h
      have hb := transaction_eq_ok h
      obtain ⟨layout, hl, hb⟩ := bind_eq_ok.1 hb
      obtain ⟨a, ha, hb⟩ := bind_eq_ok.1 hb
      obtain ⟨⟨db₁, n⟩, hi, hb⟩ := bind_eq_ok.1 hb
      obtain ⟨db', hf, hb⟩ := bind_eq_ok.1 hb
      have hdb := (Prod.mk.inj (Outcome.ok.inj hb)).2
      obtain ⟨rows, hr, rfl⟩ :=
        Database.insertDynamicDataSources_eq_ok (ofExcept_eq_ok.1 hi)
      obtain ⟨hbe, rfl⟩ := Database.forwardBlockPtr_eq_ok hf
      refine ⟨layout, a, rows, rfl, ofExcept_eq_ok.1 hl, ?_, ha, hr,
        hbe, hdb.symm⟩
      intro m hm
      by_contra hne
      exact hal (any_eq_true.2 ⟨m, hm, decide_eq_true hne⟩)

theorem inserted_of_transact (h : (s.transactBlockOperations db site ptr mods ds).1 = .ok ()) :
    ∃ layout, s.conn = .ok () ∧ s.layout site = .ok layout ∧
      (∀ m ∈ mods, m.entityKey.indexerId = site.deployment) ∧
      Inserted s.lib layout ptr.number (fun x => .insert x.1 x.2 ∈ mods) db.tables
        (s.transactBlockOperations db site ptr mods ds).2.tables := by
  obtain ⟨layout, a, rows, hc, hl, hm, ha, -, -, heq⟩ := transact_eq_ok h
  refine ⟨layout, hc, hl, hm, ?_⟩
  rw [heq]
  exact inserted_of_apply ha

theorem transact_unchanged (h : (s.transactBlockOperations db site ptr mods ds).1 ≠ .ok ()) :
    (s.transactBlockOperations db site ptr mods ds).2 = db := by
  unfold transactBlockOperations at h ⊢
  split
  next => rfl
  next ha =>
    rw [if_neg ha] at h
    rcases hc : s.conn with e | ⟨⟨⟩⟩
    · rfl
    · rw [hc] at h
      exact transaction_unchanged fun _ => h

variable {layout : DeployedLayout} {key : EntityKey}

theorem get_eq_ok (hc : s.conn = .ok ()) (hl : s.layout site = .ok layout) {r : Option Entity} :
    s.get db site key = .ok r ↔
      layout.find s.lib db.tables key.entityType key.entityId blockNumberMax = .ok r := by
  unfold get
  rw [hc, hl]
  exact mapErr_eq_ok

theorem get_congr {db' : Database} (hc : s.conn = .ok ()) (hl : s.layout site = .ok layout)
    (h : layout.find s.lib db'.tables key.entityType key.entityId blockNumberMax
      = layout.find s.lib db.tables key.entityType key.entityId blockNumberMax) :
    s.get db' site key = s.get db site key := by
  unfold get
  rw [hc, hl]
  exact congrArg (Outcome.mapErr _) h

end DeploymentStore

/-! ### One transaction -/

/-- The lookups after a block see the data that was inserted or overwritten, nothing where it was
removed, and otherwise what there was before. -/
structure Transacted (deployment : DeploymentHash) (mods : List EntityModification)
    (before after : EntityKey → Outcome QueryExecutionError (Option Entity)) : Prop where
  written : ∀ {m data}, m ∈ mods → m.data? = some data →
    ∃ e, after m.entityKey = .ok (some e) ∧ e.untyped = data.stored
  removed : ∀ {key}, .remove key ∈ mods → after key = .ok none
  frame : ∀ {key}, key.indexerId = deployment → (∀ m ∈ mods, m.entityKey ≠ key) →
    after key = before key

namespace DeploymentStore

/-- Lookups see the change: an entity that its table restores is inserted under a string that is its
id, or overwritten with what is there already. -/
def Kept (store : DeploymentStore) (db : Database) (site : Site) : EntityModification → Prop
  | .insert key data => ∃ layout table, store.layout site = .ok layout ∧
      layout.tables.lookup key.entityType = some table ∧ table.idType = some .string ∧
      data.id = .ok key.entityId ∧ table.Restores store.lib data
  | .overwrite key data => ∃ e, store.get db site key = .ok (some e) ∧ e.untyped = data.stored
  | .remove _ => False

variable {store : DeploymentStore} {db : Database} {site : Site} {ptr : BlockPtr}
  {mods : List EntityModification} {dataSources : List StoredDynamicDataSource}

theorem transacted_of_kept (hp : ptr.number ≤ blockNumberMax)
    (hok : (store.transactBlockOperations db site ptr mods dataSources).1 = .ok ())
    (hk : ∀ m ∈ mods, store.Kept db site m) :
    Transacted site.deployment mods (store.get db site)
      (store.get (store.transactBlockOperations db site ptr mods dataSources).2 site) := by
  obtain ⟨layout, hc, hl, hs, hin⟩ := inserted_of_transact hok
  -- a row that was inserted is stored under the id of its key
  have hce : ∀ {x : EntityKey × Entity} {ta : Table} {row : Row}, .insert x.1 x.2 ∈ mods →
      layout.tables.lookup x.1.entityType = some ta →
      ta.Writes store.lib ptr.number x.2 row → ta.idType = some .string ∧
        row.cell primaryKeyColumn = .scalar (.text x.1.entityId) ∧
        ta.Restores store.lib x.2 := by
    intro x ta row hx hta hw
    obtain ⟨l', t', hl', ht', hid, hda, hr⟩ := hk _ hx
    obtain rfl := Except.ok.inj (hl.symm.trans hl')
    obtain rfl := Option.some.inj (hta.symm.trans ht')
    exact ⟨hid, hw.cell_id (layout.deployed hta) hid hda, hr⟩
  constructor
  · intro m data hm hda
    cases m with
    | insert key data' =>
      obtain rfl := Option.some.inj hda
      obtain ⟨ta, row, hta, hw, hf⟩ := hin.find_of_insert hp (x := (key, data')) hm
      obtain ⟨hid, hro, hr⟩ := hce (x := (key, data')) hm hta hw
      have hde := layout.deployed hta
      have ht := layout.lookup_object hta
      obtain ⟨e, he, heq⟩ := (hw.read_iff hde ht).mpr hr
      refine ⟨e, (get_eq_ok hc hl).mpr ((hf key.entityId ?_ e).mpr he), heq⟩
      rw [ta.bindId_string hid, hro]
    | overwrite key data' =>
      cases hda
      obtain ⟨e, he, heq⟩ := hk _ hm
      exact ⟨e, (get_eq_ok hc hl).mpr
        (hin.find_of_some ((get_eq_ok hc hl).mp he)), heq⟩
    | remove key => exact (hk _ hm).elim
  · intro key hm
    exact (hk _ hm).elim
  · intro key hke hn
    refine get_congr hc hl (hin.find_of_ne ?_)
    intro x ta row d hx hty hta hw hd hro
    obtain ⟨hid, hce, -⟩ := hce hx (hty ▸ hta) hw
    rw [ta.bindId_string hid] at hd
    rw [hce, ← Outcome.ok.inj hd] at hro
    refine hn _ hx ?_
    have hi : x.1.indexerId = key.indexerId := (hs _ hx).trans hke.symm
    have hen : x.1.entityId = key.entityId := by
      injection hro with hro
      injection hro
    calc x.1 = ⟨x.1.indexerId, x.1.entityType, x.1.entityId⟩ := rfl
      _ = key := by rw [hi, hty, hen]

variable {key : EntityKey}

theorem exists_unmentioned_key {layout : DeployedLayout} {ta : Table}
    (ht : layout.tables.lookup key.entityType = some ta) (hid : ta.idType = some .bytes)
    (lib : Libraries) (mods : List EntityModification) :
    ∃ key' : EntityKey, key'.indexerId = key.indexerId ∧ (∀ m ∈ mods, m.entityKey ≠ key') ∧
      ∀ tables, layout.find lib tables key'.entityType key'.entityId blockNumberMax
        = layout.find lib tables key.entityType key.entityId blockNumberMax := by
  let spelled (n : ℕ) : EntityKey := { key with entityId := Bytes.hexAlias key.entityId n }
  have hi : Function.Injective spelled := fun m n h =>
    Bytes.hexAlias_injective key.entityId (congrArg EntityKey.entityId h)
  -- the block mentions finitely many keys
  obtain ⟨key', ⟨n, rfl⟩, hn⟩ := (Set.infinite_range_of_injective hi).exists_notMem_finset
    (mods.map EntityModification.entityKey).toFinset
  refine ⟨spelled n, rfl, fun m hm he => hn ?_, fun tables => ?_⟩
  · rw [mem_toFinset, ← he]
    exact mem_map_of_mem hm
  · rw [Layout.find_blockNumberMax, Layout.find_blockNumberMax]
    refine Outcome.bind_congr fun table' htable' => ?_
    replace htable' := Layout.tableForEntity_eq_ok.mp (ofExcept_eq_ok.mp htable')
    obtain rfl := Option.some.inj (ht.symm.trans htable')
    rw [ta.bindId_hexAlias hid]

theorem kept_of_transacted_insert (hp : ptr.number ≤ blockNumberMax)
    (hok : (store.transactBlockOperations db site ptr mods dataSources).1 = .ok ())
    {data : Entity} (hm : .insert key data ∈ mods) (hab : store.get db site key = .ok none)
    (h : Transacted site.deployment mods (store.get db site)
      (store.get (store.transactBlockOperations db site ptr mods dataSources).2 site)) :
    store.Kept db site (.insert key data) := by
  obtain ⟨layout, hc, hl, hs, hi⟩ := inserted_of_transact hok
  obtain ⟨table, row, hta, hw, hf⟩ := hi.find_of_insert hp (x := (key, data)) hm
  replace hta : layout.tables.lookup key.entityType = some table := hta
  have hde := layout.deployed hta
  have ht := layout.lookup_object hta
  obtain ⟨e, he, heq⟩ := h.written hm rfl
  have ha : layout.find store.lib
      (store.transactBlockOperations db site ptr mods dataSources).2.tables key.entityType
      key.entityId blockNumberMax = .ok (some e) := (get_eq_ok hc hl).mp he
  rcases hde.idType_cases with hid | hid
  · -- the version that is found has the id of the key, and so has the data
    have hda : data.id = .ok key.entityId := by
      obtain ⟨t', d, ht', hd, hr⟩ := Layout.find_eq_ok.mp ha
      obtain rfl := Option.some.inj (hta.symm.trans ht')
      rw [table.bindId_string hid] at hd
      cases hd
      obtain ⟨row', hr', hr⟩ := Layout.readVersion_eq_some.mp hr
      have hce := (VersionedTable.find?_eq_some.mp hr').2.1
      have hide := Row.id_read hde ht hid hce hr
      rw [← Entity.id_stored, ← heq, Entity.id_untyped]
      exact hide
    have hro := hw.cell_id hde hid hda
    have hr := (hf key.entityId (by rw [table.bindId_string hid, hro]) e).mp ha
    exact ⟨layout, table, hl, hta, hid, hda,
      (hw.read_iff hde ht).mp ⟨e, hr, heq⟩⟩
  · exfalso
    obtain ⟨key', hk', hn, hal⟩ := exists_unmentioned_key hta hid store.lib mods
    have hfr := h.frame (hk'.trans (hs _ hm)) hn
    have hb : store.get db site key' = .ok none := by
      rw [get_eq_ok hc hl, hal]
      exact (get_eq_ok hc hl).mp hab
    rw [hb, get_eq_ok hc hl, hal, ha] at hfr
    cases Outcome.ok.inj hfr

/-- **When the changes of a block are seen.** A block inserts entities that are not there, and
overwrites or removes entities that are. -/
theorem transacted_iff (hptr : ptr.number ≤ blockNumberMax)
    (habsent : ∀ key data, .insert key data ∈ mods → store.get db site key = .ok none)
    (hoverwrite : ∀ key data, .overwrite key data ∈ mods →
      ∃ e, store.get db site key = .ok (some e))
    (hremove : ∀ key, .remove key ∈ mods → ∃ e, store.get db site key = .ok (some e))
    (hok : (store.transactBlockOperations db site ptr mods dataSources).1 = .ok ()) :
    Transacted site.deployment mods (store.get db site)
        (store.get (store.transactBlockOperations db site ptr mods dataSources).2 site) ↔
      ∀ m ∈ mods, store.Kept db site m := by
  refine ⟨fun h m hm => ?_, transacted_of_kept hptr hok⟩
  obtain ⟨layout, hc, hl, -, hi⟩ := inserted_of_transact hok
  have hs : ∀ {key e}, store.get db site key = .ok (some e) →
      store.get (store.transactBlockOperations db site ptr mods dataSources).2 site key
        = .ok (some e) := fun he =>
    (get_eq_ok hc hl).2 (hi.find_of_some ((get_eq_ok hc hl).1 he))
  cases m with
  | insert key data => exact kept_of_transacted_insert hptr hok hm (habsent key data hm) h
  | overwrite key data =>
    obtain ⟨e, he⟩ := hoverwrite key data hm
    obtain ⟨e', he', heq⟩ := h.written hm rfl
    obtain rfl := Option.some.inj (Outcome.ok.inj ((hs he).symm.trans he'))
    exact ⟨e, he, heq⟩
  | remove key =>
    obtain ⟨e, he⟩ := hremove key hm
    have hnone := (hs he).symm.trans (h.removed hm)
    cases Outcome.ok.inj hnone

section Token

open EntityCache (token tokenKey)

def tokenColumns : List Column :=
  [⟨"id", "id", .nonNullType (.namedType "ID"), .string⟩,
    ⟨"owner", "owner", .namedType "String", .string⟩]

def tokenTable : Table := ⟨"Token", "\"sgd1\".\"token\"", tokenColumns, false⟩

theorem deployed_tokenTable : tokenTable.Deployed where
  names_nodup := by decide
  fields_nodup := by decide
  exists_id := ⟨⟨"id", "id", .nonNullType (.namedType "ID"), .string⟩, by decide, rfl, rfl, rfl,
    .inl rfl⟩
  name_ne_blockRange := by decide
  name_ne_parentId := by decide

theorem lookup_tokenTable {t : EntityType} {ta : Table}
    (h : ((∅ : HashMap EntityType Table).insert "Token" tokenTable).lookup t = some ta) :
    t = "Token" ∧ ta = tokenTable := by
  by_cases ht : t = "Token"
  · subst ht
    exact ⟨rfl, (Option.some.inj h).symm⟩
  · rw [Finmap.lookup_insert_of_ne _ ht] at h
    cases h

def tokenLayout : DeployedLayout where
  tables := (∅ : HashMap EntityType Table).insert "Token" tokenTable
  object_eq h := by
    obtain ⟨rfl, rfl⟩ := lookup_tokenTable h
    rfl
  deployed h := by
    obtain ⟨rfl, rfl⟩ := lookup_tokenTable h
    exact deployed_tokenTable
  qualifiedName_inj h h' _ := (lookup_tokenTable h).1.trans (lookup_tokenTable h').1.symm

def tokenLibraries : Libraries where
  castNumeric s := .ok s
  coerce _ _ := .error "can not be converted"
  number s := ⟨s, none⟩
  bigDecimalToString d := toString d.digits
  bigDecimalFromStr _ := .error "not a number"
  bigIntFromStr _ := .error "not a number"
  debugHash _ := ""
  debugNumber _ := ""

noncomputable def tokenStore (groups : List ((_ : EntityType) × List (EntityKey × Entity))) :
    DeploymentStore where
  lib := tokenLibraries
  conn := .ok ()
  layout _ := .ok tokenLayout
  groupOrder := .prefer groups
  columnOrder := .prefer (tokenColumns.map fun c => ⟨c.name, c⟩)

def tokenSite : Site := ⟨"QmIndexer"⟩

def tokenDatabase (rows : EntityTable) : Database where
  tables name := if name = tokenTable.qualifiedName then rows else .empty
  deployments := [⟨"QmIndexer", some (List.replicate 32 0), some 5⟩]
  dynamicDataSources := []

def aliceRows : EntityTable where
  rows := [⟨[("id", .scalar (.text "0x1")), ("owner", .scalar (.text "alice"))], .since 5⟩]
  exclusive := pairwise_singleton _ _

noncomputable def tokenGet (db : Database) :
    EntityKey → Outcome QueryExecutionError (Option Entity) :=
  (tokenStore []).get db tokenSite

noncomputable def tokenTransact (groups : List ((_ : EntityType) × List (EntityKey × Entity)))
    (rows : EntityTable) (mods : List EntityModification) : Outcome StoreError Unit × Database :=
  (tokenStore groups).transactBlockOperations (tokenDatabase rows) tokenSite
    ⟨List.replicate 32 1, 6⟩ mods []

theorem overwrite_and_remove_lost :
    (tokenDatabase aliceRows).blockPtr tokenLibraries "QmIndexer"
        = .ok (some ⟨List.replicate 32 0, 5⟩) ∧
      tokenGet (tokenDatabase aliceRows) tokenKey
        = .ok (some ((token (.string "alice")).typed "Token")) ∧
      ∀ m ∈ [EntityModification.overwrite tokenKey (token (.string "bob")), .remove tokenKey],
        (tokenTransact [] aliceRows [m]).1 = .ok () ∧
          tokenGet (tokenTransact [] aliceRows [m]).2 tokenKey
            = .ok (some ((token (.string "alice")).typed "Token")) ∧
          ¬ Transacted "QmIndexer" [m] (tokenGet (tokenDatabase aliceRows))
            (tokenGet (tokenTransact [] aliceRows [m]).2) := by
  have hl : ∀ m ∈ [EntityModification.overwrite tokenKey (token (.string "bob")),
      .remove tokenKey], (tokenTransact [] aliceRows [m]).1.value? = some () ∧
        (tokenGet (tokenTransact [] aliceRows [m]).2 tokenKey).value?
          = some (some ((token (.string "alice")).typed "Token")) := by
    decide
  refine ⟨value?_eq_some.1 (by decide), value?_eq_some.1 (by decide), ?_⟩
  intro m hm
  obtain ⟨hok, hg⟩ := hl m hm
  rw [value?_eq_some] at hok hg
  refine ⟨hok, hg, fun h => ?_⟩
  simp only [mem_cons, not_mem_nil, or_false] at hm
  rcases hm with rfl | rfl
  · obtain ⟨e, he, heq⟩ := h.written mem_cons_self rfl
    obtain rfl := Option.some.inj (Outcome.ok.inj (hg.symm.trans he))
    exact absurd heq (by decide)
  · cases Outcome.ok.inj (hg.symm.trans (h.removed mem_cons_self))

def bobGroup : (_ : EntityType) × List (EntityKey × Entity) :=
  ⟨"Token", [(tokenKey, token (.string "bob"))]⟩

theorem restores_bob : tokenTable.Restores tokenLibraries (token (.string "bob")) where
  exists_column := by
    intro a v h
    by_contra hn
    have hid : a ≠ "id" := fun ha => hn ⟨_, mem_cons_self, ha.symm⟩
    have ho : a ≠ "owner" := fun ha =>
      hn ⟨_, mem_cons_of_mem _ mem_cons_self, ha.symm⟩
    have hl : (token (.string "bob")).lookup a = none := by
      show (((∅ : Entity).insert "id" (.string "0x1")).insert "owner" (.string "bob")).lookup a = _
      rw [Finmap.lookup_insert_of_ne _ ho, Finmap.lookup_insert_of_ne _ hid]
      exact Finmap.lookup_empty a
    rw [Entity.lookup_stored, hl] at h
    simp at h
  roundTrip := by
    intro c v hc hv
    have hs : c.columnType = .string ∧ c.isList = false ∧ ∃ s, v = .string s := by
      simp only [tokenTable, tokenColumns, mem_cons, not_mem_nil, or_false] at hc
      rcases hc with rfl | rfl
      · exact ⟨rfl, rfl, "0x1", (Option.some.inj hv).symm⟩
      · exact ⟨rfl, rfl, "bob", (Option.some.inj hv).symm⟩
    obtain ⟨ht, hli, s, rfl⟩ := hs
    exact ⟨_, Column.roundTrip_string ht hli s, fun _ => rfl⟩

theorem transacted_bob :
    (tokenTransact [bobGroup] .empty [.insert tokenKey (token (.string "bob"))]).1 = .ok () ∧
      Transacted "QmIndexer" [.insert tokenKey (token (.string "bob"))]
        (tokenGet (tokenDatabase .empty))
        (tokenGet (tokenTransact [bobGroup] .empty
          [.insert tokenKey (token (.string "bob"))]).2) := by
  have hok : (tokenTransact [bobGroup] .empty [.insert tokenKey (token (.string "bob"))]).1
      = .ok () := value?_eq_some.mp (by decide)
  have ha : (tokenStore [bobGroup]).get (tokenDatabase .empty) tokenSite tokenKey = .ok none :=
    value?_eq_some.mp (by decide)
  refine ⟨hok, (transacted_iff (by decide) ?_ ?_ ?_ hok).mpr ?_⟩
  · intro key data hm
    obtain ⟨rfl, rfl⟩ := EntityModification.insert.inj (mem_singleton.mp hm)
    exact ha
  · intro key data hm
    cases mem_singleton.mp hm
  · intro key hm
    cases mem_singleton.mp hm
  · intro m hm
    obtain rfl := mem_singleton.mp hm
    exact ⟨tokenLayout, tokenTable, rfl, Finmap.lookup_insert _, rfl, rfl, restores_bob⟩

end Token

end DeploymentStore

end Massbit
