/-
The creation of a deployment in its shard (`deployment_store.rs`, `deployment.rs`).
-/
import Massbit.Postgres.DeploymentStore
import Massbit.Postgres.Schema

open List

namespace Massbit

abbrev DeploymentId := ℤ

abbrev Shard := String

structure Primary.Site extends Massbit.Site where
  id : DeploymentId
  shard : Shard
  nsp : Namespace
  network : String
  deriving DecidableEq, Repr

structure IndexerManifestEntity where
  specVersion : String
  description : Option String
  repository : Option String
  schema : String
  features : List String
  deriving DecidableEq, Repr

/-- An `IndexerDeploymentEntity` with its manifest. -/
structure DeploymentEntity where
  manifest : IndexerManifestEntity
  earliestBlock : Option BlockPtr
  latestBlock : Option BlockPtr
  deriving DecidableEq, Repr

structure DeploymentRow extends IndexerDeployment where
  id : DeploymentId
  earliestEthereumBlockHash : Option Bytes
  earliestEthereumBlockNumber : Option ℤ
  entityCount : ℤ
  deriving DecidableEq, Repr

structure ManifestRow extends IndexerManifestEntity where
  id : DeploymentId
  deriving DecidableEq, Repr

/-- The part of a shard that the creation of deployments is about, with its constraints. -/
structure ShardDatabase where
  deployments : List DeploymentRow
  manifests : List ManifestRow
  schemas : HashMap Namespace DatabaseSchema
  indexer_deployment_pkey : (deployments.map DeploymentRow.id).Nodup
  indexer_deployment_id_key : (deployments.map fun row => row.deployment).Nodup
  indexer_manifest_pkey : (manifests.map ManifestRow.id).Nodup

inductive Access where
  | getConn
  | countDeployments
  | writeDeployment
  | writeManifest
  | createSchema
  | textColumns
  | batchExecute
  | commit
  deriving DecidableEq, Repr

abbrev Faults := Access → Option StoreError

def Faults.check (faults : Faults) (access : Access) : Outcome StoreError Unit :=
  match faults access with
  | none => .ok ()
  | some e => .err e

namespace ShardDatabase

def empty : ShardDatabase where
  deployments := []
  manifests := []
  schemas := ∅
  indexer_deployment_pkey := .nil
  indexer_deployment_id_key := .nil
  indexer_manifest_pkey := .nil

def uniqueViolation (constraint : String) : StoreError :=
  .unknown ("duplicate key value violates unique constraint \"" ++ constraint ++ "\"")

def setDeployments (self : ShardDatabase) (rows : List DeploymentRow) :
    Outcome StoreError ShardDatabase :=
  if hpkey : (rows.map DeploymentRow.id).Nodup then
    if hkey : (rows.map fun row => row.deployment).Nodup then
      .ok { self with
        deployments := rows
        indexer_deployment_pkey := hpkey
        indexer_deployment_id_key := hkey }
    else .err (uniqueViolation "indexer_deployment_id_key")
  else .err (uniqueViolation "indexer_deployment_pkey")

def setManifests (self : ShardDatabase) (rows : List ManifestRow) :
    Outcome StoreError ShardDatabase :=
  if hpkey : (rows.map ManifestRow.id).Nodup then
    .ok { self with
      manifests := rows
      indexer_manifest_pkey := hpkey }
  else .err (uniqueViolation "indexer_manifest_pkey")

def createSchema (self : ShardDatabase) (nsp : Namespace) : Outcome StoreError ShardDatabase :=
  if nsp ∈ self.schemas then .err (DatabaseSchema.alreadyExists "schema" nsp)
  else .ok { self with schemas := self.schemas.insert nsp .empty }

def transaction {A : Type} (faults : Faults)
    (body : ShardDatabase → Outcome StoreError (A × ShardDatabase)) (self : ShardDatabase) :
    Outcome StoreError A × ShardDatabase :=
  match body self with
  | .ok result =>
    match faults .commit with
    | none => (.ok result.1, result.2)
    | some e => (.err e, self)
  | .err e => (.err e, self)
  | .panic => (.panic, self)

variable {fs : Faults} {db : ShardDatabase} {A : Type}

theorem transaction_eq_ok {body : ShardDatabase → Outcome StoreError (A × ShardDatabase)} {a : A}
    (h : (transaction fs body db).1 = .ok a) :
    body db = .ok (a, (transaction fs body db).2) := by
  rw [transaction] at h ⊢
  rcases e : body db with r | er | -
  · rw [e] at h
    cases hc : fs .commit with
    | none =>
      simp only [hc] at h ⊢
      cases h
      rfl
    | some er =>
      simp only [hc] at h
      cases h
  · rw [e] at h
    cases h
  · rw [e] at h
    cases h

theorem transaction_eq_panic {body : ShardDatabase → Outcome StoreError (A × ShardDatabase)}
    (h : (transaction fs body db).1 = .panic) : body db = .panic := by
  rw [transaction] at h
  rcases e : body db with r | error | -
  · rw [e] at h
    cases hcommit : fs .commit <;> simp only [hcommit] at h <;> cases h
  · rw [e] at h
    cases h
  · rfl

theorem transaction_eq_self {body : ShardDatabase → Outcome StoreError (A × ShardDatabase)}
    (h : ∀ a, (transaction fs body db).1 ≠ .ok a) : (transaction fs body db).2 = db := by
  rw [transaction] at h ⊢
  rcases e : body db with r | error | -
  · rw [e] at h
    cases hcommit : fs .commit with
    | none =>
      simp only [hcommit] at h
      exact absurd rfl (h r.1)
    | some error => simp only
  · rfl
  · rfl

/-- The deployment of the site is stored: the row with its metadata, and a schema of the database
with one table for each entity type. -/
structure Stores (db : ShardDatabase) (site : Primary.Site) (schema : Schema) : Prop where
  exists_row : ∃ row ∈ db.deployments, row.id = site.id
  exists_schema : ∃ tables, db.schemas.lookup site.nsp = some tables ∧ tables.HasTablesFor schema

end ShardDatabase

namespace Deployment

variable (faults : Faults) (site : Primary.Site)

def isStored (db : ShardDatabase) : Outcome StoreError Bool := do
  faults.check .countDeployments
  return decide (0 < db.deployments.countP fun row => row.id = site.id)

def deploymentValues (deployment : DeploymentEntity) : DeploymentRow where
  id := site.id
  deployment := site.deployment
  earliestEthereumBlockHash := deployment.earliestBlock.map BlockPtr.hash
  earliestEthereumBlockNumber := deployment.earliestBlock.map BlockPtr.number
  latestEthereumBlockHash := deployment.latestBlock.map BlockPtr.hash
  latestEthereumBlockNumber := deployment.latestBlock.map BlockPtr.number
  entityCount := 0

def manifestValues (deployment : DeploymentEntity) : ManifestRow :=
  { deployment.manifest with id := site.id }

def createDeployment (deployment : DeploymentEntity) (stored replace : Bool)
    (db : ShardDatabase) : Outcome StoreError ShardDatabase := do
  let values := deploymentValues site deployment
  let manifest := manifestValues site deployment
  if stored && replace then
    faults.check .writeDeployment
    let db ← db.setDeployments (db.deployments.map fun row =>
      if row.deployment = site.deployment then values else row)
    faults.check .writeManifest
    db.setManifests (db.manifests.map fun row => if row.id = site.id then manifest else row)
  else
    faults.check .writeDeployment
    let db ← db.setDeployments (db.deployments ++ [values])
    faults.check .writeManifest
    db.setManifests (db.manifests ++ [manifest])

end Deployment

namespace DeploymentStore

variable (config : LayoutConfig) (faults : Faults) (schema : Schema)
  (deployment : DeploymentEntity) (site : Primary.Site) (replace : Bool)

def createTables (db : ShardDatabase) : Outcome StoreError (SchemaLayout × ShardDatabase) := do
  faults.check .createSchema
  let db ← db.createSchema site.nsp
  faults.check .textColumns
  let (layout, tables) ← createRelationalSchema config site.nsp schema .empty
  faults.check .batchExecute
  return (layout, { db with schemas := db.schemas.insert site.nsp tables })

def createDeploymentBody (db : ShardDatabase) :
    Outcome StoreError (Option SchemaLayout × ShardDatabase) := do
  let stored ← Deployment.isStored faults site db
  let db ← (if replace || !stored then
      Deployment.createDeployment faults site deployment stored replace db
    else pure db : Outcome StoreError ShardDatabase)
  if stored then return (none, db)
  else
    let (layout, db) ← createTables config faults schema site db
    return (some layout, db)

def createDeploymentTransaction (db : ShardDatabase) :
    Outcome StoreError (Option SchemaLayout) × ShardDatabase :=
  db.transaction faults (createDeploymentBody config faults schema deployment site replace)

def createDeployment (db : ShardDatabase) :
    Outcome StoreError Unit × Option SchemaLayout × ShardDatabase :=
  match faults .getConn with
  | some e => (.err e, none, db)
  | none =>
    let (result, db) := createDeploymentTransaction config faults schema deployment site replace db
    match result with
    | .ok layout => (.ok (), layout, db)
    | .err _ => (.ok (), none, db)
    | .panic => (.panic, none, db)

end DeploymentStore

namespace ShardDatabase

variable {db db' : ShardDatabase}

theorem setDeployments_eq_ok {rows : List DeploymentRow} (h : db.setDeployments rows = .ok db') :
    db'.deployments = rows ∧ db'.manifests = db.manifests ∧ db'.schemas = db.schemas := by
  rw [setDeployments] at h
  split at h
  · split at h
    · cases h
      exact ⟨rfl, rfl, rfl⟩
    · cases h
  · cases h

theorem setManifests_eq_ok {rows : List ManifestRow} (h : db.setManifests rows = .ok db') :
    db'.deployments = db.deployments ∧ db'.manifests = rows ∧ db'.schemas = db.schemas := by
  rw [setManifests] at h
  split at h
  · cases h
    exact ⟨rfl, rfl, rfl⟩
  · cases h

theorem createSchema_eq_ok {nsp : Namespace} (h : db.createSchema nsp = .ok db') :
    db'.deployments = db.deployments ∧ db'.schemas = db.schemas.insert nsp .empty := by
  rw [createSchema] at h
  split at h
  · cases h
  · cases h
    exact ⟨rfl, rfl⟩

end ShardDatabase

section

variable {c : LayoutConfig} {fs : Faults} {schema : Schema}
  {d : DeploymentEntity} {site : Primary.Site} {r : Bool}
  {db db' : ShardDatabase}

namespace Deployment

theorem isStored_eq_ok {s : Bool} (h : isStored fs site db = .ok s) :
    s = true ↔ ∃ row ∈ db.deployments, row.id = site.id := by
  obtain ⟨-, -, rfl⟩ := bind_pure_eq_ok.1 h
  simp [countP_pos_iff]

theorem createDeployment_eq_ok {s : Bool} (h : createDeployment fs site d s r db = .ok db')
    (hst : s = true → ∃ row ∈ db.deployments, row.id = site.id) :
    (∃ row ∈ db'.deployments, row.id = site.id) ∧ db'.schemas = db.schemas := by
  rw [createDeployment] at h
  split at h
  next hr =>
    obtain ⟨-, -, h⟩ := bind_eq_ok.1 h
    obtain ⟨db₁, h₁, h⟩ := bind_eq_ok.1 h
    obtain ⟨-, -, h⟩ := bind_eq_ok.1 h
    obtain ⟨hro, -, hs⟩ := ShardDatabase.setDeployments_eq_ok h₁
    obtain ⟨hr', -, hs'⟩ := ShardDatabase.setManifests_eq_ok h
    refine ⟨?_, hs'.trans hs⟩
    -- the row for the id is still there, if under new values
    obtain ⟨row, hrw, hid⟩ := hst (Bool.and_eq_true_iff.1 hr).1
    rw [hr', hro]
    refine ⟨_, mem_map_of_mem hrw, ?_⟩
    split
    · rfl
    · exact hid
  next =>
    obtain ⟨-, -, h⟩ := bind_eq_ok.1 h
    obtain ⟨db₁, h₁, h⟩ := bind_eq_ok.1 h
    obtain ⟨-, -, h⟩ := bind_eq_ok.1 h
    obtain ⟨hro, -, hs⟩ := ShardDatabase.setDeployments_eq_ok h₁
    obtain ⟨hr', -, hs'⟩ := ShardDatabase.setManifests_eq_ok h
    refine ⟨?_, hs'.trans hs⟩
    rw [hr', hro]
    exact ⟨_, mem_append_right _ (mem_singleton_self _), rfl⟩

end Deployment

namespace DeploymentStore

theorem createTables_eq_ok {layout : SchemaLayout}
    (h : createTables c fs schema site db = .ok (layout, db')) :
    db'.deployments = db.deployments ∧
      ∃ ts, db'.schemas.lookup site.nsp = some ts ∧ ts.HasTablesFor schema := by
  obtain ⟨-, -, h⟩ := bind_eq_ok.1 h
  obtain ⟨db₁, h₁, h⟩ := bind_eq_ok.1 h
  obtain ⟨-, -, h⟩ := bind_eq_ok.1 h
  obtain ⟨⟨layout, ts⟩, ht, h⟩ := bind_eq_ok.1 h
  obtain ⟨-, -, h⟩ := bind_eq_ok.1 h
  cases h
  exact ⟨(ShardDatabase.createSchema_eq_ok h₁).1, ts, Finmap.lookup_insert _,
    createRelationalSchema_eq_ok ht⟩

section

variable {layout : Option SchemaLayout}
  (h : createDeploymentBody c fs schema d site r db = .ok (layout, db'))

include h

theorem createDeploymentBody_of_stored (hro : ∃ row ∈ db.deployments, row.id = site.id) :
    (∃ row ∈ db'.deployments, row.id = site.id) ∧ db'.schemas = db.schemas := by
  obtain ⟨s, hs, h⟩ := bind_eq_ok.1 h
  obtain ⟨db₁, hr, h⟩ := bind_eq_ok.1 h
  obtain rfl : s = true := (Deployment.isStored_eq_ok hs).2 hro
  obtain ⟨-, rfl⟩ := Prod.mk.inj (Outcome.ok.inj h)
  cases r with
  | false =>
    obtain rfl : db = db₁ := Outcome.ok.inj hr
    exact ⟨hro, rfl⟩
  | true => exact Deployment.createDeployment_eq_ok (by simpa using hr) fun _ => hro

theorem createDeploymentBody_of_not_stored (hro : ¬∃ row ∈ db.deployments, row.id = site.id) :
    db'.Stores site schema := by
  obtain ⟨s, hs, h⟩ := bind_eq_ok.1 h
  obtain ⟨db₁, hr, h⟩ := bind_eq_ok.1 h
  obtain rfl : s = false :=
    Bool.eq_false_iff.2 fun e => hro ((Deployment.isStored_eq_ok hs).1 e)
  have hn : Deployment.createDeployment fs site d false r db = .ok db₁ := by
    simpa using hr
  obtain ⟨hr', -⟩ := Deployment.createDeployment_eq_ok hn nofun
  obtain ⟨⟨layout, db₂⟩, ht, h⟩ := bind_eq_ok.1 h
  obtain ⟨-, rfl⟩ := Prod.mk.inj (Outcome.ok.inj h)
  obtain ⟨hd, hsc⟩ := createTables_eq_ok ht
  exact ⟨hd ▸ hr', hsc⟩

end

theorem createDeploymentBody_ne_panic (hr : ∃ row ∈ db.deployments, row.id = site.id) :
    createDeploymentBody c fs schema d site r db ≠ .panic := by
  have hc : ∀ a, fs.check a ≠ .panic := by
    intro a
    rw [Faults.check]
    split <;> nofun
  have hd : ∀ (db : ShardDatabase) rows, db.setDeployments rows ≠ .panic := by
    intro db rows
    rw [ShardDatabase.setDeployments]
    split
    · split <;> nofun
    · nofun
  have hm : ∀ (db : ShardDatabase) rows, db.setManifests rows ≠ .panic := by
    intro db rows
    rw [ShardDatabase.setManifests]
    split <;> nofun
  refine bind_ne_panic (bind_ne_panic (hc _) nofun) fun s hs => ?_
  obtain rfl : s = true := (Deployment.isStored_eq_ok hs).2 hr
  refine bind_ne_panic ?_ nofun
  refine ite_ne_panic (fun _ => ?_) nofun
  refine ite_ne_panic (fun _ => ?_) (fun _ => ?_)
  · refine bind_ne_panic (hc _) fun _ _ => ?_
    refine bind_ne_panic (hd _ _) fun _ _ => ?_
    exact bind_ne_panic (hc _) fun _ _ => hm _ _
  · refine bind_ne_panic (hc _) fun _ _ => ?_
    refine bind_ne_panic (hd _ _) fun _ _ => ?_
    exact bind_ne_panic (hc _) fun _ _ => hm _ _

end DeploymentStore

end

namespace DeploymentStore

section

variable (config : LayoutConfig) (faults : Faults) (schema : Schema)
  (deployment : DeploymentEntity) (site : Primary.Site) (replace : Bool)
  (db : ShardDatabase)

/-- `Ok` means that the deployment is stored; the errors of the transaction are returned, and leave
nothing behind. -/
structure KeepsContract : Prop where
  stores : (createDeployment config faults schema deployment site replace db).1 = .ok () →
    (createDeployment config faults schema deployment site replace db).2.2.Stores site schema
  returns_error : faults .getConn = none → ∀ {e},
    (createDeploymentTransaction config faults schema deployment site replace db).1 = .err e →
    (createDeployment config faults schema deployment site replace db).1 = .err e
  leaves_nothing : (∀ layout,
      (createDeploymentTransaction config faults schema deployment site replace db).1 ≠ .ok layout) →
    (createDeployment config faults schema deployment site replace db).2.2 = db

end

variable {config : LayoutConfig} {faults : Faults} {schema : Schema}
  {deployment : DeploymentEntity} {site : Primary.Site} {replace : Bool}
  {db : ShardDatabase}

theorem createDeployment_snd (hc : faults .getConn = none) :
    (createDeployment config faults schema deployment site replace db).2.2 =
      (createDeploymentTransaction config faults schema deployment site replace db).2 := by
  simp only [createDeployment, hc]
  cases (createDeploymentTransaction config faults schema deployment site replace db).1 <;> rfl

theorem createDeployment_fst (hc : faults .getConn = none) :
    (createDeployment config faults schema deployment site replace db).1 = .ok () ↔
      (createDeploymentTransaction config faults schema deployment site replace db).1 ≠ .panic := by
  simp only [createDeployment, hc]
  cases (createDeploymentTransaction config faults schema deployment site replace db).1 <;> simp

theorem createDeployment_leaves_nothing (h : ∀ layout,
      (createDeploymentTransaction config faults schema deployment site replace db).1 ≠ .ok layout) :
    (createDeployment config faults schema deployment site replace db).2.2 = db := by
  cases hc : faults .getConn with
  | none =>
    rw [createDeployment_snd hc]
    exact ShardDatabase.transaction_eq_self h
  | some e => simp only [createDeployment, hc]

theorem createDeploymentTransaction_stores {layout : Option SchemaLayout}
    (h : (createDeploymentTransaction config faults schema deployment site replace db).1 =
      .ok layout) :
    (createDeploymentTransaction config faults schema deployment site replace db).2.Stores
      site schema ↔ ((∃ row ∈ db.deployments, row.id = site.id) → db.Stores site schema) := by
  have hb := ShardDatabase.transaction_eq_ok h
  by_cases hro : ∃ row ∈ db.deployments, row.id = site.id
  · obtain ⟨hr', hsc⟩ := createDeploymentBody_of_stored hb hro
    exact ⟨fun hs _ => ⟨hro, hsc ▸ hs.exists_schema⟩, fun hs => ⟨hr', hsc ▸ (hs hro).exists_schema⟩⟩
  · exact ⟨fun _ hr => absurd hr hro, fun _ => createDeploymentBody_of_not_stored hb hro⟩

/-- **The contract is kept exactly if the transaction does not fail**, and a row that was there
before came with its schema and tables. -/
theorem createDeployment_keepsContract_iff (config : LayoutConfig) (faults : Faults) (schema : Schema)
    (deployment : DeploymentEntity) (site : Primary.Site) (replace : Bool)
    (db : ShardDatabase) :
    KeepsContract config faults schema deployment site replace db ↔ (faults .getConn = none →
        (∀ e, (createDeploymentTransaction config faults schema deployment site replace db).1 ≠
          .err e) ∧
        ((∃ row ∈ db.deployments, row.id = site.id) → db.Stores site schema)) := by
  constructor
  · intro h hc
    have her : ∀ e, (createDeploymentTransaction config faults schema deployment site replace
        db).1 ≠ .err e := by
      intro e he
      have hok := (createDeployment_fst hc).2 (by rw [he]; nofun)
      rw [h.returns_error hc he] at hok
      cases hok
    refine ⟨her, fun hro => ?_⟩
    cases hr : (createDeploymentTransaction config faults schema deployment site replace db).1 with
    | err e => exact absurd hr (her e)
    | panic =>
      exact absurd (ShardDatabase.transaction_eq_panic hr) (createDeploymentBody_ne_panic hro)
    | ok layout =>
      have hstores := h.stores ((createDeployment_fst hc).mpr (by rw [hr]; nofun))
      rw [createDeployment_snd hc] at hstores
      exact (createDeploymentTransaction_stores hr).mp hstores hro
  · intro h
    refine ⟨fun hok => ?_, fun hc _ he => absurd he ((h hc).1 _), createDeployment_leaves_nothing⟩
    cases hc : faults .getConn with
    | some e => simp only [createDeployment, hc] at hok; cases hok
    | none =>
      obtain ⟨her, hs⟩ := h hc
      rw [createDeployment_snd hc]
      cases hr : (createDeploymentTransaction config faults schema deployment site replace
          db).1 with
      | err e => exact absurd hr (her e)
      | panic => exact absurd hr ((createDeployment_fst hc).1 hok)
      | ok layout => exact (createDeploymentTransaction_stores hr).2 hs

def transferSchema : Schema where
  id := "Qm"
  objectTypes := [⟨"Transfer", [⟨"id", .nonNullType (.namedType "ID"), false⟩]⟩]
  enums := []
  typesForInterface := []

def newDeployment : DeploymentEntity := ⟨⟨"0.0.1", none, none, "", []⟩, none, none⟩

example : ∃ layout, (createDeploymentTransaction ⟨id, []⟩ (fun _ => none) transferSchema
    newDeployment ⟨⟨"Qm"⟩, 1, "primary", "sgd1", "mainnet"⟩ false .empty).1 = .ok layout :=
  ⟨_, rfl⟩

theorem createDeployment_drops_error :
    ∃ (db : ShardDatabase) (site : Primary.Site) (e : StoreError),
      (createDeploymentTransaction ⟨id, []⟩ (fun _ => none) transferSchema newDeployment site false
        db).1 = .err e ∧
      (createDeployment ⟨id, []⟩ (fun _ => none) transferSchema newDeployment site false db).1 =
        .ok () ∧
      ¬(createDeployment ⟨id, []⟩ (fun _ => none) transferSchema newDeployment site false
        db).2.2.Stores site transferSchema := by
  let first : Primary.Site := ⟨⟨"Qm"⟩, 1, "primary", "sgd1", "mainnet"⟩
  let db : ShardDatabase :=
    { ShardDatabase.empty with
      deployments := [Deployment.deploymentValues first newDeployment]
      indexer_deployment_pkey := nodup_singleton _
      indexer_deployment_id_key := nodup_singleton _ }
  refine ⟨db, { first with id := 2, nsp := "sgd2" }, _, rfl, rfl, ?_⟩
  rintro ⟨⟨row, hr, hid⟩, -⟩
  obtain rfl := mem_singleton.1 hr
  exact absurd hid (by decide)

end DeploymentStore

end Massbit
