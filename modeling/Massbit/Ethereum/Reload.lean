/-
The data sources of an indexer that is started again (`loader.rs`, `dynds.rs`,
`instance_manager.rs`): `rebuilt_iff_reloads`.
-/
import Massbit.Ethereum.CallFilter
import Massbit.Ethereum.Chain
import Massbit.Indexer.Created

open List Except

namespace Massbit

variable {lib : EthereumLibraries}

/-- A manifest, as far as its data sources depend on it; they have no creation block. -/
structure IndexerManifest (lib : EthereumLibraries) where
  id : DeploymentHash
  dataSources : List (DataSource lib)
  templates : List (DataSourceTemplate lib)
  schemaErrors : List String
  creationBlock_eq : ∀ ds ∈ dataSources, ds.creationBlock = none

def IndexerManifest.validate (self : IndexerManifest lib) :
    Except (List IndexerManifestValidationError) (IndexerManifest lib) :=
  let networks := ((self.dataSources.filter fun ds => ds.kind = "ethereum/contract").filterMap
    DataSource.network).dedup
  let errors :=
    -- the manifest has at least one data source
    (if self.dataSources.isEmpty then [.noDataSources] else []) ++
    self.dataSources.flatMap DataSource.validate ++
    (match networks.length with
      | 0 => [.ethereumNetworkRequired]
      | 1 => []
      | _ => [.multipleEthereumNetworks]) ++
    (if self.schemaErrors.isEmpty then [] else [.schemaValidationError self.schemaErrors])
  if errors.isEmpty then .ok self else .error errors

def toI32 (x : ℤ) : Option BlockNumber := if i32Min ≤ x ∧ x ≤ i32Max then some x else none

def DynamicEthereumContractDataSource.toStored (self : DynamicEthereumContractDataSource) :
    StoredDynamicDataSource :=
  ⟨self.name, ⟨some self.address, self.abi, self.startBlock⟩, self.context,
    toI32 self.ethereumBlockNumber⟩

def pushOrdered {E A : Type} (creationBlock : A → Option BlockNumber) (e : E) (acc : List A) (a : A) :
    Except E (List A) :=
  if IndexerInstance.creationOrdered (acc.getLast?.bind creationBlock) (creationBlock a) then
    .ok (acc ++ [a])
  else .error e

def Database.loadDynamicDataSources (self : Database) (id : DeploymentHash) :
    Except StoreError (List StoredDynamicDataSource) :=
  let dds := (self.dataSourceRows id).insertionSort fun a b =>
    a.ethereumBlockNumber ≤ b.ethereumBlockNumber
  dds.foldlM (fun dataSources row => pushOrdered StoredDynamicDataSource.creationBlock
    (.constraintViolation "data sources not ordered by creation block") dataSources row.toStored) []

def DeploymentStore.loadDynamicDataSources (self : DeploymentStore) (db : Database)
    (id : DeploymentHash) : Except StoreError (List StoredDynamicDataSource) := do
  let _ ← self.conn
  db.loadDynamicDataSources id

def templateMap (templates : List (DataSourceTemplate lib)) (name : String) :
    Option (DataSourceTemplate lib) :=
  templates.reverse.find? fun template => template.name = name

def loadDynamicDataSources (store : DeploymentStore) (db : Database) (id : DeploymentHash)
    (templates : List (DataSourceTemplate lib)) : Except AnyError (List (DataSource lib)) := do
  let stored ← (store.loadDynamicDataSources db id).mapError fun e => AnyError.msg e.display
  stored.foldlM (fun dataSources stored => do
    let ds ← DataSource.fromStoredDynamicDataSource (templateMap templates) stored
    -- the data sources are ordered by the creation block
    pushOrdered DataSource.creationBlock
      (.msg "Assertion failure: new data source has lower creation block than existing ones")
      dataSources ds) []

def IndexerManifest.allDataSources (self : IndexerManifest lib) (store : DeploymentStore)
    (db : Database) : Except AnyError (List (DataSource lib)) := do
  let dataSources ← withContext "Failed to load dynamic data sources"
    (loadDynamicDataSources store db self.id self.templates)
  return self.dataSources ++ dataSources

namespace IndexerInstance

variable {C : Blockchain} {env : Environment C} {templates : List C.DataSourceTemplate}

def addHost (env : Environment C) (templates : List C.DataSourceTemplate)
    (self : IndexerInstance C) (ds : C.DataSource) : Except AnyError (IndexerInstance C) :=
  match h : self.newHost env templates ds with
  | .error e => .error e
  | .ok host => .ok (self.push host (newHost_indexerId h))

def fromManifest (env : Environment C) (id : DeploymentHash) (templates : List C.DataSourceTemplate)
    (dataSources : List C.DataSource) : Except AnyError (IndexerInstance C) :=
  dataSources.foldlM (addHost env templates) ⟨id, [], nofun⟩

theorem foldlM_addHost :
    ∀ {dso : List C.DataSource} {self inst : IndexerInstance C},
      dso.foldlM (addHost env templates) self = .ok inst →
      ∃ hos : List (RuntimeHost C), inst.hosts = self.hosts ++ hos ∧
        hos.map RuntimeHost.dataSource = dso ∧ ∀ host ∈ hos, host.HasTemplates templates
  | [], self, inst, h => by
    cases h
    exact ⟨[], (append_nil _).symm, rfl, nofun⟩
  | ds :: dso, self, inst, h => by
    rw [foldlM_cons] at h
    obtain ⟨inst₁, ha, h⟩ := bind_eq_ok.1 h
    unfold addHost at ha
    split at ha
    next => cases ha
    next host hn =>
      cases ha
      obtain ⟨hos, hho, hs, ht⟩ := foldlM_addHost h
      have hh := newHost_eq_ok hn
      refine ⟨host :: hos, ?_, ?_, ?_⟩
      · rw [hho]
        exact append_assoc self.hosts [host] hos
      · rw [map_cons, hs, hh]
      · intro host' hm
        rcases mem_cons.1 hm with rfl | hm
        · rw [hh]
          exact ⟨rfl, rfl⟩
        · exact ht host' hm

theorem fromManifest_eq_ok {id : DeploymentHash} {dso : List C.DataSource}
    {inst : IndexerInstance C} (h : fromManifest env id templates dso = .ok inst) :
    inst.hosts.map RuntimeHost.dataSource = dso ∧
      ∀ host ∈ inst.hosts, host.HasTemplates templates := by
  obtain ⟨hos, hh, hs, ht⟩ := foldlM_addHost h
  exact ⟨hh ▸ hs, hh ▸ ht⟩

end IndexerInstance

def startIndexer (order : Finset.IterOrder (BlockNumber × Address)) (store : DeploymentStore)
    (db : Database) (env : Environment (ethereum lib order)) (manifest : IndexerManifest lib) :
    Except AnyError (IndexingContext (ethereum lib order)) := do
  let dataSources ← manifest.allDataSources store db
  let inst ← IndexerInstance.fromManifest env manifest.id manifest.templates dataSources
  return ⟨inst, manifest.templates, TriggerFilter.fromDataSources order dataSources, .new⟩

section

variable {E X A : Type} {creationBlock : A → Option BlockNumber} {e : E}

/-! ### The order of the stored rows -/

def CreatedBefore (creationBlock : A → Option BlockNumber) (a b : A) : Prop :=
  IndexerInstance.creationOrdered (creationBlock a) (creationBlock b) = true

theorem CreatedBefore.trans {a b c : A} (hab : CreatedBefore creationBlock a b)
    (hbc : CreatedBefore creationBlock b c) : CreatedBefore creationBlock a c := by
  unfold CreatedBefore at *
  generalize creationBlock a = x at hab ⊢
  generalize creationBlock b = y at hab hbc
  generalize creationBlock c = z at hbc ⊢
  rcases x with - | x
  · rfl
  · rcases y with - | y
    · cases hab
    · rcases z with - | z
      · cases hbc
      · exact decide_eq_true ((of_decide_eq_true hab).trans (of_decide_eq_true hbc))

theorem pushOrdered_eq_ok {acc r : List A} (ha : acc.Pairwise (CreatedBefore creationBlock))
    {a : A} : pushOrdered creationBlock e acc a = .ok r ↔
      r = acc ++ [a] ∧ r.Pairwise (CreatedBefore creationBlock) := by
  -- what comes after the last element comes after all of them
  have hl : IndexerInstance.creationOrdered (acc.getLast?.bind creationBlock) (creationBlock a)
      = true ↔ ∀ b ∈ acc, CreatedBefore creationBlock b a := by
    rcases eq_nil_or_concat' acc with rfl | ⟨init, last, rfl⟩
    · simp [IndexerInstance.creationOrdered]
    · rw [List.getLast?_concat]
      constructor
      · intro hle b hb
        rcases mem_append.1 hb with hb | hb
        · exact ((pairwise_append.1 ha).2.2 b hb last (mem_singleton_self _)).trans hle
        · rw [mem_singleton.1 hb]
          exact hle
      · intro hal
        exact hal last (mem_append_right _ (mem_singleton_self _))
  unfold pushOrdered
  split
  next hle =>
    constructor
    · intro h
      cases h
      refine ⟨rfl, pairwise_append.2 ⟨ha, pairwise_singleton _ _, ?_⟩⟩
      intro b hb a' ha'
      rw [mem_singleton.1 ha']
      exact hl.1 hle b hb
    · rintro ⟨rfl, -⟩
      rfl
  next hn =>
    refine iff_of_false nofun ?_
    rintro ⟨rfl, hr⟩
    apply hn
    rw [hl]
    intro b hb
    exact (pairwise_append.1 hr).2.2 b hb a (mem_singleton_self _)

theorem foldlM_pushOrdered {f : X → Except E A} :
    ∀ {xs : List X} {acc r : List A}, acc.Pairwise (CreatedBefore creationBlock) →
      (xs.foldlM (fun acc x => f x >>= pushOrdered creationBlock e acc) acc = .ok r ↔
        ∃ ys, List.Forall₂ (fun x y => f x = .ok y) xs ys ∧ r = acc ++ ys ∧
          r.Pairwise (CreatedBefore creationBlock))
  | [], acc, r, ha => by
    rw [foldlM_nil]
    constructor
    · intro h
      cases h
      exact ⟨[], .nil, (append_nil _).symm, ha⟩
    · rintro ⟨ys, hys, rfl, -⟩
      rw [forall₂_nil_left_iff.1 hys, append_nil]
      rfl
  | x :: xs, acc, r, ha => by
    rw [foldlM_cons, Except.bind_eq_ok]
    constructor
    · rintro ⟨acc', hstep, h⟩
      obtain ⟨y, hy, hpush⟩ := Except.bind_eq_ok.mp hstep
      obtain ⟨rfl, hacc'⟩ := (pushOrdered_eq_ok ha).mp hpush
      obtain ⟨ys, hys, rfl, hr⟩ := (foldlM_pushOrdered hacc').mp h
      exact ⟨y :: ys, .cons hy hys, by simp, hr⟩
    · rintro ⟨ys, hys, rfl, hr⟩
      obtain ⟨y, ys, hy, hre, rfl⟩ := forall₂_cons_left_iff.1 hys
      rw [append_cons] at hr ⊢
      have hacc' := (pairwise_append.mp hr).1
      refine ⟨acc ++ [y], Except.bind_eq_ok.mpr ⟨y, hy, (pushOrdered_eq_ok ha).mpr ⟨rfl, hacc'⟩⟩, ?_⟩
      exact (foldlM_pushOrdered hacc').mpr ⟨ys, hre, rfl, hr⟩

end

theorem withContext_eq_ok {A : Type} {m : String} {x : Except AnyError A} {a : A} :
    withContext m x = .ok a ↔ x = .ok a := by
  cases x <;> simp [withContext]

variable {id : DeploymentHash} {db : Database}

theorem Database.loadDynamicDataSources_eq_ok (hs : (db.dataSourceRows id).Pairwise fun a b =>
      a.ethereumBlockNumber ≤ b.ethereumBlockNumber) (hr : ∀ row ∈ db.dataSourceRows id,
      i32Min ≤ row.ethereumBlockNumber ∧ row.ethereumBlockNumber ≤ i32Max) :
    db.loadDynamicDataSources id
      = .ok ((db.dataSourceRows id).map DynamicEthereumContractDataSource.toStored) := by
  unfold loadDynamicDataSources
  rw [hs.insertionSort_eq]
  refine (foldlM_pushOrdered (f := fun row : DynamicEthereumContractDataSource =>
    .ok row.toStored) .nil).2
    ⟨(db.dataSourceRows id).map DynamicEthereumContractDataSource.toStored, ?_, rfl, ?_⟩
  · simp
  · rw [pairwise_map]
    refine hs.imp_of_mem ?_
    intro a b ha hb hle
    rw [DynamicEthereumContractDataSource.toStored, DynamicEthereumContractDataSource.toStored,
      toI32, if_pos (hr a ha), toI32, if_pos (hr b hb)]
    exact decide_eq_true hle

theorem IndexerManifest.allDataSources_eq_ok {m : IndexerManifest lib} {store : DeploymentStore}
    (hc : store.conn = .ok ()) {stored : List StoredDynamicDataSource}
    (hs : db.loadDynamicDataSources m.id = .ok stored) {r : List (DataSource lib)} :
    m.allDataSources store db = .ok r ↔ ∃ dataSources : List (DataSource lib),
      List.Forall₂ (fun stored ds => DataSource.fromStoredDynamicDataSource
        (templateMap m.templates) stored = .ok ds) stored dataSources ∧
      dataSources.Pairwise (CreatedBefore DataSource.creationBlock) ∧
      r = m.dataSources ++ dataSources := by
  have hl : store.loadDynamicDataSources db m.id = .ok stored := by
    rw [DeploymentStore.loadDynamicDataSources, hc]
    exact hs
  rw [allDataSources, Except.bind_eq_ok]
  simp only [withContext_eq_ok, loadDynamicDataSources, hl]
  constructor
  · rintro ⟨dataSources, h, hr⟩
    obtain ⟨_, hys, rfl, ho⟩ := (foldlM_pushOrdered .nil).1 h
    exact ⟨_, hys, ho, (Except.ok.inj hr).symm⟩
  · rintro ⟨dataSources, hys, ho, rfl⟩
    exact ⟨dataSources, (foldlM_pushOrdered .nil).2 ⟨dataSources, hys, rfl, ho⟩, rfl⟩

namespace DataSource

def identity (self : DataSource lib) :
    String × Option String × String × Source × List (MappingABI lib) × List MappingEventHandler ×
      List MappingCallHandler × List MappingBlockHandler × Option Entity :=
  (self.kind, self.network, self.name, self.source, self.mapping.abis, self.mapping.eventHandlers,
    self.mapping.callHandlers, self.mapping.blockHandlers, self.context)

variable {a b : DataSource lib}

theorem isDuplicateOf_iff :
    a.isDuplicateOf b = true ↔ a.identity = b.identity := by
  simp only [isDuplicateOf, identity, Bool.and_eq_true, decide_eq_true_eq, Prod.mk.injEq, and_assoc]

theorem isDuplicateOf_eq_false_iff :
    a.isDuplicateOf b = false ↔ a.identity ≠ b.identity := by
  rw [ne_eq, ← isDuplicateOf_iff, Bool.not_eq_true]

structure DescribedBy (ds : DataSource lib) (template : DataSourceTemplate lib) : Prop where
  kind : template.kind = ds.kind
  network : template.network = ds.network
  abis : template.mapping.abis = ds.mapping.abis
  eventHandlers : template.mapping.eventHandlers = ds.mapping.eventHandlers
  callHandlers : template.mapping.callHandlers = ds.mapping.callHandlers
  blockHandlers : template.mapping.blockHandlers = ds.mapping.blockHandlers

/-- The last template of the name describes the data source and has its own ABI, and the context
comes back from its text. -/
def Reloads (templates : List (DataSourceTemplate lib)) (self : DataSource lib) : Prop :=
  (∃ template, templateMap templates self.name = some template ∧ self.DescribedBy template ∧
    ∃ abi, template.mapping.findAbi template.abi = .ok abi) ∧
  ∀ context ∈ self.context, lib.contextFromStr (lib.contextToString context) = .ok context

def Restored (self other : DataSource lib) : Prop :=
  self.isDuplicateOf other = true ∧ self.creationBlock = other.creationBlock

variable {ds : DataSource lib}

theorem reloads_iff {templates : List (DataSourceTemplate lib)} :
    ds.Reloads templates ↔ ∃ ds', fromStoredDynamicDataSource (templateMap templates)
      ds.asStoredDynamicDataSource = .ok ds' ∧ ds'.Restored ds := by
  constructor
  · rintro ⟨⟨t, ht, hd, abi, ha⟩, hco⟩
    refine ⟨⟨t.kind, t.network, ds.name, ds.source, t.mapping, ds.context,
      ds.creationBlock, abi⟩, ?_, isDuplicateOf_iff.mpr ?_, rfl⟩
    · refine bind_eq_ok.mpr ⟨t, ?_, bind_eq_ok.mpr ⟨ds.context, ?_,
        bind_eq_ok.mpr ⟨abi, ha, rfl⟩⟩⟩
      · show orMsg _ (templateMap templates ds.name) = _
        rw [ht]
        rfl
      · show (ds.context.map lib.contextToString).mapM lib.contextFromStr = _
        rcases hc : ds.context with - | context
        · rfl
        · show some <$> lib.contextFromStr (lib.contextToString context) = _
          rw [hco context hc]
          rfl
    · simp only [identity, hd.kind, hd.network, hd.abis,
        hd.eventHandlers, hd.callHandlers, hd.blockHandlers]
  · rintro ⟨ds', hl, hs, -⟩
    obtain ⟨t, ht, hl⟩ := bind_eq_ok.mp hl
    obtain ⟨context, hco, hl⟩ := bind_eq_ok.mp hl
    obtain ⟨abi, ha, hl⟩ := bind_eq_ok.mp hl
    cases hl
    have hs := isDuplicateOf_iff.mp hs
    simp only [identity, Prod.mk.injEq] at hs
    obtain ⟨hk, hn, -, -, hab, he, hca, hb, rfl⟩ := hs
    refine ⟨⟨t, ?_, ⟨hk, hn, hab, he, hca, hb⟩, abi, ha⟩, ?_⟩
    · rcases e : templateMap templates ds.name with - | t'
      · rw [asStoredDynamicDataSource, e] at ht
        cases ht
      · rw [asStoredDynamicDataSource, e] at ht
        rw [Except.ok.inj ht]
    · intro context hc
      have hba : (ds.context.map lib.contextToString).mapM lib.contextFromStr
          = .ok ds.context := hco
      rw [Option.mem_def.mp hc] at hba
      obtain ⟨c', hc', heq⟩ := bind_eq_ok.mp hba
      obtain rfl := Option.some.inj (Except.ok.inj heq)
      exact hc'

theorem creationBlock_tryFrom {info : DataSourceTemplateInfo (DataSourceTemplate lib)}
    (h : tryFrom info = .ok ds) : ds.creationBlock = some info.creationBlock := by
  obtain ⟨p, -, h⟩ := bind_eq_ok.1 h
  obtain ⟨a, -, h⟩ := bind_eq_ok.1 h
  obtain ⟨abi, -, h⟩ := bind_eq_ok.1 h
  cases h
  rfl

theorem toStored_eq {id : DeploymentHash} {hash : Bytes} {row : DynamicEthereumContractDataSource}
    (hro : dynamicDataSourceRow id ⟨hash, row.ethereumBlockNumber⟩ ds.asStoredDynamicDataSource
      = .ok row) (hr : i32Min ≤ row.ethereumBlockNumber ∧ row.ethereumBlockNumber ≤ i32Max)
    (hb : ds.creationBlock = some row.ethereumBlockNumber) :
    row.toStored = ds.asStoredDynamicDataSource := by
  obtain ⟨a, ha, heq⟩ := dynamicDataSourceRow_eq_ok.1 hro
  have hs : ds.source = ⟨some a, ds.source.abi, ds.source.startBlock⟩ := by
    rw [← show ds.source.address = some a from ha]
  rw [asStoredDynamicDataSource, hb, hs, DynamicEthereumContractDataSource.toStored, toI32,
    if_pos hr]
  rw [heq]
  rfl

end DataSource

theorem RuntimeHost.HasRow.toStored_eq {order : Finset.IterOrder (BlockNumber × Address)}
    {templates : List (DataSourceTemplate lib)} {host : RuntimeHost (ethereum lib order)}
    {row : DynamicEthereumContractDataSource} (h : host.HasRow templates id row) :
    row.toStored = DataSource.asStoredDynamicDataSource host.dataSource ∧
      DataSource.creationBlock host.dataSource = some row.ethereumBlockNumber := by
  obtain ⟨⟨info, hi, ht⟩, ⟨hash, hro⟩, hr⟩ := h
  have hb := DataSource.creationBlock_tryFrom ht
  rw [hi.creationBlock] at hb
  exact ⟨DataSource.toStored_eq hro hr hb, hb⟩

def RuntimeHost.source {order : Finset.IterOrder (BlockNumber × Address)}
    (host : RuntimeHost (ethereum lib order)) : DataSource lib :=
  host.dataSource

def IndexerInstance.dataSources {order : Finset.IterOrder (BlockNumber × Address)}
    (self : IndexerInstance (ethereum lib order)) : List (DataSource lib) :=
  self.hosts.map RuntimeHost.source

/-! ### A restart -/

/-- The data sources after a restart are those before it, in order; their creation blocks do not
decrease, and no two of the dynamic ones are duplicates. -/
structure Rebuilds (manifest : IndexerManifest lib) (rebuilt kept : List (DataSource lib)) :
    Prop where
  restored : List.Forall₂ DataSource.Restored rebuilt kept
  ordered : rebuilt.Pairwise (CreatedBefore DataSource.creationBlock)
  distinct : (rebuilt.drop manifest.dataSources.length).Pairwise fun a b =>
    a.isDuplicateOf b = false

section

variable {order : Finset.IterOrder (BlockNumber × Address)} {store : DeploymentStore}

theorem startIndexer_eq_ok {db : Database} {env : Environment (ethereum lib order)}
    {m : IndexerManifest lib} {ctx : IndexingContext (ethereum lib order)}
    (hc : store.conn = .ok ()) (hr : db.dataSourceRows m.id = [])
    (h : startIndexer order store db env m = .ok ctx) :
    ctx.templates = m.templates ∧ ctx.inst.dataSources = m.dataSources ∧
      ∀ host ∈ ctx.inst.hosts, host.HasTemplates ctx.templates := by
  obtain ⟨dso, ha, h⟩ := bind_eq_ok.1 h
  obtain ⟨inst, hi, h⟩ := bind_eq_ok.1 h
  cases h
  obtain ⟨hs, ht⟩ := IndexerInstance.fromManifest_eq_ok hi
  -- no rows, no dynamic data sources
  have hn : db.loadDynamicDataSources m.id = .ok [] := by
    rw [Database.loadDynamicDataSources_eq_ok (hr ▸ .nil) (hr ▸ nofun), hr]
    rfl
  obtain ⟨l, hl, -, rfl⟩ :=
    (IndexerManifest.allDataSources_eq_ok hc hn).1 ha
  rw [forall₂_nil_left_iff.1 hl, append_nil] at hs
  exact ⟨rfl, hs, ht⟩

variable {F R : Type}

theorem IndexerRun.Tracks.dataSources {site : Site} {templates : List (DataSourceTemplate lib)}
    {inst : IndexerInstance (ethereum lib order)} {s : IndexerRun F R (ethereum lib order)}
    (h : s.Tracks site templates inst.hosts) :
    ∃ d : List (DataSource lib), s.ctx.inst.dataSources = inst.dataSources ++ d ∧
      d.Pairwise (fun a b => a.isDuplicateOf b = false) ∧
      d.Pairwise (CreatedBefore DataSource.creationBlock) ∧
      s.db.loadDynamicDataSources site.deployment
        = .ok (d.map DataSource.asStoredDynamicDataSource) := by
  obtain ⟨c, hh, hd, hf⟩ := h.created
  have hr : List.Forall₂ (fun ds row => row.toStored = ds.asStoredDynamicDataSource ∧
      ds.creationBlock = some row.ethereumBlockNumber) (c.map RuntimeHost.source)
      (s.db.dataSourceRows site.deployment) :=
    forall₂_map_left_iff.2 (hf.imp fun _ _ h => h.toStored_eq)
  refine ⟨c.map RuntimeHost.source, ?_, ?_, ?_, ?_⟩
  · rw [IndexerInstance.dataSources, hh, map_append]
    rfl
  · rw [pairwise_map]
    exact hd
  · refine hr.pairwise h.ordered ?_
    intro ds ds' row row' hds hds' hle
    rw [CreatedBefore, hds.2, hds'.2]
    exact decide_eq_true hle
  · rw [Database.loadDynamicDataSources_eq_ok h.ordered]
    · exact congrArg Except.ok (hr.flip.imp fun _ _ h => h.1).map_eq
    · intro row hro
      obtain ⟨host, -, hha⟩ := hf.flip.exists_of_mem hro
      exact hha.number

variable [F64 F] [EntityWeight]
variable {chain : Chain R (ethereum lib order)}

variable (impl : EntityHeap) in
/-- **What a restart makes of the data sources.** At any point of a run from a manifest, the data
sources that a restart loads are those of the hosts in memory, if and only if every dynamic data
source reloads. -/
theorem rebuilt_iff_reloads {manifest : IndexerManifest lib} {db : Database}
    (hrows : db.dataSourceRows manifest.id = []) (hconn : store.conn = .ok ())
    {env : Environment (ethereum lib order)} {ctx : IndexingContext (ethereum lib order)}
    (hstart : startIndexer order store db env manifest = .ok ctx)
    {s : IndexerRun F R (ethereum lib order)} {actions : List (RunAction R (ethereum lib order))}
    (hrun : Run (IndexerRun.step impl chain store ⟨manifest.id⟩)
      (IndexerRun.Commits store ⟨manifest.id⟩ impl) (.new ctx db) actions s) :
    (∃ rebuilt, manifest.allDataSources store s.db = .ok rebuilt ∧
      Rebuilds manifest rebuilt s.ctx.inst.dataSources) ↔
    ∀ ds ∈ s.ctx.inst.dataSources.drop manifest.dataSources.length,
      ds.Reloads manifest.templates := by
  obtain ⟨hte, hso, hh⟩ := startIndexer_eq_ok hconn hrows hstart
  have ht := IndexerRun.tracks_of_run hh hrows hrun
  obtain ⟨dynamic, hk, hd, ho, hst⟩ := ht.dataSources
  rw [hk, hso, drop_left]
  simp only [IndexerManifest.allDataSources_eq_ok hconn hst, forall₂_map_left_iff]
  constructor
  · rintro ⟨_, ⟨loaded, hl, -, rfl⟩, hrb⟩ ds hds
    have hre := forall₂_drop manifest.dataSources.length hrb.restored
    rw [drop_left, drop_left] at hre
    have hal : List.Forall₂ (fun ds _ => ds.Reloads manifest.templates) dynamic loaded := by
      refine List.Forall₂.mp ?_ hl hre.flip
      intro ds ds' hlo hs
      exact DataSource.reloads_iff.mpr ⟨ds', hlo, hs⟩
    obtain ⟨_, -, hr⟩ := hal.exists_of_mem hds
    exact hr
  · intro hr
    obtain ⟨loaded, hl⟩ := exists_forall₂ fun ds hds =>
      DataSource.reloads_iff.mp (hr ds hds)
    have hs : List.Forall₂ DataSource.Restored loaded dynamic :=
      (hl.imp fun _ _ h => h.2).flip
    have ho' : loaded.Pairwise (CreatedBefore DataSource.creationBlock) := by
      refine hs.pairwise ho ?_
      intro a a' b b' hab hab' hle
      rw [CreatedBefore, hab.2, hab'.2]
      exact hle
    refine ⟨_, ⟨loaded, hl.imp fun _ _ h => h.1, ho', rfl⟩, ?_, ?_, ?_⟩
    · refine rel_append (forall₂_same.mpr fun ds _ => ?_) hs
      exact ⟨DataSource.isDuplicateOf_iff.mpr rfl, rfl⟩
    · -- the data sources of the manifest have no creation block
      refine pairwise_append.mpr ⟨?_, ho', fun a ha b _ => ?_⟩
      · refine pairwise_of_forall_mem_list fun a ha b _ => ?_
        rw [CreatedBefore, manifest.creationBlock_eq a ha]
        rfl
      · rw [CreatedBefore, manifest.creationBlock_eq a ha]
        rfl
    · rw [drop_left]
      refine hs.pairwise hd ?_
      intro a a' b b' hab hab' hne
      rw [DataSource.isDuplicateOf_eq_false_iff] at hne ⊢
      rw [DataSource.isDuplicateOf_iff.mp hab.1, DataSource.isDuplicateOf_iff.mp hab'.1]
      exact hne

variable {impl : EntityHeap}

/-- **Extending the filter block by block is building it at once.** At any point of a run, with any
handlers and any failures, the filter for the next block stream is the one that a node would build
from the data sources of all hosts. -/
theorem IndexerRun.filter_eq_fromDataSources {manifest : IndexerManifest lib} {db db' : Database}
    {env : Environment (ethereum lib order)} {ctx : IndexingContext (ethereum lib order)}
    (hstart : startIndexer order store db env manifest = .ok ctx) {store' : DeploymentStore}
    {site : Site} {s : IndexerRun F R (ethereum lib order)}
    {ok : IndexerRun F R (ethereum lib order) → RunAction R (ethereum lib order) → Prop}
    {actions : List (RunAction R (ethereum lib order))}
    (hrun : Run (IndexerRun.step impl chain store' site) ok (.new ctx db') actions s) :
    s.ctx.filter = TriggerFilter.fromDataSources order s.ctx.inst.dataSources := by
  obtain ⟨dso, -, h⟩ := bind_eq_ok.1 hstart
  obtain ⟨inst, hi, h⟩ := bind_eq_ok.1 h
  obtain ⟨hs, -⟩ := IndexerInstance.fromManifest_eq_ok hi
  have hf : ctx.Filtered := by
    cases h
    exact congrArg (TriggerFilter.fromDataSources order) hs.symm
  exact filtered_of_run TriggerFilter.fromDataSources_append hf hrun

end

section Example

open DeploymentStore (tokenStore tokenSite)
open EthereumAdapter (zeroHash)

local instance reloadWeight : EntityWeight := ⟨fun _ _ => 1⟩

local instance reloadF64 : F64 ℚ := PollingBlockStream.instF64Rat

def tokenTemplate (handler : String) : DataSourceTemplate plainLibraries where
  kind := "ethereum/contract"
  network := some "mainnet"
  name := "Token"
  abi := "Token"
  mapping := ⟨[⟨"Token", ()⟩], [⟨handler, none⟩], [], []⟩

def tokenManifest (handlers : List String) : IndexerManifest plainLibraries where
  id := "QmIndexer"
  dataSources := [{ plainSource [⟨"handleFactory", none⟩] [] with network := some "mainnet" }]
  templates := handlers.map tokenTemplate
  schemaErrors := []
  creationBlock_eq := by simp [plainSource]

def createdToken (handler : String) : DataSource plainLibraries where
  kind := "ethereum/contract"
  network := some "mainnet"
  name := "Token"
  source := ⟨some 1, "Token", 0⟩
  mapping := ⟨[⟨"Token", ()⟩], [⟨handler, none⟩], [], []⟩
  context := none
  creationBlock := some 1
  contractAbi := ⟨"Token", ()⟩

def factoryBlock : TriggeredBlock :=
  ⟨⟨zeroHash, 1, []⟩, [.block ⟨zeroHash.1, 1⟩ .every]⟩

def factoryDatabase : Database := newDatabase.createDeployment tokenSite (.new none)

noncomputable def factoryEnvironment : Environment plainChain where
  store := Content.empty.serve
  build _ := .ok ()
  handle _ _ _ := .ok ⟨[.dataSourceCreate "Token" ["0x1"] none 1], none, .prefer []⟩
  display _ := ""
  timeout := none
  triggersInBlock _ _ := .ok []
  isCanceled := false
  order := .prefer []
  entityCacheSize := 100
  transactBlockOperations ptr mods dataSources :=
    match ((tokenStore []).transactBlockOperations factoryDatabase tokenSite ptr mods dataSources).1 with
    | .ok () => .ok ()
    | .err e => .error e
    | .panic => .error (.unknown "")

noncomputable def factoryChain : Chain Unit plainChain where
  name := "mainnet"
  firehoseEndpoints := 1
  triggersAdapter := .ok ()
  maxBlockRangeSize := 1000
  targetTriggersPerBlockRange := 100
  toBlockStreamEvent _ := .ok factoryBlock
  filterBytes _ := .ok []

def factoryAnswer : StreamAnswer Unit plainChain :=
  ⟨.pending, ⟨.ready (.ok ()), .ready (some (.ok ()))⟩⟩

noncomputable def factoryActions : List (RunAction Unit plainChain) :=
  [.start, .poll factoryAnswer factoryEnvironment 3, .poll factoryAnswer factoryEnvironment 3]

theorem factory_calls {host : RuntimeHost plainChain} {t : MappingTrigger Unit}
    {s : BlockState (DataSourceTemplate plainLibraries)}
    {i : Invocation (DataSourceTemplate plainLibraries)}
    (h : factoryEnvironment.handle host t s = .ok i)
    {c : HostCall (DataSourceTemplate plainLibraries)} (hc : c ∈ i.calls) :
    c = .dataSourceCreate "Token" ["0x1"] none 1 := by
  cases h
  exact mem_singleton.1 hc

theorem factory_commits {s : IndexerRun ℚ Unit plainChain} (hdb : s.db = factoryDatabase)
    (hb : ∀ st b, s.phase = .streaming st →
      (st.turn factoryAnswer).result = some (.block b) → b = factoryBlock) :
    s.Commits (tokenStore []) tokenSite .pushing
      (.poll factoryAnswer factoryEnvironment 3) := by
  refine ⟨?_, ?_, ?_⟩
  · intro host t sta i h c hc o ho
    rw [factory_calls h hc] at ho
    cases ho
  · intro ptr mods dataSources haccepted
    rw [hdb]
    unfold factoryEnvironment at haccepted
    dsimp only at haccepted
    split at haccepted
    next hok => exact hok
    next => cases haccepted
    next => cases haccepted
  · intro st b hp hr
    obtain rfl := hb st b hp hr
    refine ⟨?_, by decide, by decide⟩
    intro host t sta i h c hc
    rw [factory_calls h hc]
    rfl

/-- The indexer of a manifest with these handlers is started and takes the `factoryActions`. -/
def FactoryRun (handlers : List String) (ctx : IndexingContext plainChain)
    (s : IndexerRun ℚ Unit plainChain) : Prop :=
  startIndexer .choose (tokenStore []) factoryDatabase factoryEnvironment
    (tokenManifest handlers) = .ok ctx ∧
  Run (IndexerRun.step .pushing factoryChain (tokenStore []) tokenSite)
    (IndexerRun.Commits (tokenStore []) tokenSite .pushing)
    (.new ctx factoryDatabase) factoryActions s

theorem factory_run (h : String) (has : List String) : ∃ ctx s, FactoryRun (h :: has) ctx s ∧
    s.ctx.inst.dataSources = (tokenManifest (h :: has)).dataSources ++ [createdToken h] ∧
    s.db.dataSourceRows "QmIndexer" = [⟨"Token", 1, "Token", 0, zeroHash.1, 1, "QmIndexer", none⟩] := by
  refine ⟨_, _, ⟨rfl, .cons trivial rfl (.cons (factory_commits rfl ?_) rfl
    (.cons (factory_commits rfl ?_) rfl (.nil _)))⟩, rfl, rfl⟩
  · intro st b hp hr
    injection hp with hs
    subst hs
    cases hr
  · intro st b hp hr
    injection hp with hs
    subst hs
    injection hr with hr
    injection hr with hr
    exact hr.symm

theorem oneTemplate_rebuilt : ∃ ctx s, FactoryRun ["handleToken"] ctx s ∧
    ∃ rebuilt, (tokenManifest ["handleToken"]).allDataSources (tokenStore []) s.db = .ok rebuilt ∧
      Rebuilds (tokenManifest ["handleToken"]) rebuilt s.ctx.inst.dataSources := by
  obtain ⟨ctx, s, ⟨hs, hr⟩, hso, -⟩ := factory_run "handleToken" []
  refine ⟨ctx, s, ⟨hs, hr⟩, (rebuilt_iff_reloads _ rfl rfl hs hr).2 ?_⟩
  rw [hso]
  intro ds hds
  obtain rfl := mem_singleton.1 hds
  exact ⟨⟨tokenTemplate "handleToken", rfl, ⟨rfl, rfl, rfl, rfl, rfl, rfl⟩, ⟨"Token", ()⟩, rfl⟩, nofun⟩

theorem twoTemplates_not_rebuilt :
    (tokenManifest ["handleFirst", "handleSecond"]).validate
      = .ok (tokenManifest ["handleFirst", "handleSecond"]) ∧
    ∃ ctx s, FactoryRun ["handleFirst", "handleSecond"] ctx s ∧
      s.ctx.inst.dataSources = (tokenManifest ["handleFirst", "handleSecond"]).dataSources ++
        [createdToken "handleFirst"] ∧
      (tokenManifest ["handleFirst", "handleSecond"]).allDataSources (tokenStore []) s.db
        = .ok ((tokenManifest ["handleFirst", "handleSecond"]).dataSources ++
          [createdToken "handleSecond"]) ∧
      (createdToken "handleSecond").isDuplicateOf (createdToken "handleFirst") = false := by
  obtain ⟨ctx, s, hru, hs, hr⟩ := factory_run "handleFirst" ["handleSecond"]
  refine ⟨rfl, ctx, s, hru, hs, ?_, by decide⟩
  have hst : s.db.loadDynamicDataSources "QmIndexer"
      = .ok [(createdToken "handleFirst").asStoredDynamicDataSource] := by
    rw [Database.loadDynamicDataSources, hr]
    rfl
  refine (IndexerManifest.allDataSources_eq_ok rfl hst).2
    ⟨[createdToken "handleSecond"], .cons rfl .nil, pairwise_singleton _ _, rfl⟩

theorem factory_filter : ∃ ctx s, FactoryRun ["handleToken"] ctx s ∧
    s.ctx.inst.dataSources = (tokenManifest ["handleToken"]).dataSources ++
      [createdToken "handleToken"] ∧
    s.ctx.filter = TriggerFilter.fromDataSources .choose s.ctx.inst.dataSources := by
  obtain ⟨ctx, s, hr, hso, -⟩ := factory_run "handleToken" []
  exact ⟨ctx, s, hr, hso, IndexerRun.filter_eq_fromDataSources hr.1 hr.2⟩

end Example

end Massbit
