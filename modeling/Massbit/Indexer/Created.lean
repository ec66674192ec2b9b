/-
The hosts that a run adds to an indexer, and their rows in the database (`host_exports.rs`,
`instance_manager.rs`, `dynds.rs`).
-/
import Massbit.Indexer.RunIndexer
import Massbit.Indexer.Watch

open List

namespace Massbit

section

variable {Template : Type} {s s' : BlockState Template}

namespace BlockState

def infos (s : BlockState Template) : List (DataSourceTemplateInfo Template) :=
  s.createdDataSources ++ s.handlerCreatedDataSources

theorem infos_enterHandler (h : s.enterHandler = some s') : s'.infos = s.infos := by
  revert h
  fun_cases enterHandler s
  case case3 =>
    rintro ⟨⟩
    rfl
  all_goals rintro ⟨⟩

theorem infos_exitHandler {d : EntityOps} (h : s.exitHandler d = some s') : s'.infos = s.infos := by
  revert h
  fun_cases exitHandler s d
  case case2 =>
    rintro ⟨⟩
    exact append_nil _
  all_goals rintro ⟨⟩

theorem infos_discard {e : IndexerError}
    (h : s.exitHandlerAndDiscardChangesDueToError e = some s') :
    s'.infos = s.createdDataSources := by
  revert h
  fun_cases exitHandlerAndDiscardChangesDueToError s e
  case case2 =>
    rintro ⟨⟩
    exact append_nil _
  all_goals rintro ⟨⟩

variable {info : DataSourceTemplateInfo Template}

theorem infos_extend {impl : EntityHeap} {o : BlockState Template} {ops : EntityOps}
    (h : s.extend impl o ops = some s') (hi : info ∈ s'.infos) :
    info ∈ s.infos ∨ info ∈ o.infos := by
  revert h
  fun_cases extend impl s o ops
  case case3 =>
    rintro ⟨⟩
    rcases hin : s.inHandler with - | - <;>
      simp only [infos, hin, mem_append] at hi ⊢ <;> tauto
  all_goals rintro ⟨⟩

theorem infos_getEntity [EntityWeight] {key : EntityKey}
    {r : Except QueryExecutionError (Option Entity)} (h : s.getEntity key = some (r, s')) :
    s'.infos = s.infos := by
  unfold getEntity at h
  split at h
  next => cases h
  next =>
    obtain ⟨-, rfl⟩ := Prod.mk.inj (Option.some.inj h)
    rfl

theorem infos_pushCreatedDataSource (h : s.pushCreatedDataSource info = some s') :
    s'.infos = s.infos ++ [info] := by
  unfold pushCreatedDataSource at h
  split at h
  · rw [← Option.some.inj h]
    exact (append_assoc _ _ _).symm
  · cases h

end BlockState

/-- The data sources that a call of a handler creates. -/
def HostCall.created (exports : HostExports Template) :
    HostCall Template → List (DataSourceTemplateInfo Template)
  | .dataSourceCreate name params context creationBlock =>
    (exports.templates.find? fun template => exports.templateName template = name).toList.map
      fun template => ⟨template, params, context, creationBlock⟩
  | .ipfsMap states _ => states.flatMap BlockState.infos
  | .storeGet _ _ | .storeSet _ _ _ | .storeRemove _ _ => []

def HostCall.Creates (exports : HostExports Template)
    (P : DataSourceTemplateInfo Template → Prop) (c : HostCall Template) : Prop :=
  ∀ info ∈ c.created exports, P info

variable [EntityWeight]
variable {impl : EntityHeap}

theorem handlerInvariant_infos (es : HostExports Template)
    (P : DataSourceTemplateInfo Template → Prop) :
    HandlerInvariant impl es (HostCall.Creates es P) fun s => ∀ info ∈ s.infos, P info where
  enter h hs := BlockState.infos_enterHandler hs ▸ h
  call := by
    intro s s' c err h hc hs
    rcases HostExports.call_cases hs with rfl | ⟨_, _, r, hg⟩ | ⟨_, _, op, rfl, -⟩ |
      ⟨_, _, _, _, template, rfl, ht, hp⟩ | ⟨states, order, rfl, hf⟩
    · exact h
    · exact BlockState.infos_getEntity hg ▸ h
    · exact h
    · rw [BlockState.infos_pushCreatedDataSource hp]
      intro info hi
      rcases mem_append.1 hi with hi | hi
      · exact h info hi
      · rw [mem_singleton.1 hi]
        exact hc _ (mem_map_of_mem (Option.mem_toList.2 ht))
    · refine BlockState.foldlM_extend (I := fun s => ∀ info ∈ s.infos, P info) hf h ?_
      intro s s' o ho hI he info hi
      rcases BlockState.infos_extend he hi with hi | hi
      · exact hI info hi
      · exact hc info (mem_flatMap.2 ⟨o, ho, hi⟩)
  exit h hs := BlockState.infos_exitHandler hs ▸ h
  discard h hs := by
    rw [BlockState.infos_discard hs]
    exact fun info hi => h info (mem_append_left _ hi)

def HostExports.IsFirst (exports : HostExports Template) (template : Template) : Prop :=
  exports.templates.find? (fun t => exports.templateName t = exports.templateName template)
    = some template

variable {es : HostExports Template}

omit [EntityWeight] in
theorem HostExports.isFirst_of_find? {name : String} {template : Template} (h : es.templates.find?
      (fun template => es.templateName template = name) = some template) :
    es.IsFirst template := by
  have hn : es.templateName template = name := by
    simpa using List.find?_some h
  rw [IsFirst, hn]
  exact h

theorem HostExports.CallbackState.isFirst {store : WritableStore}
    (h : es.CallbackState impl store s) : ∀ info ∈ s.infos, es.IsFirst info.template := by
  refine (handlerInvariant_infos es fun info => es.IsFirst info.template).callbackState
    nofun ?_ h
  intro c hs info hi
  cases c with
  | dataSourceCreate name ps co cb =>
    obtain ⟨t, ht, rfl⟩ := mem_map.1 hi
    exact isFirst_of_find? (Option.mem_toList.1 ht)
  | ipfsMap ss o =>
    obtain ⟨o, ho, hi⟩ := mem_flatMap.1 hi
    exact hs o ho info hi
  | storeGet _ _ => cases hi
  | storeSet _ _ _ => cases hi
  | storeRemove _ _ => cases hi

end

section

variable {C : Blockchain}

structure Resolves (templates : List C.DataSourceTemplate) (block : BlockNumber)
    (info : DataSourceTemplateInfo C.DataSourceTemplate) : Prop where
  template : templates.find? (fun t => C.templateName t = C.templateName info.template)
    = some info.template
  creationBlock : info.creationBlock = block

def HostCall.CreatesAt {Template : Type} (block : BlockNumber) : HostCall Template → Prop
  | .dataSourceCreate _ _ _ creationBlock => creationBlock = block
  | .ipfsMap states _ => ∀ other ∈ states, ∀ info ∈ other.infos, info.creationBlock = block
  | .storeGet _ _ | .storeSet _ _ _ | .storeRemove _ _ => True

def Environment.CreatesAt (env : Environment C) (block : BlockNumber) : Prop :=
  ∀ {host trigger state invocation}, env.handle host trigger state = .ok invocation →
    ∀ c ∈ invocation.calls, c.CreatesAt block

structure RuntimeHost.HasTemplates (templates : List C.DataSourceTemplate) (host : RuntimeHost C) :
    Prop where
  templates : host.hostExports.templates = templates
  templateName : host.hostExports.templateName = C.templateName

structure HostsCreated (P : DataSourceTemplateInfo C.DataSourceTemplate → Prop)
    (templates : List C.DataSourceTemplate) (old created : List (RuntimeHost C)) : Prop where
  hasTemplates : ∀ host ∈ created, host.HasTemplates templates
  info : ∀ host ∈ created, ∃ info, P info ∧ C.tryFrom info = .ok host.dataSource
  fresh : ∀ other ∈ old, ∀ host ∈ created, C.isDuplicateOf other.dataSource host.dataSource = false
  distinct : created.Pairwise fun a b => C.isDuplicateOf a.dataSource b.dataSource = false

namespace HostsCreated

variable {P : DataSourceTemplateInfo C.DataSourceTemplate → Prop}
  {ts : List C.DataSourceTemplate} {old c created' : List (RuntimeHost C)}

theorem nil : HostsCreated P ts old [] := ⟨nofun, nofun, nofun, .nil⟩

theorem append (h : HostsCreated P ts old c) (h' : HostsCreated P ts (old ++ c) created') :
    HostsCreated P ts old (c ++ created') where
  hasTemplates host hm := (mem_append.1 hm).elim (h.hasTemplates host) (h'.hasTemplates host)
  info host hm := (mem_append.1 hm).elim (h.info host) (h'.info host)
  fresh other ho host hm := (mem_append.1 hm).elim (h.fresh other ho host)
    (h'.fresh other (mem_append_left _ ho) host)
  distinct := by
    refine pairwise_append.2 ⟨h.distinct, h'.distinct, fun a ha b hb => ?_⟩
    exact h'.fresh a (mem_append_right _ ha) b hb

end HostsCreated

variable {env : Environment C}

theorem createDynamicDataSources_created {P : DataSourceTemplateInfo C.DataSourceTemplate → Prop}
    {ctx : IndexingContext C} {ins : List (DataSourceTemplateInfo C.DataSourceTemplate)}
    (hi : ∀ info ∈ ins, P info) {created : Created C}
    (h : createDynamicDataSources env ctx ins = .ok created) :
    HostsCreated P ctx.templates ctx.inst.hosts created.2.1 := by
  suffices ha : created.2.2.hosts = ctx.inst.hosts ++ created.2.1 ∧
      HostsCreated P ctx.templates ctx.inst.hosts created.2.1 from ha.2
  refine foldlM_invariant (I := fun _ (created : Created C) =>
    created.2.2.hosts = ctx.inst.hosts ++ created.2.1 ∧
      HostsCreated P ctx.templates ctx.inst.hosts created.2.1) h
    ⟨(append_nil _).symm, .nil⟩ ?_
  rintro pre info ⟨ds, hosts, inst⟩ s' hm ⟨hho, hc⟩ hs
  obtain ⟨dataSource, ht, hs⟩ := bind_eq_ok.1 hs
  obtain ⟨⟨host?, inst'⟩, had, rfl⟩ := bind_pure_eq_ok.1 hs
  rcases IndexerInstance.addDynamicDataSource_eq_ok had with
    ⟨-, -, ⟨rfl, rfl, -⟩ | ⟨host, rfl, hn, hp, hf⟩⟩
  · exact ⟨hho, hc⟩
  · have hh := IndexerInstance.newHost_eq_ok hn
    refine ⟨?_, hc.append ?_⟩
    · show inst'.hosts = ctx.inst.hosts ++ (hosts ++ [host])
      rw [hp, hho, append_assoc]
    · have hso : host.dataSource = dataSource := by rw [hh]
      refine ⟨?_, ?_, ?_, pairwise_singleton _ _⟩
      · intro host' hh'
        rw [mem_singleton.1 hh', hh]
        exact ⟨rfl, rfl⟩
      · intro host' hh'
        rw [mem_singleton.mp hh', hso]
        exact ⟨info, hi info (hm info (by simp)), ofExcept_eq_ok.mp ht⟩
      · intro other hother host' hh'
        rw [mem_singleton.mp hh', hso]
        exact hf other (hho ▸ hother)

variable [EntityWeight]
variable {impl : EntityHeap}
variable {block : C.Block} {templates : List C.DataSourceTemplate} {number : BlockNumber}
  {ctx ctx' : IndexingContext C} {state s' : BlockState C.DataSourceTemplate}

theorem resolves_of_hosts (hca : env.Callbacks impl) (hcr : env.CreatesAt number)
    {hosts : List (RuntimeHost C)} (hho : ∀ host ∈ hosts, host.HasTemplates templates) :
    ∀ host ∈ hosts, ∃ Q, HandlerInvariant impl host.hostExports Q
        (fun s => ∀ info ∈ s.infos, Resolves templates number info) ∧
      ∀ {t state i}, env.handle host t state = .ok i → ∀ c ∈ i.calls, Q c := by
  intro host hhs
  obtain ⟨ht, hn⟩ := hho host hhs
  -- a data source is resolved if it is from a first template and at the block
  have hr : ∀ {info : DataSourceTemplateInfo C.DataSourceTemplate},
      host.hostExports.IsFirst info.template → info.creationBlock = number →
      Resolves templates number info := by
    intro info hf hb
    rw [HostExports.IsFirst, ht, hn] at hf
    exact ⟨hf, hb⟩
  refine ⟨_, handlerInvariant_infos host.hostExports _, ?_⟩
  intro t state i hh c hc info hi
  have hat := hcr hh c hc
  have hs := hca hh c hc
  cases c with
  | dataSourceCreate name ps co cb =>
    obtain ⟨te, hte, rfl⟩ := mem_map.1 hi
    exact hr (HostExports.isFirst_of_find? (Option.mem_toList.1 hte)) hat
  | ipfsMap ss ord =>
    obtain ⟨o, ho, hi⟩ := mem_flatMap.1 hi
    exact hr ((hs o ho).isFirst info hi) (hat o ho info hi)
  | storeGet _ _ => cases hi
  | storeSet _ _ _ => cases hi
  | storeRemove _ _ => cases hi

omit [EntityWeight] in
theorem infos_persistDynamicDataSources (ds : List C.DataSource) :
    ∀ state : BlockState C.DataSourceTemplate,
      (persistDynamicDataSources state ds).infos = state.infos := by
  induction ds with
  | nil => exact fun _ => rfl
  | cons dso ds ih => exact fun state => ih _

theorem processCreated_created (hc : env.Callbacks impl) (hcr : env.CreatesAt number) :
    ∀ {fuel : ℕ} {ctx ctx' : IndexingContext C} {state s' : BlockState C.DataSourceTemplate},
      processCreated impl env block fuel ctx state = .ok (ctx', s') →
      (∀ info ∈ state.infos, Resolves ctx.templates number info) →
      ctx'.templates = ctx.templates ∧
      ∃ created, ctx'.inst.hosts = ctx.inst.hosts ++ created ∧
        HostsCreated (Resolves ctx.templates number) ctx.templates ctx.inst.hosts created ∧
        s'.dataSources = state.dataSources ++
          created.map fun host => C.asStoredDynamicDataSource host.dataSource
  | 0, _, _, _, _, h, _ => by cases h
  | fuel + 1, ctx, ctx', state, s', h, hi => by
    rcases processCreated_succ_eq_ok h with ⟨rfl, rfl⟩ |
      ⟨dataSources, hosts, inst, triggers, state₁, hct, -, hl, hr⟩
    · exact ⟨rfl, [], (append_nil _).symm, .nil, (append_nil _).symm⟩
    · have hcd := createDynamicDataSources_created
        (fun info hin => hi info (mem_append_left _ hin)) hct
      obtain ⟨hh, hs⟩ := createDynamicDataSources_hosts hct
      have hp : ∀ info ∈ (persistDynamicDataSources { state with createdDataSources := [] }
          dataSources).infos, Resolves ctx.templates number info := by
        rw [infos_persistDynamicDataSources]
        exact fun info hin => hi info (mem_append_right _ hin)
      have hpr : ∀ info ∈ state₁.infos, Resolves ctx.templates number info :=
        foldlM_processTriggerInRuntimeHosts (resolves_of_hosts hc hcr hcd.hasTemplates) hp hl
      obtain ⟨ht, created, hit, hc', hst⟩ := processCreated_created hc hcr hr hpr
      refine ⟨ht, hosts ++ created, ?_, hcd.append (hh ▸ hc'), ?_⟩
      · rw [hit, ← append_assoc]
        exact congrArg (· ++ created) hh
      · rw [hst, dataSources_foldlM hl, dataSources_persistDynamicDataSources, ← hs,
          map_append, map_map, append_assoc]
        rfl

variable {ts : List C.TriggerData} {r : Processed C} {fuel : ℕ}

theorem processBlock_created (hc : env.Callbacks impl) (hcr : env.CreatesAt number)
    (hh : ∀ host ∈ ctx.inst.hosts,
      host.HasTemplates ctx.templates) (h : processBlock impl env fuel ctx block ts = .ok r) :
    r.ctx.templates = ctx.templates ∧
    ((r.transacted = none ∧ r.ctx.inst = ctx.inst) ∨
    ∃ mods created, r.transacted
        = some (mods, created.map fun host => C.asStoredDynamicDataSource host.dataSource) ∧
      r.ctx.inst.hosts = ctx.inst.hosts ++ created ∧
      HostsCreated (Resolves ctx.templates number) ctx.templates ctx.inst.hosts created) := by
  obtain ⟨run, hr, hf⟩ := bind_eq_ok.1 h
  rcases run with - | ⟨ctx', state, nr⟩
  · cases hf
    exact ⟨rfl, .inl ⟨rfl, rfl⟩⟩
  · obtain ⟨m, hm, htr, hct, -⟩ := finishBlock_spec hf
    unfold runTriggers at hr
    split at hr
    next => cases hr
    next => cases hr
    next => cases hr
    next s₁ ht =>
      obtain ⟨re, -, hr⟩ := bind_eq_ok.1 hr
      obtain ⟨⟨ctx₁, s₂⟩, hcd, hr⟩ := bind_eq_ok.1 hr
      obtain ⟨rfl, heq⟩ := Prod.mk.inj (Option.some.inj (Outcome.ok.inj hr))
      obtain ⟨rfl, -⟩ := Prod.mk.inj heq
      have hi : ∀ info ∈ s₁.infos, Resolves ctx.templates number info :=
        foldlM_processTriggerInRuntimeHosts (resolves_of_hosts hc hcr hh)
          (by simp [BlockState.infos, BlockState.new]) ht
      have hn : s₁.dataSources = [] := dataSources_foldlM ht
      obtain ⟨hte, created, hin, hcd, hst⟩ := processCreated_created hc hcr hcd hi
      have hs : m.dataSources = s₂.dataSources := EntityCache.dataSources_asModifications hm
      rw [hct]
      refine ⟨hte, .inr ⟨m.modifications, created, ?_, hin, hcd⟩⟩
      rw [htr, hs, hst, hn, nil_append]

/-- Extending the filter of some data sources by others makes the filter of all of them. -/
def Blockchain.ExtendsFilters (C : Blockchain) : Prop :=
  ∀ A B, C.extendFilter (C.fromDataSources A) B = C.fromDataSources (A ++ B)

/-- The filter is that of the data sources of the hosts. -/
def IndexingContext.Filtered (ctx : IndexingContext C) : Prop :=
  ctx.filter = C.fromDataSources (ctx.inst.hosts.map RuntimeHost.dataSource)

theorem processCreated_filtered (hext : C.ExtendsFilters) : ∀ {fuel : ℕ}
    {ctx ctx' : IndexingContext C} {state s' : BlockState C.DataSourceTemplate}, ctx.Filtered →
    processCreated impl env block fuel ctx state = .ok (ctx', s') → ctx'.Filtered
  | 0, _, _, _, _, _, h => by cases h
  | fuel + 1, ctx, ctx', state, s', hf, h => by
    rcases processCreated_succ_eq_ok h with ⟨rfl, rfl⟩ | ⟨ds, hosts, inst, ts, s₁, hc, -, -, hr⟩
    · exact hf
    · obtain ⟨hh, rfl⟩ := createDynamicDataSources_hosts hc
      refine processCreated_filtered hext ?_ hr
      show C.extendFilter ctx.filter _ = C.fromDataSources (inst.hosts.map _)
      rw [hf, hext, hh, map_append]

theorem processBlock_filtered (hext : C.ExtendsFilters) (hf : ctx.Filtered)
    (h : processBlock impl env fuel ctx block ts = .ok r) :
    r.ctx.Filtered := by
  obtain ⟨run, hr, h⟩ := bind_eq_ok.1 h
  rcases run with - | ⟨ctx', state, nr⟩
  · -- a possible reorg
    cases h
    exact hf
  · obtain ⟨m, -, -, hct, -⟩ := finishBlock_spec h
    unfold runTriggers at hr
    split at hr
    next => cases hr
    next => cases hr
    next => cases hr
    next s₁ ht =>
      obtain ⟨re, -, hr⟩ := bind_eq_ok.1 hr
      obtain ⟨⟨ctx₁, s₂⟩, hcd, hr⟩ := bind_eq_ok.1 hr
      obtain ⟨rfl, -⟩ := Prod.mk.inj (Option.some.inj (Outcome.ok.inj hr))
      have hf' : IndexingContext.Filtered { ctx with entityLfuCache := .new } := hf
      have hf₁ := processCreated_filtered hext hf' hcd
      rw [hct]
      exact hf₁

end

def Database.dataSourceRows (self : Database) (id : DeploymentHash) :
    List DynamicEthereumContractDataSource :=
  self.dynamicDataSources.filter fun row => row.deployment = id

theorem dynamicDataSourceRow_eq_ok {id : DeploymentHash} {ptr : BlockPtr}
    {ds : StoredDynamicDataSource} {row : DynamicEthereumContractDataSource} :
    dynamicDataSourceRow id ptr ds = .ok row ↔ ∃ a, ds.source.address = some a ∧
      row = ⟨ds.name, a, ds.source.abi, ds.source.startBlock, ptr.hash, ptr.number, id,
        ds.context⟩ := by
  unfold dynamicDataSourceRow
  rcases ds.source.address with - | a
  · simp
  · simp [eq_comm]

section

variable {F R : Type} {C : Blockchain}

structure RuntimeHost.HasRow (templates : List C.DataSourceTemplate) (id : DeploymentHash)
    (host : RuntimeHost C) (row : DynamicEthereumContractDataSource) : Prop where
  info : ∃ info, Resolves templates row.ethereumBlockNumber info ∧
    C.tryFrom info = .ok host.dataSource
  row_eq : ∃ hash, dynamicDataSourceRow id ⟨hash, row.ethereumBlockNumber⟩
    (C.asStoredDynamicDataSource host.dataSource) = .ok row
  number : i32Min ≤ row.ethereumBlockNumber ∧ row.ethereumBlockNumber ≤ i32Max

namespace IndexerRun

variable (site : Site) in
structure Tracks (templates : List C.DataSourceTemplate) (hosts : List (RuntimeHost C))
    (s : IndexerRun F R C) : Prop where
  templates_eq : s.ctx.templates = templates
  hasTemplates : ∀ host ∈ s.ctx.inst.hosts, host.HasTemplates templates
  created : ∃ created, s.ctx.inst.hosts = hosts ++ created ∧
    (created.Pairwise fun a b => C.isDuplicateOf a.dataSource b.dataSource = false) ∧
    List.Forall₂ (RuntimeHost.HasRow templates site.deployment) created
      (s.db.dataSourceRows site.deployment)
  ordered : (s.db.dataSourceRows site.deployment).Pairwise fun a b =>
    a.ethereumBlockNumber ≤ b.ethereumBlockNumber
  past : ∀ row ∈ s.db.dataSourceRows site.deployment,
    s.db.Past site.deployment row.ethereumBlockNumber

variable {store : DeploymentStore} {site : Site} {ts : List C.DataSourceTemplate}
  {hosts : List (RuntimeHost C)} {s s' : IndexerRun F R C}

theorem Tracks.congr (h : Tracks site ts hosts s) (hc : s'.ctx = s.ctx)
    (hdb : s'.db = s.db) : Tracks site ts hosts s' := by
  obtain ⟨ht, hh, hcr, ho, hp⟩ := h
  exact ⟨by rw [hc, ht], by rwa [hc], by rwa [hc, hdb], by rwa [hdb], by rwa [hdb]⟩

theorem Tracks.commit (h : Tracks site ts hosts s) {ptr : BlockPtr} (hmi : i32Min ≤ ptr.number)
    (hma : ptr.number ≤ i32Max) {mods : List EntityModification} {created : List (RuntimeHost C)}
    (htr : (store.transactBlockOperations s.db site ptr mods
      (created.map fun host => C.asStoredDynamicDataSource host.dataSource)).1 = .ok ())
    (hc : HostsCreated (Resolves ts ptr.number) ts s.ctx.inst.hosts created)
    (ht : s'.ctx.templates = ts) (hh : s'.ctx.inst.hosts = s.ctx.inst.hosts ++ created)
    (hdb : s'.db = (store.transactBlockOperations s.db site ptr mods
      (created.map fun host => C.asStoredDynamicDataSource host.dataSource)).2) :
    Tracks site ts hosts s' := by
  obtain ⟨_, _, rows, -, -, -, -, hro, hbe, heq⟩ := DeploymentStore.transact_eq_ok htr
  rw [heq] at hdb
  have hf := forall₂_map_left_iff.1 (Except.mapM_eq_ok.1 hro)
  -- the new rows are for the deployment and at the block
  have hn : ∀ row ∈ rows, row.deployment = site.deployment ∧
      row.ethereumBlockNumber = ptr.number := by
    intro row hr
    obtain ⟨host, -, hho⟩ := hf.flip.exists_of_mem hr
    obtain ⟨ad, -, rfl⟩ := dynamicDataSourceRow_eq_ok.1 hho
    exact ⟨rfl, rfl⟩
  have hal : s'.db.dataSourceRows site.deployment
      = s.db.dataSourceRows site.deployment ++ rows := by
    have hk : rows.filter (fun row => row.deployment = site.deployment) = rows :=
      filter_eq_self.2 fun row hr => decide_eq_true (hn row hr).1
    rw [hdb, Database.dataSourceRows, filter_append, hk]
    rfl
  have hm := congrArg Database.deployments hdb
  refine ⟨ht, ?_, ?_, ?_, ?_⟩
  · rw [hh]
    intro host hme
    exact (mem_append.1 hme).elim (h.hasTemplates host) (hc.hasTemplates host)
  · obtain ⟨be, hbf, hd, hp⟩ := h.created
    refine ⟨be ++ created, ?_, ?_, ?_⟩
    · rw [hh, hbf, append_assoc]
    · refine pairwise_append.2 ⟨hd, hc.distinct, fun a ha b hb => ?_⟩
      apply hc.fresh a _ b hb
      rw [hbf]
      exact mem_append_right _ ha
    · rw [hal]
      have hbo := (forall₂_and_left _ _).2 ⟨hc.info, hf⟩
      refine rel_append hp (hbo.imp ?_)
      rintro host row ⟨⟨info, hi, hty⟩, hr⟩
      obtain ⟨ad, -, rfl⟩ := dynamicDataSourceRow_eq_ok.1 hr
      exact ⟨⟨info, hi, hty⟩, ⟨ptr.hash, hr⟩, hmi, hma⟩
  · rw [hal]
    refine pairwise_append.2 ⟨h.ordered, ?_, fun a ha b hb => ?_⟩
    · refine pairwise_of_forall_mem_list fun a ha b hb => ?_
      rw [(hn a ha).2, (hn b hb).2]
    · rw [(hn b hb).2]
      exact ((h.past a ha).lt hbe).le
  · rw [hal]
    intro row hr
    rcases mem_append.1 hr with hr | hr
    · exact (h.past row hr).forward hbe hm
    · rw [(hn row hr).2]
      exact Database.past_forward hm

variable [F64 F] [EntityWeight]
variable {impl : EntityHeap} {chain : Chain R C}
  {action : RunAction R C}

variable (impl store site) in
/-- Handlers create data sources at their block, block numbers are `i32`, and what is committed was
accepted by the store. -/
def Commits (s : IndexerRun F R C) : RunAction R C → Prop
  | .start | .cancel => True
  | .poll answer env _ =>
    env.Callbacks impl ∧
    (∀ ptr mods dataSources, env.transactBlockOperations ptr mods dataSources = .ok () →
      (store.transactBlockOperations s.db site ptr mods dataSources).1 = .ok ()) ∧
    ∀ stream block, s.phase = .streaming stream →
      (stream.turn answer).result = some (.block block) →
        env.CreatesAt (C.ptr block.block).number ∧
          i32Min ≤ (C.ptr block.block).number ∧ (C.ptr block.block).number ≤ i32Max

theorem Tracks.step (h : Tracks site ts hosts s) (hok : s.Commits store site impl action)
    (hst : s.step impl chain store site action = some s') : Tracks site ts hosts s' := by
  rcases step_cases hst with ⟨ptr, st, -, -, -, rfl⟩ | ⟨ph, -, rfl⟩ | rfl |
    ⟨st, a, env, fuel, rfl, hph, rfl⟩
  · exact h.congr rfl rfl
  · exact h.congr rfl rfl
  · exact h
  · rcases pollStream_cases impl store site s st a env fuel
      with ⟨ph, -, heq⟩ | ⟨block, hb, ⟨ph, -, heq⟩ | ⟨p, hp, heq⟩⟩
    · rw [heq]
      exact h.congr rfl rfl
    · rw [heq]
      exact h.congr rfl rfl
    · rw [heq]
      obtain ⟨hca, ha, hat⟩ := hok
      obtain ⟨hcr, hm, hma⟩ := hat st block hph hb
      have hha : ∀ host ∈ s.ctx.inst.hosts, host.HasTemplates s.ctx.templates :=
        h.templates_eq.symm ▸ h.hasTemplates
      obtain ⟨ht, ⟨hn, hi⟩ | ⟨mods, created, hs, hh, hc⟩⟩ := processBlock_created hca hcr hha hp
      · -- a possible reorg; nothing is committed
        refine ⟨ht.trans h.templates_eq, ?_, ?_, ?_, ?_⟩
        · exact hi.symm ▸ h.hasTemplates
        · rw [hn]
          exact hi.symm ▸ h.created
        · rw [hn]
          exact h.ordered
        · rw [hn]
          exact h.past
      · have htr := ha _ _ _ (processBlock_transacted hp hs)
        rw [h.templates_eq] at ht hc
        refine h.commit hm hma htr hc ht hh ?_
        rw [hs]
        rfl

variable {acs : List (RunAction R C)} {ctx : IndexingContext C} {db : Database}

theorem tracks_of_run (hh : ∀ host ∈ ctx.inst.hosts, host.HasTemplates ctx.templates)
    (hr : db.dataSourceRows site.deployment = [])
    (hru : Run (IndexerRun.step (F := F) impl chain store site) (Commits store site impl)
      (.new ctx db) acs s) : Tracks site ctx.templates ctx.inst.hosts s := by
  refine hru.invariant (I := fun _ s => Tracks site ctx.templates ctx.inst.hosts s) ?_ ?_
  · refine ⟨rfl, hh, ⟨[], (append_nil _).symm, .nil, ?_⟩, ?_, ?_⟩
    · exact hr.symm ▸ .nil
    · exact hr.symm ▸ .nil
    · exact hr.symm ▸ nofun
  · intro _ s action s' h hok hs
    exact h.step hok hs

theorem filtered_of_run (hext : C.ExtendsFilters) (hf : ctx.Filtered)
    {ok : IndexerRun F R C → RunAction R C → Prop}
    (hru : Run (IndexerRun.step (F := F) impl chain store site) ok (.new ctx db) acs s) :
    s.ctx.Filtered := by
  refine hru.invariant (I := fun _ s => s.ctx.Filtered) hf ?_
  intro _ s action s' h _ hst
  rcases step_cases hst with ⟨ptr, st, -, -, -, rfl⟩ | ⟨ph, -, rfl⟩ | rfl |
    ⟨st, a, env, fuel, rfl, -, rfl⟩
  · exact h
  · exact h
  · exact h
  · rcases pollStream_cases impl store site s st a env fuel
      with ⟨ph, -, heq⟩ | ⟨block, -, ⟨ph, -, heq⟩ | ⟨p, hp, heq⟩⟩
    · exact heq ▸ h
    · exact heq ▸ h
    · exact heq ▸ processBlock_filtered hext h hp

end IndexerRun

end

end Massbit
