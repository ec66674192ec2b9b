/-
`process_block` (`instance_manager.rs`).
-/
import Massbit.Indexer.Instance

open Option

namespace Massbit

inductive BlockProcessingError where
  | unknown (e : AnyError)
  | deterministic (e : IndexerError)
  | canceled

structure IndexingContext (C : Blockchain) where
  inst : IndexerInstance C
  templates : List C.DataSourceTemplate
  filter : C.TriggerFilter
  entityLfuCache : EntityLfuCache

/-- What `processBlock` returns: the context, whether the indexer has to be restarted, and what was
transacted. -/
structure Processed (C : Blockchain) where
  ctx : IndexingContext C
  needsRestart : Bool
  transacted : Option (List EntityModification × List StoredDynamicDataSource)

section

variable {C : Blockchain} [EntityWeight]
variable (impl : EntityHeap) (env : Environment C)

def processTriggers (inst : IndexerInstance C) (block : C.Block)
    (triggers : List C.TriggerData) (state : BlockState C.DataSourceTemplate) :
    Outcome MappingError (BlockState C.DataSourceTemplate) :=
  triggers.foldlM (fun state trigger =>
    (inst.processTrigger impl env block trigger state).mapErr fun e =>
      let e := if C.errorContext trigger = "" then e else e.context (C.errorContext trigger)
      e.context "failed to process trigger") state

abbrev Created (C : Blockchain) := List C.DataSource × List (RuntimeHost C) × IndexerInstance C

def createDynamicDataSource (templates : List C.DataSourceTemplate) (created : Created C)
    (info : DataSourceTemplateInfo C.DataSourceTemplate) : Outcome AnyError (Created C) := do
  -- try to instantiate a data source from the template
  let dataSource ← Outcome.ofExcept (C.tryFrom info)
  -- try to create a runtime host for the data source
  let (host, inst) ← created.2.2.addDynamicDataSource env templates dataSource
  return host.elim (created.1, created.2.1, inst) fun host =>
    (created.1 ++ [dataSource], created.2.1 ++ [host], inst)

def createDynamicDataSources (ctx : IndexingContext C)
    (infos : List (DataSourceTemplateInfo C.DataSourceTemplate)) : Outcome AnyError (Created C) :=
  infos.foldlM (createDynamicDataSource env ctx.templates) ([], [], ctx.inst)

def persistDynamicDataSources (state : BlockState C.DataSourceTemplate)
    (dataSources : List C.DataSource) : BlockState C.DataSourceTemplate :=
  dataSources.foldl (fun state dataSource =>
    { state with
      entityCache := state.entityCache.addDataSource (C.asStoredDynamicDataSource dataSource)
      entityCache_inHandler := state.entityCache_inHandler
      entityCache_closed := state.entityCache_closed }) state

def processCreated (block : C.Block) : ℕ → IndexingContext C → BlockState C.DataSourceTemplate →
      Outcome BlockProcessingError (IndexingContext C × BlockState C.DataSourceTemplate)
  | 0, _, _ => .panic
  | fuel + 1, ctx, state =>
    match state.hasCreatedDataSources with
    | none => .panic
    | some false => .ok (ctx, state)
    | some true => do
      let (infos, state) ← Outcome.ofOption state.drainCreatedDataSources
      let (dataSources, hosts, inst) ← (createDynamicDataSources env ctx infos).mapErr .unknown
      -- reprocess the triggers from this block that match the new data sources
      let triggers ← (Outcome.ofExcept
        (env.triggersInBlock block (C.fromDataSources dataSources))).mapErr .unknown
      let state := persistDynamicDataSources state dataSources
      -- a possible reorg is an ordinary error here
      let state ← triggers.foldlM (fun state trigger =>
        (processTriggerInRuntimeHosts impl env hosts block trigger state).mapErr fun e =>
          .unknown e.error) state
      processCreated block fuel
        { ctx with inst, filter := C.extendFilter ctx.filter dataSources } state

def runTriggers (fuel : ℕ) (ctx : IndexingContext C) (block : C.Block)
    (triggers : List C.TriggerData) :
    Outcome BlockProcessingError
      (Option (IndexingContext C × BlockState C.DataSourceTemplate × Bool)) :=
  match processTriggers impl env ctx.inst block triggers (.new env.store ctx.entityLfuCache) with
  | .panic => .panic
  | .err (.unknown e) => .err (.unknown e)
  | .err (.possibleReorg _) => .ok none
  | .ok state => do
    -- if new data sources have been created, restart the indexer after this block
    let needsRestart ← Outcome.ofOption state.hasCreatedDataSources
    let (ctx, state) ← processCreated impl env block fuel { ctx with entityLfuCache := .new } state
    return some (ctx, state, needsRestart)

def finishBlock (ctx : IndexingContext C) (block : C.Block)
    (state : BlockState C.DataSourceTemplate) (needsRestart : Bool) :
    Outcome BlockProcessingError (Processed C) :=
  match state.deterministicErrors with
  -- take just the first error to report
  | e :: _ => .err (.deterministic e)
  | [] =>
    -- avoid writing to store if block stream has been canceled
    if env.isCanceled then .err .canceled
    else do
      let r ← (state.entityCache.asModifications impl
        (env.order.toList state.entityCache.updates)).mapErr fun e => .unknown (.query e)
      let (_, cache) ← Outcome.ofOption (r.entityLfuCache.evict impl env.entityCacheSize)
      -- put the cache back, asserting that the placeholder cache was not used
      if ctx.entityLfuCache.isEmpty then
        (Outcome.ofExcept (env.transactBlockOperations (C.ptr block) r.modifications
          r.dataSources)).mapErr (fun e => .unknown (.transact e)) >>= fun _ =>
            .ok ⟨{ ctx with entityLfuCache := cache }, needsRestart,
              some (r.modifications, r.dataSources)⟩
      else .panic

def processBlock (fuel : ℕ) (ctx : IndexingContext C) (block : C.Block)
    (triggers : List C.TriggerData) : Outcome BlockProcessingError (Processed C) := do
  match ← runTriggers impl env fuel ctx block triggers with
  -- do nothing and restart the block stream; the entity cache is lost
  | none => .ok ⟨{ ctx with entityLfuCache := .new }, true, none⟩
  | some (ctx, state, needsRestart) => finishBlock impl env ctx block state needsRestart

end

namespace EntityCache

/-- The entity that `reconcile` caches for a record is the one that the commit leaves. -/
def KeepsStored (cached : Bool) (op : EntityOp) (committed : Option Entity) : Prop :=
  match op, committed with
  | .remove, _ => True
  | .update updates, none | .overwrite updates, none =>
    updates.removeNullFields.untyped = updates.removeNullFields
  | .update updates, some _ =>
    if cached then updates.removeNullFields.untyped = updates.removeNullFields
    else updates.lookup typenameAttribute = some .null
  | .overwrite data, some _ => data.NullFree ∧ data.untyped = data

def CachesStored (self : EntityCache) (content : Content) : Prop :=
  ∀ {key op}, self.updates.lookup key = some op →
    KeepsStored (self.current.peek key).isSome op (content.lookup key)

theorem mergeRemoveNullFields_stored_iff {e u : Entity} (he : e.stored = e) (t : EntityType)
    (typed : Bool) :
    (if typed then e.typed t else e).mergeRemoveNullFields u = (e.mergeRemoveNullFields u).stored ↔
      if typed then u.lookup typenameAttribute = some .null
      else u.removeNullFields.untyped = u.removeNullFields := by
  have hs := Entity.stored_eq_self.1 he
  have hf := hs.1.mergeRemoveNullFields u
  rw [Entity.stored, Entity.removeNullFields_eq_self.2 hf]
  rcases typed with - | -
  · rw [if_neg Bool.false_ne_true, if_neg Bool.false_ne_true, eq_comm, Entity.untyped_eq_self,
      Entity.untyped_eq_self, Entity.lookup_mergeRemoveNullFields, Entity.lookup_removeNullFields,
      Entity.untyped_eq_self.1 hs.2]
    rcases u.lookup typenameAttribute with - | v
    · simp
    · by_cases hv : v = .null <;> simp [hv]
  · rw [if_pos rfl, if_pos rfl]
    constructor
    · intro h
      have := congrArg (Finmap.lookup typenameAttribute) h
      rw [Entity.lookup_untyped, if_pos rfl, Entity.lookup_mergeRemoveNullFields,
        Entity.lookup_typed, if_pos rfl] at this
      rcases e : u.lookup typenameAttribute with - | v
      · simp [e] at this
      · by_cases hv : v = .null
        · rw [hv]
        · simp [e, hv] at this
    · intro h
      refine Finmap.ext_lookup fun a => ?_
      rw [Entity.lookup_untyped, Entity.lookup_mergeRemoveNullFields,
        Entity.lookup_mergeRemoveNullFields, Entity.lookup_typed]
      rcases eq_or_ne a typenameAttribute with rfl | ha
      · simp [h]
      · simp [ha]

theorem reconcile_stored_iff (self : EntityCache) (content : Content) (key : EntityKey)
    (op : EntityOp) :
    (∀ data, (reconcile key (self.baseEntity content key) op).2 = some data →
      data = (op.applyTo (content.lookup key)).map Entity.stored) ↔
        KeepsStored (self.current.peek key).isSome op (content.lookup key) := by
  -- one entity is cached, and one is stored
  have ho {x y : Entity} : (∀ data, some (some x) = some data → data = some y) ↔ x = y := by
    constructor
    · intro h
      exact Option.some.inj (h _ rfl)
    · simp
  rcases e : content.lookup key with - | entity
  · rw [baseEntity_none e]
    rcases op with - | updates | data
    · exact iff_of_true nofun trivial
    · exact ho.trans eq_comm
    · exact ho.trans eq_comm
  · have hb : self.baseEntity content key = some
        (if !(self.current.peek key).isSome then entity.typed key.entityType else entity) := by
      rw [baseEntity, typedLookup, e]
      rcases (self.current.peek key).isSome with - | - <;> rfl
    rw [hb]
    rcases op with - | updates | data
    · refine iff_of_true ?_ trivial
      intro data hd
      exact (Option.some.inj hd).symm
    · refine ho.trans ((mergeRemoveNullFields_stored_iff (content.stored_eq_self e)
        key.entityType _).trans ?_)
      rcases (self.current.peek key).isSome with - | - <;> rfl
    · exact ho.trans (eq_comm.trans Entity.stored_eq_self)

section

variable [EntityWeight]
variable {impl : EntityHeap}

theorem agrees_commit_iff {self : EntityCache} {content : Content} (hs : Serves self.store content)
    (ha : Agrees self.current content) {o : EntityOps} (ho : Finmap.Enumerates o self.updates)
    {r : ModificationsAndCache} (h : self.asModifications impl o = .ok r) :
    (∀ key data, r.entityLfuCache.peek key = some data →
      data = commit content.lookup r.modifications key) ↔ self.CachesStored content := by
  have hp := (asModifications_spec hs ha ho h).2
  have hc := commit_asModifications hs ha ho h
  constructor
  · intro hca key op hop
    rw [← reconcile_stored_iff]
    intro data hd
    have hk := hp key
    have hn := hc key
    rw [hop] at hk hn
    exact (hca key data (hk.trans hd)).trans hn
  · intro hke key data hd
    rw [hp key] at hd
    rw [hc key]
    rcases e : self.updates.lookup key with - | op
    · -- a key without a record keeps its entity
      rw [e] at hd
      rw [ha key data hd]
      rcases ec : content.lookup key with - | en
      · rfl
      · exact congrArg some (content.stored_eq_self ec).symm
    · rw [e] at hd
      exact (reconcile_stored_iff self content key op).2 (hke e) data hd

end

end EntityCache

section

variable {C : Blockchain} [EntityWeight]
variable {impl : EntityHeap} {env : Environment C}
variable {content : Content} {state st' : BlockState C.DataSourceTemplate}

omit [EntityWeight] in
theorem createDynamicDataSources_indexerId {ctx : IndexingContext C}
    {ins : List (DataSourceTemplateInfo C.DataSourceTemplate)} {c : Created C}
    (h : createDynamicDataSources env ctx ins = .ok c) :
    c.2.2.indexerId = ctx.inst.indexerId ∧
      ∀ host ∈ c.2.1, host.hostExports.indexerId = ctx.inst.indexerId := by
  refine foldlM_invariant (I := fun _ c =>
    c.2.2.indexerId = ctx.inst.indexerId ∧
      ∀ host ∈ c.2.1, host.hostExports.indexerId = ctx.inst.indexerId) h
    ⟨rfl, by simp⟩ ?_
  intro pre info s s' _ hI hs
  obtain ⟨ds, -, hs⟩ := bind_eq_ok.1 hs
  obtain ⟨⟨host, inst⟩, ha, rfl⟩ := bind_pure_eq_ok.1 hs
  rcases IndexerInstance.addDynamicDataSource_eq_ok ha with
    ⟨-, hid, ⟨rfl, rfl, -⟩ | ⟨host, rfl, hn, -, -⟩⟩
  · exact hI
  · refine ⟨hid.trans hI.1, fun host' hm => ?_⟩
    rcases List.mem_append.1 hm with hm | hm
    · exact hI.2 host' hm
    · rw [List.mem_singleton.1 hm, IndexerInstance.newHost_indexerId hn, hI.1]

omit [EntityWeight] in
theorem persistDynamicDataSources_sound {indexerId : DeploymentHash} {store : WritableStore} :
    ∀ {ds : List C.DataSource} {state : BlockState C.DataSourceTemplate},
      state.Sound indexerId store content →
      (persistDynamicDataSources state ds).Sound indexerId store content
  | [], _, h => h
  | dataSource :: ds, state, h => by
    have ha : (persistDynamicDataSources state [dataSource]).Sound indexerId store content :=
      ⟨h.store_eq, h.cached, h.updates, h.handlerUpdates⟩
    have hr : (persistDynamicDataSources (persistDynamicDataSources state [dataSource])
        ds).Sound indexerId store content := persistDynamicDataSources_sound ha
    exact hr

variable {block : C.Block}

theorem processCreated_succ_eq_ok {fuel : ℕ} {ctx ctx' : IndexingContext C}
    (h : processCreated impl env block (fuel + 1) ctx state = .ok (ctx', st')) :
    (ctx' = ctx ∧ st' = state) ∨
    ∃ ds hs inst triggers s₁,
      createDynamicDataSources env ctx state.createdDataSources = .ok (ds, hs, inst) ∧
      env.triggersInBlock block (C.fromDataSources ds) = .ok triggers ∧
      triggers.foldlM (fun state t =>
        (processTriggerInRuntimeHosts impl env hs block t state).mapErr fun e =>
          BlockProcessingError.unknown e.error)
        (persistDynamicDataSources { state with createdDataSources := [] } ds)
        = .ok s₁ ∧
      processCreated impl env block fuel
        { ctx with inst, filter := C.extendFilter ctx.filter ds } s₁
        = .ok (ctx', st') := by
  rw [processCreated] at h
  split at h
  next => cases h
  next =>
    cases h
    exact .inl ⟨rfl, rfl⟩
  next =>
    obtain ⟨⟨ins, d⟩, hd, h⟩ := bind_eq_ok.1 h
    rw [ofOption_eq_ok, BlockState.drainCreatedDataSources, ite_none_left_eq_some] at hd
    obtain ⟨rfl, rfl⟩ := Prod.mk.inj (Option.some.inj hd.2)
    obtain ⟨⟨ds, hs, inst⟩, hc, h⟩ := bind_eq_ok.1 h
    obtain ⟨triggers, ht, h⟩ := bind_eq_ok.1 h
    obtain ⟨s₁, hl, h⟩ := bind_eq_ok.1 h
    exact .inr ⟨ds, hs, inst, triggers, s₁, mapErr_eq_ok.mp hc,
      ofExcept_eq_ok.mp (mapErr_eq_ok.mp ht), hl, h⟩

theorem processCreated_sound (hse : Serves env.store content) (hc : env.Callbacks impl) :
    ∀ {fuel : ℕ} {ctx ctx' : IndexingContext C} {state st' : BlockState C.DataSourceTemplate},
      processCreated impl env block fuel ctx state = .ok (ctx', st') →
      state.Sound ctx.inst.indexerId env.store content →
      ctx'.inst.indexerId = ctx.inst.indexerId ∧ st'.Sound ctx.inst.indexerId env.store content
  | 0, _, _, _, _, hs, _ => by cases hs
  | fuel + 1, ctx, ctx', state, st', hs, h => by
    rcases processCreated_succ_eq_ok hs with ⟨rfl, rfl⟩ |
      ⟨dataSources, hosts, inst, triggers, state₁, hcr, -, hl, hr⟩
    · exact ⟨rfl, h⟩
    · obtain ⟨hi, hh⟩ := createDynamicDataSources_indexerId hcr
      have hpe : (persistDynamicDataSources { state with createdDataSources := [] }
          dataSources).Sound ctx.inst.indexerId env.store content :=
        persistDynamicDataSources_sound h
      have hp : state₁.Sound ctx.inst.indexerId env.store content :=
        foldlM_processTriggerInRuntimeHosts (sound_of_hosts hse hc hh) hpe hl
      rw [← show inst.indexerId = ctx.inst.indexerId from hi] at hp ⊢
      exact processCreated_sound hse hc hr hp

def IndexingContext.Coherent (ctx : IndexingContext C) (content : Content) : Prop :=
  ∀ key data, ctx.entityLfuCache.peek key = some data →
    key.indexerId = ctx.inst.indexerId ∧ data = content.lookup key

variable {ctx ctx' : IndexingContext C} {b : C.Block} {triggers : List C.TriggerData} {fuel : ℕ}
  {nr : Bool}

theorem runTriggers_sound (hse : Serves env.store content) (hc : env.Callbacks impl)
    (hct : ctx.Coherent content)
    (hs : runTriggers impl env fuel ctx b triggers = .ok (some (ctx', state, nr))) :
    ctx'.inst.indexerId = ctx.inst.indexerId ∧
      state.Sound ctx.inst.indexerId env.store content := by
  have hn : (BlockState.new env.store ctx.entityLfuCache : BlockState C.DataSourceTemplate).Sound
      ctx.inst.indexerId env.store content := HostExports.sound_new (hct _ _)
  unfold runTriggers at hs
  split at hs
  next => cases hs
  next => cases hs
  next => cases hs
  next s₁ ht =>
    obtain ⟨r, -, hs⟩ := bind_eq_ok.1 hs
    obtain ⟨⟨ctx₁, s₂⟩, hcr, hs⟩ := bind_eq_ok.1 hs
    obtain ⟨rfl, heq⟩ := Prod.mk.inj (Option.some.inj (Outcome.ok.inj hs))
    obtain ⟨rfl, -⟩ := Prod.mk.inj heq
    have hf := foldlM_processTriggerInRuntimeHosts
      (sound_of_hosts hse hc fun _ => ctx.inst.indexerId_eq) hn ht
    have ha := processCreated_sound hse hc hcr hf
    exact ha

variable {r : Processed C}

theorem finishBlock_spec (hs : finishBlock impl env ctx b state nr = .ok r) :
    ∃ m : ModificationsAndCache, state.entityCache.asModifications impl
        (env.order.toList state.entityCache.updates) = .ok m ∧
      r.transacted = some (m.modifications, m.dataSources) ∧
      r.ctx = { ctx with entityLfuCache := r.ctx.entityLfuCache } ∧
      ∀ key data, r.ctx.entityLfuCache.peek key = some data →
        m.entityLfuCache.peek key = some data := by
  unfold finishBlock at hs
  split at hs
  next => cases hs
  next =>
    split at hs
    · cases hs
    · obtain ⟨m, hm, hs⟩ := bind_eq_ok.1 hs
      obtain ⟨⟨e, c⟩, he, hs⟩ := bind_eq_ok.1 hs
      dsimp only at hs
      split at hs
      · obtain ⟨-, -, rfl⟩ := bind_pure_eq_ok.1 hs
        refine ⟨m, mapErr_eq_ok.mp hm, rfl, rfl, fun key data hd => ?_⟩
        exact LfuCache.peek_evict (ofOption_eq_ok.mp he) hd
      · cases hs

theorem processBlock_transacted (hs : processBlock impl env fuel ctx b triggers = .ok r)
    {t : List EntityModification × List StoredDynamicDataSource} (ht : r.transacted = some t) :
    env.transactBlockOperations (C.ptr b) t.1 t.2 = .ok () := by
  obtain ⟨r₁, -, hs⟩ := bind_eq_ok.1 hs
  rcases r₁ with - | ⟨ctx, state, nr⟩
  · cases hs
    cases ht
  · simp only [finishBlock] at hs
    split at hs
    next => cases hs
    next =>
      split at hs
      · cases hs
      · obtain ⟨m, -, hs⟩ := bind_eq_ok.1 hs
        obtain ⟨⟨e, c⟩, -, hs⟩ := bind_eq_ok.1 hs
        split at hs
        · obtain ⟨⟨⟩, hc, rfl⟩ := bind_pure_eq_ok.1 hs
          cases ht
          exact ofExcept_eq_ok.1 (mapErr_eq_ok.1 hc)
        · cases hs

end

/-- An indexer at work: its context, and what the store holds. -/
structure Indexing (C : Blockchain) where
  ctx : IndexingContext C
  content : Content

/-- A block to process; `content` is what the store holds afterwards. -/
structure BlockInput (C : Blockchain) where
  env : Environment C
  block : C.Block
  triggers : List C.TriggerData
  fuel : ℕ
  content : Content

section

variable {C : Blockchain} [EntityWeight]
variable (impl : EntityHeap)

def Indexing.step (s : Indexing C) (l : BlockInput C) : Option (Indexing C) :=
  (processBlock impl l.env l.fuel s.ctx l.block l.triggers).value?.map fun r =>
    ⟨r.ctx, l.content⟩

/-- The store answers from what it holds, and it commits what it is given. -/
structure BlockInput.Commits (s : Indexing C) (l : BlockInput C) : Prop where
  serves : Serves l.env.store s.content
  callbacks : l.env.Callbacks impl
  commits : ∀ {r}, processBlock impl l.env l.fuel s.ctx l.block l.triggers = .ok r →
    ∀ t i, l.content.entities t i = commit s.content.lookup (r.transacted.elim [] (·.1))
      ⟨s.ctx.inst.indexerId, t, i⟩

/-- The records of the block keep what is stored. -/
def BlockInput.KeepsStored (s : Indexing C) (l : BlockInput C) : Prop :=
  ∀ {ctx state needsRestart}, runTriggers impl l.env l.fuel s.ctx l.block l.triggers
    = .ok (some (ctx, state, needsRestart)) → state.entityCache.CachesStored s.content

variable {impl}

theorem Indexing.coherent_step {s s' : Indexing C} {l : BlockInput C}
    (h : s.ctx.Coherent s.content) (hok : l.Commits impl s) (hk : l.KeepsStored impl s)
    (hs : s.step impl l = some s') : s'.ctx.Coherent s'.content := by
  obtain ⟨r, hr, rfl⟩ := map_eq_some_iff.1 hs
  have hp : processBlock impl l.env l.fuel s.ctx l.block l.triggers = .ok r := by
    rcases e : processBlock impl l.env l.fuel s.ctx l.block l.triggers with r' | err | -
    · rw [e] at hr
      exact congrArg Outcome.ok (Option.some.inj hr)
    · rw [e] at hr
      cases hr
    · rw [e] at hr
      cases hr
  have hc := hok.commits hp
  obtain ⟨r₁, hru, hf⟩ := bind_eq_ok.1 hp
  rcases r₁ with - | ⟨ctx, state, nr⟩
  · -- the cache is lost, so nothing is cached
    cases hf
    intro key data hd
    cases hd
  · obtain ⟨hid, hso⟩ := runTriggers_sound hok.serves hok.callbacks h hru
    obtain ⟨m, hm, ht, hct, hca⟩ := finishBlock_spec hf
    have hi : r.ctx.inst = ctx.inst := by rw [hct]
    have hse : Serves state.entityCache.store s.content := hso.store_eq ▸ hok.serves
    have ha := (EntityCache.agrees_commit_iff hse hso.agrees
      (l.env.order.enumerates _) hm).2 (hk hru)
    have hpe := (EntityCache.asModifications_spec hse hso.agrees (l.env.order.enumerates _) hm).2
    intro key data hd
    have hd := hca key data hd
    have hke : key.indexerId = s.ctx.inst.indexerId := by
      rw [hpe key] at hd
      rcases e : state.entityCache.updates.lookup key with - | op
      · rw [e] at hd
        exact (hso.cached hd).1
      · exact (hso.updates e).1
    refine ⟨hke.trans (hi ▸ hid).symm, ?_⟩
    have hn := hc key.entityType key.entityId
    rw [ht, ← hke] at hn
    exact (ha key data hd).trans hn.symm

variable (impl) in
/-- **The carried cache is coherent.** In every run of blocks that commit and keep what is stored,
an entity in the carried cache is the one that a lookup loads with an empty cache. -/
theorem entityLfuCache_eq_loaded_of_run {s s' : Indexing C} (hnew : s.ctx.entityLfuCache = .new)
    {ls : List (BlockInput C)}
    (hrun : Run (Indexing.step impl) (fun s l => l.Commits impl s ∧ l.KeepsStored impl s) s ls s')
    {key : EntityKey} {data : Option Entity}
    (hd : s'.ctx.entityLfuCache.peek key = some data) {store : WritableStore}
    (hserves : Serves store s'.content) {loaded : Option Entity} {cache : EntityLfuCache}
    (hload : LfuCache.new.getEntity store key = some (.ok loaded, cache)) : data = loaded := by
  have hco : s'.ctx.Coherent s'.content := by
    refine hrun.invariant (I := fun _ s => s.ctx.Coherent s.content) ?_ ?_
    · intro key data hd
      rw [hnew] at hd
      cases hd
    · intro ls s l s' hI hok hs
      exact Indexing.coherent_step hI hok.1 hok.2 hs
  obtain ⟨c, hc, -⟩ := LfuCache.new.getEntity_spec store key
  have hf := (Prod.mk.inj (Option.some.inj (hc.symm.trans hload))).1
  rw [(hco key data hd).2, hserves.load hf]

end

section Token

open EntityCache (token tokenKey aliceContent)

local instance : EntityWeight := ⟨fun _ _ => 1⟩

def ownedBy (owner : Value) : Entity :=
  (Entity.ofList [("owner", owner)]).insert "id" (.string "0x1")

noncomputable def tokenOrder (owner : Value) : EntityOpOrder :=
  .prefer [⟨tokenKey, .update (ownedBy owner)⟩]

def tokenChain : Blockchain where
  Block := BlockPtr
  TriggerData := Value
  MappingTrigger := Value
  DataSource := Unit
  DataSourceTemplate := Unit
  TriggerFilter := Unit
  ptr := id
  errorContext _ := ""
  handlerName _ := "handleToken"
  templateName _ := ""
  dataSourceName _ := "Token"
  creationBlock _ := none
  isDuplicateOf _ _ := true
  asStoredDynamicDataSource _ := ⟨"Token", ⟨none, "Token", 0⟩, none, none⟩
  tryFrom _ := .ok ()
  matchAndDecode _ owner _ := .ok (some owner)
  fromDataSources _ := ()
  extendFilter _ _ := ()

noncomputable def tokenEnvironment (content : Content) (owner : Value) :
    Environment tokenChain where
  store := content.serve
  build _ := .ok ()
  handle _ owner _ := .ok
    ⟨[.storeSet "Token" "0x1" (Entity.ofList [("owner", owner)])], none, tokenOrder owner⟩
  display _ := ""
  timeout := none
  triggersInBlock _ _ := .ok []
  isCanceled := false
  order := tokenOrder owner
  entityCacheSize := 100
  transactBlockOperations _ _ _ := .ok ()

def tokenIndexing (content : Content) : Indexing tokenChain :=
  ⟨⟨⟨"QmIndexer", [⟨(), "QmIndexer", "Token", [], tokenChain.templateName⟩], by simp⟩, [], (),
    .new⟩, content⟩

noncomputable def tokenBlock (content : Content) : BlockInput tokenChain :=
  ⟨tokenEnvironment content (.string "bob"), ⟨[], 7⟩, [.string "bob"], 1,
    .single "Token" "0x1" (token (.string "bob")) (by decide) (by decide) rfl⟩

noncomputable def tokenResult (content : Content) :
    Option (Option (Option Entity) × Option (List EntityKey × Option Entity)) :=
  (processBlock .pushing (tokenBlock content).env (tokenBlock content).fuel
    (tokenIndexing content).ctx (tokenBlock content).block (tokenBlock content).triggers).value?.map
      fun r => (r.ctx.entityLfuCache.peek tokenKey, r.transacted.map fun t =>
        (t.1.map EntityModification.entityKey, commit content.lookup t.1 tokenKey))

theorem step_tokenBlock {content : Content} {cached : Option (Option Entity)}
    (h : tokenResult content = some (cached, some ([tokenKey], some (token (.string "bob")))))
    (hot : ∀ t i, ¬ (t = "Token" ∧ i = "0x1") → content.entities t i = none) :
    (tokenBlock content).Commits .pushing (tokenIndexing content) ∧
      ∃ s, (tokenIndexing content).step .pushing (tokenBlock content) = some s ∧
        s.content = (tokenBlock content).content ∧ s.ctx.entityLfuCache.peek tokenKey = cached := by
  obtain ⟨r, hr, heq⟩ := map_eq_some_iff.1 h
  obtain ⟨hca, htr⟩ := Prod.mk.inj heq
  obtain ⟨⟨mods, ds⟩, ht, heq⟩ := map_eq_some_iff.1 htr
  obtain ⟨hk, hco⟩ := Prod.mk.inj heq
  refine ⟨⟨content.serves_serve, ?_, fun {r'} hr' t i => ?_⟩, ⟨r.ctx, _⟩, ?_, rfl, hca⟩
  · -- the handler makes one call, which takes in no states
    intro host o state inv hi c hc ot ho
    cases hi
    obtain rfl := List.mem_singleton.1 hc
    cases ho
  · rw [hr'] at hr
    cases hr
    rw [ht]
    show (if t = "Token" ∧ i = "0x1" then some (token (.string "bob")) else none) = _
    split
    next hti =>
      obtain ⟨rfl, rfl⟩ := hti
      exact hco.symm
    next hti =>
      have hky : ∀ m ∈ mods, m.entityKey ≠ ⟨"QmIndexer", t, i⟩ := by
        intro m hm he
        have hme : m.entityKey ∈ mods.map EntityModification.entityKey := List.mem_map_of_mem hm
        rw [show mods.map EntityModification.entityKey = [tokenKey] from hk, he,
          List.mem_singleton] at hme
        obtain ⟨-, rfl, rfl⟩ := EntityKey.mk.inj hme
        exact hti ⟨rfl, rfl⟩
      have hke : commit content.lookup mods ⟨"QmIndexer", t, i⟩ = content.entities t i :=
        commit_of_not_mem hky
      exact (hke.trans (hot t i hti)).symm
  · show Option.map _ _ = _
    rw [hr]
    rfl

theorem entityLfuCache_ne_loaded :
    ∃ s : Indexing tokenChain, Run (Indexing.step .pushing)
        (fun s l => l.Commits .pushing s) (tokenIndexing aliceContent)
        [tokenBlock aliceContent] s ∧
      s.ctx.entityLfuCache.peek tokenKey = some (some ((token (.string "bob")).typed "Token")) ∧
      (LfuCache.new.getEntity s.content.serve tokenKey).map (fun r => r.1.toOption)
        = some (some (some (token (.string "bob")))) := by
  have ho : ∀ t i, ¬ (t = "Token" ∧ i = "0x1") → aliceContent.entities t i = none :=
    fun t i hti => if_neg hti
  obtain ⟨hc, s, hs, hco, hca⟩ := step_tokenBlock (by decide : tokenResult aliceContent
      = some (some (some ((token (.string "bob")).typed "Token")),
        some ([tokenKey], some (token (.string "bob"))))) ho
  refine ⟨s, .cons hc hs (.nil s), hca, ?_⟩
  rw [hco]
  decide

theorem keepsStored_tokenBlock :
    (tokenBlock .empty).KeepsStored .pushing (tokenIndexing .empty) := by
  intro ctx state nr hr key op hop
  have hu : ((runTriggers .pushing (tokenBlock .empty).env
      (tokenBlock .empty).fuel (tokenIndexing .empty).ctx (tokenBlock .empty).block
      (tokenBlock .empty).triggers).value?.map fun r => r.map fun x => x.2.1.entityCache.updates)
      = some (some ((∅ : HashMap EntityKey EntityOp).insert tokenKey
        (.update (ownedBy (.string "bob"))))) := by
    decide
  rw [hr] at hu
  have heq := Option.some.inj (Option.some.inj hu)
  rw [show state.entityCache.updates = _ from heq] at hop
  have hk : key = tokenKey := by
    by_contra hne
    rw [Finmap.lookup_insert_of_ne _ hne] at hop
    cases hop
  subst hk
  cases hop
  show (ownedBy (.string "bob")).removeNullFields.untyped = _
  decide

theorem entityLfuCache_eq_loaded_bob :
    ∃ s : Indexing tokenChain, Run (Indexing.step .pushing)
        (fun s l => l.Commits .pushing s ∧
          l.KeepsStored .pushing s) (tokenIndexing .empty) [tokenBlock .empty] s ∧
      s.ctx.entityLfuCache.peek tokenKey = some (some (token (.string "bob"))) ∧
      ∀ {loaded cache}, LfuCache.new.getEntity s.content.serve tokenKey = some (.ok loaded, cache) →
        some (token (.string "bob")) = loaded := by
  obtain ⟨hco, s, hs, -, hc⟩ := step_tokenBlock
    (by decide : tokenResult .empty = some (some (some (token (.string "bob"))),
      some ([tokenKey], some (token (.string "bob"))))) fun t i _ => rfl
  have hr : Run (Indexing.step .pushing)
      (fun s l => l.Commits .pushing s ∧
        l.KeepsStored .pushing s) (tokenIndexing .empty) [tokenBlock .empty] s :=
    .cons ⟨hco, keepsStored_tokenBlock⟩ hs (.nil s)
  exact ⟨s, hr, hc, fun hl =>
    entityLfuCache_eq_loaded_of_run .pushing rfl hr hc s.content.serves_serve hl⟩

end Token

end Massbit
