/-
Which host processes which trigger of a block.
-/
import Massbit.Indexer.ProcessBlock

open List

theorem Outcome.map_foldlM {E A S S' : Type} {f : S → A → Outcome E S}
    {f' : S' → A → Outcome E S'} (g : S' → S) {P : S' → Prop}
    (hm : ∀ s a, P s → g <$> f' s a = f (g s) a) (hP : ∀ s a s', P s → f' s a = .ok s' → P s') :
    ∀ (l : List A) (s : S'), P s → g <$> l.foldlM f' s = l.foldlM f (g s)
  | [], _, _ => rfl
  | a :: l, s, hs => by
    rw [foldlM_cons, foldlM_cons, map_bind, ← hm s a hs, bind_map_left]
    apply bind_congr
    intro s' hs'
    exact map_foldlM g hm hP l s' (hP s a s' hs hs')

theorem Outcome.map_mapErr {E E' A B : Type} (f : E → E') (g : A → B) (x : Outcome E A) :
    g <$> x.mapErr f = (g <$> x).mapErr f := by
  cases x <;> rfl

namespace Massbit

variable {C : Blockchain}

structure Watched (C : Blockchain) where
  host : RuntimeHost C
  filter : C.TriggerFilter
  processed : List C.TriggerData

def Watched.fresh (filter : C.TriggerFilter) (hosts : List (RuntimeHost C)) : List (Watched C) :=
  hosts.map fun host => ⟨host, filter, []⟩

@[simp] theorem Watched.map_host_fresh (f : C.TriggerFilter) (hosts : List (RuntimeHost C)) :
    (fresh f hosts).map Watched.host = hosts := by
  rw [fresh, map_map]
  exact map_id'' (fun _ => rfl) hosts

section

variable [EntityWeight]
variable (impl : EntityHeap) (env : Environment C)

def Watched.processTrigger (watched : Watched C) (block : C.Block) (trigger : C.TriggerData)
    (state : BlockState C.DataSourceTemplate) :
    Outcome MappingError (Watched C × BlockState C.DataSourceTemplate) :=
  match C.matchAndDecode watched.host.dataSource trigger block with
  | .error e => .err (.unknown e)
  | .ok none => .ok (watched, state)
  | .ok (some mappingTrigger) => do
    let state ← watched.host.processMappingTrigger impl env (C.ptr block) mappingTrigger state
    return ({ watched with processed := watched.processed ++ [trigger] }, state)

abbrev Watch (C : Blockchain) := List (Watched C) × BlockState C.DataSourceTemplate

def watchTriggerInRuntimeHosts (block : C.Block) (watch : Watch C) (trigger : C.TriggerData) :
    Outcome MappingError (Watch C) :=
  watch.1.foldlM (fun (done : Watch C) watched => do
    let r ← watched.processTrigger impl env block trigger done.2
    return (done.1 ++ [r.1], r.2)) ([], watch.2)

def watchTriggers (block : C.Block) (triggers : List C.TriggerData) (watch : Watch C) :
    Outcome MappingError (Watch C) :=
  triggers.foldlM (fun watch trigger =>
    (watchTriggerInRuntimeHosts impl env block watch trigger).mapErr fun e =>
      let e := if C.errorContext trigger = "" then e else e.context (C.errorContext trigger)
      e.context "failed to process trigger") watch

def watchCreated (block : C.Block) :
    ℕ → IndexingContext C → Watch C → Outcome BlockProcessingError (IndexingContext C × Watch C)
  | 0, _, _ => .panic
  | fuel + 1, ctx, watch =>
    match watch.2.hasCreatedDataSources with
    | none => .panic
    | some false => .ok (ctx, watch)
    | some true => do
      let (infos, state) ← Outcome.ofOption watch.2.drainCreatedDataSources
      let (dataSources, hosts, inst) ← (createDynamicDataSources env ctx infos).mapErr .unknown
      let filter := C.fromDataSources dataSources
      let triggers ← (Outcome.ofExcept (env.triggersInBlock block filter)).mapErr .unknown
      let state := persistDynamicDataSources state dataSources
      let created ← triggers.foldlM (fun watch trigger =>
        (watchTriggerInRuntimeHosts impl env block watch trigger).mapErr fun e =>
          .unknown e.error) (Watched.fresh filter hosts, state)
      watchCreated block fuel { ctx with inst, filter := C.extendFilter ctx.filter dataSources }
        (watch.1 ++ created.1, created.2)

def watchRun (fuel : ℕ) (ctx : IndexingContext C) (block : C.Block)
    (triggers : List C.TriggerData) :
    Outcome BlockProcessingError (Option (IndexingContext C × Watch C × Bool)) :=
  match watchTriggers impl env block triggers
      (Watched.fresh ctx.filter ctx.inst.hosts, .new env.store ctx.entityLfuCache) with
  | .panic => .panic
  | .err (.unknown e) => .err (.unknown e)
  | .err (.possibleReorg _) => .ok none
  | .ok watch => do
    let needsRestart ← Outcome.ofOption watch.2.hasCreatedDataSources
    let (ctx, watch) ← watchCreated impl env block fuel { ctx with entityLfuCache := .new } watch
    return some (ctx, watch, needsRestart)

def watchBlock (fuel : ℕ) (ctx : IndexingContext C) (block : C.Block)
    (triggers : List C.TriggerData) :
    Outcome BlockProcessingError (List (Watched C) × Processed C) := do
  match ← watchRun impl env fuel ctx block triggers with
  | none => .ok ([], ⟨{ ctx with entityLfuCache := .new }, true, none⟩)
  | some (ctx, watch, needsRestart) => do
    let processed ← finishBlock impl env ctx block watch.2 needsRestart
    return (watch.1, processed)

variable {impl env}

theorem Watched.snd_processTrigger (w : Watched C) (block : C.Block)
    (trigger : C.TriggerData) (state : BlockState C.DataSourceTemplate) :
    Prod.snd <$> w.processTrigger impl env block trigger state
      = w.host.processTrigger impl env block trigger state := by
  unfold processTrigger RuntimeHost.processTrigger
  rcases C.matchAndDecode w.host.dataSource trigger block with e | - | mt
  · rfl
  · rfl
  · simp

theorem snd_watchTriggerInRuntimeHosts (block : C.Block) (watch : Watch C) (t : C.TriggerData) :
    Prod.snd <$> watchTriggerInRuntimeHosts impl env block watch t
      = processTriggerInRuntimeHosts impl env (watch.1.map Watched.host) block t watch.2 := by
  unfold watchTriggerInRuntimeHosts processTriggerInRuntimeHosts
  rw [foldlM_map]
  refine Outcome.map_foldlM (P := fun _ => True) Prod.snd ?_ (fun _ _ _ _ _ => trivial) _ _ trivial
  intro done w _
  rw [map_bind, ← w.snd_processTrigger block t done.2]
  rfl

def RuntimeHost.matches? (host : RuntimeHost C) (block : C.Block) (trigger : C.TriggerData) : Bool :=
  match C.matchAndDecode host.dataSource trigger block with
  | .ok (some _) => true
  | .ok none | .error _ => false

def Watched.after (block : C.Block) (triggers : List C.TriggerData) (watched : Watched C) :
    Watched C :=
  { watched with
    processed := watched.processed ++ triggers.filter (watched.host.matches? block) }

omit [EntityWeight] in
theorem Watched.after_nil (block : C.Block) (watched : Watched C) :
    watched.after block [] = watched := by
  simp [after]

omit [EntityWeight] in
theorem Watched.after_append (block : C.Block) (l l' : List C.TriggerData) (w : Watched C) :
    (w.after block l).after block l' = w.after block (l ++ l') := by
  simp [after]

variable {block : C.Block} {wat : Watch C} {t : C.TriggerData}

theorem Watched.processTrigger_eq_ok {w w' : Watched C}
    {state state' : BlockState C.DataSourceTemplate}
    (h : w.processTrigger impl env block t state = .ok (w', state')) :
    w' = w.after block [t] := by
  unfold processTrigger at h
  rcases hm : C.matchAndDecode w.host.dataSource t block with e | - | mt
  · rw [hm] at h
    cases h
  · rw [hm] at h
    obtain ⟨rfl, -⟩ := Prod.mk.inj (Outcome.ok.inj h)
    simp [after, RuntimeHost.matches?, hm]
  · rw [hm] at h
    obtain ⟨s₁, -, h⟩ := bind_eq_ok.1 h
    obtain ⟨rfl, -⟩ := Prod.mk.inj (Outcome.ok.inj h)
    simp [after, RuntimeHost.matches?, hm]

variable {wa' : Watch C}

theorem watchTriggerInRuntimeHosts_eq_ok
    (h : watchTriggerInRuntimeHosts impl env block wat t = .ok wa') :
    wa'.1 = wat.1.map (Watched.after block [t]) := by
  refine foldlM_invariant (I := fun pre (done : Watch C) =>
    done.1 = pre.map (Watched.after block [t])) h rfl ?_
  intro pre w done done' _ hd hs
  obtain ⟨⟨w', state⟩, hp, rfl⟩ := bind_pure_eq_ok.1 hs
  rw [map_append, ← hd, Watched.processTrigger_eq_ok hp]
  rfl

theorem foldlM_watch_eq_ok {E : Type} {f : C.TriggerData → MappingError → E}
    {ts : List C.TriggerData} (h : ts.foldlM
      (fun wat t =>
      (watchTriggerInRuntimeHosts impl env block wat t).mapErr (f t)) wat
      = .ok wa') :
    wa'.1 = wat.1.map (Watched.after block ts) := by
  refine foldlM_invariant (I := fun pre (w : Watch C) =>
    w.1 = wat.1.map (Watched.after block pre)) h ?_ ?_
  · exact (map_id'' (fun w => w.after_nil block) _).symm
  · intro pre t w w' _ hw hs
    rw [watchTriggerInRuntimeHosts_eq_ok (mapErr_eq_ok.1 hs), hw, map_map]
    apply map_congr_left
    intro wa _
    exact wa.after_append block pre [t]

omit [EntityWeight] in
theorem map_host_after (block : C.Block) (ts : List C.TriggerData) (l : List (Watched C)) :
    (l.map (Watched.after block ts)).map Watched.host = l.map Watched.host := by
  rw [map_map]
  rfl

theorem snd_foldlM_watch {E : Type} (f : C.TriggerData → MappingError → E)
    {hosts : List (RuntimeHost C)} (block : C.Block) (ts : List C.TriggerData)
    (hh : wat.1.map Watched.host = hosts) :
    Prod.snd <$> ts.foldlM (fun wat t =>
        (watchTriggerInRuntimeHosts impl env block wat t).mapErr (f t)) wat
      = ts.foldlM (fun state t =>
        (processTriggerInRuntimeHosts impl env hosts block t state).mapErr (f t))
        wat.2 := by
  refine Outcome.map_foldlM (P := fun wat : Watch C => wat.1.map Watched.host = hosts) Prod.snd
    ?_ ?_ ts wat hh
  · intro wat t hw
    rw [Outcome.map_mapErr, snd_watchTriggerInRuntimeHosts, hw]
  · intro wat t w' hw hs
    rw [watchTriggerInRuntimeHosts_eq_ok (mapErr_eq_ok.1 hs), map_host_after, hw]

theorem snd_watchCreated (block : C.Block) :
    ∀ (fuel : ℕ) (ctx : IndexingContext C) (wat : Watch C),
      (fun r : IndexingContext C × Watch C => (r.1, r.2.2)) <$>
          watchCreated impl env block fuel ctx wat
        = processCreated impl env block fuel ctx wat.2
  | 0, _, _ => rfl
  | fuel + 1, ctx, wat => by
    rw [watchCreated, processCreated]
    rcases wat.2.hasCreatedDataSources with - | - | -
    · rfl
    · rfl
    · show _ <$> (_ >>= _) = _
      rw [map_bind]
      congr 1
      funext drained
      obtain ⟨infos, state⟩ := drained
      rw [map_bind]
      congr 1
      funext next
      obtain ⟨dataSources, hosts, inst⟩ := next
      rw [map_bind]
      congr 1
      funext triggers
      let watch' : Watch C := (Watched.fresh (C.fromDataSources dataSources) hosts,
        persistDynamicDataSources state dataSources)
      have hl : Prod.snd <$> triggers.foldlM (fun wat t =>
          (watchTriggerInRuntimeHosts impl env block wat t).mapErr fun e =>
            BlockProcessingError.unknown e.error) watch'
          = triggers.foldlM (fun state t =>
            (processTriggerInRuntimeHosts impl env hosts block t state).mapErr fun e =>
              .unknown e.error) watch'.2 :=
        snd_foldlM_watch _ block triggers (Watched.map_host_fresh _ hosts)
      show _ <$> (_ >>= _) = triggers.foldlM _ watch'.2 >>= _
      rw [map_bind, ← hl, bind_map_left]
      congr 1
      funext created
      exact snd_watchCreated block fuel _ _

theorem snd_watchBlock (fuel : ℕ) (ctx : IndexingContext C) (block : C.Block)
    (triggers : List C.TriggerData) :
    Prod.snd <$> watchBlock impl env fuel ctx block triggers
      = processBlock impl env fuel ctx block triggers := by
  have hl : Prod.snd <$> watchTriggers impl env block triggers
      (Watched.fresh ctx.filter ctx.inst.hosts, .new env.store ctx.entityLfuCache)
      = processTriggers impl env ctx.inst block triggers (.new env.store ctx.entityLfuCache) :=
    snd_foldlM_watch _ block triggers (Watched.map_host_fresh _ _)
  have hr : (Option.map fun r : IndexingContext C × Watch C × Bool => (r.1, r.2.1.2, r.2.2)) <$>
      watchRun impl env fuel ctx block triggers = runTriggers impl env fuel ctx block triggers := by
    unfold watchRun runTriggers
    rw [← hl]
    rcases watchTriggers impl env block triggers
      (Watched.fresh ctx.filter ctx.inst.hosts, .new env.store ctx.entityLfuCache)
      with wat | (e | e) | -
    · show _ <$> (_ >>= _) = _ >>= _
      rw [map_bind]
      congr 1
      funext needsRestart
      rw [map_bind, ← snd_watchCreated, bind_map_left]
      rfl
    · rfl
    · rfl
    · rfl
  unfold watchBlock processBlock
  rw [map_bind, ← hr, bind_map_left]
  congr 1
  funext r
  rcases r with - | ⟨ctx, wat, needsRestart⟩
  · rfl
  · simp

end

section

variable {Template : Type} {s s' : BlockState Template}

namespace BlockState

def dataSources (s : BlockState Template) : List StoredDynamicDataSource := s.entityCache.dataSources

theorem dataSources_enterHandler (h : s.enterHandler = some s') :
    s'.dataSources = s.dataSources := by
  have hc := entityCache_enterHandler h
  rw [EntityCache.enterHandler, Option.ite_none_left_eq_some] at hc
  show s'.entityCache.dataSources = _
  rw [← Option.some.inj hc.2]
  rfl

theorem dataSources_exitHandler {d : EntityOps}
    (h : s.exitHandler d = some s') : s'.dataSources = s.dataSources := by
  have hc := entityCache_exitHandler h
  rw [EntityCache.exitHandler, Option.ite_none_right_eq_some] at hc
  show s'.entityCache.dataSources = _
  rw [← Option.some.inj hc.2]
  exact (EntityCache.entityOps_frame _ d).2.2.2

theorem dataSources_discard {e : IndexerError}
    (h : s.exitHandlerAndDiscardChangesDueToError e = some s') :
    s'.dataSources = s.dataSources := by
  have hc := entityCache_discard h
  rw [EntityCache.exitHandlerAndDiscardChanges, Option.ite_none_right_eq_some] at hc
  show s'.entityCache.dataSources = _
  rw [← Option.some.inj hc.2]
  rfl

theorem dataSources_extend {impl : EntityHeap} {o : BlockState Template} {ops : EntityOps}
    (h : s.extend impl o ops = some s') : s'.dataSources = s.dataSources := by
  have hc := entityCache_extend h
  rw [EntityCache.extend, Option.ite_none_left_eq_some] at hc
  show s'.entityCache.dataSources = _
  rw [← Option.some.inj hc.2]
  exact (EntityCache.entityOps_frame _ ops).2.2.2

theorem dataSources_entityOp (s : BlockState Template) (key : EntityKey) (op : EntityOp) :
    (s.entityOp key op).dataSources = s.dataSources :=
  (s.entityCache.entityOps_frame [⟨key, op⟩]).2.2.2

theorem dataSources_getEntity [EntityWeight] {key : EntityKey}
    {r : Except QueryExecutionError (Option Entity)} (h : s.getEntity key = some (r, s')) :
    s'.dataSources = s.dataSources := by
  obtain ⟨c, hg, -⟩ := s.entityCache.get_spec key
  obtain ⟨-, hc⟩ := Prod.mk.inj (Option.some.inj (hg.symm.trans (entityCache_getEntity h)))
  show s'.entityCache.dataSources = _
  rw [← hc]
  rfl

theorem dataSources_pushCreatedDataSource {info : DataSourceTemplateInfo Template}
    (h : s.pushCreatedDataSource info = some s') : s'.dataSources = s.dataSources := by
  unfold pushCreatedDataSource at h
  split at h
  · rw [← Option.some.inj h]
    rfl
  · cases h

end BlockState

variable [EntityWeight]
variable {impl : EntityHeap}

theorem handlerInvariant_dataSources (es : HostExports Template)
    (ds : List StoredDynamicDataSource) :
    HandlerInvariant impl es (fun _ => True) fun s => s.dataSources = ds where
  enter h hs := (BlockState.dataSources_enterHandler hs).trans h
  call := by
    intro s s' c err h _ hs
    refine Eq.trans ?_ h
    rcases HostExports.call_cases hs with rfl | ⟨_, _, r, hg⟩ | ⟨_, _, op, rfl, -⟩ |
      ⟨_, _, _, _, _, -, -, hp⟩ | ⟨states, order, rfl, hf⟩
    · rfl
    · exact BlockState.dataSources_getEntity hg
    · exact BlockState.dataSources_entityOp s _ _
    · exact BlockState.dataSources_pushCreatedDataSource hp
    · refine BlockState.foldlM_extend (I := fun s' => s'.dataSources = s.dataSources) hf rfl ?_
      intro s₁ s₂ other _ hI hextend
      exact (BlockState.dataSources_extend hextend).trans hI
  exit h hs := (BlockState.dataSources_exitHandler hs).trans h
  discard h hs := (BlockState.dataSources_discard hs).trans h

variable {env : Environment C} {st state' : BlockState C.DataSourceTemplate}
  {hosts : List (RuntimeHost C)} {ts : List C.TriggerData}

theorem dataSources_foldlM {E : Type} {f : C.TriggerData → MappingError → E} {block : C.Block}
    (h : ts.foldlM (fun st t =>
      (processTriggerInRuntimeHosts impl env hosts block t st).mapErr (f t)) st
      = .ok state') :
    state'.dataSources = st.dataSources := by
  refine foldlM_processTriggerInRuntimeHosts (I := fun s => s.dataSources = st.dataSources) ?_ rfl h
  intro host _
  exact ⟨_, handlerInvariant_dataSources host.hostExports _, fun _ _ _ => trivial⟩

omit [EntityWeight] in
theorem dataSources_persistDynamicDataSources (ds : List C.DataSource) :
    ∀ st : BlockState C.DataSourceTemplate, (persistDynamicDataSources st ds).dataSources
        = st.dataSources ++ ds.map C.asStoredDynamicDataSource := by
  induction ds with
  | nil =>
    intro st
    exact (append_nil _).symm
  | cons dso ds ih =>
    intro st
    refine (ih _).trans ?_
    show (st.dataSources ++ [_]) ++ _ = _
    rw [append_assoc]
    rfl

theorem EntityCache.dataSources_asModifications {ca : EntityCache}
    {o : EntityOps} {m : ModificationsAndCache}
    (h : ca.asModifications impl o = .ok m) : m.dataSources = ca.dataSources := by
  unfold asModifications at h
  split at h
  · cases h
  · obtain ⟨c, -, h⟩ := bind_eq_ok.1 h
    obtain ⟨⟨elc, ms⟩, -, h⟩ := bind_eq_ok.1 h
    rw [← Outcome.ok.inj h]

omit [EntityWeight] in
theorem createDynamicDataSources_hosts {ctx : IndexingContext C}
    {ins : List (DataSourceTemplateInfo C.DataSourceTemplate)} {dataSources : List C.DataSource}
    {inst : IndexerInstance C}
    (h : createDynamicDataSources env ctx ins = .ok (dataSources, hosts, inst)) :
    inst.hosts = ctx.inst.hosts ++ hosts ∧ hosts.map RuntimeHost.dataSource = dataSources := by
  refine foldlM_invariant (I := fun _ c =>
    c.2.2.hosts = ctx.inst.hosts ++ c.2.1 ∧
      c.2.1.map RuntimeHost.dataSource = c.1) h ⟨(append_nil _).symm, rfl⟩ ?_
  rintro _ info ⟨dataSources, hosts, inst⟩ s' _ ⟨hh, hs⟩ hst
  obtain ⟨ds, -, hst⟩ := bind_eq_ok.1 hst
  obtain ⟨⟨host?, inst'⟩, ha, rfl⟩ := bind_pure_eq_ok.1 hst
  rcases IndexerInstance.addDynamicDataSource_eq_ok ha with
    ⟨-, -, ⟨rfl, rfl, -⟩ | ⟨host, rfl, hn, hp, -⟩⟩
  · exact ⟨hh, hs⟩
  · constructor
    · show inst'.hosts = ctx.inst.hosts ++ (hosts ++ [host])
      rw [hp, hh, append_assoc]
    · show (hosts ++ [host]).map RuntimeHost.dataSource = dataSources ++ [ds]
      rw [map_append, hs, IndexerInstance.newHost_eq_ok hn]
      rfl

variable {block : C.Block} {blockTriggers : List C.TriggerData}
  {selects : C.TriggerFilter → C.TriggerData → Bool} {watch w' : Watch C}

theorem dataSources_foldlM_watch {E : Type} {f : C.TriggerData → MappingError → E}
    (h : ts.foldlM (fun watch t =>
      (watchTriggerInRuntimeHosts impl env block watch t).mapErr (f t)) watch
      = .ok w') : w'.2.dataSources = watch.2.dataSources := by
  have hs : Prod.snd <$> ts.foldlM (fun watch t =>
      (watchTriggerInRuntimeHosts impl env block watch t).mapErr (f t)) watch
      = .ok w'.2 := by
    rw [h]
    rfl
  rw [snd_foldlM_watch f block ts rfl] at hs
  exact dataSources_foldlM hs

theorem watchCreated_succ_eq_ok {fuel : ℕ} {ctx ctx' : IndexingContext C}
    (h : watchCreated impl env block (fuel + 1) ctx watch = .ok (ctx', w')) :
    (ctx' = ctx ∧ w' = watch) ∨
    ∃ ds hosts inst ts, ∃ r : Watch C,
      createDynamicDataSources env ctx watch.2.createdDataSources = .ok (ds, hosts, inst) ∧
      env.triggersInBlock block (C.fromDataSources ds) = .ok ts ∧
      r.1 = (Watched.fresh (C.fromDataSources ds) hosts).map (Watched.after block ts) ∧
      r.2.dataSources = watch.2.dataSources ++ ds.map C.asStoredDynamicDataSource ∧
      watchCreated impl env block fuel
        { ctx with inst, filter := C.extendFilter ctx.filter ds }
        (watch.1 ++ r.1, r.2) = .ok (ctx', w') := by
  rw [watchCreated] at h
  split at h
  next => cases h
  next =>
    cases h
    exact .inl ⟨rfl, rfl⟩
  next =>
    obtain ⟨⟨ins, d⟩, hd, h⟩ := bind_eq_ok.1 h
    rw [ofOption_eq_ok, BlockState.drainCreatedDataSources, Option.ite_none_left_eq_some] at hd
    obtain ⟨rfl, rfl⟩ := Prod.mk.inj (Option.some.inj hd.2)
    obtain ⟨⟨ds, hosts, inst⟩, hc, h⟩ := bind_eq_ok.1 h
    obtain ⟨ts, ht, h⟩ := bind_eq_ok.1 h
    obtain ⟨r, hl, h⟩ := bind_eq_ok.1 h
    refine .inr ⟨ds, hosts, inst, ts, r, mapErr_eq_ok.1 hc,
      ofExcept_eq_ok.1 (mapErr_eq_ok.1 ht), foldlM_watch_eq_ok hl, ?_, h⟩
    exact (dataSources_foldlM_watch hl).trans (dataSources_persistDynamicDataSources _ _)

def Watched.Served (block : C.Block) (blockTriggers : List C.TriggerData)
    (selects : C.TriggerFilter → C.TriggerData → Bool) (watched : Watched C) : Prop :=
  watched.processed
    = (blockTriggers.filter (selects watched.filter)).filter (watched.host.matches? block)

variable {w : Watched C}

omit [EntityWeight] in
theorem Watched.served_after_fresh {f : C.TriggerFilter}
    (h : w ∈ (Watched.fresh f hosts).map (Watched.after block (blockTriggers.filter (selects f)))) :
    w.Served block blockTriggers selects := by
  obtain ⟨fr, hf, rfl⟩ := mem_map.1 h
  obtain ⟨host, -, rfl⟩ := mem_map.1 hf
  rfl

theorem watchCreated_eq_ok
    (hs : ∀ f ts, env.triggersInBlock block f = .ok ts → ts = blockTriggers.filter (selects f)) :
    ∀ {fuel : ℕ} {ctx ctx' : IndexingContext C} {watch w' : Watch C},
      watchCreated impl env block fuel ctx watch = .ok (ctx', w') →
      ∃ c : List (Watched C), w'.1 = watch.1 ++ c ∧
        ctx'.inst.hosts = ctx.inst.hosts ++ c.map Watched.host ∧
        w'.2.dataSources = watch.2.dataSources ++
          c.map (fun w => C.asStoredDynamicDataSource w.host.dataSource) ∧
        ∀ w ∈ c, w.Served block blockTriggers selects
  | 0, _, _, _, _, h => by cases h
  | fuel + 1, ctx, ctx', watch, w', h => by
    rcases watchCreated_succ_eq_ok h with ⟨rfl, rfl⟩ |
      ⟨dataSources, hosts, inst, ts, round, hcr, ht, hr, hso, hre⟩
    · exact ⟨[], by simp⟩
    · obtain rfl := hs _ _ ht
      obtain ⟨hh, hc⟩ := createDynamicDataSources_hosts hcr
      have hma : round.1.map Watched.host = hosts := by
        rw [hr, map_host_after, Watched.map_host_fresh]
      obtain ⟨c, hw, hct, hst, hp⟩ := watchCreated_eq_ok hs hre
      refine ⟨round.1 ++ c, ?_, ?_, ?_, ?_⟩
      · rw [hw, append_assoc]
      · rw [hct, map_append, hma, ← append_assoc]
        exact congrArg (· ++ _) hh
      · have hr' : round.1.map (fun w => C.asStoredDynamicDataSource
            w.host.dataSource) = dataSources.map C.asStoredDynamicDataSource := by
          rw [← hc, ← hma, map_map, map_map]
          rfl
        rw [hst, hso, map_append, hr', append_assoc]
      · intro w hm
        rcases mem_append.mp hm with hm | hm
        · rw [hr] at hm
          exact Watched.served_after_fresh hm
        · exact hp w hm

omit [EntityWeight] in
theorem Watched.Served.processed_eq_iff (h : w.Served block blockTriggers selects) :
    w.processed = blockTriggers.filter (w.host.matches? block) ↔
      ∀ t ∈ blockTriggers, w.host.matches? block t = true → selects w.filter t = true := by
  rw [h]
  constructor
  · intro heq t hme hm
    have hs : t ∈ (blockTriggers.filter (selects w.filter)).filter
        (w.host.matches? block) := by
      rw [heq]
      exact mem_filter.mpr ⟨hme, hm⟩
    exact (mem_filter.mp (mem_filter.mp hs).1).2
  · intro hse
    rw [filter_filter]
    apply filter_congr
    intro t hme
    rcases hm : w.host.matches? block t with - | -
    · rfl
    · simp [hse t hme hm]

variable (impl env) in
/-- **What a block does.** The block comes with the triggers that the current filter selects, and
`triggersInBlock` returns those that a filter selects, in order. -/
theorem processed_iff_selected {ctx : IndexingContext C} {triggers : List C.TriggerData}
    (hdelivered : triggers = blockTriggers.filter (selects ctx.filter))
    (hserved : ∀ filter triggers, env.triggersInBlock block filter = .ok triggers →
      triggers = blockTriggers.filter (selects filter)) {fuel : ℕ} {r : Processed C}
    (h : processBlock impl env fuel ctx block triggers = .ok r) {mods : List EntityModification}
    {stored : List StoredDynamicDataSource} (hcommit : r.transacted = some (mods, stored)) :
    ∃ hosts created : List (Watched C),
      watchBlock impl env fuel ctx block triggers = .ok (hosts ++ created, r) ∧
      hosts.map Watched.host = ctx.inst.hosts ∧
      r.ctx.inst.hosts = ctx.inst.hosts ++ created.map Watched.host ∧
      stored = created.map (fun watched => C.asStoredDynamicDataSource watched.host.dataSource) ∧
      ((∀ watched ∈ hosts ++ created,
          watched.processed = blockTriggers.filter (watched.host.matches? block)) ↔
        ∀ watched ∈ hosts ++ created, ∀ trigger ∈ blockTriggers,
          watched.host.matches? block trigger = true → selects watched.filter trigger = true) := by
  subst hdelivered
  have hw : ∃ watched, watchBlock impl env fuel ctx block
      (blockTriggers.filter (selects ctx.filter)) = .ok (watched, r) := by
    rw [← snd_watchBlock] at h
    obtain ⟨⟨watched, r'⟩, hw, heq⟩ := bind_eq_ok.1 h
    obtain rfl : r' = r := Outcome.ok.inj heq
    exact ⟨watched, hw⟩
  obtain ⟨watched, hw⟩ := hw
  obtain ⟨run, hr, hfi⟩ := bind_eq_ok.1 hw
  rcases run with - | ⟨ctx', watch, nr⟩
  · -- nothing is committed after a possible reorg
    obtain ⟨-, rfl⟩ := Prod.mk.inj (Outcome.ok.inj hfi)
    cases hcommit
  · obtain ⟨r', hr', heq⟩ := bind_eq_ok.1 hfi
    cases heq
    obtain ⟨m, hm, htr, hct, -⟩ := finishBlock_spec hr'
    unfold watchRun at hr
    split at hr
    next => cases hr
    next => cases hr
    next => cases hr
    next w₁ ht =>
      obtain ⟨re, -, hr⟩ := bind_eq_ok.1 hr
      obtain ⟨⟨ctx₁, w₂⟩, hc, hr⟩ := bind_eq_ok.1 hr
      obtain ⟨rfl, heq'⟩ := Prod.mk.inj (Option.some.inj (Outcome.ok.inj hr))
      obtain ⟨rfl, -⟩ := Prod.mk.inj heq'
      have hf := foldlM_watch_eq_ok ht
      have hn : w₁.2.dataSources = [] := dataSources_foldlM_watch ht
      obtain ⟨created, ha, hh, hs, hp⟩ := watchCreated_eq_ok hserved hc
      have hst : m.dataSources = w₂.2.dataSources := EntityCache.dataSources_asModifications hm
      have hal : ∀ watched ∈ w₁.1 ++ created, watched.Served block blockTriggers selects := by
        intro watched hme
        rcases mem_append.1 hme with hme | hme
        · rw [hf] at hme
          exact Watched.served_after_fresh hme
        · exact hp watched hme
      refine ⟨w₁.1, created, ?_, ?_, ?_, ?_, ?_⟩
      · rw [← ha]
        exact hw
      · rw [hf, map_host_after, Watched.map_host_fresh]
      · rw [hct, hh]
      · rw [htr] at hcommit
        obtain ⟨-, rfl⟩ := Prod.mk.inj (Option.some.inj hcommit)
        rw [hst, hs, hn, nil_append]
      · exact forall₂_congr fun watched hme => (hal watched hme).processed_eq_iff

end

end Massbit
