/-
The host functions of a handler (`host_exports.rs`, `module/mod.rs`).
-/
import Massbit.Indexer.BlockState

open Option

namespace Massbit

inductive HostExportError where
  | idConflict (entityType : String) (value : Value) (entityId : String)
  | noTemplate (name dataSourceName : String) (available : List String)
  | lookup (e : QueryExecutionError)

structure HostExports (Template : Type) where
  indexerId : DeploymentHash
  dataSourceName : String
  templates : List Template
  templateName : Template → String

inductive HostCall (Template : Type) where
  | storeGet (entityType entityId : String)
  | storeSet (entityType entityId : String) (data : HashMap String Value)
  | storeRemove (entityType entityId : String)
  | dataSourceCreate (name : String) (params : List String) (context : Option Entity)
      (creationBlock : BlockNumber)
  | ipfsMap (states : List (BlockState Template))
      (order : EntityOpOrder)

def HostCall.states {Template : Type} : HostCall Template → List (BlockState Template)
  | .ipfsMap states _ => states
  | .storeGet _ _ | .storeSet _ _ _ | .storeRemove _ _ | .dataSourceCreate _ _ _ _ => []

namespace HostExports

variable {Template : Type} (self : HostExports Template)

def storeSet (state : BlockState Template) (entityType entityId : String)
    (data : HashMap String Value) : Except HostExportError (BlockState Template) :=
  let key : EntityKey := ⟨self.indexerId, entityType, entityId⟩
  -- automatically add an "id" value
  let entity : Entity := data.insert "id" (.string entityId)
  match data.lookup "id" with
  | some v =>
    if v ≠ .string entityId then .error (.idConflict entityType v entityId)
    else .ok (state.entityOp key (.update entity))
  | none => .ok (state.entityOp key (.update entity))

def storeRemove (state : BlockState Template) (entityType entityId : String) :
    BlockState Template :=
  state.entityOp ⟨self.indexerId, entityType, entityId⟩ .remove

def dataSourceCreate (state : BlockState Template) (name : String) (params : List String)
    (context : Option Entity) (creationBlock : BlockNumber) :
    Option (Except HostExportError (BlockState Template)) :=
  -- resolve the name into the right template
  match self.templates.find? fun template => self.templateName template = name with
  | none => some (.error (.noTemplate name self.dataSourceName
      (self.templates.map self.templateName)))
  | some template =>
    (state.pushCreatedDataSource ⟨template, params, context, creationBlock⟩).map .ok

variable [EntityWeight]
variable (impl : EntityHeap)

def storeGet (state : BlockState Template) (entityType entityId : String) :
    Option (Except QueryExecutionError (Option Entity) × BlockState Template) :=
  state.getEntity ⟨self.indexerId, entityType, entityId⟩

def call (state : BlockState Template) :
    HostCall Template → Option (Option HostExportError × BlockState Template)
  | .storeGet entityType entityId =>
    (self.storeGet state entityType entityId).map fun r =>
      match r.1 with
      | .ok _ => (none, r.2)
      | .error e => (some (.lookup e), r.2)
  | .storeSet entityType entityId data =>
    match self.storeSet state entityType entityId data with
    | .ok state => some (none, state)
    | .error e => some (some e, state)
  | .storeRemove entityType entityId => some (none, self.storeRemove state entityType entityId)
  | .dataSourceCreate name params context creationBlock =>
    (self.dataSourceCreate state name params context creationBlock).map fun r =>
      match r with
      | .ok state => (none, state)
      | .error e => (some e, state)
  | .ipfsMap states order =>
    (states.foldlM (fun state other =>
      BlockState.extend impl state other (order.toList other.entityCache.updates)) state).map
        fun state => (none, state)

def calls : BlockState Template → List (HostCall Template) →
    Option (Option HostExportError × BlockState Template)
  | state, [] => some (none, state)
  | state, c :: cs =>
    match self.call impl state c with
    | none => none
    | some (some e, state) => some (some e, state)
    | some (none, state) => calls state cs

inductive CallbackState (store : WritableStore) : BlockState Template → Prop
  | mk {entered s state : BlockState Template} {cs : List (HostCall Template)}
      {order : EntityOpOrder} :
      (BlockState.new store .new).enterHandler = some entered →
      (∀ c ∈ cs, ∀ other ∈ c.states, CallbackState store other) →
      self.calls impl entered cs = some (none, s) →
      s.exitHandler (order.toList s.entityCache.handlerUpdates) = some state →
      CallbackState store state

end HostExports

variable {impl : EntityHeap} {Template : Type}

theorem HostExports.call_cases [EntityWeight]
    {exports : HostExports Template} {s s' : BlockState Template} {c : HostCall Template}
    {err : Option HostExportError} (h : exports.call impl s c = some (err, s')) :
    s' = s ∨
    (∃ et ei r, s.getEntity ⟨exports.indexerId, et, ei⟩ = some (r, s')) ∨
    (∃ et ei op, s' = s.entityOp ⟨exports.indexerId, et, ei⟩ op ∧
      (op = .remove ∨
        ∃ data : HashMap String Value, op = .update (data.insert "id" (.string ei)))) ∨
    (∃ name ps co cb t,
      c = .dataSourceCreate name ps co cb ∧
      exports.templates.find? (fun t => exports.templateName t = name) = some t ∧
      s.pushCreatedDataSource ⟨t, ps, co, cb⟩ = some s') ∨
    ∃ ss o, c = .ipfsMap ss o ∧ ss.foldlM (fun st ot =>
      BlockState.extend impl st ot (o.toList ot.entityCache.updates)) s = some s' := by
  cases c with
  | storeGet et ei =>
    obtain ⟨⟨r, s₁⟩, hg, heq⟩ := map_eq_some_iff.1 h
    obtain rfl : s₁ = s' := by
      rcases r with e | entity
      · exact (Prod.mk.inj heq).2
      · exact (Prod.mk.inj heq).2
    exact .inr (.inl ⟨et, ei, r, hg⟩)
  | storeSet et ei data =>
    rcases e : exports.storeSet s et ei data with err' | s₁
    · rw [call, e] at h
      exact .inl (Prod.mk.inj (Option.some.inj h)).2.symm
    · rw [call, e] at h
      obtain ⟨-, rfl⟩ := Prod.mk.inj (Option.some.inj h)
      refine .inr (.inr (.inl ⟨et, ei, _, ?_, .inr ⟨data, rfl⟩⟩))
      unfold storeSet at e
      split at e
      · split at e
        · cases e
        · exact (Except.ok.inj e).symm
      · exact (Except.ok.inj e).symm
  | storeRemove et ei =>
    obtain ⟨-, rfl⟩ := Prod.mk.inj (Option.some.inj h)
    exact .inr (.inr (.inl ⟨et, ei, .remove, rfl, .inl rfl⟩))
  | dataSourceCreate name ps co cb =>
    obtain ⟨r, hr, heq⟩ := map_eq_some_iff.1 h
    rcases r with e | s₁
    · exact .inl (Prod.mk.inj heq).2.symm
    · obtain ⟨-, rfl⟩ := Prod.mk.inj heq
      unfold dataSourceCreate at hr
      split at hr
      · cases hr
      next t htemplate =>
        obtain ⟨s₂, hpush, heq'⟩ := map_eq_some_iff.mp hr
        cases heq'
        exact .inr (.inr (.inr (.inl ⟨name, ps, co, cb, t, rfl, htemplate,
          hpush⟩)))
  | ipfsMap ss o =>
    obtain ⟨s₁, hf, heq⟩ := map_eq_some_iff.1 h
    obtain ⟨-, rfl⟩ := Prod.mk.inj heq
    exact .inr (.inr (.inr (.inr ⟨ss, o, rfl, hf⟩)))

theorem BlockState.foldlM_extend {ord : EntityOpOrder} {I : BlockState Template → Prop} :
    ∀ {ss : List (BlockState Template)} {s s' : BlockState Template},
      ss.foldlM (fun st o =>
        BlockState.extend impl st o (ord.toList o.entityCache.updates)) s = some s' →
      I s →
      (∀ {s s' o}, o ∈ ss → I s →
        s.extend impl o (ord.toList o.entityCache.updates) = some s' → I s') → I s'
  | [], s, s', h, hs, _ => Option.some.inj h ▸ hs
  | o :: ss, s, s', h, hs, hst => by
    rw [List.foldlM_cons] at h
    obtain ⟨s₁, he, h⟩ := bind_eq_some_iff.1 h
    exact foldlM_extend h (hst List.mem_cons_self hs he) fun ho => hst (List.mem_cons_of_mem _ ho)

structure HandlerInvariant {Template : Type} [EntityWeight]
    (impl : EntityHeap)
    (exports : HostExports Template) (Q : HostCall Template → Prop)
    (I : BlockState Template → Prop) : Prop where
  enter : ∀ {s s'}, I s → s.enterHandler = some s' → I s'
  call : ∀ {s s' c err}, I s → Q c → exports.call impl s c = some (err, s') → I s'
  exit : ∀ {s s'} {order : EntityOpOrder}, I s →
    s.exitHandler (order.toList s.entityCache.handlerUpdates) = some s' → I s'
  discard : ∀ {s s' e}, I s → s.exitHandlerAndDiscardChangesDueToError e = some s' → I s'

namespace HandlerInvariant

variable {Template : Type} [EntityWeight]
variable {impl : EntityHeap}
variable {es : HostExports Template} {Q : HostCall Template → Prop}
variable {I : BlockState Template → Prop}

theorem calls (h : HandlerInvariant impl es Q I) :
    ∀ {cs : List (HostCall Template)} {s s' : BlockState Template}
      {err : Option HostExportError}, I s → (∀ c ∈ cs, Q c) →
      es.calls impl s cs = some (err, s') → I s'
  | [], s, s', err, hs, _, heq => by
    obtain ⟨-, rfl⟩ := Prod.mk.inj (Option.some.inj heq)
    exact hs
  | c :: cs, s, s', err, hs, hQ, heq => by
    rw [HostExports.calls] at heq
    split at heq
    next => cases heq
    next e s₁ hca =>
      obtain ⟨-, rfl⟩ := Prod.mk.inj (Option.some.inj heq)
      exact h.call hs (hQ c (by simp)) hca
    next s₁ hca =>
      exact calls h (h.call hs (hQ c (by simp)) hca) (fun c hc => hQ c (by simp [hc])) heq

theorem callbackState (h : HandlerInvariant impl es Q I) {store : WritableStore}
    (hn : I (.new store .new)) (hQ : ∀ c : HostCall Template, (∀ o ∈ c.states, I o) → Q c)
    {s : BlockState Template} (hs : es.CallbackState impl store s) : I s := by
  induction hs with
  | mk he _ hcl het ih =>
    have hca := h.calls (h.enter hn he) (fun c hc => hQ c (ih c hc)) hcl
    exact h.exit hca het

end HandlerInvariant

def RecordOk (indexerId : DeploymentHash) (key : EntityKey) (op : EntityOp) : Prop :=
  key.indexerId = indexerId ∧ EntityCache.OpHas (fun e => e.id = .ok key.entityId) op

variable {indexerId : DeploymentHash}

theorem RecordOk.accumulate {key : EntityKey} {a b : EntityOp} (ha : RecordOk indexerId key a)
    (hb : RecordOk indexerId key b) :
    RecordOk indexerId key (a.accumulate b) := by
  refine ⟨ha.1, ha.2.accumulate (fun {e u} he hu => ?_) hb.2⟩
  rw [Entity.id_eq_ok] at he hu ⊢
  rw [Entity.lookup_merge, hu]
  rfl

theorem recordOk_foldl :
    ∀ {ops : EntityOps} {us : HashMap EntityKey EntityOp},
      (∀ key op, us.lookup key = some op → RecordOk indexerId key op) →
      (∀ x ∈ ops, RecordOk indexerId x.1 x.2) → ∀ key op,
        (ops.foldl (fun u x => accumulateAt u x.1 x.2) us).lookup key = some op →
          RecordOk indexerId key op
  | [], _, hu, _ => hu
  | x :: ops, us, hu, ho => by
    have hx : RecordOk indexerId x.1 x.2 := ho x (by simp)
    have hs : ∀ key op, (accumulateAt us x.1 x.2).lookup key = some op →
        RecordOk indexerId key op := by
      intro key op hop
      rcases eq_or_ne key x.1 with rfl | hne
      · rw [lookup_accumulateAt_self] at hop
        rcases e : us.lookup x.1 with - | cu
        · rw [e, EntityOp.none_andThen] at hop
          exact Option.some.inj hop ▸ hx
        · rw [e, EntityOp.some_andThen_some] at hop
          exact Option.some.inj hop ▸ (hu x.1 cu e).accumulate hx
      · rw [lookup_accumulateAt_of_ne _ _ hne] at hop
        exact hu key op hop
    have ht : ∀ y ∈ ops, RecordOk indexerId y.1 y.2 := fun y hy => ho y (by simp [hy])
    have hr := recordOk_foldl hs ht
    exact hr

namespace EntityCache

/-- What is cached is what is committed, under keys of the indexer, and the records are good. -/
structure Sound (c : EntityCache) (indexerId : DeploymentHash) (store : WritableStore)
    (content : Content) : Prop where
  store_eq : c.store = store
  cached : ∀ {key data}, c.current.peek key = some data →
    key.indexerId = indexerId ∧ data = content.lookup key
  updates : ∀ {key op}, c.updates.lookup key = some op → RecordOk indexerId key op
  handlerUpdates : ∀ {key op}, c.handlerUpdates.lookup key = some op → RecordOk indexerId key op

variable {c c' : EntityCache} {indexerId : DeploymentHash} {store : WritableStore}
  {content : Content}

section

variable (h : c.Sound indexerId store content)

include h

theorem Sound.agrees : Agrees c.current content := fun _ _ hd => (h.cached hd).2

variable {ops : EntityOps}

theorem Sound.entityOps (ho : ∀ x ∈ ops, RecordOk indexerId x.1 x.2) :
    (c.entityOps ops).Sound indexerId store content := by
  rcases hin : c.inHandler with - | -
  · rw [entityOps_of_not_inHandler hin]
    exact ⟨h.store_eq, h.cached, recordOk_foldl (fun _ _ => h.updates) ho _ _, h.handlerUpdates⟩
  · rw [entityOps_of_inHandler hin]
    exact ⟨h.store_eq, h.cached, h.updates, recordOk_foldl (fun _ _ => h.handlerUpdates) ho _ _⟩

theorem Sound.enterHandler (hc : c.enterHandler = some c') : c'.Sound indexerId store content := by
  rw [EntityCache.enterHandler, ite_none_left_eq_some] at hc
  obtain rfl := Option.some.inj hc.2
  exact ⟨h.store_eq, h.cached, h.updates, h.handlerUpdates⟩

theorem Sound.exitHandler {d : EntityOps}
    (hd : Finmap.Enumerates d c.handlerUpdates) (hc : c.exitHandler d = some c') :
    c'.Sound indexerId store content := by
  rw [EntityCache.exitHandler, ite_none_right_eq_some] at hc
  obtain rfl := Option.some.inj hc.2
  have hcl : ({ c with inHandler := false, handlerUpdates := ∅ } : EntityCache).Sound
      indexerId store content :=
    ⟨h.store_eq, h.cached, h.updates, fun hk => by cases hk⟩
  exact hcl.entityOps fun x hx => h.handlerUpdates (hd.mem_iff.1 hx)

theorem Sound.exitHandlerAndDiscardChanges (hc : c.exitHandlerAndDiscardChanges = some c') :
    c'.Sound indexerId store content := by
  rw [EntityCache.exitHandlerAndDiscardChanges, ite_none_right_eq_some] at hc
  obtain rfl := Option.some.inj hc.2
  exact ⟨h.store_eq, h.cached, h.updates, nofun⟩

theorem Sound.extend {impl : EntityHeap}
    {o : EntityCache} (ho : o.Sound indexerId store content) (hop : Finmap.Enumerates ops o.updates)
    (hc : c.extend impl o ops = some c') : c'.Sound indexerId store content := by
  rw [EntityCache.extend, ite_none_left_eq_some] at hc
  obtain rfl := Option.some.inj hc.2
  have he : ({ c with current := c.current.extend impl o.current } : EntityCache).Sound
      indexerId store content := by
    refine ⟨h.store_eq, fun hd => ?_, h.updates, h.handlerUpdates⟩
    rcases LfuCache.peek_extend hd with hd | hd
    · exact h.cached hd
    · exact ho.cached hd
  exact he.entityOps fun x hx => ho.updates (hop.mem_iff.1 hx)

end

theorem Sound.get [EntityWeight] (h : c.Sound indexerId store content)
    (hs : Serves store content) {key : EntityKey} (hk : key.indexerId = indexerId)
    {r : Except QueryExecutionError (Option Entity)} (hc : c.get key = some (r, c')) :
    c'.Sound indexerId store content := by
  obtain ⟨current, hg, hl, ho⟩ := c.get_spec key
  obtain ⟨-, rfl⟩ := Prod.mk.inj (Option.some.inj (hg.symm.trans hc))
  have ha : Agrees current content := h.agrees.loads (h.store_eq ▸ hs) hl
  refine ⟨h.store_eq, fun {k data} hd => ⟨?_, ha k data hd⟩, h.updates, h.handlerUpdates⟩
  rcases eq_or_ne k key with rfl | hne
  · exact hk
  · exact (h.cached ((ho k hne).symm.trans hd)).1

end EntityCache

namespace BlockState

variable {Template : Type} {s s' : BlockState Template}

/-- The entity cache of the state is sound. -/
def Sound (s : BlockState Template) (indexerId : DeploymentHash) (store : WritableStore)
    (content : Content) : Prop :=
  s.entityCache.Sound indexerId store content

theorem entityCache_enterHandler (h : s.enterHandler = some s') :
    s.entityCache.enterHandler = some s'.entityCache := by
  revert h
  fun_cases enterHandler s
  case case3 hc =>
    rintro ⟨⟩
    exact hc
  all_goals rintro ⟨⟩

theorem entityCache_exitHandler {d : EntityOps} (h : s.exitHandler d = some s') :
    s.entityCache.exitHandler d = some s'.entityCache := by
  revert h
  fun_cases exitHandler s d
  case case2 hc =>
    rintro ⟨⟩
    exact hc
  all_goals rintro ⟨⟩

theorem entityCache_discard {e : IndexerError}
    (h : s.exitHandlerAndDiscardChangesDueToError e = some s') :
    s.entityCache.exitHandlerAndDiscardChanges = some s'.entityCache := by
  revert h
  fun_cases exitHandlerAndDiscardChangesDueToError s e
  case case2 hc =>
    rintro ⟨⟩
    exact hc
  all_goals rintro ⟨⟩

theorem entityCache_extend {impl : EntityHeap} {o : BlockState Template} {ops : EntityOps}
    (h : s.extend impl o ops = some s') :
    s.entityCache.extend impl o.entityCache ops = some s'.entityCache := by
  revert h
  fun_cases extend impl s o ops
  case case3 hc =>
    rintro ⟨⟩
    exact hc
  all_goals rintro ⟨⟩

variable {key : EntityKey}

theorem entityCache_getEntity [EntityWeight]
    {r : Except QueryExecutionError (Option Entity)} (h : s.getEntity key = some (r, s')) :
    s.entityCache.get key = some (r, s'.entityCache) := by
  unfold getEntity at h
  split at h
  next => cases h
  next entity entityCache hc =>
    rw [hc]
    exact congrArg (fun r => some (r.1, r.2.entityCache)) (Option.some.inj h)

theorem Sound.entityOp {indexerId : DeploymentHash} {store : WritableStore} {content : Content}
    (h : s.Sound indexerId store content) {op : EntityOp} (hop : RecordOk indexerId key op) :
    (s.entityOp key op).Sound indexerId store content := by
  show (s.entityCache.entityOps [⟨key, op⟩]).Sound indexerId store content
  refine EntityCache.Sound.entityOps h fun x hx => ?_
  rw [List.mem_singleton.1 hx]
  exact hop

end BlockState

namespace HostExports

variable {Template : Type} {self : HostExports Template}
variable [EntityWeight]
variable {impl : EntityHeap}
variable {store : WritableStore} {content : Content} {s s' : BlockState Template}

theorem sound_call (hse : Serves store content) (h : s.Sound self.indexerId store content)
    {c : HostCall Template} (hst : ∀ o ∈ c.states, o.Sound self.indexerId store content)
    {err : Option HostExportError} (hs : self.call impl s c = some (err, s')) :
    s'.Sound self.indexerId store content := by
  rcases call_cases hs with rfl | ⟨_, _, r, hg⟩ | ⟨et, ei, op, rfl, hop⟩ |
    ⟨_, _, _, _, _, -, -, hp⟩ | ⟨states, order, rfl, hf⟩
  · exact h
  · exact EntityCache.Sound.get h hse rfl (BlockState.entityCache_getEntity hg)
  · rcases hop with rfl | ⟨data, rfl⟩
    · exact h.entityOp ⟨rfl, trivial⟩
    · refine h.entityOp ⟨rfl, ?_⟩
      show Entity.id _ = .ok ei
      rw [Entity.id_eq_ok]
      exact Finmap.lookup_insert data
  · unfold BlockState.pushCreatedDataSource at hp
    split at hp
    · exact Option.some.inj hp ▸ h
    · cases hp
  · refine BlockState.foldlM_extend (I := fun s => s.Sound self.indexerId store content) hf h ?_
    intro s₁ s₂ o ho hso he
    exact EntityCache.Sound.extend hso (hst o ho) (order.enumerates _)
      (BlockState.entityCache_extend he)

omit [EntityWeight] in
theorem sound_new {indexerId : DeploymentHash} {cu : EntityLfuCache} (hc : ∀ {key data},
    cu.peek key = some data → key.indexerId = indexerId ∧ data = content.lookup key) :
    (BlockState.new store cu : BlockState Template).Sound indexerId store content :=
  ⟨rfl, hc, nofun, nofun⟩

theorem handlerInvariant_sound (hse : Serves store content) (exports : HostExports Template) :
    HandlerInvariant impl exports
      (fun c => ∀ o ∈ c.states, o.Sound exports.indexerId store content)
      fun s => s.Sound exports.indexerId store content where
  enter h hs := h.enterHandler (BlockState.entityCache_enterHandler hs)
  call h hst hs := sound_call hse h hst hs
  exit h hs := EntityCache.Sound.exitHandler h (Finmap.IterOrder.enumerates _ _)
    (BlockState.entityCache_exitHandler hs)
  discard h hs := EntityCache.Sound.exitHandlerAndDiscardChanges h
    (BlockState.entityCache_discard hs)

theorem CallbackState.sound (hs : Serves store content)
    (h : CallbackState self impl store s) : s.Sound self.indexerId store content :=
  (handlerInvariant_sound hs self).callbackState (sound_new nofun) (fun _ hc => hc) h

end HostExports

end Massbit
