/-
The state of a block while its handlers run (`components/indexer/instance.rs`).
-/
import Massbit.Cache.History

open List

namespace Massbit

structure BlockPtr where
  hash : List UInt8
  number : BlockNumber
  deriving DecidableEq, Repr

structure IndexerError where
  indexerId : DeploymentHash
  message : String
  blockPtr : Option BlockPtr
  handler : Option String
  deterministic : Bool
  deriving DecidableEq, Repr

structure DataSourceTemplateInfo (Template : Type) where
  template : Template
  params : List String
  context : Option Entity
  creationBlock : BlockNumber

/-- The state of a block while its triggers are processed. -/
structure BlockState (Template : Type) where
  entityCache : EntityCache
  deterministicErrors : List IndexerError
  createdDataSources : List (DataSourceTemplateInfo Template)
  handlerCreatedDataSources : List (DataSourceTemplateInfo Template)
  inHandler : Bool
  entityCache_inHandler : entityCache.inHandler = inHandler
  entityCache_closed : entityCache.Closed
  closed : inHandler = false → handlerCreatedDataSources = []

namespace BlockState

variable {Template : Type}

def new (store : WritableStore) (lfuCache : EntityLfuCache) : BlockState Template where
  entityCache := .withCurrent store lfuCache
  deterministicErrors := []
  createdDataSources := []
  handlerCreatedDataSources := []
  inHandler := false
  entityCache_inHandler := rfl
  entityCache_closed _ := rfl
  closed _ := rfl

def extend (impl : EntityHeap)
    (self other : BlockState Template) (ops : EntityOps) :
    Option (BlockState Template) :=
  if other.inHandler then none
  else
    match h : self.entityCache.extend impl other.entityCache ops with
    | none => none
    | some entityCache =>
      some
        { entityCache
          deterministicErrors := self.deterministicErrors ++ other.deterministicErrors
          createdDataSources := match self.inHandler with
            | true => self.createdDataSources
            | false => self.createdDataSources ++ other.createdDataSources
          handlerCreatedDataSources := match self.inHandler with
            | true => self.handlerCreatedDataSources ++ other.createdDataSources
            | false => self.handlerCreatedDataSources
          inHandler := self.inHandler
          entityCache_inHandler := (EntityCache.extend_inHandler h).trans self.entityCache_inHandler
          entityCache_closed := EntityCache.extend_closed self.entityCache_closed h
          closed := fun hout => by
            rw [hout]
            exact self.closed hout }

def hasCreatedDataSources (self : BlockState Template) : Option Bool :=
  if self.inHandler then none else some !self.createdDataSources.isEmpty

def drainCreatedDataSources (self : BlockState Template) :
    Option (List (DataSourceTemplateInfo Template) × BlockState Template) :=
  if self.inHandler then none
  else some (self.createdDataSources, { self with createdDataSources := [] })

def enterHandler (self : BlockState Template) : Option (BlockState Template) :=
  if self.inHandler then none
  else
    match h : self.entityCache.enterHandler with
    | none => none
    | some entityCache =>
      some
        { self with
          entityCache
          inHandler := true
          entityCache_inHandler := by
            rw [EntityCache.enterHandler, Option.ite_none_left_eq_some] at h
            exact Option.some.inj h.2 ▸ rfl
          entityCache_closed := by
            rw [EntityCache.enterHandler, Option.ite_none_left_eq_some] at h
            exact Option.some.inj h.2 ▸ nofun
          closed := nofun }

def exitHandler (self : BlockState Template) (drained : EntityOps) :
    Option (BlockState Template) :=
  if self.inHandler then
    match h : self.entityCache.exitHandler drained with
    | none => none
    | some entityCache =>
      some
        { self with
          entityCache
          inHandler := false
          createdDataSources := self.createdDataSources ++ self.handlerCreatedDataSources
          handlerCreatedDataSources := []
          entityCache_inHandler := EntityCache.exitHandler_inHandler h
          entityCache_closed := EntityCache.exitHandler_closed h
          closed := fun _ => rfl }
  else none

def exitHandlerAndDiscardChangesDueToError (self : BlockState Template) (e : IndexerError) :
    Option (BlockState Template) :=
  if self.inHandler then
    match h : self.entityCache.exitHandlerAndDiscardChanges with
    | none => none
    | some entityCache =>
      some
        { self with
          entityCache
          inHandler := false
          handlerCreatedDataSources := []
          deterministicErrors := self.deterministicErrors ++ [e]
          entityCache_inHandler := by
            rw [EntityCache.exitHandlerAndDiscardChanges, Option.ite_none_right_eq_some] at h
            exact Option.some.inj h.2 ▸ rfl
          entityCache_closed := by
            rw [EntityCache.exitHandlerAndDiscardChanges, Option.ite_none_right_eq_some] at h
            exact Option.some.inj h.2 ▸ fun _ => rfl
          closed := fun _ => rfl }
  else none

def pushCreatedDataSource (self : BlockState Template) (ds : DataSourceTemplateInfo Template) :
    Option (BlockState Template) :=
  if h : self.inHandler = true then
    some
      { self with
        handlerCreatedDataSources := self.handlerCreatedDataSources ++ [ds]
        closed := fun hout => nomatch h.symm.trans hout }
  else none

def entityOp (self : BlockState Template) (key : EntityKey) (op : EntityOp) :
    BlockState Template :=
  { self with
    entityCache := self.entityCache.entityOp key op
    entityCache_inHandler :=
      (self.entityCache.entityOps_frame [⟨key, op⟩]).2.2.1.trans self.entityCache_inHandler
    entityCache_closed := self.entityCache_closed.entityOps [⟨key, op⟩] }

def getEntity [EntityWeight] (self : BlockState Template)
    (key : EntityKey) :
    Option (Except QueryExecutionError (Option Entity) × BlockState Template) :=
  match h : self.entityCache.get key with
  | none => none
  | some (entity, entityCache) =>
    some (entity,
      { self with
        entityCache
        entityCache_inHandler := by
          obtain ⟨current, hget, -⟩ := self.entityCache.get_spec key
          obtain ⟨-, rfl⟩ := Prod.mk.inj (Option.some.inj (hget.symm.trans h))
          exact self.entityCache_inHandler
        entityCache_closed := by
          obtain ⟨current, hget, -⟩ := self.entityCache.get_spec key
          obtain ⟨-, rfl⟩ := Prod.mk.inj (Option.some.inj (hget.symm.trans h))
          exact self.entityCache_closed })

/-- What can happen to the block state while a handler runs. -/
inductive HandlerOp (Template : Type) where
  | get (key : EntityKey)
  | set (key : EntityKey) (entity : Entity)
  | remove (key : EntityKey)
  | pushCreatedDataSource (ds : DataSourceTemplateInfo Template)
  | extend (other : BlockState Template) (ops : EntityOps)

def HandlerOp.errors : HandlerOp Template → List IndexerError
  | .extend other _ => other.deterministicErrors
  | .get _ | .set _ _ | .remove _ | .pushCreatedDataSource _ => []

/-- Both states read from the same store, and what they cache is what it loads. -/
def ReadsFrom (self : BlockState Template) (store : WritableStore) : Prop :=
  self.entityCache.store = store ∧ self.entityCache.current.Coherent store

/-- A state that is taken in is outside a handler and reads from the store. -/
def HandlerOp.Ok (store : WritableStore) (_ : BlockState Template) : HandlerOp Template → Prop
  | .extend other ops => other.inHandler = false ∧ other.ReadsFrom store ∧
      Finmap.Enumerates ops other.entityCache.updates
  | .get _ | .set _ _ | .remove _ | .pushCreatedDataSource _ => True

section

variable [EntityWeight]
variable (impl : EntityHeap)

def step (self : BlockState Template) : HandlerOp Template → Option (BlockState Template)
  | .get key => (self.getEntity key).map (·.2)
  | .set key entity => some (self.entityOp key (.update entity))
  | .remove key => some (self.entityOp key .remove)
  | .pushCreatedDataSource ds => self.pushCreatedDataSource ds
  | .extend other ops => self.extend impl other ops

structure Pending (s : BlockState Template) (store : WritableStore)
    (before : BlockState Template) (errors : List IndexerError) : Prop where
  inHandler : s.inHandler = true
  created : s.createdDataSources = before.createdDataSources
  updates : s.entityCache.updates = before.entityCache.updates
  dataSources : s.entityCache.dataSources = before.entityCache.dataSources
  reads : s.ReadsFrom store
  errors : s.deterministicErrors = before.deterministicErrors ++ errors

variable {impl} {store : WritableStore} {before self s : BlockState Template}
  {errors : List IndexerError}

omit [EntityWeight] in
theorem pending_enterHandler (ho : before.inHandler = false) (hr : before.ReadsFrom store) :
    ∃ s, before.enterHandler = some s ∧ s.Pending store before [] := by
  have hc : before.entityCache.enterHandler
      = some { before.entityCache with inHandler := true } := by
    rw [EntityCache.enterHandler, before.entityCache_inHandler, ho]
    rfl
  unfold enterHandler
  rw [ho]
  simp only [Bool.false_eq_true, if_false]
  split
  next hn => cases hc.symm.trans hn
  next ec hs =>
    obtain rfl := Option.some.inj (hc.symm.trans hs)
    exact ⟨_, rfl, rfl, rfl, rfl, rfl, hr, (append_nil _).symm⟩

omit [EntityWeight] in
theorem Pending.entityOp (h : self.Pending store before errors) (key : EntityKey) (op : EntityOp) :
    (self.entityOp key op).Pending store before errors := by
  have hin : self.entityCache.inHandler = true := self.entityCache_inHandler.trans h.inHandler
  have hc : (self.entityOp key op).entityCache = { self.entityCache with
      handlerUpdates := accumulateAt self.entityCache.handlerUpdates key op } :=
    EntityCache.entityOps_of_inHandler hin [⟨key, op⟩]
  refine ⟨h.inHandler, h.created, ?_, ?_, ?_, h.errors⟩
  · rw [hc]
    exact h.updates
  · rw [hc]
    exact h.dataSources
  · rw [ReadsFrom, hc]
    exact h.reads

theorem Pending.getEntity (h : self.Pending store before errors) (key : EntityKey)
    (hs : (self.getEntity key).map (·.2) = some s) : s.Pending store before errors := by
  obtain ⟨c, hg, hl, -⟩ := self.entityCache.get_spec key
  unfold BlockState.getEntity at hs
  split at hs
  next => cases hs
  next e ec hso =>
    obtain ⟨-, rfl⟩ := Prod.mk.inj (Option.some.inj (hg.symm.trans hso))
    cases hs
    refine ⟨h.inHandler, h.created, h.updates, h.dataSources, ⟨h.reads.1, ?_⟩, h.errors⟩
    exact h.reads.2.loads (h.reads.1 ▸ hl)

omit [EntityWeight] in
theorem Pending.extend (h : self.Pending store before errors) {o : BlockState Template}
    (ho : o.ReadsFrom store) {ops : EntityOps} (hs : self.extend impl o ops = some s) :
    s.Pending store before (errors ++ o.deterministicErrors) := by
  have hin : self.entityCache.inHandler = true := self.entityCache_inHandler.trans h.inHandler
  revert hs
  fun_cases BlockState.extend impl self o ops
  case case3 he =>
    rintro ⟨⟩
    -- inside the handler the records of the other state become pending
    obtain rfl := EntityCache.extend_of_inHandler hin he
    refine ⟨h.inHandler, ?_, h.updates, h.dataSources, ⟨h.reads.1, ?_⟩, ?_⟩
    · show (match self.inHandler with | true => _ | false => _) = _
      rw [h.inHandler]
      exact h.created
    · exact h.reads.2.extend ho.2 impl
    · show self.deterministicErrors ++ _ = _
      rw [h.errors, append_assoc]
  all_goals nofun

theorem Pending.step (h : self.Pending store before errors) {op : HandlerOp Template}
    (hok : op.Ok store self) (hs : self.step impl op = some s) :
    s.Pending store before (errors ++ op.errors) := by
  cases op with
  | get key =>
    rw [HandlerOp.errors, append_nil]
    exact h.getEntity key hs
  | set key e =>
    rw [HandlerOp.errors, append_nil]
    exact Option.some.inj hs ▸ h.entityOp key (.update e)
  | remove key =>
    rw [HandlerOp.errors, append_nil]
    exact Option.some.inj hs ▸ h.entityOp key .remove
  | pushCreatedDataSource ds =>
    rw [HandlerOp.errors, append_nil]
    rw [BlockState.step, BlockState.pushCreatedDataSource, dif_pos h.inHandler] at hs
    cases hs
    exact ⟨h.inHandler, h.created, h.updates, h.dataSources, h.reads, h.errors⟩
  | extend o ops => exact h.extend hok.2.1 hs

theorem Pending.run {ops : List (HandlerOp Template)}
    (hr : Run (BlockState.step impl) (fun s op => op.Ok store s) self ops s)
    (h : self.Pending store before []) : s.Pending store before (ops.flatMap HandlerOp.errors) := by
  refine hr.invariant (I := fun ops s => s.Pending store before (ops.flatMap HandlerOp.errors)) h ?_
  intro ops s op s' hI hok hs
  rw [flatMap_append, flatMap_singleton]
  exact hI.step hok hs

omit [EntityWeight] in
theorem view_of_reads (ho : self.inHandler = false) (hr : self.ReadsFrom store)
    (key : EntityKey) : self.entityCache.view key = (store.load key).map
      (EntityOp.applyOpt (self.entityCache.updates.lookup key)) := by
  have hcl := self.entityCache_closed (self.entityCache_inHandler.trans ho)
  obtain ⟨rfl, hc⟩ := hr
  rw [EntityCache.view, hc.fetch, hcl]
  rfl

variable (impl) in
/-- **A failed handler leaves no trace.** When its changes are discarded, the created and persisted
data sources and every lookup are as before the handler, and the errors grow by those that were
taken in and its own. -/
theorem discard_frame (hout : before.inHandler = false) (hreads : before.ReadsFrom store)
    (e : IndexerError) :
    ∃ entered, before.enterHandler = some entered ∧ ∀ ops s,
      Run (BlockState.step impl) (fun s op => op.Ok store s) entered ops s →
      ∃ after, s.exitHandlerAndDiscardChangesDueToError e = some after ∧
        after.inHandler = false ∧
        after.createdDataSources = before.createdDataSources ∧
        (∀ key, (after.entityCache.get key).map (·.1) = (before.entityCache.get key).map (·.1)) ∧
        after.entityCache.dataSources = before.entityCache.dataSources ∧
        after.deterministicErrors
          = before.deterministicErrors ++ ops.flatMap HandlerOp.errors ++ [e] := by
  obtain ⟨entered, hen, hp⟩ := pending_enterHandler hout hreads
  refine ⟨entered, hen, fun ops s hr => ?_⟩
  have h := hp.run hr
  have hin : s.entityCache.inHandler = true := s.entityCache_inHandler.trans h.inHandler
  have hca : s.entityCache.exitHandlerAndDiscardChanges
      = some { s.entityCache with inHandler := false, handlerUpdates := ∅ } := by
    rw [EntityCache.exitHandlerAndDiscardChanges, if_pos hin]
  obtain ⟨after, ha, hc, hi, hcr, he⟩ : ∃ after,
      s.exitHandlerAndDiscardChangesDueToError e = some after ∧
      after.entityCache = { s.entityCache with inHandler := false, handlerUpdates := ∅ } ∧
      after.inHandler = false ∧ after.createdDataSources = s.createdDataSources ∧
      after.deterministicErrors = s.deterministicErrors ++ [e] := by
    unfold exitHandlerAndDiscardChangesDueToError
    rw [if_pos h.inHandler]
    split
    next hnone => cases hca.symm.trans hnone
    next entityCache hsome =>
      obtain rfl := Option.some.inj (hca.symm.trans hsome)
      exact ⟨_, rfl, rfl, rfl, rfl, rfl⟩
  have hr' : after.ReadsFrom store := by
    rw [ReadsFrom, hc]
    exact h.reads
  refine ⟨after, ha, hi, hcr.trans h.created, fun key => ?_, ?_, ?_⟩
  · obtain ⟨c, hg, -⟩ := after.entityCache.get_spec key
    obtain ⟨c', hg', -⟩ := before.entityCache.get_spec key
    rw [hg, hg', Option.map_some, Option.map_some, view_of_reads hi hr',
      view_of_reads hout hreads, hc, h.updates]
  · rw [hc]
    exact h.dataSources
  · rw [he, h.errors]

end

section Token

local instance : EntityWeight := ⟨fun _ _ => 1⟩

def tokenError (message : String) : IndexerError :=
  ⟨"QmIndexer", message, none, some "handleToken", true⟩

def firstHandler : BlockState Unit where
  entityCache := { EntityCache.new Content.empty.serve with inHandler := true }
  deterministicErrors := []
  createdDataSources := []
  handlerCreatedDataSources := []
  inHandler := true
  entityCache_inHandler := rfl
  entityCache_closed := nofun
  closed := nofun

def callbackState : BlockState Unit :=
  { new Content.empty.serve .new with deterministicErrors := [tokenError "callback failed"] }

def failingHandler : List (HandlerOp Unit) :=
  [.set EntityCache.tokenKey (EntityCache.token .null),
    .pushCreatedDataSource ⟨(), [], none, 7⟩, .extend callbackState []]

theorem discard_frame_failingHandler :
    (new Content.empty.serve .new : BlockState Unit).enterHandler = some firstHandler ∧
      ∃ s after, Run (step .pushing) (fun s op => op.Ok Content.empty.serve s)
          firstHandler failingHandler s ∧
        s.exitHandlerAndDiscardChangesDueToError (tokenError "handler failed") = some after ∧
        after.createdDataSources = [] ∧ after.deterministicErrors
          = [tokenError "callback failed", tokenError "handler failed"] := by
  have hok : ∀ s, (HandlerOp.extend callbackState [] : HandlerOp Unit).Ok Content.empty.serve s :=
    fun _ => ⟨rfl, ⟨rfl, LfuCache.coherent_new _⟩, rfl⟩
  obtain ⟨s, hr⟩ : ∃ s, Run (step .pushing)
      (fun s op => op.Ok Content.empty.serve s) firstHandler failingHandler s :=
    ⟨_, .cons trivial rfl (.cons trivial rfl (.cons (hok _) rfl (.nil _)))⟩
  obtain ⟨entered, hen, hal⟩ := discard_frame .pushing
    (rfl : (new Content.empty.serve .new : BlockState Unit).inHandler = false)
    ⟨rfl, LfuCache.coherent_new _⟩ (tokenError "handler failed")
  obtain rfl : firstHandler = entered := Option.some.inj hen
  obtain ⟨after, ha, -, hc, -, -, he⟩ := hal failingHandler s hr
  exact ⟨rfl, s, after, hr, ha, hc, he⟩

end Token

end BlockState

end Massbit
