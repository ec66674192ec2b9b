/-
An indexer instance and how it runs a trigger through its hosts (`indexer/instance.rs`, `host.rs`,
`module/mod.rs`).
-/
import Massbit.Indexer.HostExports

namespace Massbit

inductive AnyError where
  | msg (message : String)
  | query (e : QueryExecutionError)
  | transact (e : StoreError)
  | context (message : String) (e : AnyError)

inductive MappingError where
  | possibleReorg (e : AnyError)
  | unknown (e : AnyError)

namespace MappingError

def context (message : String) : MappingError → MappingError
  | possibleReorg e => possibleReorg (.context message e)
  | unknown e => unknown (.context message e)

def error : MappingError → AnyError
  | possibleReorg e | unknown e => e

end MappingError

inductive TrapCode where
  | stackOverflow
  | memoryOutOfBounds
  | heapMisaligned
  | tableOutOfBounds
  | indirectCallToNull
  | badSignature
  | integerOverflow
  | integerDivisionByZero
  | badConversionToInteger
  | unreachableCodeReached
  | interrupt
  deriving DecidableEq

structure Trap where
  message : String
  trapCode : Option TrapCode
  possibleReorg : Bool
  deterministicHostTrap : Bool

def trapTimeout : String := "trap: interrupt"

def TrapCode.deterministic : TrapCode → Bool
  | memoryOutOfBounds | heapMisaligned | tableOutOfBounds | indirectCallToNull | badSignature
  | integerOverflow | integerDivisionByZero | badConversionToInteger
  | unreachableCodeReached => true
  | stackOverflow | interrupt => false

def Trap.classify (self : Trap) (handler : String) (timeout : Option ℕ) :
    Outcome MappingError String :=
  if self.possibleReorg then .err (.possibleReorg (.msg self.message))
  else if trapTimeout.toList <:+: self.message.toList then
    match timeout with
    | none => .panic
    | some seconds => .err (.unknown (.context ("Handler '" ++ handler ++
        "' hit the timeout of '" ++ toString seconds ++ "' seconds") (.msg self.message)))
  else if self.trapCode.any TrapCode.deterministic || self.deterministicHostTrap then
    .ok self.message
  else .err (.unknown (.msg self.message))

def HostExportError.deterministic : HostExportError → Bool
  | noTemplate _ _ _ => true
  | idConflict _ _ _ | lookup _ => false

def HostExportError.intoTrap (display : HostExportError → String) (e : HostExportError) : Trap :=
  ⟨display e, none, false, e.deterministic⟩

structure Blockchain where
  Block : Type
  TriggerData : Type
  MappingTrigger : Type
  DataSource : Type
  DataSourceTemplate : Type
  TriggerFilter : Type
  ptr : Block → BlockPtr
  errorContext : TriggerData → String
  handlerName : MappingTrigger → String
  templateName : DataSourceTemplate → String
  dataSourceName : DataSource → String
  creationBlock : DataSource → Option BlockNumber
  isDuplicateOf : DataSource → DataSource → Bool
  asStoredDynamicDataSource : DataSource → StoredDynamicDataSource
  tryFrom : DataSourceTemplateInfo DataSourceTemplate → Except AnyError DataSource
  matchAndDecode : DataSource → TriggerData → Block → Except AnyError (Option MappingTrigger)
  fromDataSources : List DataSource → TriggerFilter
  extendFilter : TriggerFilter → List DataSource → TriggerFilter

structure RuntimeHost (C : Blockchain) where
  dataSource : C.DataSource
  hostExports : HostExports C.DataSourceTemplate

structure Invocation (Template : Type) where
  calls : List (HostCall Template)
  trap : Option Trap
  order : EntityOpOrder

/-- What is decided from outside while a block is processed. -/
structure Environment (C : Blockchain) where
  store : WritableStore
  build : C.DataSource → Except AnyError Unit
  handle : RuntimeHost C → C.MappingTrigger → BlockState C.DataSourceTemplate →
    Except AnyError (Invocation C.DataSourceTemplate)
  display : HostExportError → String
  timeout : Option ℕ
  triggersInBlock : C.Block → C.TriggerFilter → Except AnyError (List C.TriggerData)
  isCanceled : Bool
  order : EntityOpOrder
  entityCacheSize : ℕ
  transactBlockOperations : BlockPtr → List EntityModification → List StoredDynamicDataSource →
    Except StoreError Unit

structure IndexerInstance (C : Blockchain) where
  indexerId : DeploymentHash
  hosts : List (RuntimeHost C)
  indexerId_eq : ∀ {host}, host ∈ hosts → host.hostExports.indexerId = indexerId

section

variable {C : Blockchain} [EntityWeight]
variable (impl : EntityHeap) (env : Environment C)

def exitInvocation (indexerId : DeploymentHash) (blockPtr : BlockPtr) (handler : String)
    (drained : EntityOps) (state : BlockState C.DataSourceTemplate) :
    Option Trap → Outcome MappingError (BlockState C.DataSourceTemplate)
  | none => .ofOption (state.exitHandler drained)
  | some trap =>
    match trap.classify handler env.timeout with
    -- restore the updates snapshot, effectively reverting the handler
    | .ok message => .ofOption (state.exitHandlerAndDiscardChangesDueToError
        ⟨indexerId, message.map fun c => if c = '\n' then '\t' else c, some blockPtr,
          some handler, true⟩)
    | .err e => (Outcome.ofOption (state.exitHandler drained)).bind fun _ => .err e
    | .panic => .panic

def invokeHandler (self : HostExports C.DataSourceTemplate) (blockPtr : BlockPtr)
    (handler : String) (state : BlockState C.DataSourceTemplate)
    (invocation : Invocation C.DataSourceTemplate) :
    Outcome MappingError (BlockState C.DataSourceTemplate) := do
  let entered ← Outcome.ofOption state.enterHandler
  let (failed, state) ← Outcome.ofOption (self.calls impl entered invocation.calls)
  exitInvocation env self.indexerId blockPtr handler
    (invocation.order.toList state.entityCache.handlerUpdates) state
    (failed.elim invocation.trap fun e => some (e.intoTrap env.display))

def RuntimeHost.processMappingTrigger (host : RuntimeHost C) (blockPtr : BlockPtr)
    (trigger : C.MappingTrigger) (state : BlockState C.DataSourceTemplate) :
    Outcome MappingError (BlockState C.DataSourceTemplate) :=
  match env.handle host trigger state with
  | .error e => .err (.unknown e)
  | .ok invocation =>
    match invokeHandler impl env host.hostExports blockPtr (C.handlerName trigger) state
        invocation with
    -- the thread is gone, and with it the channel for the result
    | .panic => .err (.unknown (.msg "Mapping terminated before handling trigger"))
    | .err e => .err e
    | .ok state => .ok state

def RuntimeHost.processTrigger (host : RuntimeHost C) (block : C.Block) (trigger : C.TriggerData)
    (state : BlockState C.DataSourceTemplate) :
    Outcome MappingError (BlockState C.DataSourceTemplate) :=
  match C.matchAndDecode host.dataSource trigger block with
  | .error e => .err (.unknown e)
  -- the trigger does not match, do not process it
  | .ok none => .ok state
  | .ok (some mappingTrigger) =>
    host.processMappingTrigger impl env (C.ptr block) mappingTrigger state

def processTriggerInRuntimeHosts (hosts : List (RuntimeHost C)) (block : C.Block)
    (trigger : C.TriggerData) (state : BlockState C.DataSourceTemplate) :
    Outcome MappingError (BlockState C.DataSourceTemplate) :=
  hosts.foldlM (fun state host => host.processTrigger impl env block trigger state) state

namespace IndexerInstance

variable (self : IndexerInstance C)

def processTrigger (block : C.Block) (trigger : C.TriggerData)
    (state : BlockState C.DataSourceTemplate) :
    Outcome MappingError (BlockState C.DataSourceTemplate) :=
  processTriggerInRuntimeHosts impl env self.hosts block trigger state

def newHost (templates : List C.DataSourceTemplate) (dataSource : C.DataSource) :
    Except AnyError (RuntimeHost C) :=
  (env.build dataSource).map fun _ =>
    ⟨dataSource, self.indexerId, C.dataSourceName dataSource, templates, C.templateName⟩

variable {ts : List C.DataSourceTemplate} {host : RuntimeHost C} {ds : C.DataSource}

omit [EntityWeight] in
theorem newHost_eq_ok {self : IndexerInstance C} {env : Environment C}
    (h : self.newHost env ts ds = .ok host) :
    host = ⟨ds, self.indexerId, C.dataSourceName ds, ts, C.templateName⟩ := by
  unfold newHost at h
  rcases e : env.build ds with err | u
  · rw [e] at h
    cases h
  · rw [e] at h
    exact (Except.ok.inj h).symm

omit [EntityWeight] in
theorem newHost_indexerId {self : IndexerInstance C} {env : Environment C}
    (h : self.newHost env ts ds = .ok host) :
    host.hostExports.indexerId = self.indexerId := by
  rw [newHost_eq_ok h]

def creationOrdered : Option BlockNumber → Option BlockNumber → Bool
  | none, _ => true
  | some _, none => false
  | some a, some b => a ≤ b

def push (host : RuntimeHost C) (h : host.hostExports.indexerId = self.indexerId) :
    IndexerInstance C where
  indexerId := self.indexerId
  hosts := self.hosts ++ [host]
  indexerId_eq hmem := by
    rcases List.mem_append.1 hmem with hmem | hmem
    · exact self.indexerId_eq hmem
    · exact List.mem_singleton.1 hmem ▸ h

def addDynamicDataSource (templates : List C.DataSourceTemplate) (dataSource : C.DataSource) :
    Outcome AnyError (Option (RuntimeHost C) × IndexerInstance C) :=
  -- the hosts remain ordered by the creation block
  if creationOrdered (self.hosts.getLast?.bind fun host => C.creationBlock host.dataSource)
      (C.creationBlock dataSource) then
    match h : self.newHost env templates dataSource with
    | .error e => .err e
    | .ok host =>
      if self.hosts.any fun other => C.isDuplicateOf other.dataSource host.dataSource then
        .ok (none, self)
      else
        .ok (some host, self.push host (newHost_indexerId h))
  else .panic

variable {self env}

omit [EntityWeight] in
theorem addDynamicDataSource_eq_ok {dataSource : C.DataSource} {host? : Option (RuntimeHost C)}
    {inst : IndexerInstance C}
    (h : self.addDynamicDataSource env ts dataSource = .ok (host?, inst)) :
    creationOrdered (self.hosts.getLast?.bind fun host => C.creationBlock host.dataSource)
        (C.creationBlock dataSource) = true ∧ inst.indexerId = self.indexerId ∧
      ((host? = none ∧ inst = self ∧
        ∃ o ∈ self.hosts, C.isDuplicateOf o.dataSource dataSource = true) ∨
      ∃ host, host? = some host ∧ self.newHost env ts dataSource = .ok host ∧
        inst.hosts = self.hosts ++ [host] ∧
        ∀ o ∈ self.hosts, C.isDuplicateOf o.dataSource dataSource = false) := by
  unfold addDynamicDataSource at h
  split at h
  next ho =>
    refine ⟨ho, ?_⟩
    split at h
    next => cases h
    next host hn =>
      have hs : host.dataSource = dataSource := by rw [newHost_eq_ok hn]
      rw [hs] at h
      split at h
      next hd =>
        cases h
        exact ⟨rfl, .inl ⟨rfl, rfl, List.any_eq_true.mp hd⟩⟩
      next hno =>
        cases h
        refine ⟨rfl, .inr ⟨host, rfl, hn, rfl, ?_⟩⟩
        simpa using hno
  next => cases h

end IndexerInstance

end

section

variable {C : Blockchain} [EntityWeight]
variable {impl : EntityHeap} {env : Environment C}
variable {st state' : BlockState C.DataSourceTemplate}
variable {Q : HostCall C.DataSourceTemplate → Prop} {I : BlockState C.DataSourceTemplate → Prop}

namespace HandlerInvariant

variable {es : HostExports C.DataSourceTemplate} {bp : BlockPtr} {ha : String}

theorem exitInvocation (h : HandlerInvariant impl es Q I) (hs : I st) {o : EntityOpOrder}
    {trap : Option Trap} (heq : Massbit.exitInvocation env es.indexerId bp ha
      (o.toList st.entityCache.handlerUpdates) st trap = .ok state') : I state' := by
  unfold Massbit.exitInvocation at heq
  rcases trap with - | trap
  · exact h.exit hs (ofOption_eq_ok.1 heq)
  · dsimp only at heq
    rcases e : trap.classify ha env.timeout with m | err | -
    · rw [e] at heq
      exact h.discard hs (ofOption_eq_ok.1 heq)
    · rw [e] at heq
      obtain ⟨_, -, heq⟩ := bind_eq_ok.1 heq
      cases heq
    · rw [e] at heq
      cases heq

theorem invokeHandler (h : HandlerInvariant impl es Q I) (hs : I st)
    {i : Invocation C.DataSourceTemplate} (hQ : ∀ c ∈ i.calls, Q c)
    (heq : Massbit.invokeHandler impl env es bp ha st i = .ok state') :
    I state' := by
  obtain ⟨e, he, heq⟩ := bind_eq_ok.1 heq
  obtain ⟨⟨f, ca⟩, hc, heq⟩ := bind_eq_ok.1 heq
  rw [ofOption_eq_ok] at he hc
  exact h.exitInvocation (h.calls (h.enter hs he) hQ hc) heq

variable {t : C.TriggerData} {b : C.Block}

theorem processTrigger {host : RuntimeHost C} (h : HandlerInvariant impl host.hostExports Q I)
    (hQ : ∀ {t st i}, env.handle host t st = .ok i → ∀ c ∈ i.calls, Q c) (hs : I st)
    (heq : host.processTrigger impl env b t st = .ok state') : I state' := by
  unfold RuntimeHost.processTrigger at heq
  split at heq
  next => cases heq
  next => exact Outcome.ok.inj heq ▸ hs
  next mt hm =>
    unfold RuntimeHost.processMappingTrigger at heq
    split at heq
    next => cases heq
    next i hh =>
      split at heq
      next => cases heq
      next => cases heq
      next state₁ hi =>
        cases heq
        exact h.invokeHandler hs (hQ hh) hi

theorem processTriggerInRuntimeHosts {hos : List (RuntimeHost C)}
    (h : ∀ host ∈ hos, ∃ Q, HandlerInvariant impl host.hostExports Q I ∧
      ∀ {t st i}, env.handle host t st = .ok i → ∀ c ∈ i.calls, Q c) (hs : I st)
    (heq : Massbit.processTriggerInRuntimeHosts impl env hos b t st = .ok state') :
    I state' := by
  refine foldlM_invariant (I := fun _ s => I s) heq hs ?_
  intro pre host s s' hm hI hst
  obtain ⟨Q, hk, hQ⟩ := h host (hm host (by simp))
  exact hk.processTrigger hQ hI hst

end HandlerInvariant

theorem foldlM_processTriggerInRuntimeHosts {E : Type} {f : C.TriggerData → MappingError → E}
    {hos : List (RuntimeHost C)}
    (h : ∀ host ∈ hos, ∃ Q, HandlerInvariant impl host.hostExports Q I ∧
      ∀ {t st i}, env.handle host t st = .ok i → ∀ c ∈ i.calls, Q c) (hs : I st) {b : C.Block}
    {ts : List C.TriggerData} (heq : ts.foldlM (fun st t =>
      (processTriggerInRuntimeHosts impl env hos b t st).mapErr (f t)) st
      = .ok state') : I state' := by
  refine foldlM_invariant (I := fun _ s => I s) heq hs ?_
  intro pre t s s' _ hI hst
  exact HandlerInvariant.processTriggerInRuntimeHosts h hI (mapErr_eq_ok.1 hst)

end

section

variable {C : Blockchain} [EntityWeight]
variable {impl : EntityHeap} {env : Environment C}
variable {content : Content}

variable (impl env) in
def Environment.Callbacks : Prop :=
  ∀ {host trigger state invocation}, env.handle host trigger state = .ok invocation →
    ∀ c ∈ invocation.calls, ∀ other ∈ c.states, host.hostExports.CallbackState impl env.store other

theorem sound_of_hosts {ii : DeploymentHash} (hs : Serves env.store content)
    (hca : env.Callbacks impl) {hos : List (RuntimeHost C)}
    (hho : ∀ host ∈ hos, host.hostExports.indexerId = ii) :
    ∀ host ∈ hos, ∃ Q, HandlerInvariant impl host.hostExports Q
        (fun s => s.Sound ii env.store content) ∧
      ∀ {t state i}, env.handle host t state = .ok i → ∀ c ∈ i.calls, Q c := by
  intro host hhs
  obtain rfl := hho host hhs
  exact ⟨_, HostExports.handlerInvariant_sound hs host.hostExports,
    fun hh c hc o ho => (hca hh c hc o ho).sound hs⟩

end

end Massbit
