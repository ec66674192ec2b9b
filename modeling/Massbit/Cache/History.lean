/-
Histories of an entity cache.
-/
import Massbit.Cache.Modifications
import Massbit.Lib.Run

open Option

namespace Massbit

namespace EntityCache

/-- The calls that are made on one cache while a block is processed. -/
inductive Call where
  | get (key : EntityKey)
  | set (key : EntityKey) (entity : Entity)
  | remove (key : EntityKey)
  | enterHandler
  | exitHandler (drained : EntityOps)

def Call.opAt (key : EntityKey) : Call → Option EntityOp
  | .set k entity => if k = key then some (.update entity) else none
  | .remove k => if k = key then some .remove else none
  | .get _ | .enterHandler | .exitHandler _ => none

/-- Draining the handler updates yields the handler updates, in some order. -/
def Drains (self : EntityCache) : Call → Prop
  | .exitHandler drained => Finmap.Enumerates drained self.handlerUpdates
  | _ => True

def recorded (calls : List Call) (key : EntityKey) : Option EntityOp :=
  calls.foldl (fun op call => EntityOp.andThen op (call.opAt key)) none

theorem recorded_concat (cs : List Call) (call : Call) (key : EntityKey) :
    recorded (cs ++ [call]) key = EntityOp.andThen (recorded cs key) (call.opAt key) := by
  rw [recorded, List.foldl_append]
  rfl

def record (self : EntityCache) (key : EntityKey) : Option EntityOp :=
  EntityOp.andThen (self.updates.lookup key) (self.handlerUpdates.lookup key)

def Closed (self : EntityCache) : Prop := self.inHandler = false → self.handlerUpdates = ∅

variable {self c other : EntityCache} {ops : EntityOps}
  {impl : EntityHeap} {op : EntityOp}

theorem Closed.record_eq (h : self.Closed) (ho : self.inHandler = false) (key : EntityKey) :
    self.record key = self.updates.lookup key := by
  rw [record, h ho, Finmap.lookup_empty, EntityOp.andThen_none]

theorem Closed.entityOps (hc : self.Closed) (ops : EntityOps) :
    (self.entityOps ops).Closed := by
  rcases hin : self.inHandler with - | -
  · rw [entityOps_of_not_inHandler hin]
    exact hc
  · rw [entityOps_of_inHandler hin]
    exact fun ho => nomatch hin.symm.trans ho

theorem Closed.record_entityOps (hc : self.Closed) (ho : ops.NodupKeys) (key : EntityKey) :
    (self.entityOps ops).record key = EntityOp.andThen (self.record key) (ops.dlookup key) := by
  rcases hin : self.inHandler with - | -
  · rw [entityOps_of_not_inHandler hin]
    show EntityOp.andThen ((ops.foldl _ self.updates).lookup key) _ = _
    rw [lookup_foldl_accumulateAt ho, record, hc hin, Finmap.lookup_empty, EntityOp.andThen_none,
      EntityOp.andThen_none]
  · rw [entityOps_of_inHandler hin]
    show EntityOp.andThen _ ((ops.foldl _ self.handlerUpdates).lookup key) = _
    rw [lookup_foldl_accumulateAt ho, record, EntityOp.andThen_assoc]

variable {d : EntityOps}

theorem exitHandler_inHandler (h : self.exitHandler d = some c) : c.inHandler = false := by
  rw [exitHandler, ite_none_right_eq_some] at h
  obtain rfl := Option.some.inj h.2
  exact (entityOps_frame _ d).2.2.1

theorem exitHandler_closed (h : self.exitHandler d = some c) : c.Closed := by
  rw [exitHandler, ite_none_right_eq_some] at h
  obtain rfl := Option.some.inj h.2
  exact Closed.entityOps (fun _ => rfl) d

theorem extend_inHandler (h : self.extend impl other ops = some c) :
    c.inHandler = self.inHandler := by
  rw [extend, ite_none_left_eq_some] at h
  obtain rfl := Option.some.inj h.2
  exact (entityOps_frame _ ops).2.2.1

theorem extend_closed (hc : self.Closed) (h : self.extend impl other ops = some c) : c.Closed := by
  rw [extend, ite_none_left_eq_some] at h
  obtain rfl := Option.some.inj h.2
  have hc' : ({ self with current := self.current.extend impl other.current } :
      EntityCache).Closed := hc
  exact hc'.entityOps ops

theorem extend_of_inHandler (hin : self.inHandler = true)
    (h : self.extend impl other ops = some c) :
    c = { self with
      current := self.current.extend impl other.current
      handlerUpdates := ops.foldl (fun u x => accumulateAt u x.1 x.2) self.handlerUpdates } := by
  rw [extend, ite_none_left_eq_some] at h
  rw [← Option.some.inj h.2]
  have hin' : ({ self with current := self.current.extend impl other.current } :
      EntityCache).inHandler = true := hin
  exact entityOps_of_inHandler hin' ops

theorem extend_spec (hc : self.Closed) (ho : Finmap.Enumerates ops other.updates)
    (h : self.extend impl other ops = some c) :
    other.inHandler = false ∧ c.store = self.store ∧
      c.current = self.current.extend impl other.current ∧ c.Closed ∧
      ∀ key, c.record key = EntityOp.andThen (self.record key) (other.updates.lookup key) := by
  have hcl := extend_closed hc h
  rw [extend, ite_none_left_eq_some] at h
  obtain ⟨hou, h⟩ := h
  cases h
  have hc' : ({ self with current := self.current.extend impl other.current } :
      EntityCache).Closed := hc
  obtain ⟨hs, hcu, -, -⟩ :=
    entityOps_frame { self with current := self.current.extend impl other.current } ops
  refine ⟨Bool.eq_false_iff.2 hou, hs, hcu, hcl, fun key => ?_⟩
  rw [hc'.record_entityOps ho.nodupKeys, ho.dlookup]
  rfl

section

variable [EntityWeight]

def step (self : EntityCache) : Call → Option EntityCache
  | .get key => (self.get key).map (·.2)
  | .set key entity => some (self.set key entity)
  | .remove key => some (self.remove key)
  | .enterHandler => self.enterHandler
  | .exitHandler drained => self.exitHandler drained

theorem step_spec {self c : EntityCache} {call : Call} (hc : self.Closed) (hd : self.Drains call)
    (h : self.step call = some c) :
    c.store = self.store ∧ self.current.Loads self.store c.current ∧ c.Closed ∧
      ∀ key, c.record key = EntityOp.andThen (self.record key) (call.opAt key) := by
  -- `set` and `remove` record one operation
  have ho : ∀ key op, c = self.entityOp key op → c.store = self.store ∧
      self.current.Loads self.store c.current ∧ c.Closed ∧ ∀ k, c.record k
        = EntityOp.andThen (self.record k) (if key = k then some op else none) := by
    rintro key op rfl
    have hop : ([⟨key, op⟩] : EntityOps).NodupKeys :=
      List.nodupKeys_singleton _
    obtain ⟨hs, hcu, -, -⟩ := self.entityOps_frame [⟨key, op⟩]
    refine ⟨hs, fun k => .inl (congrArg (LfuCache.peek · k) hcu),
      hc.entityOps [⟨key, op⟩], fun k => ?_⟩
    refine (hc.record_entityOps hop k).trans (congrArg _ ?_)
    by_cases hk : key = k
    · subst hk
      simp
    · rw [if_neg hk, List.dlookup_cons_ne _ _ (Ne.symm hk), List.dlookup_nil]
  cases call with
  | get key =>
    obtain ⟨cu, hg, hlo, -⟩ := self.get_spec key
    rw [step, hg] at h
    cases h
    exact ⟨rfl, hlo, hc, fun k => (EntityOp.andThen_none _).symm⟩
  | set key e => exact ho key (.update e) (Option.some.inj h).symm
  | remove key => exact ho key .remove (Option.some.inj h).symm
  | enterHandler =>
    rw [step, enterHandler, ite_none_left_eq_some] at h
    obtain ⟨-, h⟩ := h
    cases h
    exact ⟨rfl, fun k => .inl rfl, nofun, fun k => (EntityOp.andThen_none _).symm⟩
  | exitHandler d =>
    have hin : self.inHandler = true := by
      by_contra hou
      rw [step, exitHandler, if_neg hou] at h
      cases h
    obtain ⟨us, he, hl⟩ := exitHandler_spec hin hd
    obtain rfl := Option.some.inj (he.symm.trans h)
    refine ⟨rfl, fun k => .inl rfl, fun _ => rfl, fun k => ?_⟩
    show EntityOp.andThen (us.lookup k) none = EntityOp.andThen (self.record k) none
    rw [EntityOp.andThen_none, EntityOp.andThen_none, hl]
    rfl

end

theorem agrees_new (content : Content) : Agrees .new content := by
  intro key data h
  cases h

theorem Agrees.loads {store : WritableStore} {content : Content} (hs : Serves store content)
    {cu c : EntityLfuCache} (ha : Agrees cu content) (hl : cu.Loads store c) :
    Agrees c content := by
  intro key data hd
  rcases hl key with hk | ⟨-, data', hlo, hk⟩
  · exact ha key data (hk.symm.trans hd)
  · obtain rfl : data' = data := Option.some.inj (hk.symm.trans hd)
    exact hs.load hlo

/-- The operation leaves neither a `Null` attribute nor a `__typename` in the entity that it is
applied to. -/
def ShowsStored : EntityOp → Option Entity → Prop
  | .remove, _ => True
  | .update updates, some _ => updates.removeNullFields.untyped = updates.removeNullFields
  | .update data, none | .overwrite data, _ => data.NullFree ∧ data.untyped = data

theorem applyTo_stored_iff {entity : Option Entity} (he : ∀ e ∈ entity, e.stored = e) :
    op.applyTo entity = (op.applyTo entity).map Entity.stored ↔ ShowsStored op entity := by
  rw [eq_comm]
  rcases op with - | updates | data
  · exact iff_of_true rfl trivial
  · rcases entity with - | entity
    · exact some_inj.trans Entity.stored_eq_self
    · have hs := Entity.stored_eq_self.1 (he entity rfl)
      refine (some_inj.trans Entity.stored_eq_self).trans ?_
      rw [and_iff_right (hs.1.mergeRemoveNullFields updates), ShowsStored,
        Entity.untyped_eq_self, Entity.untyped_eq_self, Entity.lookup_mergeRemoveNullFields,
        Entity.lookup_removeNullFields, Entity.untyped_eq_self.1 hs.2]
      rcases updates.lookup typenameAttribute with - | v
      · simp
      · by_cases hv : v = .null <;> simp [hv]
  · exact some_inj.trans Entity.stored_eq_self

section

variable [EntityWeight]
variable (impl : EntityHeap)

theorem run_spec {store : WritableStore} {content : Content} (hs : Serves store content)
    {cu : EntityLfuCache} (ha : Agrees cu content) {calls : List Call} {c : EntityCache}
    (hru : Run step Drains (withCurrent store cu) calls c) :
    c.store = store ∧ Agrees c.current content ∧ c.Closed ∧
      ∀ key, c.record key = recorded calls key := by
  refine hru.invariant (I := fun calls c => c.store = store ∧ Agrees c.current content ∧
    c.Closed ∧ ∀ key, c.record key = recorded calls key) ?_ ?_
  · exact ⟨rfl, ha, fun _ => rfl, fun _ => rfl⟩
  · rintro calls s call s' ⟨rfl, hag, hc, hr⟩ hd hsp
    obtain ⟨hst, hl, hc', hr'⟩ := step_spec hc hd hsp
    refine ⟨hst, hag.loads hs hl, hc', fun key => ?_⟩
    rw [hr', hr, recorded_concat]

/-- **Lookups against commits.** At the end of a block, the entity that `get` shows under a key is
the one that is committed exactly when the product of the operations on the key shows what is
stored. -/
theorem get_eq_commit_iff {store : WritableStore} {content : Content} (hs : Serves store content)
    {current : EntityLfuCache} (ha : Agrees current content) {calls : List Call} {c : EntityCache}
    (hrun : Run step Drains (withCurrent store current) calls c)
    {order : EntityOps} (ho : Finmap.Enumerates order c.updates)
    {r : ModificationsAndCache} (hr : c.asModifications impl order = .ok r) {key : EntityKey}
    {entity : Option Entity} {c' : EntityCache} (hget : c.get key = some (.ok entity, c')) :
    entity = commit content.lookup r.modifications key ↔
      ∀ op ∈ recorded calls key, ShowsStored op (content.lookup key) := by
  obtain ⟨rfl, hag, hc, hre⟩ := run_spec hs ha hrun
  have hou := inHandler_of_asModifications hr
  have hop : c.updates.lookup key = recorded calls key := by
    rw [← hre key, hc.record_eq hou]
  have hse : ∀ e ∈ content.lookup key, e.stored = e := fun e he => content.stored_eq_self he
  -- what `get` returns is the record applied to the committed entity
  have hen : entity = EntityOp.applyOpt (recorded calls key) (content.lookup key) := by
    obtain ⟨cu', hg', -⟩ := c.get_spec key
    have hv : c.view key = .ok entity := (Prod.mk.inj (Option.some.inj (hg'.symm.trans hget))).1
    rw [view, hop, hc hou] at hv
    rcases e : c.current.fetch c.store key with err | data
    · rw [e] at hv
      cases hv
    · rw [e] at hv
      have hd : data = content.lookup key := by
        rcases ep : c.current.peek key with - | data'
        · rw [LfuCache.fetch, ep] at e
          exact hs.load e
        · rw [LfuCache.fetch, ep] at e
          exact Except.ok.inj e ▸ hag key data' ep
      exact (Except.ok.inj hv).symm.trans (hd ▸ rfl)
  rw [commit_asModifications hs hag ho hr, hop, hen]
  rcases recorded calls key with - | op
  · refine iff_of_true ?_ (by simp)
    rcases e : content.lookup key with - | e'
    · rfl
    · exact congrArg some (hse e' e).symm
  · simpa [EntityOp.applyOpt] using applyTo_stored_iff hse

end

def Call.touched : Call → Set EntityKey
  | .set key _ | .remove key => {key}
  | .get _ | .enterHandler | .exitHandler _ => ∅

variable {key : EntityKey} {call : Call}

theorem Call.mem_touched (h : call.opAt key = some op) :
    key ∈ call.touched := by
  cases call with
  | set k e =>
    rw [opAt, ite_none_right_eq_some] at h
    exact h.1.symm
  | remove k =>
    rw [opAt, ite_none_right_eq_some] at h
    exact h.1.symm
  | get k => cases h
  | enterHandler => cases h
  | exitHandler d => cases h

def Call.Sets (P : Entity → Prop) : Call → Prop
  | .set _ entity => P entity
  | _ => True

def OpHas (P : Entity → Prop) : EntityOp → Prop
  | .remove => True
  | .update entity | .overwrite entity => P entity

variable {P : Entity → Prop}

theorem Call.opHas (hc : call.Sets P) (h : call.opAt key = some op) : OpHas P op := by
  cases call with
  | set k e =>
    rw [opAt, ite_none_right_eq_some] at h
    exact Option.some.inj h.2 ▸ hc
  | remove k =>
    rw [opAt, ite_none_right_eq_some] at h
    exact Option.some.inj h.2 ▸ trivial
  | get k => cases h
  | enterHandler => cases h
  | exitHandler d => cases h

theorem OpHas.accumulate (hP : ∀ {e u : Entity}, P e → P u → P (e.merge u)) {a b : EntityOp}
    (ha : OpHas P a) (hb : OpHas P b) : OpHas P (a.accumulate b) := by
  rcases b with - | u | d
  · trivial
  · rcases a with - | e | e
    · exact hb
    · exact hP ha hb
    · exact hP ha hb
  · exact hb

section

variable [EntityWeight]
variable (impl : EntityHeap)

/-- The caches that calls build over a store, starting from a cache of committed entities and taking
in others built the same way. -/
inductive Built (store : WritableStore) (content : Content) (P : Entity → Prop) :
    Set EntityKey → EntityCache → Prop
  | withCurrent {current : EntityLfuCache} : Agrees current content →
      Built store content P ∅ (withCurrent store current)
  | step {T : Set EntityKey} {c c' : EntityCache} {call : Call} :
      Built store content P T c → c.Drains call → call.Sets P → c.step call = some c' →
        Built store content P (T ∪ call.touched) c'
  | extend {T T' : Set EntityKey} {c other c' : EntityCache}
      {ops : EntityOps} :
      Built store content P T c → Built store content P T' other →
        Finmap.Enumerates ops other.updates → c.extend impl other ops = some c' →
          Built store content P (T ∪ T') c'

variable {impl} {store : WritableStore} {content : Content} {P : Entity → Prop}

theorem Built.spec (hs : Serves store content) (hP : ∀ {e u : Entity}, P e → P u → P (e.merge u))
    {T : Set EntityKey} {c : EntityCache} (h : Built impl store content P T c) :
    c.store = store ∧ Agrees c.current content ∧ c.Closed ∧
      ∀ key op, c.record key = some op → key ∈ T ∧ OpHas P op := by
  -- an operation that two records accumulate to is touched and meets `P` if they are and do
  have hm : ∀ {T T' : Set EntityKey} {a b : Option EntityOp} {key : EntityKey},
      (∀ op, a = some op → key ∈ T ∧ OpHas P op) → (∀ op, b = some op → key ∈ T' ∧ OpHas P op) →
        ∀ op, EntityOp.andThen a b = some op → key ∈ T ∪ T' ∧ OpHas P op := by
    intro T T' a b key ha hb op hop
    rcases a with - | a
    · rw [EntityOp.none_andThen] at hop
      exact ⟨.inr (hb op hop).1, (hb op hop).2⟩
    · rcases b with - | b
      · exact ⟨.inl (ha op hop).1, (ha op hop).2⟩
      · cases hop
        exact ⟨.inl (ha a rfl).1, (ha a rfl).2.accumulate hP (hb b rfl).2⟩
  induction h with
  | withCurrent ha => exact ⟨rfl, ha, fun _ => rfl, nofun⟩
  | step hbu hd hse hsp ih =>
    obtain ⟨rfl, hag, hc, hr⟩ := ih
    obtain ⟨hst, hl, hc', hr'⟩ := step_spec hc hd hsp
    refine ⟨hst, hag.loads hs hl, hc', fun key => ?_⟩
    rw [hr']
    exact hm (hr key) fun op hop => ⟨Call.mem_touched hop, Call.opHas hse hop⟩
  | extend hbu hb' ho he ih ih' =>
    obtain ⟨rfl, hag, hc, hr⟩ := ih
    obtain ⟨-, ha', hc', hr'⟩ := ih'
    obtain ⟨hou, hst, hcu, hc'', hr''⟩ := extend_spec hc ho he
    refine ⟨hst, fun key data hd => ?_, hc'', fun key => ?_⟩
    · rw [hcu] at hd
      rcases LfuCache.peek_extend hd with hd | hd
      · exact hag key data hd
      · exact ha' key data hd
    · rw [hr'', ← hc'.record_eq hou]
      exact hm (hr key) (hr' key)

/-- What the committed content must be for a modification to be called for. -/
def Justified (content : Content) : EntityModification → Prop
  | .insert key _ => content.lookup key = none
  | .overwrite key data => ∃ e, content.lookup key = some e ∧ data.untyped ≠ e
  | .remove key => (content.lookup key).isSome

/-- No entity was removed and written back as it is committed without being cached. -/
def NoBlindRewrite (self : EntityCache) (content : Content) : Prop :=
  ∀ key e, content.lookup key = some e → self.updates.lookup key = some (.overwrite e) →
    (self.current.peek key).isSome

omit [EntityWeight] in
theorem mergeRemoveNullFields_eq_self_of_untyped {e base u : Entity}
    (hb : base.untyped = e.untyped) (hu : u.untyped = u)
    (h : (base.mergeRemoveNullFields u).untyped = e) : base.mergeRemoveNullFields u = base := by
  refine Finmap.ext_lookup fun a => ?_
  by_cases ha : a = typenameAttribute
  · rw [ha, Entity.lookup_mergeRemoveNullFields, Entity.untyped_eq_self.1 hu]
    rfl
  · have hl := congrArg (Finmap.lookup a) h
    rw [Entity.lookup_untyped, if_neg ha] at hl
    have hl' := congrArg (Finmap.lookup a) hb
    rw [Entity.lookup_untyped, Entity.lookup_untyped, if_neg ha, if_neg ha] at hl'
    rw [hl, hl']

omit [EntityWeight] in
theorem justified_reconcile {self : EntityCache} {key : EntityKey} {op : EntityOp}
    (hop : OpHas (fun e => e.untyped = e) op)
    (hbl : ∀ e, content.lookup key = some e → op = .overwrite e →
      (self.current.peek key).isSome) {m : EntityModification}
    (hm : (reconcile key (self.baseEntity content key) op).1 = some m) : Justified content m := by
  rcases e : content.lookup key with - | entity
  · rw [baseEntity_none e] at hm
    rcases op with - | us | data
    · cases hm
    · exact Option.some.inj hm ▸ e
    · exact Option.some.inj hm ▸ e
  · obtain ⟨base, hb, hc⟩ := self.baseEntity_some e
    have hu : base.untyped = entity.untyped := by
      rcases hc with rfl | ⟨rfl, -⟩
      · rfl
      · exact Entity.untyped_typed entity _
    rw [hb] at hm
    rcases op with - | us | data
    · cases hm
      show (content.lookup key).isSome
      rw [e]
      rfl
    · obtain ⟨hne, hm⟩ := ite_none_right_eq_some.1 hm
      cases hm
      exact ⟨entity, e, fun heq =>
        hne (mergeRemoveNullFields_eq_self_of_untyped hu hop heq).symm⟩
    · obtain ⟨hne, hm⟩ := ite_none_right_eq_some.1 hm
      cases hm
      refine ⟨entity, e, fun heq => hne ?_⟩
      have hd : data = entity := (hop : data.untyped = data).symm.trans heq
      rw [hd]
      rcases hc with rfl | ⟨-, hnot⟩
      · rfl
      · exact absurd (hbl entity e (by rw [hd])) hnot

/-- **One modification for each change.** In a block whose handlers set no `__typename`, the
modifications are called for, one for a key, exactly when no entity was removed and written back as
it is committed without being cached. -/
theorem modifications_justified_iff (hs : Serves store content) {T : Set EntityKey}
    {c : EntityCache} (hb : Built impl store content (fun e => e.untyped = e) T c)
    {order : EntityOps} (ho : Finmap.Enumerates order c.updates) {r : ModificationsAndCache}
    (hr : c.asModifications impl order = .ok r) :
    ((r.modifications.map EntityModification.entityKey).Nodup ∧
      ∀ m ∈ r.modifications, m.entityKey ∈ T ∧ Justified content m) ↔
      c.NoBlindRewrite content := by
  have hme : ∀ {e u : Entity}, e.untyped = e → u.untyped = u → (e.merge u).untyped = e.merge u := by
    intro e u he hu
    rw [Entity.untyped_eq_self] at he hu ⊢
    rw [Entity.lookup_merge, he, hu]
    rfl
  obtain ⟨rfl, ha, hc, hre⟩ := hb.spec hs hme
  have hou := inHandler_of_asModifications hr
  constructor
  · -- the rewrite of an uncached entity is a modification, and it is not called for
    rintro ⟨-, hal⟩ key e he hop
    by_contra hn
    have hm : EntityModification.overwrite key e ∈ r.modifications := by
      refine (mem_modifications hs ha ho hr).2 ⟨.overwrite e, hop, ?_⟩
      show (reconcile key (c.baseEntity content key) _).1 = _
      rw [baseEntity, if_neg hn, typedLookup, he]
      refine if_pos fun heq => ?_
      have hl := congrArg (Finmap.lookup typenameAttribute) heq
      rw [Entity.lookup_typed, if_pos rfl, Entity.untyped_eq_self.1 (content.untyped he)] at hl
      cases hl
    obtain ⟨e', he', hne⟩ := (hal _ hm).2
    obtain rfl : e = e' := Option.some.inj (he.symm.trans he')
    exact hne (content.untyped he)
  · intro hbl
    refine ⟨nodup_modifications hs ha ho hr, fun m hm => ?_⟩
    obtain ⟨op, hop, hm⟩ := (mem_modifications hs ha ho hr).1 hm
    obtain ⟨hT, hP⟩ := hre m.entityKey op ((hc.record_eq hou _).trans hop)
    refine ⟨hT, justified_reconcile hP (fun e he heq => ?_) hm⟩
    exact hbl m.entityKey e he (heq ▸ hop)

end

section Token

local instance : EntityWeight := ⟨fun _ _ => 1⟩

def token (owner : Value) : Entity := .ofList [("id", .string "0x1"), ("owner", owner)]

def recreate (entity : Entity) : List Call :=
  [.enterHandler, .remove tokenKey, .set tokenKey entity,
    .exitHandler [⟨tokenKey, .overwrite entity⟩]]

def recreated (content : Content) (entity : Entity) : EntityCache :=
  { new content.serve with
    updates := (∅ : HashMap EntityKey EntityOp).insert tokenKey (.overwrite entity) }

theorem run_recreate (content : Content) (e : Entity) :
    Run step Drains (withCurrent content.serve .new) (recreate e) (recreated content e) := by
  refine .cons trivial rfl (.cons trivial rfl (.cons trivial rfl (.cons ?_ rfl (.nil _))))
  exact rfl

theorem get_ne_commit_null :
    Run step Drains (withCurrent Content.empty.serve .new) (recreate (token .null))
        (recreated .empty (token .null)) ∧
      Finmap.Enumerates [⟨tokenKey, .overwrite (token .null)⟩]
        (recreated .empty (token .null)).updates ∧
      ((recreated .empty (token .null)).get tokenKey).map (fun r => r.1.toOption)
        = some (some (some (token .null))) ∧
      ((recreated .empty (token .null)).asModifications .pushing
          [⟨tokenKey, .overwrite (token .null)⟩]).value?.map
          (fun r => commit Content.empty.lookup r.modifications tokenKey)
        = some (some (.ofList [("id", .string "0x1")])) :=
  ⟨run_recreate _ _, by decide, by decide, by decide⟩

theorem get_eq_commit_bob :
    ShowsStored (.overwrite (token (.string "bob"))) none ∧
      ∃ r entity c', (recreated .empty (token (.string "bob"))).asModifications
          .pushing [⟨tokenKey, .overwrite (token (.string "bob"))⟩] = .ok r ∧
        (recreated .empty (token (.string "bob"))).get tokenKey = some (.ok entity, c') ∧
        entity = commit Content.empty.lookup r.modifications tokenKey := by
  have hs : ShowsStored (.overwrite (token (.string "bob"))) none := by
    refine ⟨?_, ?_⟩ <;> decide
  have ho : Finmap.Enumerates [⟨tokenKey, .overwrite (token (.string "bob"))⟩]
      (recreated .empty (token (.string "bob"))).updates := rfl
  refine ⟨hs, _, _, _, rfl, rfl, ?_⟩
  refine (get_eq_commit_iff .pushing (Content.serves_serve _) (agrees_new _)
    (run_recreate _ _) ho rfl rfl).2 fun op hop => ?_
  cases hop
  exact hs

def aliceContent : Content :=
  .single "Token" "0x1" (token (.string "alice")) (by decide) (by decide) rfl

theorem built_recreated (impl : EntityHeap)
    (content : Content) {P : Entity → Prop} {e : Entity} (hP : P e) :
    Built impl content.serve content P {tokenKey} (recreated content e) := by
  have hb : Built impl content.serve content P
      (∅ ∪ Call.enterHandler.touched ∪ (Call.remove tokenKey).touched
        ∪ (Call.set tokenKey e).touched
        ∪ (Call.exitHandler [⟨tokenKey, .overwrite e⟩]).touched)
      (recreated content e) :=
    .step (.step (.step (.step (.withCurrent (agrees_new content)) trivial trivial rfl)
      trivial trivial rfl) trivial hP rfl) rfl trivial rfl
  simpa [Call.touched] using hb

theorem modifications_unjustified :
    Built .pushing aliceContent.serve aliceContent (fun _ => True) {tokenKey}
        (recreated aliceContent (token (.string "alice"))) ∧
      Finmap.Enumerates [⟨tokenKey, .overwrite (token (.string "alice"))⟩]
        (recreated aliceContent (token (.string "alice"))).updates ∧
      ((recreated aliceContent (token (.string "alice"))).asModifications .pushing
          [⟨tokenKey, .overwrite (token (.string "alice"))⟩]).value?.map (·.modifications)
        = some [.overwrite tokenKey (token (.string "alice"))] ∧
      aliceContent.lookup tokenKey = some (token (.string "alice")) :=
  ⟨built_recreated _ _ trivial, by decide, by decide, by decide⟩

theorem modifications_justified_bob :
    (recreated aliceContent (token (.string "bob"))).NoBlindRewrite aliceContent ∧
      ∃ r, (recreated aliceContent (token (.string "bob"))).asModifications
          .pushing [⟨tokenKey, .overwrite (token (.string "bob"))⟩] = .ok r ∧
        (r.modifications.map EntityModification.entityKey).Nodup ∧
        ∀ m ∈ r.modifications, m.entityKey ∈ ({tokenKey} : Set EntityKey) ∧
          Justified aliceContent m := by
  have hb : (recreated aliceContent (token (.string "bob"))).NoBlindRewrite aliceContent := by
    intro key e he hop
    -- the record is not what is committed
    have hk : key = tokenKey := by
      by_contra hne
      rw [recreated, Finmap.lookup_insert_of_ne _ hne] at hop
      cases hop
    subst hk
    cases he
    exact absurd hop (by decide)
  have ho : Finmap.Enumerates [⟨tokenKey, .overwrite (token (.string "bob"))⟩]
      (recreated aliceContent (token (.string "bob"))).updates := rfl
  refine ⟨hb, _, rfl, ?_⟩
  exact (modifications_justified_iff (Content.serves_serve _)
    (built_recreated .pushing aliceContent (by decide)) ho rfl).2 hb

end Token

end EntityCache

end Massbit
