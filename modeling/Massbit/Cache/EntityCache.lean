/-
`EntityCache` of `components/store.rs`.
-/
import Massbit.Store.Interface
import Massbit.Cache.EntityOp
import Massbit.Cache.Lfu

namespace Massbit

/-- The cache of committed entities; `none` says that the entity does not exist. -/
abbrev EntityLfuCache := LfuCache EntityKey (Option Entity)

abbrev EntityWeight := EntryWeight EntityKey (Option Entity)

abbrev EntityHeap := HeapImpl (CacheEntry EntityKey (Option Entity)) Priority

/-- The updates of a cache in the order in which they are visited. -/
abbrev EntityOps := List (Σ _ : EntityKey, EntityOp)

abbrev EntityOpOrder := Finmap.IterOrder fun _ : EntityKey => EntityOp

def WritableStore.load (store : WritableStore) (key : EntityKey) :
    Except QueryExecutionError (Option Entity) :=
  (store.get key).map fun entity => entity.map Entity.untyped

theorem Serves.load {store : WritableStore} {c : Content} (hs : Serves store c)
    {key : EntityKey} {data : Option Entity} (h : store.load key = .ok data) :
    data = c.lookup key := by
  rcases e : store.get key with err | r
  · rw [WritableStore.load, e] at h
    cases h
  · rw [WritableStore.load, e] at h
    cases h
    rw [hs.get e]
    rcases ec : c.lookup key with - | en
    · rfl
    · exact congrArg some ((Entity.untyped_typed en _).trans (c.untyped ec))

section

variable [EntityWeight]

def LfuCache.getEntity (self : EntityLfuCache) (store : WritableStore) (key : EntityKey) :
    Option (Except QueryExecutionError (Option Entity) × EntityLfuCache) :=
  match self.get key with
  | (some data, self) => some (.ok data, self)
  | (none, self) =>
    match store.get key with
    | .error e => some (.error e, self)
    | .ok entity =>
      let entity := entity.map Entity.untyped
      (self.insert key entity).map fun self => (.ok entity, self)

end

/-- A cache for entities from the store that tracks how entities are modified. -/
structure EntityCache where
  current : EntityLfuCache
  updates : HashMap EntityKey EntityOp
  handlerUpdates : HashMap EntityKey EntityOp
  inHandler : Bool
  dataSources : List StoredDynamicDataSource
  store : WritableStore

namespace EntityCache

def withCurrent (store : WritableStore) (current : EntityLfuCache) : EntityCache :=
  { current, updates := ∅, handlerUpdates := ∅, inHandler := false, dataSources := [], store }

def new (store : WritableStore) : EntityCache := withCurrent store .new

def enterHandler (self : EntityCache) : Option EntityCache :=
  if self.inHandler then none else some { self with inHandler := true }

def entityOp (self : EntityCache) (key : EntityKey) (op : EntityOp) : EntityCache :=
  match self.inHandler with
  | true => { self with handlerUpdates := accumulateAt self.handlerUpdates key op }
  | false => { self with updates := accumulateAt self.updates key op }

def entityOps (self : EntityCache) (ops : EntityOps) : EntityCache :=
  ops.foldl (fun self x => self.entityOp x.1 x.2) self

def exitHandler (self : EntityCache) (drained : EntityOps) :
    Option EntityCache :=
  if self.inHandler then
    some ({ self with inHandler := false, handlerUpdates := ∅ }.entityOps drained)
  else none

def exitHandlerAndDiscardChanges (self : EntityCache) : Option EntityCache :=
  if self.inHandler then some { self with inHandler := false, handlerUpdates := ∅ } else none

def remove (self : EntityCache) (key : EntityKey) : EntityCache := self.entityOp key .remove

def set (self : EntityCache) (key : EntityKey) (entity : Entity) : EntityCache :=
  self.entityOp key (.update entity)

def addDataSource (self : EntityCache) (dataSource : StoredDynamicDataSource) : EntityCache :=
  { self with dataSources := self.dataSources ++ [dataSource] }

def extend (impl : EntityHeap)
    (self other : EntityCache) (ops : EntityOps) : Option EntityCache :=
  if other.inHandler then none
  else some ({ self with current := self.current.extend impl other.current }.entityOps ops)

variable [EntityWeight]

def get (self : EntityCache) (key : EntityKey) :
    Option (Except QueryExecutionError (Option Entity) × EntityCache) :=
  (self.current.getEntity self.store key).map fun (entity, current) =>
    (entity.map fun entity =>
        let entity := EntityOp.applyOpt (self.updates.lookup key) entity
        EntityOp.applyOpt (self.handlerUpdates.lookup key) entity,
      { self with current })

end EntityCache

namespace LfuCache

def fetch (self : EntityLfuCache) (store : WritableStore) (key : EntityKey) :
    Except QueryExecutionError (Option Entity) :=
  match self.peek key with
  | some data => .ok data
  | none => store.load key

def Coherent (self : EntityLfuCache) (store : WritableStore) : Prop :=
  ∀ key data, self.peek key = some data → store.load key = .ok data

variable {self : EntityLfuCache} {store : WritableStore}

theorem Coherent.fetch (h : self.Coherent store) (key : EntityKey) :
    self.fetch store key = store.load key := by
  rcases e : self.peek key with - | data
  · simp [LfuCache.fetch, e]
  · simp [LfuCache.fetch, e, h key data e]

theorem coherent_new (store : WritableStore) : (new : EntityLfuCache).Coherent store := by
  intro key data h
  cases h

theorem Coherent.extend {o : EntityLfuCache} (h : self.Coherent store)
    (h' : o.Coherent store) (impl : EntityHeap) :
    (self.extend impl o).Coherent store := by
  intro key data hd
  rcases peek_extend hd with hd | hd
  · exact h key data hd
  · exact h' key data hd

def Loads (self : EntityLfuCache) (store : WritableStore) (c : EntityLfuCache) : Prop :=
  ∀ k, c.peek k = self.peek k ∨
    self.peek k = none ∧ ∃ data, store.load k = .ok data ∧ c.peek k = some data

variable {c : EntityLfuCache}

theorem Loads.fetch (h : self.Loads store c) (key : EntityKey) :
    c.fetch store key = self.fetch store key := by
  rcases h key with hk | ⟨hn, data, hl, hk⟩
  · rw [LfuCache.fetch, LfuCache.fetch, hk]
  · simp only [LfuCache.fetch, hk, hn, hl]

theorem Coherent.loads (h : self.Coherent store) (hl : self.Loads store c) :
    c.Coherent store := by
  intro key data hd
  rcases hl key with hk | ⟨-, data', hlo, hk⟩
  · exact h key data (hk.symm.trans hd)
  · obtain rfl : data' = data := Option.some.inj (hk.symm.trans hd)
    exact hlo

variable [EntityWeight]

theorem getEntity_spec (self : EntityLfuCache) (store : WritableStore) (key : EntityKey) :
    ∃ c : EntityLfuCache, self.getEntity store key = some (self.fetch store key, c) ∧
      self.Loads store c ∧ ∀ k, k ≠ key → c.peek k = self.peek k := by
  have hg : self.get key = (self.peek key, (self.get key).2) := by rw [← get_fst]
  rw [getEntity, hg]
  rcases e : self.peek key with - | data
  · have hf : self.fetch store key = store.load key := by simp [fetch, e]
    rw [hf]
    rcases es : store.get key with err | en
    · refine ⟨(self.get key).2, ?_, fun k => .inl (self.peek_get key k),
        fun k _ => self.peek_get key k⟩
      simp [WritableStore.load, es, Except.map]
    · have hl : store.load key = .ok (en.map Entity.untyped) := by
        simp [WritableStore.load, es, Except.map]
      -- the key is not cached, so the insertion cannot underflow
      have ha : (self.get key).2.queue.get? key = none :=
        peek_eq_none.1 ((self.peek_get key key).trans e)
      obtain ⟨c, hc, -⟩ := insert_of_absent ha (en.map Entity.untyped)
      have ho : ∀ k, k ≠ key → c.peek k = self.peek k := fun k hk =>
        ((peek_insert hc k).trans (if_neg hk)).trans (self.peek_get key k)
      refine ⟨c, ?_, fun k => ?_, ho⟩
      · show ((self.get key).2.insert key _).map _ = _
        rw [hc, Option.map_some, hl]
      · rcases eq_or_ne k key with rfl | hk
        · exact .inr ⟨e, _, hl, (peek_insert hc k).trans (if_pos rfl)⟩
        · exact .inl (ho k hk)
  · refine ⟨(self.get key).2, ?_, fun k => .inl (self.peek_get key k),
      fun k _ => self.peek_get key k⟩
    simp [fetch, e]

end LfuCache

namespace EntityCache

def view (self : EntityCache) (key : EntityKey) : Except QueryExecutionError (Option Entity) :=
  (self.current.fetch self.store key).map fun entity =>
    EntityOp.applyOpt (self.handlerUpdates.lookup key)
      (EntityOp.applyOpt (self.updates.lookup key) entity)

section

variable [EntityWeight]

theorem get_spec (self : EntityCache) (key : EntityKey) :
    ∃ current : EntityLfuCache, self.get key = some (self.view key, { self with current }) ∧
      self.current.Loads self.store current ∧
      ∀ k, k ≠ key → current.peek k = self.current.peek k := by
  obtain ⟨current, hc, hl⟩ := self.current.getEntity_spec self.store key
  refine ⟨current, ?_, hl⟩
  rw [get, hc]
  rfl

theorem view_get {self c : EntityCache} {key : EntityKey}
    {r : Except QueryExecutionError (Option Entity)} (h : self.get key = some (r, c))
    (k : EntityKey) : c.view k = self.view k := by
  obtain ⟨current, hc, hl, -⟩ := self.get_spec key
  obtain ⟨rfl, rfl⟩ := Prod.mk.inj (Option.some.inj (hc.symm.trans h))
  show (current.fetch self.store k).map _ = (self.current.fetch self.store k).map _
  rw [hl.fetch]

end

variable {self : EntityCache}

theorem entityOps_of_inHandler (h : self.inHandler = true) (ops : EntityOps) :
    self.entityOps ops = { self with
      handlerUpdates := ops.foldl (fun u x => accumulateAt u x.1 x.2) self.handlerUpdates } := by
  induction ops generalizing self with
  | nil => rfl
  | cons x ops ih =>
    have hx : self.entityOp x.1 x.2
        = { self with handlerUpdates := accumulateAt self.handlerUpdates x.1 x.2 } := by
      simp [entityOp, h]
    show (self.entityOp x.1 x.2).entityOps ops = _
    rw [hx]
    exact ih h

theorem entityOps_of_not_inHandler (h : self.inHandler = false) (ops : EntityOps) :
    self.entityOps ops = { self with
      updates := ops.foldl (fun u x => accumulateAt u x.1 x.2) self.updates } := by
  induction ops generalizing self with
  | nil => rfl
  | cons x ops ih =>
    have hx : self.entityOp x.1 x.2
        = { self with updates := accumulateAt self.updates x.1 x.2 } := by
      simp [entityOp, h]
    show (self.entityOp x.1 x.2).entityOps ops = _
    rw [hx]
    exact ih h

theorem entityOps_frame (self : EntityCache) (ops : EntityOps) :
    (self.entityOps ops).store = self.store ∧ (self.entityOps ops).current = self.current ∧
      (self.entityOps ops).inHandler = self.inHandler ∧
      (self.entityOps ops).dataSources = self.dataSources := by
  rcases hin : self.inHandler with - | -
  · rw [entityOps_of_not_inHandler hin]
    exact ⟨rfl, rfl, hin, rfl⟩
  · rw [entityOps_of_inHandler hin]
    exact ⟨rfl, rfl, hin, rfl⟩

variable {d : EntityOps}

theorem exitHandler_spec (h : self.inHandler = true)
    (hd : Finmap.Enumerates d self.handlerUpdates) :
    ∃ updates : HashMap EntityKey EntityOp,
      self.exitHandler d = some { self with inHandler := false, handlerUpdates := ∅, updates } ∧
      ∀ key, updates.lookup key
        = EntityOp.andThen (self.updates.lookup key) (self.handlerUpdates.lookup key) := by
  refine ⟨d.foldl (fun u x => accumulateAt u x.1 x.2) self.updates, ?_, fun key => ?_⟩
  · rw [exitHandler, if_pos h, entityOps_of_not_inHandler rfl]
  · rw [lookup_foldl_accumulateAt hd.nodupKeys, hd.dlookup]

/-- Where both records have an operation, they compose on the current entity. -/
def ExitKeepsView (self : EntityCache) (key : EntityKey) : Prop :=
  ∀ entity, self.current.fetch self.store key = .ok entity →
    ∀ a ∈ self.updates.lookup key, ∀ b ∈ self.handlerUpdates.lookup key, a.Composes b entity

theorem view_exitHandler {c : EntityCache} (h : self.inHandler = true)
    (hd : Finmap.Enumerates d self.handlerUpdates) (hc : self.exitHandler d = some c)
    (key : EntityKey) : c.view key = self.view key ↔ self.ExitKeepsView key := by
  obtain ⟨us, het, hl⟩ := exitHandler_spec h hd
  obtain rfl := Option.some.inj (het.symm.trans hc)
  show (self.current.fetch self.store key).map (fun en =>
      EntityOp.applyOpt none (EntityOp.applyOpt (us.lookup key) en))
    = (self.current.fetch self.store key).map _ ↔ _
  rw [hl, ExitKeepsView]
  rcases e : self.current.fetch self.store key with err | en
  · exact iff_of_true rfl fun en he => nomatch he
  · have hco := EntityOp.applyOpt_andThen (self.updates.lookup key)
      (self.handlerUpdates.lookup key) en
    simp only [Except.map, Except.ok.injEq]
    rw [eq_comm]
    refine hco.trans ?_
    simp

section

variable [EntityWeight]

/-- **Leaving a handler.** The lookups of a key right before and after `exitHandler` agree exactly
when the recorded operations of the key compose on the current entity. -/
theorem get_exitHandler_get {self : EntityCache} (h : self.inHandler = true) (key : EntityKey)
    {drained : EntityOps} (hd : Finmap.Enumerates drained self.handlerUpdates) :
    ∃ before c c' after c'', self.get key = some (before, c) ∧
      c.exitHandler drained = some c' ∧ c'.get key = some (after, c'') ∧
      (before = after ↔ self.ExitKeepsView key) := by
  obtain ⟨current, hg, hl, -⟩ := self.get_spec key
  have h' : ({ self with current } : EntityCache).inHandler = true := h
  obtain ⟨updates, he, -⟩ := exitHandler_spec h' hd
  obtain ⟨current', hg', -⟩ := get_spec
    { self with current, inHandler := false, handlerUpdates := ∅, updates } key
  refine ⟨_, _, _, _, _, hg, he, hg', ?_⟩
  have hv := view_exitHandler h' hd he key
  rw [view_get hg, eq_comm] at hv
  refine hv.trans ?_
  -- the first lookup caches what it loads, so the current entity is the same
  show (∀ entity, current.fetch self.store key = .ok entity → _) ↔ _
  rw [hl.fetch]
  rfl

end

section Token

local instance : EntityWeight := ⟨fun _ _ => 1⟩

def tokenKey : EntityKey := ⟨"QmIndexer", "Token", "0x1"⟩

def tokenCache (owner : Value) : EntityCache :=
  { new Content.empty.serve with
    inHandler := true
    updates := (∅ : HashMap EntityKey EntityOp).insert tokenKey
      (.update (.ofList [("id", .string "0x1"), ("owner", .string "alice")]))
    handlerUpdates := (∅ : HashMap EntityKey EntityOp).insert tokenKey
      (.update (.ofList [("owner", owner)])) }

def tokenUpdates (owner : Value) : EntityOps :=
  [⟨tokenKey, .update (.ofList [("owner", owner)])⟩]

theorem get_exitHandler_get_bob : (tokenCache (.string "bob")).ExitKeepsView tokenKey ∧
      ∃ before c c' after c'', (tokenCache (.string "bob")).get tokenKey = some (before, c) ∧
        c.exitHandler (tokenUpdates (.string "bob")) = some c' ∧
        c'.get tokenKey = some (after, c'') ∧ before = after := by
  have hk : (tokenCache (.string "bob")).ExitKeepsView tokenKey := by
    intro e _ a ha b hb
    cases ha
    cases hb
    exact .inr (by decide)
  have he : Finmap.Enumerates (tokenUpdates (.string "bob"))
      (tokenCache (.string "bob")).handlerUpdates := by decide
  obtain ⟨before, c, c', after, c'', h1, h2, h3, h4⟩ := get_exitHandler_get rfl tokenKey he
  exact ⟨hk, before, c, c', after, c'', h1, h2, h3, h4.2 hk⟩

theorem get_exitHandler_get_null :
    Finmap.Enumerates (tokenUpdates .null) (tokenCache .null).handlerUpdates ∧
      ((tokenCache .null).get tokenKey).map (fun r => r.1.toOption)
        = some (some (some (.ofList [("id", .string "0x1")]))) ∧
      (((tokenCache .null).get tokenKey).bind fun r =>
          (r.2.exitHandler (tokenUpdates .null)).bind fun c =>
            (c.get tokenKey).map fun r => r.1.toOption)
        = some (some (some (.ofList [("id", .string "0x1"), ("owner", .null)]))) := by
  decide

end Token

end EntityCache

end Massbit
