/-
`CacheableStore` (`indexer_store.rs`).
-/
import Massbit.IndexerApi.Content

open List

namespace Massbit.IndexerApi

open IndexerStore (History Call Tells content record KeysMatch)
open Massbit.EntityCache (reconcile stored_reconcile reconcile_update_eq_some)
open Massbit.IndexerApi.EntityCache (Agrees Loaded)

structure CacheableStore where
  store : IndexerStore
  entityCache : EntityCache
  indexerId : DeploymentHash

namespace CacheableStore

def new (store : IndexerStore) (indexerId : DeploymentHash) : CacheableStore :=
  { store, entityCache := .new, indexerId }

def save (self : CacheableStore) (entityName : EntityType) (data : Entity) : CacheableStore :=
  match data.id with
  | .ok entityId =>
    { self with entityCache := self.entityCache.set ⟨self.indexerId, entityName, entityId⟩ data }
  | .error _ => self

def unwrapOr {E A : Type} : Outcome E A → Option A → Option A
  | .ok a, some _ => some a
  | .err _, some default => some default
  | _, _ => none

def fallback (self : CacheableStore) (db : Database) (key : EntityKey) : Option (Option Entity) :=
  unwrapOr (self.store.get db key) <| match self.store.get db key with
    | .ok val => some val
    -- the error is logged
    | .err _ => some none
    | .panic => none

def get (self : CacheableStore) (db : Database) (entityName : EntityType) (entityId : String) :
    Option (Option Entity × CacheableStore) :=
  let key : EntityKey := ⟨self.indexerId, entityName, entityId⟩
  (unwrapOr (self.entityCache.get (self.store.reads db) key)
    ((self.fallback db key).map fun entity => (entity, self.entityCache))).map
      fun x => (x.1, { self with entityCache := x.2 })

def flush (order : EntityOpOrder) (self : CacheableStore)
    (db : Database) (blockHash : String) (blockSlot : Solana.Slot) :
    Option (CacheableStore × Database) :=
  let fresh := { self with entityCache := .new }
  match self.entityCache.asModifications order (self.store.reads db) with
  | .ok r =>
    if r.modifications.length > 0 then
      match self.store.transactBlockOperations db ⟨blockHash, Solana.asI32 blockSlot⟩
          r.modifications with
      | (.panic, _) => none
      | (_, db) => some (fresh, db)
    else some (fresh, db)
  | .err _ => some (fresh, db)
  | .panic => none

section

variable {self : CacheableStore} {db : Database}

theorem get_of_ok {t : EntityType} {i : String} {x : Option Entity × EntityCache}
    {r : Option Entity}
    (hx : self.entityCache.get (self.store.reads db) ⟨self.indexerId, t, i⟩ = .ok x)
    (hr : self.store.get db ⟨self.indexerId, t, i⟩ = .ok r) :
    self.get db t i = some (x.1, { self with entityCache := x.2 }) := by
  rw [get, hx, fallback, hr]
  rfl

variable {order : EntityOpOrder} {r : ModificationsAndCache}
  (hr : self.entityCache.asModifications order (self.store.reads db) = .ok r) {bh : String}
  {bs : Solana.Slot}

include hr

theorem flush_of_nil (hn : r.modifications = []) :
    self.flush order db bh bs = some ({ self with entityCache := .new }, db) := by
  rw [flush, hr]
  show (if r.modifications.length > 0 then _ else _) = _
  rw [hn]
  rfl

theorem flush_of_ok (hne : r.modifications ≠ [])
    (hok : (self.store.transactBlockOperations db ⟨bh, Solana.asI32 bs⟩
      r.modifications).1 = .ok ()) :
    self.flush order db bh bs = some ({ self with entityCache := .new },
      (self.store.transactBlockOperations db ⟨bh, Solana.asI32 bs⟩ r.modifications).2) := by
  rw [flush, hr]
  show (if r.modifications.length > 0 then _ else _) = _
  rw [if_pos (length_pos_iff.2 hne)]
  generalize self.store.transactBlockOperations db _ _ = result at hok
  obtain ⟨o, db'⟩ := result
  obtain rfl : o = .ok () := hok
  rfl

end

def logged {E A : Type} (text : E → String) : Outcome E A → Except String A
  | .ok a => .ok a
  | .err e => .error (text e)
  | .panic => .error "panic"

def mapping (order : EntityOpOrder)
    (handleBlock : Solana.ExtBlock → CacheableStore × Database →
      Except String Unit × CacheableStore × Database) :
    Solana.Mapping (CacheableStore × Database) EntityModification where
  handleBlock := handleBlock
  asModifications s :=
    ((logged s.1.store.debugQueryError (s.1.entityCache.asModifications order
        (s.1.store.reads s.2))).map ModificationsAndCache.modifications,
      { s.1 with entityCache := .new }, s.2)
  transactBlockOperations blockPtrTo mods s :=
    (logged s.1.store.debugError (s.1.store.transactBlockOperations s.2 blockPtrTo mods).1,
      s.1, (s.1.store.transactBlockOperations s.2 blockPtrTo mods).2)

section

variable {o : EntityOpOrder}
  {hb : Solana.ExtBlock → CacheableStore × Database →
    Except String Unit × CacheableStore × Database}
  {self : CacheableStore} {db : Database} {bh : String} {bs : Solana.Slot}

theorem logged_eq_ok {E A : Type} {text : E → String} {x : Outcome E A} {a : A} :
    logged text x = .ok a ↔ x = .ok a := by
  rcases x with a' | e | -
  · show Except.ok a' = .ok a ↔ _
    rw [Except.ok.injEq, Outcome.ok.injEq]
  · exact iff_of_false nofun nofun
  · exact iff_of_false nofun nofun

theorem flush_mapping {x : CacheableStore × Database} (h : self.flush o db bh bs = some x) :
    Solana.CacheableStore.flush (mapping o hb) bh bs (self, db)
      = (.ok (), x) := by
  unfold flush at h
  simp only [Solana.CacheableStore.flush, mapping]
  split at h
  next r hr =>
    rw [hr]
    show (if r.modifications.length > 0 then _ else _) = _
    split at h
    next hl =>
      rw [if_pos hl]
      split at h
      next => cases h
      next db' htransact =>
        cases h
        rw [htransact]
    next hl =>
      cases h
      exact if_neg hl
  next e hr =>
    cases h
    rw [hr]
    rfl
  next => cases h

theorem flushCommits_mapping_iff :
    Solana.FlushCommits (mapping o hb) bh bs (self, db) ↔
      ∃ r, self.entityCache.asModifications o (self.store.reads db) = .ok r ∧
        (r.modifications ≠ [] → (self.store.transactBlockOperations db
          ⟨bh, Solana.asI32 bs⟩ r.modifications).1 = .ok ()) := by
  constructor
  · rintro ⟨mods, s', heq, ht⟩
    obtain ⟨hmods, rfl⟩ := Prod.mk.inj heq
    rcases hr : self.entityCache.asModifications o (self.store.reads db) with r | e | -
    · rw [hr] at hmods
      obtain rfl : r.modifications = mods := Except.ok.inj hmods
      exact ⟨r, rfl, fun hne => logged_eq_ok.1 (ht hne)⟩
    · rw [hr] at hmods
      cases hmods
    · rw [hr] at hmods
      cases hmods
  · rintro ⟨r, hr, ht⟩
    refine ⟨r.modifications, ({ self with entityCache := .new }, db), ?_, ?_⟩
    · simp only [mapping, hr]
      rfl
    · intro hne
      exact logged_eq_ok.2 (ht hne)

end

end CacheableStore

/-! ### Sessions of saves, reads and flushes -/

inductive Op where
  | save (entityName : EntityType) (data : Entity)
  | get (entityName : EntityType) (entityId : String)
  | flush (order : EntityOpOrder) (blockHash : String)
      (blockSlot : Solana.Slot)

structure Session where
  cacheable : CacheableStore
  db : Database
  saves : List (EntityType × Entity)
  slots : List Solana.Slot

namespace Session

def start (store : IndexerStore) (indexerId : DeploymentHash) (db : Database) : Session :=
  ⟨.new store indexerId, db, [], []⟩

def step (self : Session) : Op → Option Session
  | .save entityName data => some { self with
      cacheable := self.cacheable.save entityName data
      saves := self.saves ++ [(entityName, data)] }
  | .get entityName entityId => (self.cacheable.get self.db entityName entityId).map fun x =>
      { self with cacheable := x.2 }
  | .flush order blockHash blockSlot =>
      (self.cacheable.flush order self.db blockHash blockSlot).map fun x =>
        { self with cacheable := x.1, db := x.2, slots := self.slots ++ [blockSlot] }

def Saved (store : IndexerStore) (x : EntityType × Entity) : Prop :=
  (∃ i, x.2.id = .ok i) ∧ ∃ table, store.layout.tables.lookup x.1 = some table ∧ table.WellTyped x.2

/-- The entities are well typed, the slots of the flushes increase and are `i32`, and there is no
error of the store. -/
def Allowed (self : Session) : Op → Prop
  | .save entityName data => Saved self.cacheable.store (entityName, data)
  | .get entityName entityId => ∃ r,
      self.cacheable.store.get self.db ⟨self.cacheable.indexerId, entityName, entityId⟩ = .ok r
  | .flush order blockHash blockSlot =>
      (∀ slot ∈ self.slots, slot < blockSlot) ∧ blockSlot.toNat < 2 ^ 31 ∧
      ∃ r, self.cacheable.entityCache.asModifications order (self.cacheable.store.reads self.db)
          = .ok r ∧
        (r.modifications ≠ [] → (self.cacheable.store.transactBlockOperations self.db
          ⟨blockHash, Solana.asI32 blockSlot⟩ r.modifications).1 = .ok ())

end Session

def savesOf (saves : List (EntityType × Entity)) (t : EntityType) (i : String) : List Entity :=
  (saves.filter fun x => x.1 = t ∧ x.2.lookup "id" = some (.string i)).map Prod.snd

def lastSaved (saves : List (EntityType × Entity)) (t : EntityType) (i : String) (a : Attribute) :
    Option Value :=
  ((savesOf saves t i).filterMap fun e => e.lookup a).getLast?

/-- The result is the merge of all saved entities; an attribute that was last saved as `Null` is
absent or `Null`. -/
structure Shows (saves : List (EntityType × Entity)) (t : EntityType) (i : String)
    (r : Option Entity) : Prop where
  none_iff : r = none ↔ savesOf saves t i = []
  lookup : ∀ e, r = some e → ∀ a, e.lookup a = lastSaved saves t i a ∨
    lastSaved saves t i a = some .null ∧ e.lookup a = none

variable {saves : List (EntityType × Entity)} {t : EntityType} {i : String} {e : Entity}

theorem mem_savesOf : e ∈ savesOf saves t i ↔ (t, e) ∈ saves ∧ e.id = .ok i := by
  simp only [savesOf, mem_map, mem_filter, decide_eq_true_eq, Entity.id_eq_ok]
  simp

theorem savesOf_append (saves saves' : List (EntityType × Entity)) (t : EntityType) (i : String) :
    savesOf (saves ++ saves') t i = savesOf saves t i ++ savesOf saves' t i := by
  rw [savesOf, filter_append, map_append]
  rfl

theorem savesOf_singleton {t' : EntityType} {i' : String} (h : e.id = .ok i) :
    savesOf [(t, e)] t' i' = if t = t' ∧ i = i' then [e] else [] := by
  rw [Entity.id_eq_ok] at h
  simp only [savesOf, filter_cons, filter_nil, h, Option.some.injEq, Value.string.injEq,
    decide_eq_true_eq]
  split <;> rfl

/-! ### The merge of the saves -/

def mergeAll (es : List Entity) : Option Entity :=
  es.foldl (fun merged e => Option.merge Entity.merge merged (some e)) none

theorem mergeAll_concat (es : List Entity) (e : Entity) :
    mergeAll (es ++ [e]) = Option.merge Entity.merge (mergeAll es) (some e) := by
  rw [mergeAll, foldl_append]
  rfl

theorem mergeAll_append (es es' : List Entity) :
    mergeAll (es ++ es') = Option.merge Entity.merge (mergeAll es) (mergeAll es') := by
  induction es' using List.reverseRecOn with
  | nil => rw [append_nil, show mergeAll [] = none from rfl, Option.merge_none_right]
  | append_singleton es' e ih =>
    rw [← append_assoc, mergeAll_concat, mergeAll_concat, ih]
    rcases mergeAll es with - | m <;> rcases mergeAll es' with - | m'
    · rfl
    · rfl
    · rfl
    · exact congrArg some (m.merge_assoc m' e)

variable {es : List Entity}

theorem mergeAll_induction {p : Entity → Prop} (hme : ∀ {e e'}, p e → p e' → p (e.merge e'))
    (hes : ∀ e ∈ es, p e) : ∀ m ∈ mergeAll es, p m := by
  induction es using List.reverseRecOn with
  | nil => exact nofun
  | append_singleton es e ih =>
    rw [forall_mem_append, forall_mem_singleton] at hes
    intro m hm
    rw [mergeAll_concat] at hm
    rcases ha : mergeAll es with - | me
    · rw [ha] at hm
      obtain rfl : e = m := Option.some.inj hm
      exact hes.2
    · rw [ha] at hm
      obtain rfl : me.merge e = m := Option.some.inj hm
      exact hme (ih hes.1 me ha) hes.2

theorem mergeAll_eq_none : mergeAll es = none ↔ es = [] := by
  rcases eq_nil_or_concat' es with rfl | ⟨es, e, rfl⟩
  · exact iff_of_true rfl rfl
  · rw [mergeAll_concat]
    simp

theorem lookup_mergeAll (es : List Entity) (a : Attribute) :
    (mergeAll es).bind (fun m => m.lookup a) = (es.filterMap fun e => e.lookup a).getLast? := by
  induction es using List.reverseRecOn with
  | nil => rfl
  | append_singleton es e ih =>
    rw [mergeAll_concat, filterMap_append, List.getLast?_append, ← ih]
    rcases mergeAll es with - | m
    · rcases he : e.lookup a with - | v <;> simp [he]
    · rcases he : e.lookup a with - | v <;> simp [he, Entity.lookup_merge]

theorem id_mergeAll : ∀ m ∈ mergeAll (savesOf saves t i), m.id = .ok i := by
  refine mergeAll_induction ?_ fun e he => (mem_savesOf.1 he).2
  intro e e' he he'
  rw [Entity.id_eq_ok] at he' ⊢
  rw [Entity.lookup_merge, he']
  rfl

theorem exists_of_mergeAll {m : Entity} (h : mergeAll (savesOf saves t i) = some m) :
    ∃ e, (t, e) ∈ saves ∧ e.id = .ok i := by
  rcases hes : savesOf saves t i with - | ⟨e, es⟩
  · rw [hes] at h
    cases h
  · have he : e ∈ savesOf saves t i := by
      rw [hes]
      exact mem_cons_self
    exact ⟨e, mem_savesOf.mp he⟩

theorem shows_of_mergeAll {r : Option Entity} (hn : r = none ↔ mergeAll (savesOf saves t i) = none)
    (hl : ∀ e ∈ r, ∀ m ∈ mergeAll (savesOf saves t i), ∀ a,
      e.lookup a = m.lookup a ∨ m.lookup a = some .null ∧ e.lookup a = none) :
    Shows saves t i r where
  none_iff := hn.trans mergeAll_eq_none
  lookup := by
    rintro e rfl a
    rcases hm : mergeAll (savesOf saves t i) with - | m
    · cases hn.2 hm
    · have hla : lastSaved saves t i a = m.lookup a := by
        rw [lastSaved, ← lookup_mergeAll, hm]
        rfl
      rw [hla]
      exact hl e rfl m hm a

def recorded (indexerId : DeploymentHash) (pending : List (EntityType × Entity)) (key : EntityKey) :
    Option EntityOp :=
  if key.indexerId = indexerId then
    (mergeAll (savesOf pending key.entityType key.entityId)).map .update
  else none

theorem recorded_eq_some {indexerId : DeploymentHash} {pending : List (EntityType × Entity)}
    {key : EntityKey} {op : EntityOp} (h : recorded indexerId pending key = some op) :
    key.indexerId = indexerId ∧
      ∃ u, mergeAll (savesOf pending key.entityType key.entityId) = some u ∧ op = .update u := by
  rw [recorded, Option.ite_none_right_eq_some, Option.map_eq_some_iff] at h
  obtain ⟨hix, u, hu, rfl⟩ := h
  exact ⟨hix, u, hu, rfl⟩

/-! ### What a session keeps -/

structure Tracks (store : IndexerStore) (indexerId : DeploymentHash) (db₀ : Database) (s : Session)
    (flushed pending : List (EntityType × Entity)) (calls : List Call) : Prop where
  store_eq : s.cacheable.store = store
  indexerId_eq : s.cacheable.indexerId = indexerId
  saves_eq : s.saves = flushed ++ pending
  run : Run (History.step store) IndexerStore.Allowed ⟨db₀, []⟩ calls ⟨s.db, calls⟩
  slot : ∀ call ∈ calls, ∃ slot ∈ s.slots, call.blockPtrTo.number = slot.toNat
  keeps : store.KeepsAll calls
  saved : ∀ call ∈ calls, ∀ m ∈ call.mods, ∃ e, (m.entityKey.entityType, e) ∈ flushed ∧
    e.id = .ok m.entityKey.entityId
  content_eq : ∀ t i, content calls t i = (mergeAll (savesOf flushed t i)).map Entity.stored
  agrees : Agrees indexerId (content calls) (store.Tells calls) s.cacheable.entityCache.current
  updates_eq : ∀ key, s.cacheable.entityCache.updates.lookup key = recorded indexerId pending key
  handlerUpdates_eq : s.cacheable.entityCache.handlerUpdates = ∅
  inHandler_eq : s.cacheable.entityCache.inHandler = false

/-- The entity has an id, and its table keeps it. -/
def Kept (store : IndexerStore) (x : EntityType × Entity) : Prop :=
  (∃ i, x.2.id = .ok i) ∧ ∃ table, store.layout.tables.lookup x.1 = some table ∧ table.Fits x.2

theorem Kept.fits {store : IndexerStore} (h : Kept store (t, e)) {ta : Table}
    (ht : store.layout.tables.lookup t = some ta) : ta.Fits e := by
  obtain ⟨-, t', ht', hf⟩ := h
  obtain rfl := Option.some.inj (ht.symm.trans ht')
  exact hf

section

variable {st : IndexerStore} {indexerId : DeploymentHash} {db₀ : Database} {s : Session}
  {flushed pending : List (EntityType × Entity)} {calls : List Call}

namespace Tracks

theorem start (st : IndexerStore) (indexerId : DeploymentHash) (db₀ : Database) :
    Tracks st indexerId db₀ (.start st indexerId db₀) [] [] [] where
  store_eq := rfl
  indexerId_eq := rfl
  saves_eq := rfl
  run := .nil _
  slot _ hc := nomatch hc
  keeps _ hc := nomatch hc
  saved _ hc := nomatch hc
  content_eq _ _ := rfl
  agrees _ _ _ _ hd := nomatch hd
  updates_eq key := by
    exact (ite_self _).symm
  handlerUpdates_eq := rfl
  inHandler_eq := rfl

section

variable (h : Tracks st indexerId db₀ s flushed pending calls)

include h

variable {x : EntityType × Entity}

theorem mem_saves_of_flushed (hx : x ∈ flushed) : x ∈ s.saves := by
  rw [h.saves_eq]
  exact mem_append_left _ hx

theorem mem_saves_of_pending (hx : x ∈ pending) : x ∈ s.saves := by
  rw [h.saves_eq]
  exact mem_append_right _ hx

variable {t : EntityType} {i : String} {e : Entity}

theorem save (hid : e.id = .ok i) :
    Tracks st indexerId db₀
      { s with cacheable := s.cacheable.save t e, saves := s.saves ++ [(t, e)] } flushed
      (pending ++ [(t, e)]) calls := by
  have hs : s.cacheable.save t e = { s.cacheable with
      entityCache := { s.cacheable.entityCache with
        updates := accumulateAt s.cacheable.entityCache.updates ⟨indexerId, t, i⟩ (.update e) } } := by
    rw [CacheableStore.save, hid, ← h.indexerId_eq]
    exact congrArg (fun cache => CacheableStore.mk _ cache _)
      (EntityCache.set_of_not_inHandler h.inHandler_eq _ e)
  rw [hs]
  refine { h with saves_eq := ?_, updates_eq := fun key => ?_ }
  · show s.saves ++ _ = _
    rw [h.saves_eq, append_assoc]
  · show (accumulateAt s.cacheable.entityCache.updates ⟨indexerId, t, i⟩ (.update e)).lookup key = _
    rw [recorded, savesOf_append, savesOf_singleton hid]
    by_cases hk : key = ⟨indexerId, t, i⟩
    · subst hk
      rw [lookup_accumulateAt_self, h.updates_eq, recorded, if_pos rfl, if_pos rfl,
        if_pos ⟨rfl, rfl⟩, mergeAll_concat]
      rcases mergeAll (savesOf pending t i) with - | m <;> rfl
    · rw [lookup_accumulateAt_of_ne _ _ hk, h.updates_eq, recorded]
      by_cases hix : key.indexerId = indexerId
      · have ho : ¬(t = key.entityType ∧ i = key.entityId) := by
          rintro ⟨rfl, rfl⟩
          exact hk (by rw [← hix])
        rw [if_neg ho, append_nil]
      · rw [if_neg hix, if_neg hix]

variable (hempty : db₀.tables = fun _ => .empty)

include hempty

theorem serves : EntityCache.Serves (st.reads s.db) indexerId (content calls) (st.Tells calls) :=
  IndexerStore.serves_of_run hempty h.run h.keeps indexerId

theorem get {x : Option Entity × EntityCache}
    (hx : s.cacheable.entityCache.get (st.reads s.db) ⟨indexerId, t, i⟩ = .ok x) :
    Tracks st indexerId db₀
      { s with cacheable := { s.cacheable with entityCache := x.2 } } flushed pending calls := by
  obtain ⟨-, ha, hc⟩ := EntityCache.get_spec (h.serves hempty) h.agrees h.handlerUpdates_eq hx
  refine { h with agrees := ha, updates_eq := ?_, handlerUpdates_eq := ?_, inHandler_eq := ?_ }
  · show ∀ key, x.2.updates.lookup key = _
    rw [hc]
    exact h.updates_eq
  · show x.2.handlerUpdates = ∅
    rw [hc]
    exact h.handlerUpdates_eq
  · show x.2.inHandler = false
    rw [hc]
    exact h.inHandler_eq

omit hempty

theorem tells (hkept : ∀ x ∈ s.saves, Kept st x) (he : (t, e) ∈ s.saves) (hid : e.id = .ok i) :
    st.Tells calls t i := by
  intro ta hta m hm ht hb
  obtain ⟨call, hc, hm⟩ := mem_flatMap.1 hm
  obtain ⟨e', he', hid'⟩ := h.saved call hc m hm
  rw [ht] at he'
  exact ((hkept _ (h.mem_saves_of_flushed he')).fits hta).id_eq_of_bindId_eq
    ((hkept _ he).fits hta) (st.layout.deployed hta) hid' hid hb

end

end Tracks

/-! ### What a flush writes -/

structure Reconciles (indexerId : DeploymentHash) (calls : List Call)
    (pending : List (EntityType × Entity)) (base : EntityKey → Option Entity)
    (mods : List EntityModification) : Prop where
  base_eq : ∀ {t i u}, mergeAll (savesOf pending t i) = some u →
    (base ⟨indexerId, t, i⟩).map Entity.untyped = content calls t i
  nodup : (mods.map EntityModification.entityKey).Nodup
  mem_iff : ∀ {m}, m ∈ mods ↔ m.entityKey.indexerId = indexerId ∧ ∃ u,
    mergeAll (savesOf pending m.entityKey.entityType m.entityKey.entityId) = some u ∧
      (reconcile m.entityKey (base m.entityKey) (.update u)).1 = some m

namespace Reconciles

variable {indexerId : DeploymentHash} {calls : List Call} {pending : List (EntityType × Entity)}
  {base : EntityKey → Option Entity} {mods : List EntityModification}

section

variable (h : Reconciles indexerId calls pending base mods)

include h

theorem nodup_record : (mods.map record).Nodup := by
  have hre : mods.map record = (mods.map EntityModification.entityKey).map
      fun key => (key.entityType, key.entityId) := by
    rw [map_map]
    rfl
  rw [hre]
  refine h.nodup.map_on ?_
  intro key hk key' hk' heq
  obtain ⟨m, hm, rfl⟩ := mem_map.mp hk
  obtain ⟨m', hm', rfl⟩ := mem_map.mp hk'
  obtain ⟨ht, hi⟩ := Prod.mk.inj heq
  have hix := (h.mem_iff.mp hm).1.trans (h.mem_iff.mp hm').1.symm
  exact (EntityKey.mk.injEq ..).mpr ⟨hix, ht, hi⟩

theorem cases {m : EntityModification} (hm : m ∈ mods) : ∃ base u,
      base.map Entity.untyped = content calls m.entityKey.entityType m.entityKey.entityId ∧
      mergeAll (savesOf pending m.entityKey.entityType m.entityKey.entityId) = some u ∧
      m.data? = some ((base.getD .new).mergeRemoveNullFields u) ∧
      (base = none ∧ m = .insert m.entityKey (Entity.mergeRemoveNullFields .new u) ∨
        base.isSome ∧ ∃ data, m = .overwrite m.entityKey data) := by
  obtain ⟨hix, u, hu, hre⟩ := h.mem_iff.1 hm
  refine ⟨base m.entityKey, u, ?_, hu, reconcile_update_eq_some hre⟩
  rw [← h.base_eq hu, ← hix]

theorem find?_eq (t : EntityType) (i : String) :
    (mods.find? fun m => record m = (t, i)) = (mergeAll (savesOf pending t i)).bind fun u =>
      (reconcile ⟨indexerId, t, i⟩ (base ⟨indexerId, t, i⟩) (.update u)).1 := by
  rcases hf : mods.find? fun m => record m = (t, i) with - | m
  · symm
    rw [Option.eq_none_iff_forall_ne_some]
    intro m hm
    obtain ⟨u, hu, hm⟩ := Option.bind_eq_some_iff.mp hm
    have hk := Massbit.EntityCache.reconcile_entityKey hm
    have hme : m ∈ mods := by
      rw [h.mem_iff, hk]
      exact ⟨rfl, u, hu, hm⟩
    have hn := List.find?_eq_none.mp hf m hme
    rw [record, hk] at hn
    exact hn (decide_eq_true rfl)
  · obtain ⟨hix, u, hu, hre⟩ := h.mem_iff.1 (mem_of_find?_eq_some hf)
    have hrc : record m = (t, i) := by simpa using List.find?_some hf
    cases hrc
    rw [hu, ← hix]
    exact hre.symm

end

end Reconciles

theorem stored_applyTo (flushed : Option Entity) (u : Entity) :
    ((EntityOp.update u).applyTo (flushed.map Entity.stored)).map Entity.stored
      = (Option.merge Entity.merge flushed (some u)).map Entity.stored := by
  rcases flushed with - | m
  · rfl
  · exact congrArg some (m.stored_mergeRemoveNullFields_stored u)

theorem applyOpt_eq_none (flushed pending : Option Entity) :
    EntityOp.applyOpt (pending.map .update) (flushed.map Entity.stored) = none ↔
      Option.merge Entity.merge flushed pending = none := by
  rcases flushed with - | m <;> rcases pending with - | u
  · exact Iff.rfl
  · exact iff_of_false nofun nofun
  · exact iff_of_false nofun nofun
  · exact iff_of_false nofun nofun

theorem lookup_applyOpt {flushed : Option Entity}
    (hp : ∀ m ∈ flushed, m.lookup typenameAttribute = none) (pending : Option Entity) :
    ∀ e ∈ EntityOp.applyOpt (pending.map .update) (flushed.map Entity.stored),
      ∀ m ∈ Option.merge Entity.merge flushed pending, ∀ a,
        e.lookup a = m.lookup a ∨ m.lookup a = some .null ∧ e.lookup a = none := by
  have hs : ∀ m ∈ flushed, ∀ a,
      m.stored.lookup a = m.lookup a ∨ m.lookup a = some .null ∧ m.stored.lookup a = none := by
    intro m hm a
    rw [Entity.lookup_stored]
    by_cases ha : a = typenameAttribute
    · rw [if_pos (.inl ha), ha, hp m hm]
      exact .inl rfl
    · by_cases hnull : m.lookup a = some .null
      · exact .inr ⟨hnull, if_pos (.inr hnull)⟩
      · exact .inl (if_neg (not_or.mpr ⟨ha, hnull⟩))
  intro e he m hm a
  rcases flushed with - | m₀ <;> rcases pending with - | u
  · cases he
  · obtain rfl : u = e := Option.some.inj he
    obtain rfl : u = m := Option.some.inj hm
    exact .inl rfl
  · obtain rfl : m₀.stored = e := Option.some.inj he
    obtain rfl : m₀ = m := Option.some.inj hm
    exact hs m₀ rfl a
  · obtain rfl : m₀.stored.mergeRemoveNullFields u = e := Option.some.inj he
    obtain rfl : m₀.merge u = m := Option.some.inj hm
    rw [Entity.lookup_mergeRemoveNullFields, Entity.lookup_merge]
    rcases u.lookup a with - | v
    · exact hs m₀ rfl a
    · by_cases hnull : v = .null
      · exact .inr ⟨congrArg some hnull, if_pos hnull⟩
      · exact .inl (if_neg hnull)

namespace Tracks

variable (h : Tracks st indexerId db₀ s flushed pending calls)

include h

theorem stored_eq_self {t : EntityType} {i : String} {e : Entity}
    (he : content calls t i = some e) : e.stored = e := by
  rw [h.content_eq] at he
  obtain ⟨m, -, rfl⟩ := Option.map_eq_some_iff.1 he
  exact m.stored_stored

theorem content_mods {base : EntityKey → Option Entity} {mods : List EntityModification}
    (hmods : Reconciles indexerId calls pending base mods) (t : EntityType) (i : String) :
    (mods.find? fun m => record m = (t, i)).elim (content calls t i)
        (fun m => m.data?.map Entity.stored)
      = (mergeAll (savesOf (flushed ++ pending) t i)).map Entity.stored := by
  rw [hmods.find?_eq, savesOf_append, mergeAll_append]
  rcases hu : mergeAll (savesOf pending t i) with - | u
  · rw [Option.merge_none_right]
    exact h.content_eq t i
  · have hs := stored_reconcile (hmods.base_eq hu) (fun e he => h.stored_eq_self he)
      ⟨indexerId, t, i⟩ (.update u)
    rw [Option.bind_some, hs, h.content_eq]
    exact stored_applyTo _ u

section Flush

variable (hkept : ∀ x ∈ s.saves, Kept st x)

include hkept

variable {order : EntityOpOrder}

theorem reconciles (hempty : db₀.tables = fun _ => .empty) {r : ModificationsAndCache}
    (hr : s.cacheable.entityCache.asModifications order (st.reads s.db) = .ok r) :
    ∃ base, Reconciles indexerId calls pending base r.modifications := by
  have hk : ∀ key ∈ s.cacheable.entityCache.updates, key.indexerId = indexerId ∧
      st.Tells calls key.entityType key.entityId := by
    intro key hke
    obtain ⟨op, hop⟩ := Finmap.mem_iff.1 hke
    rw [h.updates_eq] at hop
    obtain ⟨hix, u, hu, -⟩ := recorded_eq_some hop
    obtain ⟨e, he, hid⟩ := exists_of_mergeAll hu
    exact ⟨hix, h.tells hkept (h.mem_saves_of_pending he) hid⟩
  have hl := h.agrees.loaded fun {t i e} he =>
    (Entity.stored_eq_self.1 (h.stored_eq_self he)).2
  obtain ⟨base, hb, hn, hme⟩ := EntityCache.asModifications_spec (h.serves hempty) hl hk hr
  refine ⟨base, ⟨?_, hn, ?_⟩⟩
  · intro t i u hu
    refine hb ⟨indexerId, t, i⟩ (Finmap.mem_iff.2 ⟨.update u, ?_⟩)
    rw [h.updates_eq, recorded, if_pos rfl, hu]
    rfl
  · intro m
    rw [hme]
    constructor
    · rintro ⟨op, hop, hm⟩
      rw [h.updates_eq] at hop
      obtain ⟨hix, u, hu, rfl⟩ := recorded_eq_some hop
      exact ⟨hix, u, hu, hm⟩
    · rintro ⟨hix, u, hu, hm⟩
      refine ⟨.update u, ?_, hm⟩
      rw [h.updates_eq, recorded, if_pos hix, hu]
      rfl

variable {base : EntityKey → Option Entity} {mods : List EntityModification}
  (hms : Reconciles indexerId calls pending base mods)

include hms

theorem keeps_mods (hl : st.lib.Exact) {m : EntityModification} (hm : m ∈ mods) {data : Entity}
    (hd : m.data? = some data) {ta : Table}
    (ht : st.layout.tables.lookup m.entityKey.entityType = some ta) :
    ta.Keeps st.lib data := by
  have hf : ∀ {saves}, (∀ x ∈ saves, x ∈ s.saves) →
      ∀ e ∈ mergeAll (savesOf saves m.entityKey.entityType m.entityKey.entityId), ta.Fits e := by
    intro saves hs
    refine mergeAll_induction Table.Fits.merge fun e he => ?_
    exact (hkept _ (hs _ (mem_savesOf.1 he).1)).fits ht
  obtain ⟨base, u, hb, hu, hw, -⟩ := hms.cases hm
  have hup : ta.Fits u := hf (fun _ => h.mem_saves_of_pending) u hu
  have hc : ta.Fits (base.getD .new) := by
    rcases base with - | e
    · exact fun a v hv => nomatch hv
    · rw [h.content_eq] at hb
      obtain ⟨me, hme, heq⟩ := Option.map_eq_some_iff.1 hb.symm
      exact (hf (fun _ => h.mem_saves_of_flushed) me hme).of_stored heq.symm
  obtain rfl := Option.some.inj (hw.symm.trans hd)
  exact (hc.mergeRemoveNullFields hup).keeps hl (st.layout.deployed ht)

variable {blockSlot : Solana.Slot} {blockHash : String}

omit hkept in
theorem allowed_mods (hs : ∀ slot ∈ s.slots, slot < blockSlot) (hlt : blockSlot.toNat < 2 ^ 31) :
    IndexerStore.Allowed ⟨s.db, calls⟩ ⟨⟨blockHash, Solana.asI32 blockSlot⟩, mods⟩ where
  number_le := by
    show Solana.asI32 blockSlot ≤ 2147483647
    rw [Solana.asI32_of_lt hlt]
    omega
  le_number := by
    intro call hc
    obtain ⟨slot, hsl, hn⟩ := h.slot call hc
    have hle : slot.toNat < blockSlot.toNat := UInt64.lt_iff_toNat_lt.1 (hs slot hsl)
    show call.blockPtrTo.number ≤ Solana.asI32 blockSlot
    rw [hn, Solana.asI32_of_lt hlt]
    omega
  nodup := hms.nodup_record
  keysMatch := by
    intro m hm data hd
    obtain ⟨base, u, -, hu, hw, -⟩ := hms.cases hm
    obtain rfl := Option.some.inj (hw.symm.trans hd)
    have hid := Entity.id_eq_ok.1 (id_mergeAll u hu)
    rw [Entity.id_eq_ok, Entity.lookup_mergeRemoveNullFields, hid]
    rfl
  insert_absent := by
    intro key data hm
    obtain ⟨base, u, hb, -, -, ⟨rfl, -⟩ | ⟨-, data, ho⟩⟩ := hms.cases hm
    · exact Option.map_eq_none_iff.1 hb.symm
    · cases ho

omit hkept hms in
theorem renew {db : Database} {cs' : List Call}
    (hrun : Run (History.step st) IndexerStore.Allowed ⟨db₀, []⟩ cs' ⟨db, cs'⟩)
    (hsl : ∀ call ∈ cs', ∃ slot ∈ s.slots ++ [blockSlot], call.blockPtrTo.number = slot.toNat)
    (hk : st.KeepsAll cs') (hs : ∀ call ∈ cs', ∀ m ∈ call.mods, ∃ e,
      (m.entityKey.entityType, e) ∈ s.saves ∧ e.id = .ok m.entityKey.entityId)
    (hc : ∀ t i, content cs' t i = (mergeAll (savesOf s.saves t i)).map Entity.stored) :
    Tracks st indexerId db₀ { s with
      cacheable := { s.cacheable with entityCache := .new }
      db := db
      slots := s.slots ++ [blockSlot] } s.saves [] cs' where
  store_eq := h.store_eq
  indexerId_eq := h.indexerId_eq
  saves_eq := (append_nil _).symm
  run := hrun
  slot := hsl
  keeps := hk
  saved := hs
  content_eq := hc
  agrees _ _ _ _ hd := nomatch hd
  updates_eq key := by
    exact (ite_self _).symm
  handlerUpdates_eq := rfl
  inHandler_eq := rfl

omit hms in
theorem flush (hempty : db₀.tables = fun _ => .empty) (hl : st.lib.Exact)
    (hok : s.Allowed (.flush order blockHash blockSlot)) {s' : Session}
    (hs : s.step (.flush order blockHash blockSlot) = some s') :
    ∃ calls', Tracks st indexerId db₀ s' s.saves [] calls' := by
  obtain rfl := h.store_eq
  obtain ⟨hss, hlt, r, hr, ht⟩ := hok
  obtain ⟨base, hms⟩ := h.reconciles hkept hempty hr
  have hme := h.content_mods hms
  rw [← h.saves_eq] at hme
  have hsl : ∀ call ∈ calls, ∃ slot ∈ s.slots ++ [blockSlot],
      call.blockPtrTo.number = slot.toNat := by
    intro call hcall
    obtain ⟨slot, hsl, hnumber⟩ := h.slot call hcall
    exact ⟨slot, mem_append_left _ hsl, hnumber⟩
  have hsa : ∀ call ∈ calls, ∀ m ∈ call.mods, ∃ e,
      (m.entityKey.entityType, e) ∈ s.saves ∧ e.id = .ok m.entityKey.entityId := by
    intro call hcall m hm
    obtain ⟨e, he, hid⟩ := h.saved call hcall m hm
    exact ⟨e, h.mem_saves_of_flushed he, hid⟩
  rw [Session.step] at hs
  by_cases hn : r.modifications = []
  · -- nothing is written
    rw [CacheableStore.flush_of_nil hr hn] at hs
    cases hs
    rw [hn] at hme
    exact ⟨calls, h.renew h.run hsl h.keeps hsa hme⟩
  · have hok := ht hn
    rw [CacheableStore.flush_of_ok hr hn hok] at hs
    cases hs
    have hst : History.step s.cacheable.store ⟨s.db, calls⟩
      ⟨⟨blockHash, Solana.asI32 blockSlot⟩, r.modifications⟩ = _ := History.step_of_ok hok
    refine ⟨_, h.renew (h.run.snoc (h.allowed_mods hms hss hlt) hst) ?_ ?_ ?_ ?_⟩
    · rw [forall_mem_append, forall_mem_singleton]
      exact ⟨hsl, blockSlot, by simp, Solana.asI32_of_lt hlt⟩
    · show ∀ call ∈ _, _
      rw [forall_mem_append, forall_mem_singleton]
      exact ⟨h.keeps, fun m hm data hd ta hta =>
        h.keeps_mods hkept hms hl hm hd hta⟩
    · rw [forall_mem_append, forall_mem_singleton]
      refine ⟨hsa, fun m hm => ?_⟩
      obtain ⟨-, u, -, hu, -⟩ := hms.cases hm
      obtain ⟨e, he, hid⟩ := exists_of_mergeAll hu
      exact ⟨e, h.mem_saves_of_pending he, hid⟩
    · intro t i
      rw [IndexerStore.content_concat]
      exact hme t i

end Flush

theorem shows (hp : ∀ x ∈ s.saves, x.2.lookup typenameAttribute = none) (t : EntityType)
    (i : String) :
    Shows s.saves t i
      (EntityOp.applyOpt (recorded indexerId pending ⟨indexerId, t, i⟩) (content calls t i)) := by
  have ha : mergeAll (savesOf s.saves t i) = Option.merge Entity.merge
      (mergeAll (savesOf flushed t i)) (mergeAll (savesOf pending t i)) := by
    rw [h.saves_eq, savesOf_append, mergeAll_append]
  have hm : ∀ m ∈ mergeAll (savesOf flushed t i), m.lookup typenameAttribute = none := by
    refine mergeAll_induction ?_ fun e he => ?_
    · intro e e' he he'
      rw [Entity.lookup_merge, he']
      exact he
    · exact hp (t, e) (h.mem_saves_of_flushed (mem_savesOf.1 he).1)
  rw [recorded, if_pos rfl, h.content_eq]
  apply shows_of_mergeAll
  · rw [ha]
    exact applyOpt_eq_none _ _
  · rw [ha]
    exact lookup_applyOpt hm _

end Tracks

end

/-! ### Whole sessions -/

section Run

variable {store : IndexerStore} {indexerId : DeploymentHash} {db₀ : Database}

theorem CacheableStore.store_save (self : CacheableStore) (t : EntityType) (e : Entity) :
    (self.save t e).store = self.store := by
  unfold save
  split <;> rfl

theorem CacheableStore.store_flush {self self' : CacheableStore}
    {order : EntityOpOrder} {db db' : Database} {blockHash : String}
    {blockSlot : Solana.Slot} (h : self.flush order db blockHash blockSlot = some (self', db')) :
    self'.store = self.store := by
  revert h
  fun_cases flush order self db blockHash blockSlot
  case case1 | case5 => nofun
  all_goals exact fun h => (Prod.mk.inj (Option.some.inj h)).1 ▸ rfl

theorem Session.store_step {s s' : Session} {op : Op} (hs : s.step op = some s') :
    s'.cacheable.store = s.cacheable.store := by
  cases op with
  | save t e =>
    cases hs
    exact s.cacheable.store_save t e
  | get t i =>
    obtain ⟨x, hx, rfl⟩ := Option.map_eq_some_iff.1 hs
    obtain ⟨y, -, rfl⟩ := Option.map_eq_some_iff.1 hx
    rfl
  | flush order blockHash blockSlot =>
    obtain ⟨x, hx, rfl⟩ := Option.map_eq_some_iff.1 hs
    exact CacheableStore.store_flush hx

variable {ops : List Op} {s : Session}
  (hrun : Run Session.step Session.Allowed (.start store indexerId db₀) ops s)

include hrun

theorem saved_of_run : s.cacheable.store = store ∧ ∀ x ∈ s.saves, Session.Saved store x := by
  refine hrun.invariant (I := fun _ s => s.cacheable.store = store ∧
    ∀ x ∈ s.saves, Session.Saved store x) ⟨rfl, nofun⟩ ?_
  rintro _ s op s' ⟨rfl, hsa⟩ hok hs
  refine ⟨Session.store_step hs, ?_⟩
  cases op with
  | save t e =>
    cases hs
    rw [forall_mem_append, forall_mem_singleton]
    exact ⟨hsa, hok⟩
  | get t i =>
    obtain ⟨x, -, rfl⟩ := Option.map_eq_some_iff.1 hs
    exact hsa
  | flush order blockHash blockSlot =>
    obtain ⟨x, -, rfl⟩ := Option.map_eq_some_iff.1 hs
    exact hsa

theorem tracks_of_run (hl : store.lib.Exact) (hempty : db₀.tables = fun _ => .empty)
    (hkept : ∀ x ∈ s.saves, Kept store x) :
    ∃ flushed pending calls, Tracks store indexerId db₀ s flushed pending calls := by
  refine hrun.invariant (I := fun _ s => (∀ x ∈ s.saves, Kept store x) →
    ∃ flushed pending calls, Tracks store indexerId db₀ s flushed pending calls)
    (fun _ => ⟨[], [], [], .start store indexerId db₀⟩) ?_ hkept
  intro _ s op s' ih hok hs hkept
  cases op with
  | save t e =>
    cases hs
    rw [forall_mem_append, forall_mem_singleton] at hkept
    obtain ⟨flushed, pending, calls, h⟩ := ih hkept.1
    obtain ⟨⟨i, hid⟩, -⟩ := hkept.2
    exact ⟨flushed, _, calls, h.save hid⟩
  | get t i =>
    obtain ⟨x, hx, rfl⟩ := Option.map_eq_some_iff.1 hs
    obtain ⟨flushed, pending, calls, h⟩ := ih hkept
    obtain rfl := h.store_eq
    obtain rfl := h.indexerId_eq
    obtain ⟨r, hr⟩ := hok
    have hre : (s.cacheable.store.reads s.db).get ⟨s.cacheable.indexerId, t, i⟩ = .ok r := hr
    obtain ⟨y, hy⟩ := s.cacheable.entityCache.exists_get hre
    rw [CacheableStore.get_of_ok hy hr] at hx
    cases hx
    exact ⟨flushed, pending, calls, h.get hempty hy⟩
  | flush order blockHash blockSlot =>
    have hsa : s'.saves = s.saves := by
      obtain ⟨x, -, rfl⟩ := Option.map_eq_some_iff.1 hs
      rfl
    rw [hsa] at hkept
    obtain ⟨flushed, pending, calls, h⟩ := ih hkept
    obtain ⟨cs', h'⟩ := h.flush hkept hempty hl hok hs
    exact ⟨s.saves, [], cs', h'⟩

/-- **Whatever blocks the saves were made in, `get` shows their merge**, if all ids that are bytes
were saved as lower-case digits without a prefix, and the id is not another text of one that was
saved. -/
theorem get_shows_saves (hlib : store.lib.Exact) (hempty : db₀.tables = fun _ => .empty)
    (hcanonical : ∀ x ∈ s.saves, ∀ table, store.layout.tables.lookup x.1 = some table →
      table.IsCanonical x.2) (hplain : ∀ x ∈ s.saves, x.2.lookup typenameAttribute = none)
    {t : EntityType} {i : String} (halias : ∀ x ∈ s.saves, x.1 = t → ∀ j, x.2.id = .ok j → ∀ table,
      store.layout.tables.lookup t = some table → table.bindId j = table.bindId i → j = i)
    (hok : s.Allowed (.get t i)) :
    ∃ r cacheable, s.cacheable.get s.db t i = some (r, cacheable) ∧ Shows s.saves t i r := by
  obtain ⟨-, hs⟩ := saved_of_run hrun
  have hkept : ∀ x ∈ s.saves, Kept store x := by
    intro x hx
    obtain ⟨hid, table, hta, hty⟩ := hs x hx
    exact ⟨hid, table, hta, hty.fits (hcanonical x hx table hta)⟩
  obtain ⟨flushed, pending, calls, h⟩ := tracks_of_run hrun hlib hempty hkept
  obtain rfl := h.store_eq
  obtain rfl := h.indexerId_eq
  obtain ⟨r, hr⟩ := hok
  have hre : (s.cacheable.store.reads s.db).get ⟨s.cacheable.indexerId, t, i⟩ = .ok r := hr
  obtain ⟨x, hx⟩ := s.cacheable.entityCache.exists_get hre
  have hte : s.cacheable.store.Tells calls t i := by
    intro table hta m hm ht hb
    obtain ⟨call, hc, hm⟩ := mem_flatMap.1 hm
    obtain ⟨e, he, hid⟩ := h.saved call hc m hm
    exact halias (_, e) (h.mem_saves_of_flushed he) ht _ hid table hta hb
  refine ⟨_, _, CacheableStore.get_of_ok hx hr, ?_⟩
  rw [(EntityCache.get_spec (h.serves hempty) h.agrees h.handlerUpdates_eq hx).1 hte, h.updates_eq]
  exact h.shows hplain t i

end Run

section Examples

open IndexerStore (storeOf emptyDatabase)

noncomputable def transferStore (id : String) : IndexerStore :=
  storeOf exactLibraries transferLayout transferColumns
    [⟨"Transfer", [(transferKey id, (transfer id).removeNullFields)]⟩]

noncomputable def transferRecords (id : String) : EntityOpOrder :=
  .prefer [⟨transferKey id, .update (transfer id)⟩]

noncomputable def transferOps (id : String) : List Op :=
  [.save "Transfer" (transfer id), .flush (transferRecords id) "A" 5]

noncomputable def transferSaved (id : String) : Session where
  cacheable := (CacheableStore.new (transferStore id) "QmIndexer").save "Transfer" (transfer id)
  db := emptyDatabase
  saves := [("Transfer", transfer id)]
  slots := []

noncomputable def transferFlushed (id : String) : Session :=
  ((transferSaved id).step (.flush (transferRecords id) "A" 5)).getD (transferSaved id)

theorem run_transferOps {id : String} {bs : Bytes} (hb : Bytes.fromStr id = .ok bs)
    (hok : (((transferSaved id).cacheable.entityCache.asModifications (transferRecords id)
      ((transferSaved id).cacheable.store.reads (transferSaved id).db)).value?.bind fun r =>
        ((transferSaved id).cacheable.store.transactBlockOperations (transferSaved id).db
          ⟨"A", Solana.asI32 5⟩ r.modifications).1.value?) = some ()) :
    Run Session.step Session.Allowed (.start (transferStore id) "QmIndexer" emptyDatabase)
        (transferOps id) (transferFlushed id) ∧
      (transferFlushed id).saves = [("Transfer", transfer id)] := by
  obtain ⟨r, hr, hok⟩ := Option.bind_eq_some_iff.1 hok
  replace hr := value?_eq_some.1 hr
  replace hok := value?_eq_some.1 hok
  have hsa : Session.Allowed (.start (transferStore id) "QmIndexer" emptyDatabase)
      (.save "Transfer" (transfer id)) :=
    ⟨⟨id, rfl⟩, transferTable, Finmap.lookup_insert _, wellTyped_transfer bs hb⟩
  have hfl : (transferSaved id).Allowed (.flush (transferRecords id) "A" 5) :=
    ⟨fun _ hsl => (not_mem_nil hsl).elim, by decide, r, hr, fun _ => hok⟩
  obtain ⟨x, hx⟩ : ∃ x, (transferSaved id).cacheable.flush (transferRecords id)
      (transferSaved id).db "A" 5 = some x := by
    by_cases hn : r.modifications = []
    · exact ⟨_, CacheableStore.flush_of_nil hr hn⟩
    · exact ⟨_, CacheableStore.flush_of_ok hr hn hok⟩
  have hs : (transferSaved id).step (.flush (transferRecords id) "A" 5)
      = some { transferSaved id with cacheable := x.1, db := x.2, slots := [5] } := by
    rw [Session.step, hx]
    rfl
  have hf : transferFlushed id
      = { transferSaved id with cacheable := x.1, db := x.2, slots := [5] } := by
    rw [transferFlushed, hs]
    rfl
  rw [hf]
  exact ⟨((Run.nil _).snoc hsa rfl).snoc hfl hs, rfl⟩

theorem get_shows_transfer :
    Run Session.step Session.Allowed (.start (transferStore "dead") "QmIndexer" emptyDatabase)
        (transferOps "dead") (transferFlushed "dead") ∧
      (transferFlushed "dead").saves = [("Transfer", transfer "dead")] ∧
      ∃ r cacheable, (transferFlushed "dead").cacheable.get (transferFlushed "dead").db "Transfer"
          "dead" = some (r, cacheable) ∧
        Shows (transferFlushed "dead").saves "Transfer" "dead" r := by
  have hb : Bytes.fromStr "dead" = .ok [222, 173] := by decide
  obtain ⟨hrun, hs⟩ := run_transferOps hb (by decide +kernel)
  have hre : ((transferFlushed "dead").cacheable.store.get (transferFlushed "dead").db
      ⟨(transferFlushed "dead").cacheable.indexerId, "Transfer", "dead"⟩).value?.isSome := by
    decide +kernel
  obtain ⟨r, hr⟩ := Option.isSome_iff_exists.1 hre
  have hm : ∀ x ∈ (transferFlushed "dead").saves, x = ("Transfer", transfer "dead") := by
    exact fun x hx => mem_singleton.1 hx
  refine ⟨hrun, hs, get_shows_saves hrun exact_exactLibraries rfl ?_ ?_ ?_
    ⟨r, value?_eq_some.1 hr⟩⟩
  · intro x hx table ht
    obtain rfl := hm x hx
    obtain rfl : transferTable = table := Option.some.inj ((Finmap.lookup_insert _).symm.trans ht)
    exact isCanonical_transfer [222, 173] (by decide)
  · intro x hx
    obtain rfl := hm x hx
    decide
  · intro x hx _ j hj _ _ _
    obtain rfl := hm x hx
    exact (Except.ok.inj hj).symm

theorem prefixed_transfer_reread :
    Run Session.step Session.Allowed (.start (transferStore "0xdead") "QmIndexer" emptyDatabase)
        (transferOps "0xdead") (transferFlushed "0xdead") ∧
      (transferFlushed "0xdead").saves = [("Transfer", transfer "0xdead")] ∧
      ∃ r cacheable, (transferFlushed "0xdead").cacheable.get (transferFlushed "0xdead").db "Transfer"
          "0xdead" = some (r, cacheable) ∧ r = some (transfer "dead") ∧
        ¬Shows (transferFlushed "0xdead").saves "Transfer" "0xdead" r := by
  have hb : Bytes.fromStr "0xdead" = .ok [222, 173] := by decide
  obtain ⟨hrun, hs⟩ := run_transferOps hb (by decide +kernel)
  have hg : ((transferFlushed "0xdead").cacheable.get (transferFlushed "0xdead").db "Transfer"
      "0xdead").map Prod.fst = some (some (transfer "dead")) := by decide +kernel
  obtain ⟨⟨r, cacheable⟩, hx, rfl⟩ := Option.map_eq_some_iff.1 hg
  refine ⟨hrun, hs, _, cacheable, hx, rfl, fun hsh => ?_⟩
  rcases hsh.lookup _ rfl "id" with hid | ⟨hn, -⟩
  · exact absurd hid (by decide)
  · exact absurd hn (by decide)

end Examples

end Massbit.IndexerApi
