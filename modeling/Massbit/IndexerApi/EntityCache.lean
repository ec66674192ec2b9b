/-
The entity cache of the indexer API (`store/entity_cache.rs`).
-/
import Massbit.Cache.Modifications

open Finmap List

namespace Massbit

namespace IndexerApi

open Std (TreeMap)
open EntityCache (IdsByIndexer pushId Requested requested_foldl_pushId reconcile
  nodup_filterMap_reconcile mem_filterMap_reconcile)

structure StoreReads where
  get : EntityKey → Outcome QueryExecutionError (Option Entity)
  getMany : TreeMap EntityType (List String) → Outcome StoreError (TreeMap EntityType (List Entity))

/-- A cache for entities from the store that tracks how entities are modified. -/
structure EntityCache where
  current : HashMap EntityKey (Option Entity)
  updates : HashMap EntityKey EntityOp
  handlerUpdates : HashMap EntityKey EntityOp
  inHandler : Bool

structure ModificationsAndCache where
  modifications : List EntityModification
  entityLfuCache : HashMap EntityKey (Option Entity)

namespace EntityCache

def new : EntityCache := { current := ∅, updates := ∅, handlerUpdates := ∅, inHandler := false }

def entityOp (self : EntityCache) (key : EntityKey) (op : EntityOp) : EntityCache :=
  match self.inHandler with
  | true => { self with handlerUpdates := accumulateAt self.handlerUpdates key op }
  | false => { self with updates := accumulateAt self.updates key op }

def set (self : EntityCache) (key : EntityKey) (entity : Entity) : EntityCache :=
  self.entityOp key (.update entity)

def getCurrentEntity (self : EntityCache) (store : StoreReads) (key : EntityKey) :
    Outcome QueryExecutionError (Option Entity × EntityCache) :=
  match self.current.lookup key with
  | none => do
    let entity ← store.get key
    -- `__typename` is for queries not for mappings
    let entity := entity.map Entity.untyped
    return (entity, { self with current := self.current.insert key entity })
  | some data => .ok (data, self)

def get (self : EntityCache) (store : StoreReads) (key : EntityKey) :
    Outcome QueryExecutionError (Option Entity × EntityCache) := do
  let (entity, self) ← self.getCurrentEntity store key
  let entity := EntityOp.applyOpt (self.updates.lookup key) entity
  return (EntityOp.applyOpt (self.handlerUpdates.lookup key) entity, self)

def missingByIndexer (current : HashMap EntityKey (Option Entity)) (keys : List EntityKey) :
    IdsByIndexer :=
  (keys.filter fun key => key ∉ current).foldl pushId ∅

def cacheEntity (indexerId : DeploymentHash) (entityType : EntityType)
    (current : HashMap EntityKey (Option Entity)) (entity : Entity) :
    Outcome QueryExecutionError (HashMap EntityKey (Option Entity)) :=
  match entity.id with
  | .error _ => .panic
  | .ok entityId => .ok (current.insert ⟨indexerId, entityType, entityId⟩ (some entity))

def loadIndexer (store : StoreReads) (current : HashMap EntityKey (Option Entity))
    (missing : DeploymentHash × TreeMap EntityType (List String)) :
    Outcome QueryExecutionError (HashMap EntityKey (Option Entity)) := do
  let found ← (store.getMany missing.2).mapErr .storeError
  found.toList.foldlM (fun current x => x.2.foldlM (cacheEntity missing.1 x.1) current) current

def asModification (s : HashMap EntityKey (Option Entity) × List EntityModification)
    (x : Σ _ : EntityKey, EntityOp) :
    HashMap EntityKey (Option Entity) × List EntityModification :=
  let decision := reconcile x.1 (s.1.lookup x.1).join x.2
  let current := s.1.erase x.1
  (decision.2.elim current fun data => current.insert x.1 data, s.2 ++ decision.1.toList)

def asModifications (order : EntityOpOrder) (self : EntityCache)
    (store : StoreReads) : Outcome QueryExecutionError ModificationsAndCache :=
  if self.inHandler then .panic
  else do
    let records := order.toList self.updates
    let missing := missingByIndexer self.current (records.map Sigma.fst)
    let current ← missing.toList.foldlM (loadIndexer store) self.current
    let (current, mods) := records.foldl asModification (current, [])
    return { modifications := mods, entityLfuCache := current }

variable {self : EntityCache}

theorem set_of_not_inHandler (h : self.inHandler = false) (key : EntityKey) (en : Entity) :
    self.set key en
      = { self with updates := accumulateAt self.updates key (.update en) } := by
  obtain ⟨current, updates, hu, ih⟩ := self
  obtain rfl : ih = false := h
  rfl

/-- The reads of an indexer's entities return the content, for the ids that `P` holds for. -/
structure Serves (store : StoreReads) (indexerId : DeploymentHash)
    (content : EntityType → String → Option Entity) (P : EntityType → String → Prop) : Prop where
  get : ∀ {t i r}, P t i → store.get ⟨indexerId, t, i⟩ = .ok r → r.map Entity.untyped = content t i
  sound : ∀ {ids r t es e}, (∀ {t is i}, ids[t]? = some is → i ∈ is → P t i) →
    store.getMany ids = .ok r → r[t]? = some es → e ∈ es →
      ∃ i, P t i ∧ e.id = .ok i ∧ content t i = some e.untyped
  complete : ∀ {ids r t is i c}, (∀ {t is i}, ids[t]? = some is → i ∈ is → P t i) →
    store.getMany ids = .ok r → ids[t]? = some is → i ∈ is → content t i = some c →
      ∃ es e, r[t]? = some es ∧ e ∈ es ∧ e.id = .ok i

section

variable {s : StoreReads} {indexerId : DeploymentHash}
  {content : EntityType → String → Option Entity} {P : EntityType → String → Prop}

variable (indexerId content P) in
/-- What is cached is what the store has. -/
def Agrees (current : HashMap EntityKey (Option Entity)) : Prop :=
  ∀ t i data, P t i → current.lookup ⟨indexerId, t, i⟩ = some data → data = content t i

variable (indexerId content P) in
def Loaded (current : HashMap EntityKey (Option Entity)) : Prop :=
  ∀ t i data, P t i → current.lookup ⟨indexerId, t, i⟩ = some data →
    data.map Entity.untyped = content t i

theorem Agrees.loaded {current : HashMap EntityKey (Option Entity)}
    (h : Agrees indexerId content P current)
    (hu : ∀ {t i e}, content t i = some e → e.untyped = e) :
    Loaded indexerId content P current := by
  intro t i data hP hd
  obtain rfl := h t i data hP hd
  rcases e : content t i with - | en
  · rfl
  · exact congrArg some (hu e)

variable {t : EntityType} {key : EntityKey} {i : String}

theorem get_spec (hs : Serves s indexerId content P) {self : EntityCache}
    (ha : Agrees indexerId content P self.current) (hh : self.handlerUpdates = ∅)
    {x : Option Entity × EntityCache} (h : self.get s ⟨indexerId, t, i⟩ = .ok x) :
    (P t i → x.1 = EntityOp.applyOpt (self.updates.lookup ⟨indexerId, t, i⟩) (content t i)) ∧
      Agrees indexerId content P x.2.current ∧ x.2 = { self with current := x.2.current } := by
  obtain ⟨⟨en, c⟩, hc, rfl⟩ := bind_pure_eq_ok.1 h
  have hcc : (P t i → en = content t i) ∧ Agrees indexerId content P c.current ∧
      c = { self with current := c.current } := by
    unfold getCurrentEntity at hc
    split at hc
    next hn =>
      obtain ⟨r, hr, hc⟩ := bind_eq_ok.1 hc
      cases hc
      refine ⟨fun hP => hs.get hP hr, ?_, rfl⟩
      intro t' i' data hP' hd
      by_cases hk : (⟨indexerId, t', i'⟩ : EntityKey) = ⟨indexerId, t, i⟩
      · rw [hk, lookup_insert] at hd
        obtain ⟨-, rfl, rfl⟩ := EntityKey.mk.inj hk
        rw [← Option.some.inj hd]
        exact hs.get hP' hr
      · rw [lookup_insert_of_ne _ hk] at hd
        exact ha t' i' data hP' hd
    next data hso =>
      obtain ⟨rfl, rfl⟩ := Prod.mk.inj (Outcome.ok.inj hc)
      exact ⟨fun hP => ha t i data hP hso, ha, rfl⟩
  obtain ⟨he, hag, hca⟩ := hcc
  refine ⟨fun hP => ?_, hag, hca⟩
  rw [← he hP]
  rw [hca, hh]
  rfl

theorem exists_get (self : EntityCache) {r : Option Entity} (h : s.get key = .ok r) :
    ∃ x, self.get s key = .ok x := by
  unfold get getCurrentEntity
  rw [h]
  rcases self.current.lookup key with - | data
  · exact ⟨_, rfl⟩
  · exact ⟨_, rfl⟩

theorem requested_missingByIndexer (current : HashMap EntityKey (Option Entity))
    (keys : List EntityKey) (key : EntityKey) :
    Requested (missingByIndexer current keys) key ↔ key ∈ keys ∧ key ∉ current := by
  rw [missingByIndexer, requested_foldl_pushId, mem_filter]
  simp

section

variable {ix : DeploymentHash} {current current' : HashMap EntityKey (Option Entity)} {e : Entity}
  (h : cacheEntity ix t current e = .ok current')

include h

theorem cacheEntity_eq_ok :
    ∃ i, e.id = .ok i ∧ current' = Finmap.insert (β := fun _ => Option Entity)
      (⟨ix, t, i⟩ : EntityKey) (some e) current := by
  unfold cacheEntity at h
  split at h
  next => cases h
  next i hi => exact ⟨i, hi, (Outcome.ok.inj h).symm⟩

theorem mem_of_cacheEntity (hk : key ∈ current) : key ∈ current' := by
  obtain ⟨i, -, rfl⟩ := cacheEntity_eq_ok h
  exact mem_insert.2 (.inr hk)

end

theorem mem_of_loadIndexer {current current' : HashMap EntityKey (Option Entity)}
    {missing : DeploymentHash × TreeMap EntityType (List String)}
    (h : loadIndexer s current missing = .ok current') (hk : key ∈ current) :
    key ∈ current' := by
  obtain ⟨f, -, h⟩ := bind_eq_ok.1 h
  refine foldlM_invariant h (I := fun _ current => key ∈ current) hk ?_
  intro _ x current current' _ hk hx
  refine foldlM_invariant hx (I := fun _ current => key ∈ current) hk ?_
  intro _ e current current' _ hk he
  exact mem_of_cacheEntity he hk

variable (hs : Serves s indexerId content P)
  {m : DeploymentHash × TreeMap EntityType (List String)}
  (hm : ∀ {t is i}, m.2[t]? = some is → i ∈ is → P t i)
  {cu current' : HashMap EntityKey (Option Entity)}
  (h : loadIndexer s cu m = .ok current')

include hs hm h

theorem Loaded.loadIndexer (hloaded : Loaded indexerId content P cu) :
    Loaded indexerId content P current' := by
  obtain ⟨f, hf, h⟩ := bind_eq_ok.mp h
  rw [mapErr_eq_ok] at hf
  refine foldlM_invariant h (I := fun _ cu => Loaded indexerId content P cu)
    hloaded ?_
  intro _ x cu current' hx hloaded hl
  have hx : x ∈ f.toList := hx x (by simp)
  refine foldlM_invariant hl (I := fun _ cu => Loaded indexerId content P cu)
    hloaded ?_
  intro _ e cu current' he hloaded hc
  obtain ⟨i, hi, rfl⟩ := cacheEntity_eq_ok hc
  obtain ⟨i', -, hi', hco⟩ := hs.sound hm hf
    (TreeMap.mem_toList_iff_getElem?_eq_some.mp hx) (he e (by simp))
  obtain rfl := Except.ok.inj (hi.symm.trans hi')
  intro t₁ i₁ data hP hd
  by_cases hk : (⟨indexerId, t₁, i₁⟩ : EntityKey) = ⟨m.1, x.1, i⟩
  · rw [hk, lookup_insert] at hd
    obtain ⟨-, rfl, rfl⟩ := EntityKey.mk.inj hk
    rw [← Option.some.inj hd, hco]
    rfl
  · rw [lookup_insert_of_ne _ hk] at hd
    exact hloaded t₁ i₁ data hP hd

theorem mem_loadIndexer {is : List String} {c : Entity} (his : m.2[t]? = some is) (hi : i ∈ is)
    (hco : content t i = some c) :
    ⟨m.1, t, i⟩ ∈ current' := by
  obtain ⟨f, hf, h⟩ := bind_eq_ok.1 h
  rw [mapErr_eq_ok] at hf
  obtain ⟨es, e, hes, he, hid⟩ := hs.complete hm hf his hi hco
  apply Outcome.foldlM_of_mem (TreeMap.mem_toList_iff_getElem?_eq_some.2 hes) h
  · intro cu current' hl
    apply Outcome.foldlM_of_mem he hl
    · intro cu current' hc
      obtain ⟨i', hid', rfl⟩ := cacheEntity_eq_ok hc
      obtain rfl := Except.ok.inj (hid.symm.trans hid')
      exact mem_insert.mpr (.inl rfl)
    · exact fun _ _ _ _ hk hc => mem_of_cacheEntity hc hk
  · intro x _ cu current' hk hl
    refine foldlM_invariant hl (I := fun _ (cu : HashMap EntityKey (Option Entity)) =>
        (⟨m.1, t, i⟩ : EntityKey) ∈ cu) hk ?_
    intro _ e cu current' _ hk hc
    exact mem_of_cacheEntity hc hk

end

section

variable {store : StoreReads} {ii : DeploymentHash}
  {co : EntityType → String → Option Entity} {P : EntityType → String → Prop}
  (hs : Serves store ii co P) {cu current' : HashMap EntityKey (Option Entity)}
  (hloaded : Loaded ii co P cu) {keys : List EntityKey}
  (hkeys : ∀ key ∈ keys, key.indexerId = ii ∧ P key.entityType key.entityId)
  (h : (missingByIndexer cu keys).toList.foldlM (loadIndexer store) cu = .ok current')

include hs hloaded hkeys h

theorem loaded_of_loadMissing : Loaded ii co P current' ∧
    ∀ key ∈ keys, ∀ c, co key.entityType key.entityId = some c → key ∈ current' := by
  -- what is asked for are the ids of keys
  have hP : ∀ x ∈ (missingByIndexer cu keys).toList, ∀ {t is i},
      x.2[t]? = some is → i ∈ is → P t i := by
    intro x hx t is i his hi
    have hk := (requested_missingByIndexer cu keys ⟨x.1, t, i⟩).1
      ⟨x.2, is, TreeMap.mem_toList_iff_getElem?_eq_some.1 hx, his, hi⟩
    exact (hkeys _ hk.1).2
  constructor
  · refine foldlM_invariant h (I := fun _ cu => Loaded ii co P cu) hloaded ?_
    intro _ x cu current' hx hI hl
    exact hI.loadIndexer hs (hP x (hx x (by simp))) hl
  · intro key hk c hc
    by_cases hca : key ∈ cu
    · refine foldlM_invariant h
        (I := fun _ (cu : HashMap EntityKey (Option Entity)) => key ∈ cu) hca ?_
      exact fun _ hI hl => mem_of_loadIndexer hl hI
    · obtain ⟨bt, is, hby, his, hi⟩ :=
        (requested_missingByIndexer cu keys key).2 ⟨hk, hca⟩
      have hx := TreeMap.mem_toList_iff_getElem?_eq_some.2 hby
      apply Outcome.foldlM_of_mem hx h
      · exact fun hl => mem_loadIndexer hs (hP _ hx) hl his hi hc
      · exact fun _ _ _ _ hI hl => mem_of_loadIndexer hl hI

theorem untyped_of_loadMissing {key : EntityKey} (hk : key ∈ keys) :
    (current'.lookup key).join.map Entity.untyped = co key.entityType key.entityId := by
  obtain ⟨ha, hal⟩ := loaded_of_loadMissing hs hloaded hkeys h
  obtain ⟨hix, hP⟩ := hkeys key hk
  rcases e : current'.lookup key with - | data
  · rcases hc : co key.entityType key.entityId with - | c
    · rfl
    · obtain ⟨data, hdata⟩ := mem_iff.mp (hal key hk c hc)
      rw [e] at hdata
      cases hdata
  · refine ha _ _ data hP ?_
    rw [← hix]
    exact e

end

theorem lookup_asModification (s : HashMap EntityKey (Option Entity) × List EntityModification)
    (x : Σ _ : EntityKey, EntityOp) {key : EntityKey} (hne : key ≠ x.1) :
    (asModification s x).1.lookup key = s.1.lookup key := by
  show Finmap.lookup key ((reconcile x.1 (s.1.lookup x.1).join x.2).2.elim _ _) = _
  rcases (reconcile x.1 (s.1.lookup x.1).join x.2).2 with - | data
  · exact lookup_erase_ne hne
  · exact (lookup_insert_of_ne _ hne).trans (lookup_erase_ne hne)

theorem foldl_asModification : ∀ {rs : EntityOps},
    rs.NodupKeys → ∀ s : HashMap EntityKey (Option Entity) × List EntityModification,
      (rs.foldl asModification s).2 = s.2 ++
        rs.filterMap fun x => (reconcile x.1 (s.1.lookup x.1).join x.2).1
  | [], _, s => by simp
  | x :: rs, hn, s => by
    rw [nodupKeys_cons] at hn
    -- a later record has another key, and meets what it would have met before
    have hl : ∀ y ∈ rs, (asModification s x).1.lookup y.1 = s.1.lookup y.1 := fun y hy =>
      lookup_asModification s x fun heq => hn.1 (heq ▸ mem_keys_of_mem hy)
    have hc : rs.filterMap (fun y => (reconcile y.1 ((asModification s x).1.lookup y.1).join y.2).1)
        = rs.filterMap (fun y => (reconcile y.1 (s.1.lookup y.1).join y.2).1) :=
      filterMap_congr fun y hy => by rw [hl y hy]
    rw [foldl_cons, foldl_asModification hn.2, hc, filterMap_cons]
    show s.2 ++ (reconcile x.1 (s.1.lookup x.1).join x.2).1.toList ++ _ = _
    rw [append_assoc]
    rcases (reconcile x.1 (s.1.lookup x.1).join x.2).1 with - | m <;> rfl

theorem asModifications_spec {store : StoreReads} {indexerId : DeploymentHash}
    {content : EntityType → String → Option Entity} {P : EntityType → String → Prop}
    (hs : Serves store indexerId content P) (hloaded : Loaded indexerId content P self.current)
    (hkeys : ∀ key ∈ self.updates, key.indexerId = indexerId ∧ P key.entityType key.entityId)
    {o : EntityOpOrder} {r : ModificationsAndCache} (h : self.asModifications o store = .ok r) :
    ∃ base : EntityKey → Option Entity,
      (∀ key ∈ self.updates, (base key).map Entity.untyped = content key.entityType key.entityId) ∧
      (r.modifications.map EntityModification.entityKey).Nodup ∧
      ∀ {m}, m ∈ r.modifications ↔ ∃ op, self.updates.lookup m.entityKey = some op ∧
        (reconcile m.entityKey (base m.entityKey) op).1 = some m := by
  unfold asModifications at h
  split at h
  next => cases h
  next =>
    obtain ⟨current, hc, rfl⟩ := bind_pure_eq_ok.1 h
    have he := o.enumerates self.updates
    have hme : ∀ {key}, key ∈ (o.toList self.updates).map Sigma.fst ↔ key ∈ self.updates := by
      intro key
      rw [mem_iff, mem_map]
      constructor
      · rintro ⟨⟨key, op⟩, hx, rfl⟩
        exact ⟨op, he.mem_iff.mp hx⟩
      · rintro ⟨op, hop⟩
        exact ⟨⟨key, op⟩, he.mem_iff.mpr hop, rfl⟩
    have hm := foldl_asModification he.nodupKeys (current, [])
    refine ⟨fun key => (current.lookup key).join, ?_, ?_, ?_⟩
    · intro key hkey
      exact untyped_of_loadMissing hs hloaded (fun key hkey => hkeys key (hme.mp hkey)) hc
        (hme.mpr hkey)
    · rw [hm]
      exact nodup_filterMap_reconcile he fun key => (current.lookup key).join
    · intro m
      rw [hm]
      exact mem_filterMap_reconcile he fun key => (current.lookup key).join

end EntityCache

end IndexerApi

end Massbit
