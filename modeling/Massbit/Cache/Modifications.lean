/-
`EntityCache::as_modifications`.
-/
import Massbit.Cache.EntityCache
import Massbit.Lib.Outcome

open List

namespace Massbit

open Std (TreeMap)

/-- The modifications of a block, its data sources, and the cache for the next one. -/
structure ModificationsAndCache where
  modifications : List EntityModification
  dataSources : List StoredDynamicDataSource
  entityLfuCache : EntityLfuCache

namespace EntityCache

abbrev IdsByIndexer := TreeMap DeploymentHash (TreeMap EntityType (List String))

def pushId (missing : IdsByIndexer) (key : EntityKey) : IdsByIndexer :=
  missing.alter key.indexerId fun byType =>
    some ((byType.getD ∅).alter key.entityType fun ids => some (ids.getD [] ++ [key.entityId]))

def missingByIndexer (current : EntityLfuCache) (keys : List EntityKey) : IdsByIndexer :=
  (keys.filter fun key => !current.containsKey key).foldl pushId ∅

section

variable [EntityWeight]

def cacheEntity (indexerId : DeploymentHash) (entityType : EntityType) (current : EntityLfuCache)
    (entity : Entity) : Outcome QueryExecutionError EntityLfuCache :=
  match entity.id with
  | .error _ => .panic
  | .ok entityId => .ofOption (current.insert ⟨indexerId, entityType, entityId⟩ (some entity))

def loadIndexer (store : WritableStore) (current : EntityLfuCache)
    (missing : DeploymentHash × TreeMap EntityType (List String)) :
    Outcome QueryExecutionError EntityLfuCache := do
  let found ← (Outcome.ofExcept (store.getMany missing.2)).mapErr .storeError
  found.toList.foldlM (fun current x => x.2.foldlM (cacheEntity missing.1 x.1) current) current

def loadMissing (store : WritableStore) (current : EntityLfuCache) (keys : List EntityKey) :
    Outcome QueryExecutionError EntityLfuCache :=
  (missingByIndexer current keys).toList.foldlM (loadIndexer store) current

def reconcile (key : EntityKey) :
    Option Entity → EntityOp → Option EntityModification × Option (Option Entity)
  -- the entity was created; merging with an empty entity removes null fields
  | none, .update updates | none, .overwrite updates =>
    let data := Entity.mergeRemoveNullFields .new updates
    (some (.insert key data), some (some data))
  -- the entity may have been changed
  | some current, .update updates =>
    let data := Entity.mergeRemoveNullFields current updates
    (if current ≠ data then some (.overwrite key data) else none, some (some data))
  -- the entity was removed and then updated, so it will be overwritten
  | some current, .overwrite data =>
    (if current ≠ data then some (.overwrite key data) else none, some (some data))
  -- an existing entity was deleted
  | some _, .remove => (some (.remove key), some none)
  -- the entity was deleted, but it does not exist in the store
  | none, .remove => (none, none)

variable (impl : EntityHeap)

def cacheDecision (current : EntityLfuCache) (key : EntityKey) :
    Option (Option Entity) → Option EntityLfuCache
  | some data => current.insert key data
  | none => some current

def asModification (s : EntityLfuCache × List EntityModification) (x : Σ _ : EntityKey, EntityOp) :
    Option (EntityLfuCache × List EntityModification) := do
  let removed ← s.1.remove impl x.1
  let decision := reconcile x.1 removed.1.join x.2
  let current ← cacheDecision removed.2 x.1 decision.2
  some (current, s.2 ++ decision.1.toList)

def asModifications (self : EntityCache) (order : EntityOps) :
    Outcome QueryExecutionError ModificationsAndCache :=
  if self.inHandler then .panic
  else do
    let current ← loadMissing self.store self.current (order.map (·.1))
    let (entityLfuCache, modifications) ←
      Outcome.ofOption (order.foldlM (asModification impl) (current, []))
    return { modifications, dataSources := self.dataSources, entityLfuCache }

end

def Requested (missing : IdsByIndexer) (key : EntityKey) : Prop :=
  ∃ byType ids, missing[key.indexerId]? = some byType ∧ byType[key.entityType]? = some ids ∧
    key.entityId ∈ ids

variable {key : EntityKey} {self : EntityCache} {content : Content} {base : Option Entity}
  {order : EntityOps} {r : ModificationsAndCache}

theorem requested_pushId {m : IdsByIndexer} {k : EntityKey} :
    Requested (pushId m key) k ↔ Requested m k ∨ k = key := by
  obtain ⟨ix, t, i⟩ := k
  obtain ⟨ix', t', i'⟩ := key
  simp only [Requested, pushId, TreeMap.getElem?_alter, Std.compare_eq_iff_eq, EntityKey.mk.injEq]
  by_cases hix : ix' = ix
  · subst hix
    by_cases ht : t' = t
    · subst ht
      rcases e : m[ix']? with - | bt
      · simp
      · rcases e' : bt[t']? with - | ids <;> simp [e']
    · rcases e : m[ix']? with - | bt <;>
        simp [TreeMap.getElem?_alter, ht, Ne.symm ht]
  · simp [hix, Ne.symm hix]

variable {keys : List EntityKey}

theorem requested_foldl_pushId :
    Requested (keys.foldl pushId ∅) key ↔ key ∈ keys := by
  suffices hal : ∀ m : IdsByIndexer,
      Requested (keys.foldl pushId m) key ↔ Requested m key ∨ key ∈ keys by
    have he : ¬Requested ∅ key := by
      rintro ⟨bt, ids, h, -⟩
      simp at h
    rw [hal, or_iff_right he]
  induction keys with
  | nil => simp
  | cons k keys ih =>
    intro m
    rw [foldl_cons, ih, requested_pushId, mem_cons, or_assoc]

theorem requested_missingByIndexer {current : EntityLfuCache} :
    Requested (missingByIndexer current keys) key ↔ key ∈ keys ∧ current.peek key = none := by
  rw [missingByIndexer, requested_foldl_pushId, mem_filter, LfuCache.containsKey_eq]
  simp

def Overrides (c : EntityLfuCache) (q : EntityKey → Entity → Prop) (c' : EntityLfuCache) : Prop :=
  ∀ k, (∀ e, q k e → c'.peek k = some (some e)) ∧ ((∀ e, ¬ q k e) → c'.peek k = c.peek k)

variable {c c' : EntityLfuCache}

theorem Overrides.congr {q q' : EntityKey → Entity → Prop} (h : Overrides c q c')
    (hq : ∀ k e, q' k e ↔ q k e) : Overrides c q' c' := by
  have hqq : q' = q := by
    funext k e
    exact propext (hq k e)
  rw [hqq]
  exact h

theorem Overrides.foldlM {E A : Type} {f : EntityLfuCache → A → Outcome E EntityLfuCache}
    {q : A → EntityKey → Entity → Prop} {l : List A} {p : EntityKey → Option Entity}
    (hp : ∀ a ∈ l, ∀ k e, q a k e → p k = some e)
    (hf : ∀ a ∈ l, ∀ c c', f c a = .ok c' → Overrides c (q a) c') (h : l.foldlM f c = .ok c') :
    Overrides c (fun k e => ∃ a ∈ l, q a k e) c' := by
  refine foldlM_invariant (I := fun pre c' =>
    Overrides c (fun k e => ∃ a ∈ pre, q a k e) c') h ?_ ?_
  · intro k
    simp
  · intro pre a s s' hpr hI hs
    have hst := hf a (hpr a (by simp)) s s' hs
    intro k
    refine ⟨?_, fun hn => ?_⟩
    · rintro e ⟨b, hb, hq⟩
      by_cases hqa : ∃ e', q a k e'
      · -- overridden by this iteration; `p` says that the entity is the same
        obtain ⟨e', he'⟩ := hqa
        have heq : e' = e := Option.some.inj
          ((hp a (hpr a (by simp)) k e' he').symm.trans (hp b (hpr b hb) k e hq))
        exact heq ▸ (hst k).1 e' he'
      · rw [(hst k).2 (not_exists.1 hqa)]
        rcases mem_append.1 hb with hb | hb
        · exact (hI k).1 e ⟨b, hb, hq⟩
        · exact absurd ⟨e, mem_singleton.1 hb ▸ hq⟩ hqa
    · rw [(hst k).2 fun e hq => hn e ⟨a, by simp, hq⟩]
      refine (hI k).2 fun e => ?_
      rintro ⟨b, hb, hq⟩
      exact hn e ⟨b, by simp [hb], hq⟩

section

variable [EntityWeight] {s : WritableStore} {content : Content} {c c' : EntityLfuCache}

theorem cacheEntity_overrides {ii : DeploymentHash} {et : EntityType}
    {en : Entity} (h : cacheEntity ii et c en = .ok c') :
    Overrides c (fun k e => e = en ∧ k.indexerId = ii ∧ k.entityType = et ∧
      en.id = .ok k.entityId) c' := by
  unfold cacheEntity at h
  rcases e : en.id with err | ei
  · rw [e] at h
    cases h
  · rw [e] at h
    have hp := LfuCache.peek_insert (ofOption_eq_ok.1 h)
    intro k
    refine ⟨?_, fun hn => ?_⟩
    · rintro e' ⟨rfl, hix, ht, hid⟩
      cases k
      simp_all
    · rw [hp, if_neg]
      rintro rfl
      exact hn en ⟨rfl, rfl, rfl, rfl⟩

def typedLookup (content : Content) (key : EntityKey) : Option Entity :=
  (content.lookup key).map (Entity.typed key.entityType)

theorem loadIndexer_overrides (hs : Serves s content)
    {m : DeploymentHash × TreeMap EntityType (List String)} (h : loadIndexer s c m = .ok c') :
    Overrides c (fun k e => k.indexerId = m.1 ∧
      (∃ ids, m.2[k.entityType]? = some ids ∧ k.entityId ∈ ids) ∧
      typedLookup content k = some e) c' := by
  obtain ⟨f, hf, h⟩ := bind_eq_ok.mp h
  rw [mapErr_eq_ok, ofExcept_eq_ok] at hf
  have hm := hs.getMany hf
  -- an entity that was f is the committed one of its own id
  have hey : ∀ {t : EntityType} {es : List Entity} {e : Entity} {k : EntityKey},
      (t, es) ∈ f.toList → e ∈ es → k.entityType = t → e.id = .ok k.entityId →
        (∃ ids, m.2[t]? = some ids ∧ k.entityId ∈ ids) ∧ typedLookup content k = some e := by
    intro t es e k hme he ht hid
    rw [TreeMap.mem_toList_iff_getElem?_eq_some] at hme
    obtain ⟨ids, i, ent, his, hi, hen, rfl⟩ := (hm t e).mp ⟨es, hme, he⟩
    have hii : i = k.entityId := by
      rw [Entity.id_typed, content.id_eq hen] at hid
      exact Except.ok.inj hid
    subst hii ht
    exact ⟨⟨ids, his, hi⟩, by simp [typedLookup, Content.lookup, hen]⟩
  have hl := Overrides.foldlM (p := typedLookup content)
    (q := fun x k e => k.indexerId = m.1 ∧ k.entityType = x.1 ∧ e ∈ x.2 ∧
      e.id = .ok k.entityId) ?_ ?_ h
  · refine hl.congr fun k e => ?_
    constructor
    · rintro ⟨hix, ⟨ids, his, hi⟩, hlo⟩
      obtain ⟨ent, hen, rfl⟩ := Option.map_eq_some_iff.mp hlo
      obtain ⟨es, hes, he⟩ := (hm k.entityType (Entity.typed k.entityType ent)).mpr
        ⟨ids, k.entityId, ent, his, hi, hen, rfl⟩
      refine ⟨(k.entityType, es), TreeMap.mem_toList_iff_getElem?_eq_some.mpr hes, hix, rfl, he, ?_⟩
      rw [Entity.id_typed, content.id_eq hen]
    · rintro ⟨⟨t, es⟩, hme, hix, rfl, he, hid⟩
      exact ⟨hix, hey hme he rfl hid⟩
  · rintro ⟨t, es⟩ hme k e ⟨-, ht, he, hid⟩
    exact (hey hme he ht hid).2
  · rintro ⟨t, es⟩ hme c c' h
    refine (Overrides.foldlM (p := typedLookup content) (fun e he k e' hq => ?_)
      (fun e _ c c' h => cacheEntity_overrides h) h).congr fun k e => ?_
    · obtain ⟨rfl, -, ht, hid⟩ := hq
      exact (hey hme he ht hid).2
    · constructor
      · rintro ⟨hix, ht, he, hid⟩
        exact ⟨e, he, rfl, hix, ht, hid⟩
      · rintro ⟨e', he', rfl, hix, ht, hid⟩
        exact ⟨hix, ht, he', hid⟩

theorem loadMissing_overrides (hs : Serves s content) {keys : List EntityKey}
    (h : loadMissing s c keys = .ok c') :
    Overrides c (fun k e => (k ∈ keys ∧ c.peek k = none) ∧ typedLookup content k = some e) c' := by
  refine (Overrides.foldlM (p := typedLookup content) ?_
    (fun m _ c c' h => loadIndexer_overrides hs h) h).congr fun k e => ?_
  · rintro m - k e ⟨-, -, h⟩
    exact h
  · rw [← requested_missingByIndexer, Requested]
    constructor
    · rintro ⟨⟨byType, ids, hby, hids, hi⟩, hlook⟩
      exact ⟨(k.indexerId, byType), TreeMap.mem_toList_iff_getElem?_eq_some.mpr hby, rfl,
        ⟨ids, hids, hi⟩, hlook⟩
    · rintro ⟨⟨ix, byType⟩, hmem, rfl, ⟨ids, hids, hi⟩, hlook⟩
      exact ⟨⟨byType, ids, TreeMap.mem_toList_iff_getElem?_eq_some.mp hmem, hids, hi⟩, hlook⟩

end

section

variable [EntityWeight]
variable {impl : EntityHeap}

theorem asModification_spec {s s' : EntityLfuCache × List EntityModification}
    {x : Σ _ : EntityKey, EntityOp} (h : asModification impl s x = some s') :
    s'.2 = s.2 ++ (reconcile x.1 (s.1.peek x.1).join x.2).1.toList ∧
      ∀ k, s'.1.peek k
        = if k = x.1 then (reconcile x.1 (s.1.peek x.1).join x.2).2 else s.1.peek k := by
  obtain ⟨⟨re, current⟩, hr, h⟩ := Option.bind_eq_some_iff.1 h
  obtain ⟨rfl, hp⟩ := LfuCache.peek_remove hr
  obtain ⟨cu', hc, h⟩ := Option.bind_eq_some_iff.1 h
  cases h
  refine ⟨rfl, fun k => ?_⟩
  rcases e : (reconcile x.1 (s.1.peek x.1).join x.2).2 with - | data
  · rw [e] at hc
    cases hc
    exact hp k
  · rw [e] at hc
    rw [LfuCache.peek_insert hc k]
    by_cases hk : k = x.1
    · rw [if_pos hk, if_pos hk]
    · rw [if_neg hk, if_neg hk, hp k, if_neg hk]

theorem foldlM_asModification : ∀ {order : EntityOps}
    {s s' : EntityLfuCache × List EntityModification}, order.NodupKeys →
    order.foldlM (asModification impl) s = some s' →
      s'.2 = s.2 ++ order.filterMap (fun x => (reconcile x.1 (s.1.peek x.1).join x.2).1) ∧
        ∀ k, s'.1.peek k = (order.dlookup k).elim (s.1.peek k) fun op =>
          (reconcile k (s.1.peek k).join op).2
  | [], s, s', _, h => by
    obtain rfl : s = s' := Option.some.inj h
    simp
  | x :: order, s, s', hnd, h => by
    rw [nodupKeys_cons] at hnd
    rw [foldlM_cons] at h
    obtain ⟨s₁, h₁, h⟩ := Option.bind_eq_some_iff.1 h
    obtain ⟨hm₁, hp₁⟩ := asModification_spec h₁
    obtain ⟨hm, hp⟩ := foldlM_asModification hnd.2 h
    -- a later record has another key, and meets what it would have met before
    have hl : ∀ y ∈ order, s₁.1.peek y.1 = s.1.peek y.1 := fun y hy =>
      (hp₁ y.1).trans (if_neg fun he : y.1 = x.1 => hnd.1 (he ▸ mem_keys_of_mem hy))
    refine ⟨?_, fun k => ?_⟩
    · have hc : order.filterMap (fun y => (reconcile y.1 (s₁.1.peek y.1).join y.2).1)
          = order.filterMap (fun y => (reconcile y.1 (s.1.peek y.1).join y.2).1) :=
        filterMap_congr fun y hy => by rw [hl y hy]
      rw [hm, hm₁, hc, filterMap_cons, append_assoc]
      rcases (reconcile x.1 (s.1.peek x.1).join x.2).1 with - | m <;> rfl
    · rw [hp k, hp₁ k]
      by_cases hk : k = x.1
      · subst hk
        rw [dlookup_eq_none.2 hnd.1, if_pos rfl, dlookup_cons_eq]
        rfl
      · rw [if_neg hk, dlookup_cons_ne _ _ hk]

end

/-- The cached entities are the committed ones. -/
def Agrees (current : EntityLfuCache) (content : Content) : Prop :=
  ∀ key data, current.peek key = some data → data = content.lookup key

def baseEntity (self : EntityCache) (content : Content) (key : EntityKey) : Option Entity :=
  if (self.current.peek key).isSome then content.lookup key else typedLookup content key

theorem baseEntity_none (h : content.lookup key = none) : self.baseEntity content key = none := by
  rw [baseEntity, typedLookup, h]
  exact ite_self _

theorem baseEntity_some (self : EntityCache) {e : Entity} (h : content.lookup key = some e) :
    ∃ base, self.baseEntity content key = some base ∧
      (base = e ∨ base = e.typed key.entityType ∧ ¬ (self.current.peek key).isSome) := by
  rw [baseEntity, typedLookup, h]
  split
  next => exact ⟨e, rfl, .inl rfl⟩
  next hnot => exact ⟨_, rfl, .inr ⟨rfl, hnot⟩⟩

variable {m : EntityModification}

theorem reconcile_update_eq_some {u : Entity} (h : (reconcile key base (.update u)).1 = some m) :
    m.data? = some ((base.getD .new).mergeRemoveNullFields u) ∧
      (base = none ∧ m = .insert key (Entity.mergeRemoveNullFields .new u) ∨
        base.isSome ∧ ∃ data, m = .overwrite key data) := by
  rcases base with - | e
  · cases h
    exact ⟨rfl, .inl ⟨rfl, rfl⟩⟩
  · obtain ⟨-, h⟩ := Option.ite_none_right_eq_some.1 h
    cases h
    exact ⟨rfl, .inr ⟨rfl, _, rfl⟩⟩

theorem untyped_baseEntity (self : EntityCache) (content : Content) (key : EntityKey) :
    (self.baseEntity content key).map Entity.untyped = content.lookup key := by
  rcases e : content.lookup key with - | entity
  · rw [baseEntity_none e]
    rfl
  · have hu : entity.untyped = entity := content.untyped e
    obtain ⟨base, hb, rfl | ⟨rfl, -⟩⟩ := self.baseEntity_some e
    · rw [hb, Option.map_some, hu]
    · rw [hb, Option.map_some, Entity.untyped_typed, hu]

variable [EntityWeight]
variable {impl : EntityHeap}

theorem inHandler_of_asModifications (h : self.asModifications impl order = .ok r) :
    self.inHandler = false := by
  rcases hin : self.inHandler with - | -
  · rfl
  · rw [asModifications, if_pos hin] at h
    cases h

/-- **The meaning of `asModifications`.** Each record is reconciled with the committed entity. -/
theorem asModifications_spec (hs : Serves self.store content) (ha : Agrees self.current content)
    (ho : Finmap.Enumerates order self.updates) (h : self.asModifications impl order = .ok r) :
    r.modifications
        = order.filterMap (fun x => (reconcile x.1 (self.baseEntity content x.1) x.2).1) ∧
      ∀ k, r.entityLfuCache.peek k = (self.updates.lookup k).elim (self.current.peek k) fun op =>
        (reconcile k (self.baseEntity content k) op).2 := by
  have hin := inHandler_of_asModifications h
  rw [asModifications, if_neg (Bool.eq_false_iff.1 hin)] at h
  obtain ⟨l, hl, h⟩ := bind_eq_ok.1 h
  obtain ⟨⟨ca, mods⟩, hlo, rfl⟩ := bind_pure_eq_ok.1 h
  rw [ofOption_eq_ok] at hlo
  have hov := loadMissing_overrides hs hl
  obtain ⟨hm, hp⟩ := foldlM_asModification ho.nodupKeys hlo
  -- what the first loop leaves for a key that has a record
  have hb : ∀ k, k ∈ order.map (·.1) → (l.peek k).join = self.baseEntity content k := by
    intro k hk
    rw [baseEntity]
    rcases e : self.current.peek k with - | data
    · rcases et : typedLookup content k with - | en
      · rw [(hov k).2 fun e' he' => by simp [et] at he', e]
        rfl
      · rw [(hov k).1 en ⟨⟨hk, e⟩, et⟩]
        rfl
    · rw [(hov k).2 fun e' he' => by simp [e] at he', e]
      exact ha k data e
  refine ⟨?_, fun k => ?_⟩
  · refine hm.trans (filterMap_congr fun x hx => ?_)
    rw [hb x.1 (mem_map_of_mem hx)]
  · rw [hp k, ho.dlookup]
    rcases e : self.updates.lookup k with - | op
    · refine (hov k).2 fun e' he' => ?_
      obtain ⟨x, hx, rfl⟩ := mem_map.1 he'.1.1
      have := ho.mem_iff.1 hx
      rw [e] at this
      cases this
    · have hk : k ∈ order.map (·.1) := mem_map_of_mem (ho.mem_iff.2 e)
      rw [Option.elim_some, Option.elim_some, hb k hk]

omit [EntityWeight] in
theorem reconcile_entityKey {op : EntityOp} (h : (reconcile key base op).1 = some m) :
    m.entityKey = key := by
  rcases base with - | e <;> rcases op with - | updates | data <;>
    simp only [reconcile, Option.ite_none_right_eq_some] at h
  · cases h
  · exact Option.some.inj h ▸ rfl
  · exact Option.some.inj h ▸ rfl
  · exact Option.some.inj h ▸ rfl
  · exact Option.some.inj h.2 ▸ rfl
  · exact Option.some.inj h.2 ▸ rfl

omit [EntityWeight] in
theorem entityKey_filterMap_sublist {f : (Σ _ : EntityKey, EntityOp) → Option EntityModification}
    (hf : ∀ {x m}, f x = some m → m.entityKey = x.1) :
    ∀ order : EntityOps,
      ((order.filterMap f).map EntityModification.entityKey).Sublist order.keys
  | [] => List.Sublist.refl _
  | x :: order => by
    have ih := entityKey_filterMap_sublist hf order
    rw [filterMap_cons]
    rcases e : f x with - | m
    · exact ih.cons x.1
    · rw [map_cons, hf e]
      exact ih.cons_cons x.1

section

variable {order : EntityOps} {updates : HashMap EntityKey EntityOp}
  (ho : Finmap.Enumerates order updates) (base : EntityKey → Option Entity)

include ho

omit [EntityWeight] in
theorem nodup_filterMap_reconcile :
    ((order.filterMap fun x => (reconcile x.1 (base x.1) x.2).1).map
      EntityModification.entityKey).Nodup := by
  have hk : order.keys.Nodup := ho.nodupKeys
  exact hk.sublist (entityKey_filterMap_sublist reconcile_entityKey order)

omit [EntityWeight] in
theorem mem_filterMap_reconcile {m : EntityModification} :
    m ∈ order.filterMap (fun x => (reconcile x.1 (base x.1) x.2).1) ↔
      ∃ op, updates.lookup m.entityKey = some op ∧
        (reconcile m.entityKey (base m.entityKey) op).1 = some m := by
  rw [mem_filterMap]
  constructor
  · rintro ⟨⟨key, op⟩, hx, hm⟩
    obtain rfl : m.entityKey = key := reconcile_entityKey hm
    exact ⟨op, ho.mem_iff.1 hx, hm⟩
  · rintro ⟨op, hop, hm⟩
    exact ⟨⟨m.entityKey, op⟩, ho.mem_iff.2 hop, hm⟩

end

section

variable {self : EntityCache} {content : Content} {order : EntityOps}
  {r : ModificationsAndCache} (hs : Serves self.store content) (ha : Agrees self.current content)
  (ho : Finmap.Enumerates order self.updates) (h : self.asModifications impl order = .ok r)

include hs ha ho h

theorem nodup_modifications : (r.modifications.map EntityModification.entityKey).Nodup := by
  rw [(asModifications_spec hs ha ho h).1]
  exact nodup_filterMap_reconcile ho (self.baseEntity content)

theorem mem_modifications {m : EntityModification} :
    m ∈ r.modifications ↔ ∃ op, self.updates.lookup m.entityKey = some op ∧
      (reconcile m.entityKey (self.baseEntity content m.entityKey) op).1 = some m := by
  rw [(asModifications_spec hs ha ho h).1]
  exact mem_filterMap_reconcile ho (self.baseEntity content)

end

omit [EntityWeight] in
theorem stored_reconcile {co : Option Entity} (hb : base.map Entity.untyped = co)
    (hst : ∀ e ∈ co, e.stored = e) (key : EntityKey) (op : EntityOp) :
    ((reconcile key base op).1).elim co (fun m => m.data?.map Entity.stored)
      = (op.applyTo co).map Entity.stored := by
  subst hb
  rcases base with - | base
  · rcases op with - | updates | data
    · rfl
    · exact congrArg some (Entity.stored_removeNullFields updates)
    · exact congrArg some (Entity.stored_removeNullFields data)
  · -- storing drops the attribute that reads add
    have hst : base.stored = base.untyped := by
      rw [← base.stored_untyped]
      exact hst _ rfl
    rw [Option.map_some]
    rcases op with - | updates | data
    · rfl
    · show (if base ≠ Entity.mergeRemoveNullFields base updates then _ else none : Option _).elim
        _ _ = some (Entity.mergeRemoveNullFields base.untyped updates).stored
      rw [Entity.stored_mergeRemoveNullFields_untyped]
      split
      · rfl
      next heq => rw [← not_not.1 heq, hst, Option.elim_none]
    · show (if base ≠ data then _ else none : Option _).elim _ _ = some data.stored
      split
      · rfl
      next heq => rw [← not_not.1 heq, hst, Option.elim_none]

/-- **What a commit leaves**: what the record makes of the committed entity, as it is stored. -/
theorem commit_asModifications (hs : Serves self.store content) (ha : Agrees self.current content)
    (ho : Finmap.Enumerates order self.updates) (h : self.asModifications impl order = .ok r)
    (key : EntityKey) :
    commit content.lookup r.modifications key
      = (EntityOp.applyOpt (self.updates.lookup key) (content.lookup key)).map Entity.stored := by
  have hm {m : EntityModification} := mem_modifications (m := m) hs ha ho h
  -- a key without modification keeps what is committed
  have hk : (∀ m ∈ r.modifications, m.entityKey ≠ key) →
      commit content.lookup r.modifications key = content.lookup key := commit_of_not_mem
  rcases e : self.updates.lookup key with - | op
  · rw [hk]
    · rcases ec : content.lookup key with - | en
      · rfl
      · exact congrArg some (content.stored_eq_self ec).symm
    · rintro m hr rfl
      obtain ⟨op, hop, -⟩ := hm.1 hr
      rw [e] at hop
      cases hop
  · have hr := stored_reconcile (self.untyped_baseEntity content key)
      (fun _ he => content.stored_eq_self he) key op
    refine Eq.trans ?_ hr
    rcases em : (reconcile key (self.baseEntity content key) op).1 with - | m
    · rw [hk]
      · rfl
      · rintro m hx rfl
        obtain ⟨op', hop', hm'⟩ := hm.1 hx
        obtain rfl : op = op' := Option.some.inj (e.symm.trans hop')
        rw [em] at hm'
        cases hm'
    · obtain rfl := reconcile_entityKey em
      exact commit_of_mem (nodup_modifications hs ha ho h) (hm.2 ⟨op, e, em⟩)

end EntityCache

end Massbit
