/-
What the indexing code sees of the store (`components/store.rs`).
-/
import Massbit.Data.Entity
import Mathlib.Tactic.Linarith

open Finmap List Option

namespace Massbit

open Std (TreeMap)

abbrev DeploymentHash := String

/-- The type name of an entity, as in the GraphQL schema. -/
abbrev EntityType := String

abbrev BlockNumber := ℤ

/-- Key by which an individual entity in the store can be accessed. -/
structure EntityKey where
  indexerId : DeploymentHash
  entityType : EntityType
  entityId : String
  deriving DecidableEq, Repr

abbrev Address := BitVec 160

structure Source where
  address : Option Address
  abi : String
  startBlock : BlockNumber
  deriving DecidableEq, Repr

/-- A data source that was created while indexing, as the store keeps it. -/
structure StoredDynamicDataSource where
  name : String
  source : Source
  context : Option String
  creationBlock : Option BlockNumber
  deriving DecidableEq, Repr

inductive StoreError where
  | unknown (e : String)
  | unknownTable (name : String)
  | queryExecutionError (e : String)
  | invalidIdentifier (msg : String)
  | duplicateBlockProcessing (hash : DeploymentHash) (number : BlockNumber)
  | constraintViolation (msg : String)
  | deploymentNotFound (hash : String)
  | unknownShard (shard : String)
  deriving DecidableEq, Repr

inductive QueryExecutionError where
  | resolveEntityError (indexerId : DeploymentHash) (entityType entityId msg : String)
  | entityParseError (msg : String)
  | storeError (e : StoreError)
  deriving DecidableEq, Repr

/-- A change to one entity that can be transacted into the store. -/
inductive EntityModification where
  | insert (key : EntityKey) (data : Entity)
  | overwrite (key : EntityKey) (data : Entity)
  | remove (key : EntityKey)
  deriving DecidableEq

namespace EntityModification

def entityKey : EntityModification → EntityKey
  | insert key _ | overwrite key _ | remove key => key

def data? : EntityModification → Option Entity
  | insert _ data | overwrite _ data => some data
  | remove _ => none

end EntityModification

def typenameAttribute : Attribute := "__typename"

def Entity.typed (entityType : EntityType) (e : Entity) : Entity :=
  e.insert typenameAttribute (.string entityType)

def Entity.untyped (e : Entity) : Entity := e.erase typenameAttribute

/-- The read half of the trait `WritableStore`. -/
structure WritableStore where
  get : EntityKey → Except QueryExecutionError (Option Entity)
  getMany : TreeMap EntityType (List String) → Except StoreError (TreeMap EntityType (List Entity))

/-- What is committed: the attributes of each entity, by type and id. -/
structure Content where
  entities : EntityType → String → Option Entity
  nullFree : ∀ {t i e}, entities t i = some e → e.NullFree
  untyped : ∀ {t i e}, entities t i = some e → e.untyped = e
  id_eq : ∀ {t i e}, entities t i = some e → e.id = .ok i

def Content.lookup (content : Content) (key : EntityKey) : Option Entity :=
  content.entities key.entityType key.entityId

/-- The reads of `store`, as far as they succeed, return what is committed. -/
structure Serves (store : WritableStore) (content : Content) : Prop where
  get : ∀ {key r}, store.get key = .ok r →
    r = (content.lookup key).map (Entity.typed key.entityType)
  getMany : ∀ {ids r}, store.getMany ids = .ok r → ∀ t e,
    (∃ es, r[t]? = some es ∧ e ∈ es) ↔
      ∃ is i c, ids[t]? = some is ∧ i ∈ is ∧ content.entities t i = some c ∧ e = c.typed t

namespace Entity

theorem lookup_typed (e : Entity) (t : EntityType) (a : Attribute) :
    (e.typed t).lookup a = if a = typenameAttribute then some (.string t) else e.lookup a := by
  by_cases h : a = typenameAttribute
  · rw [if_pos h, h]
    exact lookup_insert e
  · rw [if_neg h]
    exact lookup_insert_of_ne e h

theorem lookup_untyped (e : Entity) (a : Attribute) :
    e.untyped.lookup a = if a = typenameAttribute then none else e.lookup a := by
  by_cases h : a = typenameAttribute
  · rw [if_pos h, h]
    exact lookup_erase _ e
  · rw [if_neg h]
    exact lookup_erase_ne h

theorem untyped_typed (e : Entity) (t : EntityType) : (e.typed t).untyped = e.untyped :=
  ext_lookup fun a => by
    rw [lookup_untyped, lookup_untyped, lookup_typed]
    by_cases h : a = typenameAttribute <;> simp [h]

theorem id_typed (e : Entity) (t : EntityType) : (e.typed t).id = e.id := by
  have hne : "id" ≠ typenameAttribute := by decide
  rw [id, id, lookup_typed, if_neg hne]

theorem id_untyped (e : Entity) : e.untyped.id = e.id := by
  have hne : "id" ≠ typenameAttribute := by decide
  rw [id, id, lookup_untyped, if_neg hne]

theorem untyped_eq_self {e : Entity} : e.untyped = e ↔ e.lookup typenameAttribute = none := by
  constructor
  · intro h
    rw [← h, lookup_untyped, if_pos rfl]
  · intro h
    refine ext_lookup fun a => ?_
    rw [lookup_untyped]
    by_cases ha : a = typenameAttribute
    · rw [if_pos ha, ha, h]
    · rw [if_neg ha]

end Entity

def Content.empty : Content where
  entities _ _ := none
  nullFree h := nomatch h
  untyped h := nomatch h
  id_eq h := nomatch h

def Content.single (t : EntityType) (i : String) (e : Entity) (hn : e.NullFree)
    (hu : e.untyped = e) (hid : e.id = .ok i) : Content where
  entities t' i' := if t' = t ∧ i' = i then some e else none
  nullFree h := by
    rw [Option.ite_none_right_eq_some] at h
    exact Option.some.inj h.2 ▸ hn
  untyped h := by
    rw [Option.ite_none_right_eq_some] at h
    exact Option.some.inj h.2 ▸ hu
  id_eq h := by
    rw [Option.ite_none_right_eq_some] at h
    exact Option.some.inj h.2 ▸ h.1.2 ▸ hid

def Content.serve (content : Content) : WritableStore where
  get key := .ok ((content.lookup key).map (Entity.typed key.entityType))
  getMany ids := .ok (ids.map fun t is =>
    is.filterMap fun i => (content.entities t i).map (Entity.typed t))

theorem Content.serves_serve (co : Content) : Serves co.serve co where
  get := by
    intro key r h
    exact (Except.ok.inj h).symm
  getMany := by
    intro ids r h t e
    cases h
    simp only [TreeMap.getElem?_map, map_eq_some_iff]
    constructor
    · rintro ⟨es, ⟨is, his, rfl⟩, he⟩
      obtain ⟨i, hi, hm⟩ := mem_filterMap.1 he
      obtain ⟨c, hc, rfl⟩ := map_eq_some_iff.1 hm
      exact ⟨is, i, c, his, hi, hc, rfl⟩
    · rintro ⟨is, i, c, his, hi, hc, rfl⟩
      refine ⟨_, ⟨is, his, rfl⟩, mem_filterMap.mpr ⟨i, hi, ?_⟩⟩
      rw [hc, map_some]

def Entity.stored (e : Entity) : Entity := e.removeNullFields.untyped

namespace Entity

theorem lookup_stored (e : Entity) (a : Attribute) :
    e.stored.lookup a
      = if a = typenameAttribute ∨ e.lookup a = some .null then none else e.lookup a := by
  rw [stored, lookup_untyped, lookup_removeNullFields]
  by_cases h : a = typenameAttribute <;> simp [h]

variable {e : Entity}

theorem stored_eq_self : e.stored = e ↔ e.NullFree ∧ e.untyped = e := by
  constructor
  · intro h
    refine ⟨fun a ha => ?_, untyped_eq_self.2 ?_⟩
    · have := e.lookup_stored a
      rw [h, if_pos (.inr ha), ha] at this
      cases this
    · rw [← h, lookup_stored, if_pos (.inl rfl)]
  · rintro ⟨hn, hu⟩
    rw [stored, removeNullFields_eq_self.mpr hn, hu]

theorem stored_removeNullFields (e : Entity) : e.removeNullFields.stored = e.stored := by
  rw [stored, removeNullFields_eq_self.2 e.nullFree_removeNullFields, stored]

theorem stored_untyped (e : Entity) : e.untyped.stored = e.stored :=
  ext_lookup fun a => by
    rw [lookup_stored, lookup_stored, lookup_untyped]
    by_cases h : a = typenameAttribute <;> simp [h]

theorem stored_stored (e : Entity) : e.stored.stored = e.stored :=
  ext_lookup fun a => by
    rw [lookup_stored, lookup_stored]
    by_cases h : a = typenameAttribute ∨ e.lookup a = some .null <;> simp [h]

theorem id_stored {i : String} : e.stored.id = .ok i ↔ e.id = .ok i := by
  have hne : "id" ≠ typenameAttribute := by decide
  rw [id_eq_ok, id_eq_ok, lookup_stored]
  by_cases h : e.lookup "id" = some .null <;> simp [h, hne]

theorem stored_mergeRemoveNullFields_untyped (e u : Entity) :
    (e.untyped.mergeRemoveNullFields u).stored = (e.mergeRemoveNullFields u).stored :=
  ext_lookup fun a => by
    rw [lookup_stored, lookup_stored, lookup_mergeRemoveNullFields, lookup_mergeRemoveNullFields,
      lookup_untyped]
    by_cases h : a = typenameAttribute <;> simp [h]

theorem stored_mergeRemoveNullFields_stored (e u : Entity) :
    (e.stored.mergeRemoveNullFields u).stored = (e.merge u).stored :=
  ext_lookup fun a => by
    rw [lookup_stored, lookup_stored, lookup_mergeRemoveNullFields, lookup_merge, lookup_stored]
    by_cases h : a = typenameAttribute
    · simp [h]
    · rcases u.lookup a with - | v
      · by_cases hn : e.lookup a = some .null <;> simp [h, hn]
      · by_cases hn : v = .null <;> simp [h, hn]

end Entity

variable {key : EntityKey}

theorem Content.stored_eq_self (c : Content) {e : Entity} (h : c.lookup key = some e) :
    e.stored = e :=
  Entity.stored_eq_self.2 ⟨c.nullFree h, c.untyped h⟩

def commit (base : EntityKey → Option Entity) (mods : List EntityModification)
    (key : EntityKey) : Option Entity :=
  mods.foldl (fun e m => if m.entityKey = key then m.data?.map Entity.stored else e) (base key)

theorem commit_cons (base : EntityKey → Option Entity) (m : EntityModification)
    (mods : List EntityModification) (key : EntityKey) :
    commit base (m :: mods) key
      = commit (fun key => if m.entityKey = key then m.data?.map Entity.stored else base key)
          mods key := rfl

theorem commit_of_not_mem :
    ∀ {mods : List EntityModification} {base : EntityKey → Option Entity},
      (∀ m ∈ mods, m.entityKey ≠ key) → commit base mods key = base key
  | [], _, _ => rfl
  | m :: mods, base, h => by
    rw [commit_cons, commit_of_not_mem fun m' hm' => h m' (by simp [hm'])]
    exact if_neg (h m (by simp))

theorem commit_of_mem :
    ∀ {mods : List EntityModification} {base : EntityKey → Option Entity} {m : EntityModification},
      (mods.map EntityModification.entityKey).Nodup → m ∈ mods →
        commit base mods m.entityKey = m.data?.map Entity.stored
  | m' :: mods, base, m, hnd, hm => by
    rw [map_cons, nodup_cons] at hnd
    rw [commit_cons]
    rcases mem_cons.1 hm with rfl | hm
    · have hn : ∀ m' ∈ mods, m'.entityKey ≠ m.entityKey := fun m' hm' he =>
        hnd.1 (he ▸ mem_map_of_mem hm')
      rw [commit_of_not_mem hn]
      exact if_pos rfl
    · exact commit_of_mem hnd.2 hm

end Massbit
