/-
The schemas that a schema imports, directly or through others (`resolve_schema_references`):
`resolveSchemaReferences_eq`.
-/
import Massbit.GraphQL.Document

open List Finmap

namespace Massbit.GraphQL

inductive SchemaImportError where
  | importedSchemaNotFound (ref : SchemaReference)
  | importedIndexerNotFound (ref : SchemaReference)
  deriving DecidableEq, Repr

abbrev SchemaStore := HashMap DeploymentHash InputSchema

def SchemaReference.resolve (self : SchemaReference) (store : SchemaStore) :
    Except SchemaImportError InputSchema :=
  match store.lookup self.indexer with
  | some schema => .ok schema
  | none => .error (.importedSchemaNotFound self)

structure Search where
  schemas : HashMap SchemaReference InputSchema
  visitLog : Finset DeploymentHash
  errors : List SchemaImportError

namespace InputSchema

def follow (store : SchemaStore) (resolveGraph : InputSchema → Search → Option Search)
    (self : Search) (ref : SchemaReference) : Option Search :=
  match ref.resolve store with
  | .ok schema =>
    let schemas := self.schemas.insert ref schema
    -- this node of the graph has been visited
    if schema.id ∈ self.visitLog then some { self with schemas }
    else do
      let r ← resolveGraph schema ⟨schemas, insert schema.id self.visitLog, []⟩
      return { r with errors := self.errors ++ r.errors }
  | .error err => some { self with errors := self.errors ++ [err] }

def resolveImportGraph (store : SchemaStore) : ℕ → InputSchema → Search → Option Search
  | 0, _, _ => none
  | fuel + 1, self, s =>
    self.importedSchemas.foldlM (follow store (resolveImportGraph store fuel))
      { s with errors := [] }

def resolveSchemaReferences (store : SchemaStore) (fuel : ℕ) (self : InputSchema) :
    Option (HashMap SchemaReference InputSchema × List SchemaImportError) :=
  (resolveImportGraph store fuel self ⟨∅, ∅, []⟩).map fun s => (s.schemas, s.errors)

end InputSchema

/-- The references that are reached from some references through imports that resolve. -/
inductive Reachable (store : SchemaStore) (refs : List SchemaReference) : SchemaReference → Prop
  | base {ref : SchemaReference} : ref ∈ refs → Reachable store refs ref
  | step {ref ref' : SchemaReference} {schema : InputSchema} : Reachable store refs ref →
      ref.resolve store = .ok schema → ref' ∈ schema.importedSchemas → Reachable store refs ref'

variable {ref : SchemaReference} {store : SchemaStore}

theorem Reachable.trans {refs refs' : List SchemaReference} (h : Reachable store refs ref)
    (hre : ∀ r ∈ refs, Reachable store refs' r) : Reachable store refs' ref := by
  induction h with
  | base hm => exact hre _ hm
  | step _ hr hm ih => exact .step ih hr hm

def Search.Handled (store : SchemaStore) (self : Search) (ref : SchemaReference) : Prop :=
  match ref.resolve store with
  | .ok schema => ref ∈ self.schemas ∧ schema.id ∈ self.visitLog
  | .error err => err ∈ self.errors

structure Search.Le (s s' : Search) : Prop where
  schemas : ∀ ref ∈ s.schemas, ref ∈ s'.schemas
  visitLog : s.visitLog ⊆ s'.visitLog
  errors : s.errors ⊆ s'.errors

theorem Search.Handled.mono {s s' : Search} (h : s.Handled store ref) (hle : s.Le s') :
    s'.Handled store ref := by
  unfold Handled at *
  split
  next heq =>
    rw [heq] at h
    exact ⟨hle.schemas ref h.1, hle.visitLog h.2⟩
  next heq =>
    rw [heq] at h
    exact hle.errors h

structure Follows (store : SchemaStore) (refs : List SchemaReference) (s s' : Search) : Prop where
  le : s.Le s'
  schemas : ∀ {ref : SchemaReference} {schema}, s'.schemas.lookup ref = some schema →
    s.schemas.lookup ref = some schema ∨ Reachable store refs ref ∧ ref.resolve store = .ok schema
  errors : ∀ err ∈ s'.errors, err ∈ s.errors ∨
    ∃ ref, Reachable store refs ref ∧ ref.resolve store = .error err
  handled : ∀ ref ∈ refs, s'.Handled store ref
  closed : ∀ {ref : SchemaReference} {schema}, ref.resolve store = .ok schema →
    schema.id ∈ s'.visitLog →
      schema.id ∈ s.visitLog ∨ ∀ ref' ∈ schema.importedSchemas, s'.Handled store ref'

namespace Follows

variable {store : SchemaStore} {refs refs' : List SchemaReference} {ref : SchemaReference}
  {s s' s'' : Search}

theorem nil (s : Search) : Follows store [] s s where
  le := ⟨fun _ h => h, subset_rfl, List.Subset.refl _⟩
  schemas := .inl
  errors _ := .inl
  handled _ h := nomatch h
  closed _ := .inl

theorem trans (h : Follows store refs s s') (h' : Follows store refs' s' s'') :
    Follows store (refs ++ refs') s s'' := by
  have hl : ∀ {r}, Reachable store refs r → Reachable store (refs ++ refs') r :=
    fun hr => hr.trans fun r hr => .base (mem_append_left _ hr)
  have hri : ∀ {r}, Reachable store refs' r → Reachable store (refs ++ refs') r :=
    fun hr => hr.trans fun r hr => .base (mem_append_right _ hr)
  have hm : ∀ {r}, s'.Handled store r → s''.Handled store r := fun hr => hr.mono h'.le
  constructor
  case le =>
    exact ⟨fun ref hre => h'.le.schemas ref (h.le.schemas ref hre),
      h.le.visitLog.trans h'.le.visitLog, fun _ he => h'.le.errors (h.le.errors he)⟩
  case schemas =>
    intro _ _ hlo
    rcases h'.schemas hlo with hlo | ⟨hr, hres⟩
    · exact (h.schemas hlo).imp_right (And.imp_left hl)
    · exact .inr ⟨hri hr, hres⟩
  case errors =>
    intro err he
    rcases h'.errors err he with he | ⟨ref, hr, hres⟩
    · exact (h.errors err he).imp_right fun ⟨ref, hr, hres⟩ => ⟨ref, hl hr, hres⟩
    · exact .inr ⟨ref, hri hr, hres⟩
  case handled =>
    intro ref hre
    rcases mem_append.1 hre with hre | hre
    · exact hm (h.handled ref hre)
    · exact h'.handled ref hre
  case closed =>
    intro _ _ hres hid
    rcases h'.closed hres hid with hid | hha
    · exact (h.closed hres hid).imp_right fun hha r hr => hm (hha r hr)
    · exact .inr hha

end Follows

namespace InputSchema

section Search

variable {store : SchemaStore} {ref : SchemaReference}

theorem lookup_of_resolve {schema : InputSchema} (h : ref.resolve store = .ok schema) :
    store.lookup ref.indexer = some schema := by
  unfold SchemaReference.resolve at h
  split at h
  next hlookup => exact hlookup.trans (congrArg some (Except.ok.inj h))
  next => cases h

variable (hid : ∀ hash schema, store.lookup hash = some schema → schema.id = hash)

include hid

/-- **One reference is followed**, if the search from its schema does what it should. -/
theorem follow_spec {rg : InputSchema → Search → Option Search} {s : Search}
    (hg : ∀ schema, ref.resolve store = .ok schema →
      schema.id ∉ s.visitLog → ∃ r,
        rg schema ⟨s.schemas.insert ref schema, insert schema.id s.visitLog, []⟩ = some r ∧
        Follows store schema.importedSchemas
          ⟨s.schemas.insert ref schema, insert schema.id s.visitLog, []⟩ r) :
    ∃ s', follow store rg s ref = some s' ∧ Follows store [ref] s s' := by
  have hb : Reachable store [ref] ref := .base (mem_singleton_self ref)
  rcases hre : ref.resolve store with err | schema
  · refine ⟨{ s with errors := s.errors ++ [err] }, by rw [follow, hre], ?_⟩
    constructor
    · exact ⟨fun _ h => h, subset_rfl, subset_append_left _ _⟩
    · exact .inl
    · intro e he
      refine (mem_append.mp he).imp_right fun he => ⟨ref, hb, ?_⟩
      rw [mem_singleton.mp he, hre]
    · intro r hr
      rw [mem_singleton.mp hr, Search.Handled, hre]
      exact mem_append_right _ (mem_singleton_self err)
    · exact fun _ => .inl
  · -- the schema of the reference is in the map, whether it was visited before or not
    have hm : ∀ {r}, r ∈ s.schemas.insert ref schema ↔ r = ref ∨ r ∈ s.schemas :=
      mem_insert
    have hl : ∀ {r sch}, (s.schemas.insert ref schema).lookup r = some sch →
        s.schemas.lookup r = some sch ∨ Reachable store [ref] r ∧ r.resolve store = .ok sch := by
      intro r sch h
      by_cases hr : r = ref
      · subst hr
        rw [lookup_insert] at h
        exact .inr ⟨hb, hre.trans (congrArg Except.ok (Option.some.inj h))⟩
      · rw [lookup_insert_of_ne _ hr] at h
        exact .inl h
    by_cases hvi : schema.id ∈ s.visitLog
    · refine ⟨{ s with schemas := s.schemas.insert ref schema },
        by simp only [follow, hre, if_pos hvi], ?_⟩
      constructor
      · exact ⟨fun _ h => hm.mpr (.inr h), subset_rfl, List.Subset.refl _⟩
      · exact hl
      · exact fun _ => .inl
      · intro r hr
        rw [mem_singleton.mp hr, Search.Handled, hre]
        exact ⟨hm.mpr (.inl rfl), hvi⟩
      · exact fun _ => .inl
    · obtain ⟨r, hr, h⟩ := hg schema hre hvi
      refine ⟨{ r with errors := s.errors ++ r.errors },
        by simp only [follow, hre, if_neg hvi, hr]; rfl, ?_⟩
      have hmo : r.Le { r with errors := s.errors ++ r.errors } :=
        ⟨fun _ h => h, subset_rfl, subset_append_right _ _⟩
      have hrc : ∀ {ref'}, Reachable store schema.importedSchemas ref' →
          Reachable store [ref] ref' := fun h => h.trans fun _ => .step hb hre
      constructor
      · exact ⟨fun _ hs => h.le.schemas _ (hm.mpr (.inr hs)),
          fun _ hv => h.le.visitLog (Finset.mem_insert_of_mem hv), subset_append_left _ _⟩
      · exact fun hs => (h.schemas hs).elim hl fun ⟨hr, he⟩ => .inr ⟨hrc hr, he⟩
      · intro e he
        refine (mem_append.mp he).imp_right fun he => ?_
        obtain ⟨ref', hr, he⟩ := (h.errors e he).resolve_left not_mem_nil
        exact ⟨ref', hrc hr, he⟩
      · intro r' hr'
        rw [mem_singleton.mp hr', Search.Handled, hre]
        exact ⟨h.le.schemas ref (hm.mpr (.inl rfl)),
          h.le.visitLog (Finset.mem_insert_self _ _)⟩
      · intro ref' sch hsch hmem'
        rcases h.closed hsch hmem' with hmem' | hhandled
        · rcases Finset.mem_insert.mp hmem' with heq | hmem'
          · -- schemas of one id are one schema
            have ho := lookup_of_resolve hsch
            rw [← hid _ _ ho, heq, hid _ _ (lookup_of_resolve hre),
              lookup_of_resolve hre] at ho
            cases ho
            exact .inr fun r hr => (h.handled r hr).mono hmo
          · exact .inl hmem'
        · exact .inr fun r hr => (hhandled r hr).mono hmo

/-- **The search ends**, if it may go as deep as there are schemas that were not visited. -/
theorem resolveImportGraph_spec : ∀ (fuel : ℕ) (self : InputSchema) (s : Search),
    (store.keys \ s.visitLog).card < fuel → ∃ s', resolveImportGraph store fuel self s = some s' ∧
      Follows store self.importedSchemas { s with errors := [] } s'
  | 0, _, _, hf => absurd hf (Nat.not_lt_zero _)
  | fuel + 1, self, s, hf => by
    have hru : ∀ (refs : List SchemaReference) (s : Search),
        (store.keys \ s.visitLog).card < fuel + 1 → ∃ s',
          refs.foldlM (follow store (resolveImportGraph store fuel)) s = some s' ∧
            Follows store refs s s' := by
      intro refs
      induction refs with
      | nil => exact fun s _ => ⟨s, rfl, .nil s⟩
      | cons ref refs ih =>
        intro s hf
        obtain ⟨s₁, hs₁, h₁⟩ := follow_spec hid (fun schema hr hv => by
          -- the schema is not visited again further down
          refine resolveImportGraph_spec fuel schema ⟨_, insert schema.id s.visitLog, []⟩ ?_
          have hm : schema.id ∈ store.keys \ s.visitLog := by
            have hl := lookup_of_resolve hr
            refine Finset.mem_sdiff.2 ⟨?_, hv⟩
            rw [hid _ _ hl, Finmap.mem_keys, Finmap.mem_iff]
            exact ⟨schema, hl⟩
          show (store.keys \ insert schema.id s.visitLog).card < fuel
          rw [Finset.sdiff_insert]
          exact (Finset.card_erase_lt_of_mem hm).trans_le (Nat.le_of_lt_succ hf))
        have hc := Finset.card_le_card (Finset.sdiff_subset_sdiff (subset_refl store.keys)
          h₁.le.visitLog)
        obtain ⟨s₂, hs₂, h₂⟩ := ih s₁ (hc.trans_lt hf)
        refine ⟨s₂, ?_, h₁.trans h₂⟩
        rw [foldlM_cons, hs₁]
        exact hs₂
    exact hru self.importedSchemas { s with errors := [] } hf

/-- **All that can be reached is found**: the search ends with exactly the references that are
reached and resolve, and with errors for exactly those that do not. -/
theorem resolveSchemaReferences_eq (self : InputSchema) {fuel : ℕ}
    (hfuel : store.keys.card < fuel) :
    ∃ schemas errors, self.resolveSchemaReferences store fuel = some (schemas, errors) ∧
      (∀ ref schema, schemas.lookup ref = some schema ↔
        Reachable store self.importedSchemas ref ∧ ref.resolve store = .ok schema) ∧
      ∀ err, err ∈ errors ↔
        ∃ ref, Reachable store self.importedSchemas ref ∧ ref.resolve store = .error err := by
  obtain ⟨s, hs, h⟩ := resolveImportGraph_spec hid fuel self ⟨∅, ∅, []⟩ (by simpa using hfuel)
  have hh : ∀ {ref}, Reachable store self.importedSchemas ref → s.Handled store ref := by
    intro ref hre
    induction hre with
    | base hm => exact h.handled _ hm
    | step _ hr hm ih =>
      rw [Search.Handled, hr] at ih
      exact (h.closed hr ih.2).resolve_left (Finset.notMem_empty _) _ hm
  refine ⟨s.schemas, s.errors, by rw [resolveSchemaReferences, hs]; rfl, ?_, ?_⟩
  · intro ref schema
    have hso : ∀ {sch}, s.schemas.lookup ref = some sch →
        Reachable store self.importedSchemas ref ∧ ref.resolve store = .ok sch := fun hl =>
      (h.schemas hl).resolve_left (by simp)
    refine ⟨hso, fun ⟨hre, hr⟩ => ?_⟩
    have hm := hh hre
    rw [Search.Handled, hr] at hm
    obtain ⟨sch, hsch⟩ := mem_iff.mp hm.1
    have heq := (hso hsch).2
    rw [hr] at heq
    rw [hsch, Except.ok.inj heq]
  · intro err
    refine ⟨fun he => (h.errors err he).resolve_left not_mem_nil, ?_⟩
    rintro ⟨ref, hre, hr⟩
    have hm := hh hre
    rw [Search.Handled, hr] at hm
    exact hm

end Search

def selfImport : InputSchema where
  id := "A"
  document := ⟨[.object ⟨schemaTypeName, [],
    ["A", "B"].map fun id => ⟨"import", [("from", .object [("id", .string id)])]⟩, []⟩]⟩
  typesForInterface := []

theorem selfImport_resolved : ∃ schemas errors,
    selfImport.resolveSchemaReferences (Finmap.singleton "A" selfImport) 2
      = some (schemas, errors) ∧
    schemas.lookup ⟨"A"⟩ = some selfImport ∧
      SchemaImportError.importedSchemaNotFound ⟨"B"⟩ ∈ errors := by
  have hr : selfImport.importedSchemas = [⟨"A"⟩, ⟨"B"⟩] := by decide
  have hid : ∀ hash schema, (Finmap.singleton "A" selfImport : SchemaStore).lookup hash
      = some schema → schema.id = hash := by
    intro hash schema h
    by_cases heq : hash = "A"
    · subst heq
      cases h
      rfl
    · rw [lookup_eq_none.mpr (by simpa using heq)] at h
      cases h
  obtain ⟨schemas, errors, hso, hs, he⟩ :=
    resolveSchemaReferences_eq hid selfImport (show _ < 2 by decide)
  refine ⟨schemas, errors, hso, (hs _ _).mpr ⟨.base ?_, rfl⟩,
    (he _).mpr ⟨⟨"B"⟩, .base ?_, rfl⟩⟩
  · rw [hr]
    exact mem_cons_self
  · rw [hr]
    exact mem_cons_of_mem _ (mem_singleton_self _)

end InputSchema

end Massbit.GraphQL
