/-
The object types of a document and the interfaces that they implement
(`Schema::collect_interfaces`).
-/
import Massbit.GraphQL.Validation

open List Outcome Finmap

namespace Massbit.GraphQL

def trim (s : String) : String :=
  .ofList ((s.toList.dropWhile Char.isWhitespace).reverse.dropWhile Char.isWhitespace).reverse

def ObjectTypeDefinition.hasField (self : ObjectTypeDefinition) (f : FieldDefinition) : Bool :=
  self.fields.any fun o => o.name = f.name && o.fieldType = f.fieldType

def validateInterfaceImplementation (fmt : Formatter) (object : ObjectTypeDefinition)
    (interface : InterfaceTypeDefinition) : Outcome SchemaValidationError Unit :=
  let missingFields := interface.fields.filter fun i => !object.hasField i
  if !missingFields.isEmpty then
    .err (.interfaceFieldsMissing object.name interface.name
      (missingFields.map fun i => trim (fmt.field i)))
  else .ok ()

abbrev Implementations :=
  HashMap EntityType (List InterfaceTypeDefinition) × HashMap EntityType (List ObjectTypeDefinition)

section

variable (fmt : Formatter) (document : Document)

def collectInterface (acc : Implementations) (e : ObjectTypeDefinition × String) :
    Outcome SchemaValidationError Implementations :=
  match document.findInterface e.2 with
  | none => .err (.interfaceUndefined e.2)
  | some interfaceType => do
    validateInterfaceImplementation fmt e.1 interfaceType
    match acc.2.lookup e.2 with
    -- `get_mut(..).unwrap()`
    | none => .panic
    | some types =>
      return (pushAt acc.1 (e.1.name, interfaceType), acc.2.insert e.2 (types ++ [e.1]))

def Document.implementsClauses : List (ObjectTypeDefinition × String) :=
  document.getObjectTypeDefinitions.flatMap fun t => t.implementsInterfaces.map fun name => (t, name)

def Document.initialTypes : HashMap EntityType (List ObjectTypeDefinition) :=
  document.getInterfaceTypeDefinitions.foldl (fun m t => m.insert t.name []) ∅

def collectInterfaces : Outcome SchemaValidationError Implementations :=
  document.implementsClauses.foldlM (collectInterface fmt document) (∅, document.initialTypes)

end

variable {fmt : Formatter} {document : Document}

def Document.Implements (document : Document) (e : ObjectTypeDefinition × String) : Prop :=
  ∃ i ∈ document.getInterfaceTypeDefinitions, i.name = e.2 ∧ ∀ f ∈ i.fields, e.1.hasField f

def Document.TypesDistinct (document : Document) : Prop :=
  (document.definitions.map TypeDefinition.name).Nodup

theorem Document.TypesDistinct.nodup (h : document.TypesDistinct) {A : Type}
    {g : TypeDefinition → Option A} {name : A → String}
    (hg : ∀ d a, g d = some a → name a = d.name) :
    ((document.definitions.filterMap g).map name).Nodup := by
  refine Sublist.nodup ?_ h
  induction document.definitions with
  | nil => exact .slnil
  | cons d l ih =>
    rcases hd : g d with - | a
    · rw [filterMap_cons_none hd]
      exact ih.cons _
    · rw [filterMap_cons_some hd, map_cons, map_cons, hg d a hd]
      exact ih.cons_cons _

variable {i : InterfaceTypeDefinition}

theorem Document.TypesDistinct.findInterface_eq (h : document.TypesDistinct) {name : String} :
    document.findInterface name = some i ↔
      i ∈ document.getInterfaceTypeDefinitions ∧ i.name = name := by
  have hn : (document.getInterfaceTypeDefinitions.map InterfaceTypeDefinition.name).Nodup :=
    h.nodup (by rintro (_ | _ | _ | _ | _ | _) a ⟨⟩; rfl)
  unfold Document.findInterface
  constructor
  · intro hf
    exact ⟨mem_of_find?_eq_some hf, by simpa using find?_some hf⟩
  · rintro ⟨hi, rfl⟩
    rcases hf : document.getInterfaceTypeDefinitions.find? fun t => t.name = i.name with - | j
    · exact absurd (find?_eq_none.1 hf i hi) (by simp)
    · rw [hf, inj_on_of_nodup_map hn (mem_of_find?_eq_some hf) hi (by simpa using find?_some hf)]

def push (document : Document) (acc : Implementations) (e : ObjectTypeDefinition × String) :
    Implementations :=
  ((document.findInterface e.2).elim acc.1 fun i => pushAt acc.1 (e.1.name, i),
    pushAt acc.2 (e.2, e.1))

theorem collectInterface_eq (hd : document.TypesDistinct) {acc : Implementations}
    (hk : ∀ i ∈ document.getInterfaceTypeDefinitions, i.name ∈ acc.2)
    (e : ObjectTypeDefinition × String) :
    document.Implements e ∧ collectInterface fmt document acc e = .ok (push document acc e) ∨
      ¬document.Implements e ∧ ∃ err, collectInterface fmt document acc e = .err err := by
  rcases hf : document.findInterface e.2 with - | i
  · refine .inr ⟨?_, _, by rw [collectInterface, hf]⟩
    rintro ⟨i, hi, hn, -⟩
    rw [hd.findInterface_eq.2 ⟨hi, hn⟩] at hf
    cases hf
  · obtain ⟨hi, hn⟩ := hd.findInterface_eq.1 hf
    obtain ⟨types, ht⟩ := mem_iff.1 (hn ▸ hk i hi)
    by_cases hm : ∀ f ∈ i.fields, e.1.hasField f
    · refine .inl ⟨⟨i, hi, hn, hm⟩, ?_⟩
      have hv : validateInterfaceImplementation fmt e.1 i = .ok () := by
        unfold validateInterfaceImplementation
        simpa using hm
      rw [collectInterface, hf]
      simp only [hv, ht, push, hf, pushAt]
      rfl
    · refine .inr ⟨?_, ?_⟩
      · rintro ⟨j, hj, hjn, hjm⟩
        cases hf.symm.trans (hd.findInterface_eq.2 ⟨hj, hjn⟩)
        exact hm hjm
      · have hv : ∃ err, validateInterfaceImplementation fmt e.1 i = .err err := by
          unfold validateInterfaceImplementation
          refine ⟨_, if_pos ?_⟩
          simpa using hm
        obtain ⟨err, hv⟩ := hv
        refine ⟨err, ?_⟩
        rw [collectInterface, hf]
        simp only [hv]
        rfl

theorem foldlM_collectInterface (hd : document.TypesDistinct)
    (l : List (ObjectTypeDefinition × String)) {acc : Implementations}
    (hk : ∀ i ∈ document.getInterfaceTypeDefinitions, i.name ∈ acc.2) :
    (∀ e ∈ l, document.Implements e) ∧
        l.foldlM (collectInterface fmt document) acc = .ok (l.foldl (push document) acc) ∨
      ¬(∀ e ∈ l, document.Implements e) ∧
        ∃ err, l.foldlM (collectInterface fmt document) acc = .err err := by
  induction l generalizing acc with
  | nil => exact .inl ⟨nofun, rfl⟩
  | cons e l ih =>
    rw [foldlM_cons, forall_mem_cons]
    rcases collectInterface_eq hd hk e with ⟨hi, he⟩ | ⟨hi, err, he⟩
    · have hk' : ∀ i ∈ document.getInterfaceTypeDefinitions, i.name ∈ (push document acc e).2 :=
        fun i hm => mem_insert.2 (.inr (hk i hm))
      rw [he]
      rcases ih hk' with ⟨hl, hr⟩ | ⟨hl, err, hr⟩
      · exact .inl ⟨⟨hi, hl⟩, hr⟩
      · exact .inr ⟨fun h => hl h.2, err, hr⟩
    · rw [he]
      exact .inr ⟨fun h => hi h.1, err, rfl⟩

variable {l : List (ObjectTypeDefinition × String)} {acc : Implementations} {t name : String}

theorem snd_foldl_push : (l.foldl (push document) acc).2 =
    (l.map fun e => (e.2, e.1)).foldl pushAt acc.2 := by
  induction l generalizing acc with
  | nil => rfl
  | cons e l ih => exact ih

theorem fst_foldl_push : (l.foldl (push document) acc).1 = (l.flatMap fun e =>
    (document.findInterface e.2).toList.map fun i => (e.1.name, i)).foldl pushAt acc.1 := by
  induction l generalizing acc with
  | nil => rfl
  | cons e l ih =>
    rw [foldl_cons, ih, flatMap_cons, foldl_append]
    rcases hf : document.findInterface e.2 with - | i <;> simp [push, hf]

def IsClause (t name : String) (e : ObjectTypeDefinition × String) : Bool :=
  e.1.name = t && e.2 == name

theorem countP_types : (((l.foldl (push document) acc).2.lookup name).getD []).countP (·.name = t)
    = ((acc.2.lookup name).getD []).countP (·.name = t) + l.countP (IsClause t name) := by
  rw [snd_foldl_push, getD_lookup_foldl_pushAt, countP_append, countP_map, countP_filter, countP_map]
  rfl

theorem countP_interfaces (hd : document.TypesDistinct) (hl : ∀ e ∈ l, document.Implements e) :
    (((l.foldl (push document) acc).1.lookup t).getD []).countP (·.name = name)
      = ((acc.1.lookup t).getD []).countP (·.name = name) + l.countP (IsClause t name) := by
  rw [fst_foldl_push, getD_lookup_foldl_pushAt, countP_append, countP_map, countP_filter,
    Nat.add_left_cancel_iff]
  induction l with
  | nil => rfl
  | cons e l ih =>
    obtain ⟨⟨i, hi, hn, -⟩, hl⟩ := forall_mem_cons.1 hl
    rw [flatMap_cons, countP_append, ih hl, hd.findInterface_eq.2 ⟨hi, hn⟩, countP_cons, add_comm]
    simp [IsClause, hn, countP_cons, and_comm]

theorem countP_implementsClauses (hd : document.TypesDistinct) {o : ObjectTypeDefinition}
    (ho : o ∈ document.getObjectTypeDefinitions) :
    document.implementsClauses.countP (IsClause o.name name) = o.implementsInterfaces.count name := by
  have hn : (document.getObjectTypeDefinitions.map ObjectTypeDefinition.name).Nodup :=
    hd.nodup (by rintro (_ | _ | _ | _ | _ | _) a ⟨⟩; rfl)
  obtain ⟨pre, post, he⟩ := append_of_mem ho
  have hz (l : List ObjectTypeDefinition) (hl : ∀ t ∈ l, t.name ≠ o.name) :
      (l.flatMap fun t => t.implementsInterfaces.map fun name => (t, name)).countP
        (IsClause o.name name) = 0 := by
    refine countP_eq_zero.2 fun e hm => ?_
    obtain ⟨t, ht, hm⟩ := mem_flatMap.1 hm
    obtain ⟨_, -, rfl⟩ := mem_map.1 hm
    simp [IsClause, hl t ht]
  rw [he, map_append, map_cons, nodup_append, nodup_cons] at hn
  rw [Document.implementsClauses, he, flatMap_append, flatMap_cons, countP_append, countP_append,
    hz pre fun t ht => hn.2.2 _ (mem_map_of_mem ht) _ mem_cons_self, hz post (by grind), countP_map]
  simp [count, IsClause, Function.comp_def]

theorem getD_initialTypes (name : String) : (document.initialTypes.lookup name).getD [] = [] := by
  suffices h : ∀ (l : List InterfaceTypeDefinition)
      (m : HashMap EntityType (List ObjectTypeDefinition)),
      (m.lookup name).getD [] = [] →
        ((l.foldl (fun m t => m.insert t.name []) m).lookup name).getD [] = [] from h _ ∅ rfl
  intro l
  induction l with
  | nil => exact fun _ h => h
  | cons t l ih =>
    refine fun m h => ih _ ?_
    by_cases ht : name = t.name
    · rw [ht, lookup_insert]
      rfl
    · rwa [lookup_insert_of_ne _ ht]

theorem mem_initialTypes (hi : i ∈ document.getInterfaceTypeDefinitions) :
    i.name ∈ document.initialTypes :=
  foldl_of_mem hi (P := fun m => i.name ∈ m) (fun _ => mem_insert.2 (.inl rfl))
    (fun _ _ h => mem_insert.2 (.inr h)) ∅

/-- **Interfaces are collected if and only if they are defined and the types have their fields.**
Then every interface has an entry, and types and interfaces are listed as often as in the
`implements` clauses. -/
theorem collectInterfaces_spec (fmt : Formatter) {document : Document} (hd : document.TypesDistinct) :
    collectInterfaces fmt document ≠ .panic ∧
      ((∃ r, collectInterfaces fmt document = .ok r) ↔
        ∀ t ∈ document.getObjectTypeDefinitions, ∀ name ∈ t.implementsInterfaces,
          ∃ i ∈ document.getInterfaceTypeDefinitions, i.name = name ∧
            ∀ f ∈ i.fields, ∃ o ∈ t.fields, o.name = f.name ∧ o.fieldType = f.fieldType) ∧
      ∀ r, collectInterfaces fmt document = .ok r →
        (∀ i ∈ document.getInterfaceTypeDefinitions, i.name ∈ r.2) ∧
        ∀ i ∈ document.getInterfaceTypeDefinitions, ∀ t ∈ document.getObjectTypeDefinitions,
          ((r.2.lookup i.name).getD []).countP (·.name = t.name) =
              t.implementsInterfaces.count i.name ∧
            ((r.1.lookup t.name).getD []).countP (·.name = i.name) =
              t.implementsInterfaces.count i.name := by
  have hi : (∀ e ∈ document.implementsClauses, document.Implements e) ↔
      ∀ t ∈ document.getObjectTypeDefinitions, ∀ name ∈ t.implementsInterfaces,
        ∃ i ∈ document.getInterfaceTypeDefinitions, i.name = name ∧
          ∀ f ∈ i.fields, ∃ o ∈ t.fields, o.name = f.name ∧ o.fieldType = f.fieldType := by
    simp [Document.implementsClauses, Document.Implements, ObjectTypeDefinition.hasField]
    grind
  rw [← hi]
  unfold collectInterfaces
  rcases @foldlM_collectInterface fmt document hd document.implementsClauses
    (∅, document.initialTypes) fun _ => mem_initialTypes with ⟨hl, hr⟩ | ⟨hl, err, hr⟩
  · rw [hr]
    refine ⟨nofun, iff_of_true ⟨_, rfl⟩ hl, ?_⟩
    rintro _ ⟨⟩
    refine ⟨fun i hm => ?_, fun i hm t ht => ⟨?_, ?_⟩⟩
    · exact foldlRecOn (motive := fun acc : Implementations => i.name ∈ acc.2) _ _
        (mem_initialTypes hm)
        fun acc h e _ => mem_insert.2 (.inr h)
    · simp [countP_types, getD_initialTypes, countP_implementsClauses hd ht]
    · simp [countP_interfaces hd hl, countP_implementsClauses hd ht]
  · rw [hr]
    exact ⟨nofun, iff_of_false (by simp) hl, nofun⟩

def nodeDocument : Document where
  definitions := [.interface ⟨"Node", [⟨"id", .nonNullType (.namedType "ID"), []⟩]⟩,
    .object ⟨"Token", ["Node"], [], [⟨"id", .nonNullType (.namedType "ID"), []⟩]⟩]

theorem nodeDocument_collected : nodeDocument.TypesDistinct ∧
    ∀ fmt, ∃ r, collectInterfaces fmt nodeDocument = .ok r ∧
      ((r.2.lookup "Node").getD []).countP (·.name = "Token") = 1 := by
  have hd : (nodeDocument.definitions.map TypeDefinition.name).Nodup := by decide
  refine ⟨hd, fun fmt => ?_⟩
  obtain ⟨-, hr, hc⟩ := collectInterfaces_spec fmt hd
  obtain ⟨r, h⟩ := hr.2 (by decide)
  exact ⟨r, h, ((hc r h).2 _ mem_cons_self _ mem_cons_self).1⟩

end Massbit.GraphQL
