/-
What a call filter knows (`EthereumCallFilter`).
-/
import Massbit.Ethereum.Filter

open List Finmap

namespace Massbit.EthereumCallFilter

variable {lib : EthereumLibraries}

def EntryOf (given : Set (BlockNumber × Bytes)) : Option (BlockNumber × Finset Bytes) → Prop
  | none => given = ∅
  | some s => IsLeast (Prod.fst '' given) s.1 ∧ (s.2 : Set Bytes) = Prod.snd '' given

namespace EntryOf

variable {A B : Set (BlockNumber × Bytes)} {s : BlockNumber × Finset Bytes}

theorem nonempty (h : EntryOf A (some s)) : A.Nonempty := h.1.nonempty.of_image

variable {e : Option (BlockNumber × Finset Bytes)}

theorem unique {e' : Option (BlockNumber × Finset Bytes)} (h : EntryOf A e) (h' : EntryOf A e') :
    e = e' := by
  rcases e with - | s
  · rcases e' with - | s'
    · rfl
    · exact absurd h h'.nonempty.ne_empty
  · rcases e' with - | s'
    · exact absurd h' h.nonempty.ne_empty
    · have hst : s.1 = s'.1 := h.1.unique h'.1
      have hs : s.2 = s'.2 := Finset.coe_injective (h.2.trans h'.2.symm)
      rw [Prod.ext hst hs]

theorem startBlock_iff {startBlock : BlockNumber} (h : EntryOf A e) :
    (∃ ss, e = some (startBlock, ss)) ↔ IsLeast (Prod.fst '' A) startBlock := by
  rcases e with - | s
  · constructor
    · rintro ⟨ss, hs⟩
      cases hs
    · intro hl
      exact absurd h hl.nonempty.of_image.ne_empty
  · constructor
    · rintro ⟨ss, hs⟩
      cases hs
      exact h.1
    · intro hl
      exact ⟨s.2, congrArg some (Prod.ext (h.1.unique hl) rfl)⟩

theorem singleton (sb : BlockNumber) (signature : Bytes) :
    EntryOf {(sb, signature)} (some (sb, {signature})) := by
  refine ⟨?_, ?_⟩
  · simp
  · rw [Set.image_singleton, Finset.coe_singleton]

theorem combine (hA : EntryOf A e) (hB : EntryOf B (some s)) :
    EntryOf (A ∪ B) (some (combine s e)) := by
  rcases e with - | t
  · have he : A = ∅ := hA
    rw [he, Set.empty_union]
    exact hB
  · refine ⟨?_, ?_⟩
    · rw [Set.image_union]
      show IsLeast _ (min s.1 t.1)
      rw [min_comm]
      exact hA.1.union hB.1
    · show ((t.2 ∪ s.2 : Finset Bytes) : Set Bytes) = _
      rw [Finset.coe_union, Set.image_union, hA.2, hB.2]

end EntryOf

def givenAt (items : Set (BlockNumber × Address × Bytes)) (address : Address) :
    Set (BlockNumber × Bytes) :=
  {x | (x.1, address, x.2) ∈ items}

theorem givenAt_union (items items' : Set (BlockNumber × Address × Bytes)) (address : Address) :
    givenAt (items ∪ items') address = givenAt items address ∪ givenAt items' address := rfl

theorem givenAt_singleton_self (sb : BlockNumber) (address : Address) (si : Bytes) :
    givenAt {(sb, address, si)} address = {(sb, si)} := by
  ext x
  simp [givenAt, Prod.ext_iff]

variable {x : BlockNumber × Address × Bytes}

theorem givenAt_singleton_of_ne {a : Address} (h : a ≠ x.2.1) : givenAt {x} a = ∅ :=
  Set.eq_empty_of_forall_notMem fun _ hm => h (congrArg (·.2.1) hm)

def Collects (items : Set (BlockNumber × Address × Bytes)) (filter : EthereumCallFilter) : Prop :=
  ∀ address, EntryOf (givenAt items address)
    (filter.contractAddressesFunctionSignatures.lookup address)

variable {items : Set (BlockNumber × Address × Bytes)} {f : EthereumCallFilter}

theorem Collects.unique {filter' : EthereumCallFilter} (h : Collects items f)
    (h' : Collects items filter') : f = filter' := by
  refine congrArg EthereumCallFilter.mk (ext_lookup fun a => ?_)
  exact (h a).unique (h' a)

theorem lookup_addSignature (l : HashMap Address (BlockNumber × Finset Bytes))
    (x : BlockNumber × Address × Bytes) (address : Address) :
    (addSignature l x).lookup address = if address = x.2.1
      then some (combine (x.1, {x.2.2}) (l.lookup address)) else l.lookup address := by
  unfold addSignature
  split_ifs with h
  · subst h
    rcases l.lookup x.2.1 with - | ⟨startBlock, ss⟩
    · exact lookup_insert _
    · refine (lookup_insert _).trans ?_
      have hm : (if startBlock > x.1 then x.1 else startBlock) = min x.1 startBlock := by
        split_ifs with hlt
        · exact (min_eq_left hlt.le).symm
        · exact (min_eq_right (not_lt.mp hlt)).symm
      rw [hm, Finset.insert_eq, Finset.union_comm]
      rfl
  · rcases l.lookup x.2.1 with - | ⟨startBlock, ss⟩
    · exact lookup_insert_of_ne _ h
    · exact lookup_insert_of_ne _ h

theorem Collects.addSignature {lookup : HashMap Address (BlockNumber × Finset Bytes)}
    (h : Collects items ⟨lookup⟩) (x : BlockNumber × Address × Bytes) :
    Collects (items ∪ {x}) ⟨addSignature lookup x⟩ := by
  obtain ⟨startBlock, contract, signature⟩ := x
  intro address
  rw [lookup_addSignature, givenAt_union]
  split_ifs with ha
  · obtain rfl : address = contract := ha
    rw [givenAt_singleton_self]
    exact (h address).combine (.singleton startBlock signature)
  · rw [givenAt_singleton_of_ne ha, Set.union_empty]
    exact h address

theorem collects_fromIter (items : List (BlockNumber × Address × Bytes)) :
    Collects {x | x ∈ items} (fromIter items) := by
  induction items using List.reverseRecOn with
  | nil =>
    intro address
    have hn : (fromIter []).contractAddressesFunctionSignatures.lookup address = none :=
      lookup_empty address
    exact Set.eq_empty_of_forall_notMem fun _ => not_mem_nil
  | append_singleton items x ih =>
    have hf : fromIter (items ++ [x]) = ⟨EthereumCallFilter.addSignature
        (fromIter items).contractAddressesFunctionSignatures x⟩ :=
      congrArg EthereumCallFilter.mk (foldl_append ..)
    have hi : {y | y ∈ items ++ [x]} = {y | y ∈ items} ∪ {x} := by
      ext y
      simp [or_comm]
    rw [hf, hi]
    exact ih.addSignature x

theorem Collects.extend {its' : Set (BlockNumber × Address × Bytes)}
    {o : EthereumCallFilter} (h : Collects items f) (h' : Collects its' o) :
    Collects (items ∪ its') (f.extend o) := by
  intro a
  have ho := h' a
  rw [lookup_extend, givenAt_union]
  generalize o.contractAddressesFunctionSignatures.lookup a = en at ho
  rcases en with - | s
  · rw [show givenAt its' a = ∅ from ho, Set.union_empty]
    exact h a
  · exact (h a).combine ho

theorem Collects.matchesCall (h : Collects items f) {call : EthereumCall}
    (hi : 4 ≤ call.input.length) : ∃ im, f.matchesCall call = some im ∧
      (im = true ↔ ∃ sb, (sb, call.toAddress, call.input.take 4) ∈ items) := by
  have he := h call.toAddress
  have hm : (∃ sb, (sb, call.toAddress, call.input.take 4) ∈ items)
      ↔ call.input.take 4 ∈ Prod.snd '' givenAt items call.toAddress := by
    simp [givenAt]
  unfold EthereumCallFilter.matchesCall
  rw [hm]
  generalize f.contractAddressesFunctionSignatures.lookup call.toAddress = en at he
  rcases en with - | ⟨s, ss⟩
  · refine ⟨false, rfl, ?_⟩
    rw [show givenAt items call.toAddress = ∅ from he, Set.image_empty]
    simp
  · have hne : ss ≠ ∅ := by
      rintro rfl
      have him : Prod.snd '' givenAt items call.toAddress = ∅ := by
        rw [← he.2, Finset.coe_empty]
      exact he.nonempty.ne_empty (Set.image_eq_empty.1 him)
    refine ⟨decide (call.input.take 4 ∈ ss), ?_, ?_⟩
    · dsimp only
      rw [if_neg hne, if_pos hi]
    · rw [decide_eq_true_iff, ← he.2, Finset.mem_coe]

def functionsOf (dataSources : List (DataSource lib)) : Set (BlockNumber × Address × Bytes) :=
  {x | ∃ ds ∈ dataSources, ds.source.address = some x.2.1 ∧ ds.source.startBlock = x.1 ∧
    ∃ handler ∈ ds.mapping.callHandlers, handler.selector lib = x.2.2}

theorem mem_signaturesOf {ds : DataSource lib} :
    x ∈ signaturesOf ds ↔ ds.source.address = some x.2.1 ∧ ds.source.startBlock = x.1 ∧
      ∃ h ∈ ds.mapping.callHandlers, h.selector lib = x.2.2 := by
  obtain ⟨startBlock, address, si⟩ := x
  unfold signaturesOf
  rcases ds.source.address with - | c
  · simp
  · simp only [mem_map, Prod.mk.injEq, Option.some.injEq]
    constructor
    · rintro ⟨h, hmem, hstart, haddress, hselector⟩
      exact ⟨haddress, hstart, h, hmem, hselector⟩
    · rintro ⟨haddress, hstart, h, hmem, hselector⟩
      exact ⟨h, hmem, hstart, haddress, hselector⟩

theorem collects_fromDataSources (dataSources : List (DataSource lib)) :
    Collects (functionsOf dataSources) (fromDataSources dataSources) := by
  have hi : functionsOf dataSources = {x | x ∈ dataSources.flatMap signaturesOf} := by
    ext x
    simp only [functionsOf, Set.mem_ofPred_eq, mem_flatMap, mem_signaturesOf]
  rw [hi]
  exact collects_fromIter _

theorem functionsOf_append (A B : List (DataSource lib)) :
    functionsOf (A ++ B) = functionsOf A ∪ functionsOf B := by
  ext x
  simp only [functionsOf, Set.mem_ofPred_eq, Set.mem_union, mem_append, or_and_right, exists_or]

theorem functionsOf_perm {A B : List (DataSource lib)} (h : A.Perm B) :
    functionsOf A = functionsOf B := by
  ext x
  simp only [functionsOf, Set.mem_ofPred_eq, h.mem_iff]

theorem image_fst_givenAt_functionsOf (dso : List (DataSource lib)) (a : Address) :
    Prod.fst '' givenAt (functionsOf dso) a
      = {s | ∃ ds ∈ dso, ds.source.address = some a ∧
          ds.mapping.callHandlers ≠ [] ∧ ds.source.startBlock = s} := by
  ext s
  constructor
  · rintro ⟨x, ⟨ds, hds, ha, hs, h, hh, -⟩, rfl⟩
    exact ⟨ds, hds, ha, ne_nil_of_mem hh, hs⟩
  · rintro ⟨ds, hds, ha, hne, hs⟩
    obtain ⟨h, hh⟩ := exists_mem_of_ne_nil _ hne
    exact ⟨(s, h.selector lib), ⟨ds, hds, ha, hs, h, hh, rfl⟩, rfl⟩

/-- **The call filter is a union.** Extending the filter of some data sources with that of others
gives the filter of all of them. -/
theorem extend_fromDataSources (A B : List (DataSource lib)) :
    (fromDataSources A).extend (fromDataSources B) = fromDataSources (A ++ B) ∧
    (∀ C : List (DataSource lib), C.Perm (A ++ B) → fromDataSources C = fromDataSources (A ++ B)) ∧
    (∀ trace call, EthereumCall.tryFromTrace trace = some call →
      ∃ isMatch, (fromDataSources (A ++ B)).matchesCall call = some isMatch ∧
        (isMatch = true ↔ ∃ ds, (ds ∈ A ∨ ds ∈ B) ∧ ds.source.address = some call.toAddress ∧
          ∃ handler ∈ ds.mapping.callHandlers, handler.selector lib = call.input.take 4)) ∧
    ∀ address startBlock, (∃ signatures,
        (fromDataSources (A ++ B)).contractAddressesFunctionSignatures.lookup address
          = some (startBlock, signatures)) ↔
      IsLeast {s | ∃ ds ∈ A ++ B, ds.source.address = some address ∧
        ds.mapping.callHandlers ≠ [] ∧ ds.source.startBlock = s} startBlock := by
  have hal := collects_fromDataSources (A ++ B)
  refine ⟨?_, fun C hp => ?_, fun trace call hc => ?_, fun address startBlock => ?_⟩
  · have he := (collects_fromDataSources A).extend (collects_fromDataSources B)
    rw [← functionsOf_append] at he
    exact he.unique hal
  · have hC := collects_fromDataSources C
    rw [functionsOf_perm hp] at hC
    exact hC.unique hal
  · obtain ⟨-, hi, -⟩ := EthereumCall.tryFromTrace_eq_some hc
    obtain ⟨isMatch, hm, hif⟩ := hal.matchesCall hi
    refine ⟨isMatch, hm, hif.trans ?_⟩
    constructor
    · rintro ⟨startBlock, ds, hds, ha, -, hh⟩
      exact ⟨ds, mem_append.1 hds, ha, hh⟩
    · rintro ⟨ds, hds, ha, hh⟩
      exact ⟨ds.source.startBlock, ds, mem_append.2 hds, ha, rfl, hh⟩
  · rw [← image_fst_givenAt_functionsOf]
    exact (hal address).startBlock_iff

theorem extend_empty (f : EthereumCallFilter) : ({} : EthereumCallFilter).extend f = f := by
  refine congrArg mk (ext_lookup fun address => ?_)
  refine (lookup_extend {} f address).trans ?_
  rcases f.contractAddressesFunctionSignatures.lookup address with - | s
  · rfl
  · rfl

end Massbit.EthereumCallFilter

namespace Massbit.TriggerFilter

variable {lib : EthereumLibraries} {order : Finset.IterOrder (BlockNumber × Address)}

theorem fromDataSources_append_call (A B : List (DataSource lib)) :
    ((fromDataSources order A).extend order B).call = (fromDataSources order (A ++ B)).call := by
  have hu := (EthereumCallFilter.collects_fromDataSources A).extend
    (EthereumCallFilter.collects_fromDataSources B)
  rw [← EthereumCallFilter.functionsOf_append] at hu
  simp only [fromDataSources, extend, EthereumCallFilter.extend_empty]
  exact hu.unique (EthereumCallFilter.collects_fromDataSources (A ++ B))

theorem fromDataSources_append_block (A B : List (DataSource lib)) :
    ((fromDataSources order A).extend order B).block = (fromDataSources order (A ++ B)).block := by
  refine (EthereumBlockFilter.mk.injEq _ _ _ _).mpr ⟨?_, ?_⟩
  · -- extending never adds an address
    have hA := fromDataSources_block_contractAddresses order A
    refine (EthereumBlockFilter.extend_contractAddresses_empty hA _).trans ?_
    exact (fromDataSources_block_contractAddresses order (A ++ B)).symm
  · simp [fromDataSources, EthereumBlockFilter.extend, extend,
      EthereumBlockFilter.triggerEveryBlock_eq_any]

theorem fromDataSources_append (A B : List (DataSource lib)) :
    (fromDataSources order A).extend order B = fromDataSources order (A ++ B) := by
  have hlog : ((fromDataSources order A).extend order B).log
      = (fromDataSources order (A ++ B)).log := by
    simp [fromDataSources, extend, EthereumLogFilter.extend, EthereumLogFilter.fromDataSources]
  exact (mk.injEq _ _ _ _ _ _).mpr
    ⟨hlog, fromDataSources_append_call A B, fromDataSources_append_block A B⟩

end Massbit.TriggerFilter
