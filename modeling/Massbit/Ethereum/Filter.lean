/-
Trigger filters (`adapter.rs`).
-/
import Massbit.Ethereum.DataSource
import Mathlib.Data.Finset.Max
import Mathlib.Order.Bounds.Basic

open Finmap List Finset

namespace Massbit

variable {lib : EthereumLibraries}

/-- Corresponds to an `eth_getLogs` call. -/
structure EthGetLogsFilter where
  contracts : List Address
  eventSignatures : List H256
  deriving DecidableEq

def EthGetLogsFilter.matchesLog (self : EthGetLogsFilter) (log : Log) : Bool :=
  (self.contracts.isEmpty || log.address ∈ self.contracts) &&
    (self.eventSignatures.isEmpty || log.topics.head?.any (· ∈ self.eventSignatures))

structure EthereumLogFilter where
  ethLogsFilters : List EthGetLogsFilter := []
  deriving DecidableEq

namespace EthereumLogFilter

def forHandler (ds : DataSource lib) (handler : MappingEventHandler) : EthGetLogsFilter :=
  match ds.source.address with
  | some contract => ⟨[contract], [handler.topic0 lib]⟩
  | none => ⟨[], [handler.topic0 lib]⟩

def fromDataSources (dataSources : List (DataSource lib)) : EthereumLogFilter :=
  ⟨dataSources.flatMap fun ds => ds.mapping.eventHandlers.map (forHandler ds)⟩

def extend (self other : EthereumLogFilter) : EthereumLogFilter :=
  ⟨self.ethLogsFilters ++ other.ethLogsFilters⟩

def isEmpty (self : EthereumLogFilter) : Bool := self.ethLogsFilters.isEmpty

def matchesLog (self : EthereumLogFilter) (log : Log) : Bool :=
  self.ethLogsFilters.any fun filter => filter.matchesLog log

end EthereumLogFilter

structure EthereumCallFilter where
  contractAddressesFunctionSignatures : HashMap Address (BlockNumber × Finset Bytes) := ∅

namespace EthereumCallFilter

def matchesCall (self : EthereumCallFilter) (call : EthereumCall) : Option Bool :=
  match self.contractAddressesFunctionSignatures.lookup call.toAddress with
  | none => some false
  | some (_, signatures) =>
    if signatures = ∅ then some true
    else if 4 ≤ call.input.length then some (call.input.take 4 ∈ signatures)
    else none

def addSignature (lookup : HashMap Address (BlockNumber × Finset Bytes))
    (x : BlockNumber × Address × Bytes) : HashMap Address (BlockNumber × Finset Bytes) :=
  match lookup.lookup x.2.1 with
  | none => lookup.insert x.2.1 (x.1, {x.2.2})
  | some (startBlock, signatures) =>
    lookup.insert x.2.1 (if startBlock > x.1 then x.1 else startBlock, insert x.2.2 signatures)

def fromIter (items : List (BlockNumber × Address × Bytes)) : EthereumCallFilter :=
  ⟨items.foldl addSignature ∅⟩

def signaturesOf (ds : DataSource lib) : List (BlockNumber × Address × Bytes) :=
  match ds.source.address with
  | some contract => ds.mapping.callHandlers.map fun handler =>
      (ds.source.startBlock, contract, handler.selector lib)
  | none => []

def fromDataSources (dataSources : List (DataSource lib)) : EthereumCallFilter :=
  fromIter (dataSources.flatMap signaturesOf)

def combine (proposed : BlockNumber × Finset Bytes) :
    Option (BlockNumber × Finset Bytes) → BlockNumber × Finset Bytes
  | some (startBlock, signatures) => (min proposed.1 startBlock, signatures ∪ proposed.2)
  | none => proposed

def extendAt (lookup : HashMap Address (BlockNumber × Finset Bytes))
    (x : (_ : Address) × BlockNumber × Finset Bytes) :
    HashMap Address (BlockNumber × Finset Bytes) :=
  lookup.insert x.1 (combine x.2 (lookup.lookup x.1))

theorem extendAt_comm (l : HashMap Address (BlockNumber × Finset Bytes))
    (x y : (_ : Address) × BlockNumber × Finset Bytes) (h : x.1 ≠ y.1) :
    extendAt (extendAt l x) y = extendAt (extendAt l y) x := by
  unfold extendAt
  rw [lookup_insert_of_ne _ (Ne.symm h), lookup_insert_of_ne _ h, insert_insert_of_ne _ h]

def extend (self other : EthereumCallFilter) : EthereumCallFilter :=
  ⟨other.contractAddressesFunctionSignatures.forEach extendAt extendAt_comm
    self.contractAddressesFunctionSignatures⟩

def isEmpty (self : EthereumCallFilter) : Bool :=
  self.contractAddressesFunctionSignatures = ∅

theorem lookup_foldl_addSignature {x : BlockNumber × Address × Bytes}
    {its : List (BlockNumber × Address × Bytes)} (hx : x ∈ its)
    (l : HashMap Address (BlockNumber × Finset Bytes)) :
    ∃ s, (its.foldl addSignature l).lookup x.2.1 = some s ∧ s.1 ≤ x.1 ∧ x.2.2 ∈ s.2 := by
  refine foldl_of_mem (P := fun l : HashMap Address (BlockNumber × Finset Bytes) =>
    ∃ s, l.lookup x.2.1 = some s ∧ s.1 ≤ x.1 ∧ x.2.2 ∈ s.2) hx ?_ ?_ l
  · intro l
    unfold addSignature
    rcases e : l.lookup x.2.1 with - | ⟨sb, ss⟩
    · exact ⟨_, lookup_insert _, le_rfl, by simp⟩
    · refine ⟨_, lookup_insert _, ?_, by simp⟩
      split
      · exact le_rfl
      next h => exact not_lt.1 h
  · rintro l y ⟨s, hs, hle, hm⟩
    unfold addSignature
    by_cases hne : x.2.1 = y.2.1
    · rw [← hne, hs]
      refine ⟨_, lookup_insert _, ?_, mem_insert_of_mem hm⟩
      split
      next h => exact (le_of_lt h).trans hle
      · exact hle
    · refine ⟨s, ?_, hle, hm⟩
      split
      · rw [lookup_insert_of_ne _ hne, hs]
      · rw [lookup_insert_of_ne _ hne, hs]

theorem lookup_extend (self o : EthereumCallFilter) (ad : Address) :
    (self.extend o).contractAddressesFunctionSignatures.lookup ad
      = (o.contractAddressesFunctionSignatures.lookup ad).elim
          (self.contractAddressesFunctionSignatures.lookup ad)
          fun s => some (combine s (self.contractAddressesFunctionSignatures.lookup ad)) := by
  dsimp only [extend]
  refine forEach_at (m := o.contractAddressesFunctionSignatures) (a := ad)
    (g := fun l : HashMap Address (BlockNumber × Finset Bytes) => l.lookup ad)
    (h := fun s c => some (combine s c)) ?_ ?_ _
  · intro l x hx
    exact lookup_insert_of_ne _ (Ne.symm hx)
  · intro l s
    exact lookup_insert _

end EthereumCallFilter

structure EthereumBlockFilter where
  contractAddresses : Finset (BlockNumber × Address) := ∅
  triggerEveryBlock : Bool := false
  deriving DecidableEq

namespace EthereumBlockFilter

variable (order : Finset.IterOrder (BlockNumber × Address))

def keptStartBlock (other : EthereumBlockFilter) (startBlock : BlockNumber) (address : Address) :
    BlockNumber :=
  match (order.toList other.contractAddresses).find? fun e => e.2 = address with
  | some e => min e.1 startBlock
  | none => startBlock

def extend (self other : EthereumBlockFilter) : EthereumBlockFilter where
  triggerEveryBlock := self.triggerEveryBlock || other.triggerEveryBlock
  contractAddresses := (order.toList self.contractAddresses).foldl (fun addresses e =>
    insert (keptStartBlock order other e.1 e.2, e.2) addresses) ∅

def ofDataSource (ds : DataSource lib) (address : Address) : EthereumBlockFilter where
  triggerEveryBlock := ds.mapping.blockHandlers.any fun handler => handler.filter.isNone
  contractAddresses :=
    if ds.mapping.blockHandlers.any fun handler => handler.filter = some .call
    then {(ds.source.startBlock, address)} else ∅

def fromDataSources (dataSources : List (DataSource lib)) : EthereumBlockFilter :=
  dataSources.foldl (fun filter ds => match ds.source.address with
    | some address => filter.extend order (ofDataSource ds address)
    | none => filter) {}

def toCallFilter (self : EthereumBlockFilter) : EthereumCallFilter :=
  ⟨(order.toList self.contractAddresses).foldl (fun lookup e => lookup.insert e.2 (e.1, ∅)) ∅⟩

/-- The filter has the addresses of both, each with the least start block that is given for it. -/
structure IsUnion (a b c : EthereumBlockFilter) : Prop where
  triggerEveryBlock : c.triggerEveryBlock = (a.triggerEveryBlock || b.triggerEveryBlock)
  contractAddresses : ∀ startBlock address, (startBlock, address) ∈ c.contractAddresses ↔
    IsLeast {s | (s, address) ∈ a.contractAddresses ∨ (s, address) ∈ b.contractAddresses} startBlock

variable {order} {a b : EthereumBlockFilter} {ad : Address}

theorem mem_extend {startBlock : BlockNumber} :
    (startBlock, ad) ∈ (a.extend order b).contractAddresses ↔
      ∃ s, (s, ad) ∈ a.contractAddresses ∧ keptStartBlock order b s ad = startBlock := by
  have hf : ∀ (l : List (BlockNumber × Address)) (ads : Finset (BlockNumber × Address)),
      (startBlock, ad) ∈ l.foldl (fun ads e =>
          insert (keptStartBlock order b e.1 e.2, e.2) ads) ads ↔
        (startBlock, ad) ∈ ads ∨
          ∃ s, (s, ad) ∈ l ∧ keptStartBlock order b s ad = startBlock := by
    intro l
    induction l with
    | nil => simp
    | cons e l ih =>
      intro ads
      rw [foldl_cons, ih, Finset.mem_insert]
      constructor
      · rintro ((h | h) | ⟨s, hs, h⟩)
        · cases h
          exact .inr ⟨e.1, by simp, rfl⟩
        · exact .inl h
        · exact .inr ⟨s, mem_cons_of_mem e hs, h⟩
      · rintro (h | ⟨s, hs, rfl⟩)
        · exact .inl (.inr h)
        · rcases mem_cons.mp hs with rfl | hs
          · exact .inl (.inl rfl)
          · exact .inr ⟨s, hs, rfl⟩
  rw [extend, hf]
  simp [order.mem_toList]

variable {s : BlockNumber}

theorem keptStartBlock_cases (order : Finset.IterOrder (BlockNumber × Address))
    (b : EthereumBlockFilter) (s : BlockNumber) (ad : Address) :
    (∃ t, (t, ad) ∈ b.contractAddresses ∧ keptStartBlock order b s ad = min t s) ∨
      (∀ t, (t, ad) ∉ b.contractAddresses) ∧ keptStartBlock order b s ad = s := by
  unfold keptStartBlock
  split
  next e he =>
    have hm : e ∈ b.contractAddresses := order.mem_toList.1 (mem_of_find?_eq_some he)
    have haddress : e.2 = ad := by simpa using List.find?_some he
    exact .inl ⟨e.1, haddress ▸ hm, rfl⟩
  next he =>
    refine .inr ⟨fun t ht => ?_, rfl⟩
    exact absurd (List.find?_eq_none.1 he _ (order.mem_toList.2 ht)) (by simp)

theorem keptStartBlock_mem (hs : (s, ad) ∈ a.contractAddresses) :
    (keptStartBlock order b s ad, ad) ∈ a.contractAddresses ∨
      (keptStartBlock order b s ad, ad) ∈ b.contractAddresses := by
  rcases keptStartBlock_cases order b s ad with ⟨t, ht, hk⟩ | ⟨-, hk⟩ <;> rw [hk]
  · rcases min_choice t s with h | h <;> rw [h]
    · exact .inr ht
    · exact .inl hs
  · exact .inl hs

/-- The filter `c` gives the address one start block, and none of `a` and `b` is smaller. -/
def GivesFirst (a b c : EthereumBlockFilter) (address : Address) : Prop :=
  (∃ s, (s, address) ∈ c.contractAddresses) ∧ ∀ s, (s, address) ∈ c.contractAddresses →
    ∀ t, (t, address) ∈ a.contractAddresses ∨ (t, address) ∈ b.contractAddresses → s ≤ t

theorem GivesFirst.keptStartBlock_le {s t : BlockNumber}
    (h : GivesFirst a b a ad ∨ GivesFirst a b b ad) (hs : (s, ad) ∈ a.contractAddresses)
    (ht : (t, ad) ∈ a.contractAddresses ∨ (t, ad) ∈ b.contractAddresses) :
    keptStartBlock order b s ad ≤ t := by
  rcases keptStartBlock_cases order b s ad with ⟨s', hs', hk⟩ | ⟨hn, hk⟩ <;> rw [hk]
  · rcases h with h | h
    · exact (min_le_right _ _).trans (h.2 s hs t ht)
    · exact (min_le_left _ _).trans (h.2 s' hs' t ht)
  · rcases h with h | ⟨⟨s', hs'⟩, -⟩
    · exact h.2 s hs t ht
    · exact absurd hs' (hn s')

/-- If both filters have an entry for the address that is not the first one, these two are the ones
that meet when the entry of `b` is found first. -/
theorem givesFirst_of_isUnion (hs : (s, ad) ∈ a.contractAddresses)
    (h : ∀ order, IsUnion a b (a.extend order b)) :
    GivesFirst a b a ad ∨ GivesFirst a b b ad := by
  have hk (o : Finset.IterOrder _) {s' t} (hs' : (s', ad) ∈ a.contractAddresses)
      (ht : (t, ad) ∈ a.contractAddresses ∨ (t, ad) ∈ b.contractAddresses) :
      keptStartBlock o b s' ad ≤ t :=
    (((h o).contractAddresses _ _).1 (mem_extend.2 ⟨s', hs', rfl⟩)).2 ht
  by_contra! hn
  simp only [GivesFirst, not_and, not_forall, not_le] at hn
  obtain ⟨s₁, hs₁, t₁, ht₁, hlt₁⟩ := hn.1 ⟨s, hs⟩
  by_cases hb : ∃ s₂, (s₂, ad) ∈ b.contractAddresses
  · obtain ⟨s₂, hs₂, t₂, ht₂, hlt₂⟩ := hn.2 hb
    have hf : keptStartBlock (.startWith (s₂, ad)) b s₁ ad = min s₂ s₁ := by
      simp [keptStartBlock, Finset.IterOrder.startWith, hs₂]
    have hle₁ := hk (.startWith (s₂, ad)) hs₁ ht₁
    have hle₂ := hk (.startWith (s₂, ad)) hs₁ ht₂
    rw [hf] at hle₁ hle₂
    rcases min_choice s₂ s₁ with hm | hm
    · exact absurd (hm ▸ hle₂) (not_le.2 hlt₂)
    · exact absurd (hm ▸ hle₁) (not_le.2 hlt₁)
  · rcases keptStartBlock_cases .choose b s₁ ad with ⟨t, ht, -⟩ | ⟨-, hf⟩
    · exact hb ⟨t, ht⟩
    · exact absurd (hf ▸ hk .choose hs₁ ht₁) (not_le.2 hlt₁)

/-- **Extending is a union, in whatever order the sets are visited, if and only if** the other filter
has no address of its own, and for each address one of the filters gives one start block only, which
is the least one that is given. -/
theorem isUnion_extend_iff (a b : EthereumBlockFilter) :
    (∀ order, IsUnion a b (a.extend order b)) ↔
      (∀ {s address}, (s, address) ∈ b.contractAddresses →
        ∃ s', (s', address) ∈ a.contractAddresses) ∧
      ∀ {s address}, (s, address) ∈ a.contractAddresses →
        GivesFirst a b a address ∨ GivesFirst a b b address := by
  constructor
  · intro h
    refine ⟨fun {s address} hs => ?_, fun hs => givesFirst_of_isUnion hs h⟩
    -- the least start block for the address is in the result, so it comes from `a`
    have hne : ((a.contractAddresses ∪ b.contractAddresses).filter fun e => e.2 = address).Nonempty :=
      ⟨(s, address), by simp [hs]⟩
    obtain ⟨e, he, hm⟩ := Finset.exists_min_image _ Prod.fst hne
    rw [Finset.mem_filter, Finset.mem_union] at he
    obtain ⟨hme, rfl⟩ := he
    have hl : (e.1, e.2) ∈ (a.extend .choose b).contractAddresses :=
      ((h _).contractAddresses _ _).2 ⟨hme, fun t ht => hm (t, e.2) (by simpa using ht)⟩
    obtain ⟨s', hs', -⟩ := mem_extend.1 hl
    exact ⟨s', hs'⟩
  · rintro ⟨hsu, hk⟩ order
    refine ⟨rfl, fun sb address => ?_⟩
    rw [mem_extend]
    constructor
    · rintro ⟨s, hs, rfl⟩
      exact ⟨keptStartBlock_mem hs, fun t ht => GivesFirst.keptStartBlock_le (hk hs) hs ht⟩
    · intro hl
      obtain ⟨s, hs⟩ : ∃ s, (s, address) ∈ a.contractAddresses := by
        rcases hl.1 with h | h
        · exact ⟨sb, h⟩
        · exact hsu h
      refine ⟨s, hs, le_antisymm (GivesFirst.keptStartBlock_le (hk hs) hs hl.1) ?_⟩
      exact hl.2 (keptStartBlock_mem hs)

theorem extend_drops_address :
    ¬ IsUnion {} { contractAddresses := {(0, 1)} }
      (extend .choose {} { contractAddresses := {(0, 1)} }) := by
  rintro ⟨-, h⟩
  obtain ⟨s, hs, -⟩ := mem_extend.1 ((h 0 1).2 ⟨.inr (by simp), by simp [lowerBounds]⟩)
  cases hs

theorem extend_contractAddresses_empty {a : EthereumBlockFilter} (ha : a.contractAddresses = ∅)
    (b : EthereumBlockFilter) : (a.extend order b).contractAddresses = ∅ := by
  refine eq_empty_of_forall_notMem fun ⟨s, ad⟩ h => ?_
  obtain ⟨s', hs', -⟩ := mem_extend.mp h
  rw [ha] at hs'
  cases hs'

theorem triggerEveryBlock_fromDataSources {dso : List (DataSource lib)}
    {ds : DataSource lib} (hds : ds ∈ dso) (ha : ds.source.address.isSome)
    (hh : ds.mapping.blockHandlers.any fun h => h.filter.isNone) :
    (fromDataSources order dso).triggerEveryBlock = true := by
  refine foldl_of_mem (P := fun f : EthereumBlockFilter =>
    f.triggerEveryBlock = true) hds ?_ ?_ {}
  · intro f
    obtain ⟨a, ha⟩ := Option.isSome_iff_exists.1 ha
    rw [ha]
    show (f.triggerEveryBlock || ds.mapping.blockHandlers.any _) = true
    rw [hh, Bool.or_true]
  · intro f ds' hf
    split
    · show (f.triggerEveryBlock || _) = true
      rw [hf, Bool.true_or]
    · exact hf

theorem triggerEveryBlock_eq_any (dso : List (DataSource lib)) :
    (fromDataSources order dso).triggerEveryBlock = dso.any fun ds =>
      ds.source.address.isSome && ds.mapping.blockHandlers.any fun h => h.filter.isNone := by
  unfold fromDataSources
  show _ = (({} : EthereumBlockFilter).triggerEveryBlock || _)
  generalize ({} : EthereumBlockFilter) = f
  induction dso generalizing f with
  | nil => exact (Bool.or_false _).symm
  | cons ds dso ih =>
    rw [foldl_cons, ih, any_cons, ← Bool.or_assoc]
    rcases ds.source.address with - | address
    · simp
    · rfl

end EthereumBlockFilter

structure TriggerFilter where
  log : EthereumLogFilter := {}
  call : EthereumCallFilter := {}
  block : EthereumBlockFilter := {}

namespace TriggerFilter

variable (order : Finset.IterOrder (BlockNumber × Address))

def extend (self : TriggerFilter) (dataSources : List (DataSource lib)) : TriggerFilter where
  log := self.log.extend (.fromDataSources dataSources)
  call := self.call.extend (.fromDataSources dataSources)
  block := self.block.extend order (.fromDataSources order dataSources)

def fromDataSources (dataSources : List (DataSource lib)) : TriggerFilter :=
  extend order {} dataSources

variable {order}

variable (order) in
theorem lookup_fromDataSources_call (ds : List (DataSource lib)) (address : Address) :
    (fromDataSources order ds).call.contractAddressesFunctionSignatures.lookup address
      = (EthereumCallFilter.fromDataSources
          ds).contractAddressesFunctionSignatures.lookup address := by
  rw [fromDataSources, extend, EthereumCallFilter.lookup_extend, lookup_empty]
  rcases (EthereumCallFilter.fromDataSources
    ds).contractAddressesFunctionSignatures.lookup address with _ | s
  · rfl
  · rfl

variable (order) in
theorem fromDataSources_block_contractAddresses (ds : List (DataSource lib)) :
    (fromDataSources order ds).block.contractAddresses = ∅ :=
  EthereumBlockFilter.extend_contractAddresses_empty rfl _

end TriggerFilter

end Massbit
