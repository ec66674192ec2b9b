/-
The rows of the instructions of a block (`instruction/handler.rs`, `instruction/common.rs`).
-/
import Massbit.Analytics.Scanner
import Massbit.Analytics.SystemInstruction
import Massbit.Lib.GroupBy

open List

namespace Massbit.Analytics

open Solana (Slot Decoder Pubkey Transaction CompiledInstruction EncodedConfirmedBlock
  EncodedTransactionWithStatusMeta)

inductive ParsableProgram where
  | splAssociatedTokenAccount
  | splMemo
  | splToken
  | bpfLoader
  | bpfUpgradeableLoader
  | stake
  | system
  | vote
  deriving DecidableEq, Repr

structure InstructionLibraries where
  decode : Decoder
  parse : Pubkey → CompiledInstruction → List Pubkey → Except String ParsedInstruction
  parsableProgramIds : Pubkey → Option ParsableProgram

structure InstructionKey where
  program : String
  programId : String
  instType : String
  deriving DecidableEq, Repr

namespace InstructionKey

def ofParsed (inst : ParsedInstruction) : InstructionKey where
  program := inst.program
  programId := inst.programId
  instType := (inst.parsed.index "type").asStr.getD ""

def createTable (lib : InstructionLibraries) (self : InstructionKey) :
    Outcome String (Option Table) := do
  let programKey ← Outcome.ofOption (Solana.Pubkey.fromStr self.programId)
  return match lib.parsableProgramIds programKey with
    | some .system => createSystemInstTable self.instType
    | some .splToken => createSpltokenInstTable self.instType
    | some .vote => none
    | _ => none

def createProgramEntity (self : InstructionKey) : Entity :=
  .ofList [("program_name", .string self.program), ("program_id", .string self.programId),
    ("type", .string self.instType)]

end InstructionKey

section

variable (lib : InstructionLibraries) (blockSlot : Slot) (block : EncodedConfirmedBlock)

def createParsedEntity (programId : Pubkey) (txHash : String) (blockTime : UInt64)
    (instOrder : Int32) (inst : ParsedInstruction) : Option Entity :=
  match lib.parsableProgramIds programId with
  | some .system => createSystemEntity blockSlot txHash blockTime instOrder inst
  | some .splToken => createSpltokenEntity blockSlot txHash blockTime instOrder inst
  | some .vote => createVoteEntity blockSlot txHash blockTime instOrder inst
  | _ => none

def createUnparsedInstruction (txIndex : Int32) (blockTime : UInt64) (instIndex : Int32)
    (programName : String) (trans : Transaction) (inst : CompiledInstruction) : Entity :=
  .ofList [("block_slot", .bigInt blockSlot.toNat), ("tx_index", .int txIndex),
     ("block_time", .bigInt blockTime.toNat),
     ("inst_index", .int instIndex),
     ("program_name", .string programName),
     ("accounts", .list (inst.accounts.eraseDups.filterMap fun accInd =>
       trans.message.accountKeys[accInd.toNat]?.map fun key => .string key.toString)),
     ("data", .bytes inst.data)]

def timestamp : UInt64 := block.blockTime.elim 0 UInt64.ofInt

def txHash (tran : Transaction) : String := tran.signatures[0]?.elim "" Base58.encode

abbrev Instructions := HashMap InstructionKey (List Entity) × List Entity

def groupInstruction (tran : Transaction) (txIndex : Int32) (acc : Instructions)
    (x : CompiledInstruction × ℕ) (programKey : Pubkey) : Instructions :=
  match lib.parse programKey x.1 tran.message.accountKeys with
  | .ok parsedInst =>
    match createParsedEntity lib blockSlot programKey (txHash tran) (timestamp block) (.ofNat x.2)
      parsedInst with
    | some entity => (List.pushAt acc.1 (InstructionKey.ofParsed parsedInst, entity), acc.2)
    | none => acc
  | .error _ =>
    (acc.1, acc.2 ++ [createUnparsedInstruction blockSlot txIndex (timestamp block) (.ofNat x.2)
      programKey.toString tran x.1])

def addInstruction (tran : Transaction) (txIndex : Int32) (acc : Instructions)
    (x : CompiledInstruction × ℕ) : Outcome String Instructions := do
  let programKey ← Outcome.ofOption tran.message.accountKeys[x.1.programIdIndex.toNat]?
  return groupInstruction lib blockSlot block tran txIndex acc x programKey

def createInstructions (tran : Transaction) (txIndex : Int32) : Outcome String Instructions :=
  tran.message.instructions.zipIdx.foldlM (addInstruction lib blockSlot block tran txIndex) (∅, [])

def addTransactionInstructions (acc : Instructions) (x : EncodedTransactionWithStatusMeta × ℕ) :
    Outcome String Instructions :=
  match lib.decode x.1.transaction with
  | some transaction => do
    let entities ← createInstructions lib blockSlot block transaction (.ofNat x.2)
    return (entities.1 ∪ acc.1, acc.2 ++ entities.2)
  | none => return acc

def groupCommand (group : (_ : InstructionKey) × List Entity) : List UpsertCommand :=
  match group.1.createTable lib with
  | .ok (some table) => [{ table, values := group.2 }]
  | .ok none | .err _ | .panic => []

def programCommand (groups : List ((_ : InstructionKey) × List Entity)) : Option UpsertCommand :=
  if groups.length > 0 then
    some
      { table := .new "solana_programs"
          [⟨"program_id", .string⟩, ⟨"program_name", .string⟩, ⟨"type", .string⟩]
        values := groups.map fun group => group.1.createProgramEntity
        conflictFragment := some { constraint := "solana_programs_type_uindex" } }
  else none

def instructionCommands (order : Finmap.IterOrder fun _ : InstructionKey => List Entity) :
    Outcome String (List UpsertCommand × Option UpsertCommand) := do
  let entities ← block.transactions.zipIdx.foldlM (addTransactionInstructions lib blockSlot block)
    (∅, [])
  let groups := order.toList entities.1
  return (groups.flatMap (groupCommand lib), programCommand groups)

def programEntry (tran : Transaction) (x : CompiledInstruction × ℕ) (programKey : Pubkey) :
    Option (InstructionKey × Entity) :=
  match lib.parse programKey x.1 tran.message.accountKeys with
  | .ok parsedInst =>
    (createParsedEntity lib blockSlot programKey (txHash tran) (timestamp block) (.ofNat x.2)
      parsedInst).map fun entity => (InstructionKey.ofParsed parsedInst, entity)
  | .error _ => none

def parsedEntry (tran : Transaction) (x : CompiledInstruction × ℕ) :
    Option (InstructionKey × Entity) :=
  tran.message.accountKeys[x.1.programIdIndex.toNat]?.bind (programEntry lib blockSlot block tran x)

def entries (tran : Transaction) : List (InstructionKey × Entity) :=
  tran.message.instructions.zipIdx.filterMap (parsedEntry lib blockSlot block tran)

def decoded : List Transaction :=
  block.transactions.filterMap fun tran => lib.decode tran.transaction

def tableOf (key : InstructionKey) : Option Table :=
  match key.createTable lib with
  | .ok table => table
  | .err _ | .panic => none

def expectedRows : List (Table × Entity) :=
  ((decoded lib block).map (entries lib blockSlot block)).flatten.filterMap fun x =>
    (tableOf lib x.1).map fun table => (table, x.2)

def insertedRows (order : Finmap.IterOrder fun _ : InstructionKey => List Entity) :
    List (Table × Entity) :=
  match instructionCommands lib blockSlot block order with
  | .ok (commands, _) => commands.flatMap fun command => command.values.map fun v => (command.table, v)
  | .err _ | .panic => []

/-- The program of each instruction is among the accounts of its transaction. -/
def ProgramsInRange : Prop :=
  ∀ tran ∈ decoded lib block, ∀ inst ∈ tran.message.instructions,
    inst.programIdIndex.toNat < tran.message.accountKeys.length

/-- No two transactions have rows of the same key, if it has a table. -/
def NoSharedKeys : Prop :=
  (decoded lib block).Pairwise fun tran tran' => ∀ key, (tableOf lib key).isSome →
    ¬((∃ x ∈ entries lib blockSlot block tran, x.1 = key) ∧
      ∃ x ∈ entries lib blockSlot block tran', x.1 = key)

end

variable {lib : InstructionLibraries} {blockSlot : Slot} {block : EncodedConfirmedBlock}
  {tran : Transaction} {x : CompiledInstruction × ℕ}

theorem addInstruction_eq_panic (ti : Int32) (acc : Instructions)
    (h : ¬x.1.programIdIndex.toNat < tran.message.accountKeys.length) :
    addInstruction lib blockSlot block tran ti acc x = .panic := by
  rw [addInstruction, List.getElem?_eq_none (not_lt.1 h)]
  rfl

theorem groupInstruction_fst (tran : Transaction) (ti : Int32) (acc : Instructions)
    (x : CompiledInstruction × ℕ) (pk : Pubkey) :
    (groupInstruction lib blockSlot block tran ti acc x pk).1 =
      (programEntry lib blockSlot block tran x pk).toList.foldl List.pushAt acc.1 := by
  rw [groupInstruction, programEntry]
  rcases lib.parse pk x.1 tran.message.accountKeys with e | pi
  · rfl
  · dsimp only
    rcases createParsedEntity lib blockSlot pk (txHash tran) (timestamp block) (.ofNat x.2)
      pi with - | entity
    · rfl
    · rfl

theorem exists_addInstruction (lib : InstructionLibraries) (blockSlot : Slot)
    (block : EncodedConfirmedBlock) (ti : Int32) (acc : Instructions)
    (h : x.1.programIdIndex.toNat < tran.message.accountKeys.length) :
    ∃ acc', addInstruction lib blockSlot block tran ti acc x = .ok acc' ∧
      acc'.1 = (parsedEntry lib blockSlot block tran x).toList.foldl List.pushAt acc.1 := by
  rw [addInstruction, parsedEntry, List.getElem?_eq_getElem h]
  exact ⟨_, rfl, groupInstruction_fst tran ti acc x _⟩

theorem exists_foldlM_addInstruction (ti : Int32) {l : List (CompiledInstruction × ℕ)}
    (h : ∀ x ∈ l, x.1.programIdIndex.toNat < tran.message.accountKeys.length) (acc : Instructions) :
    ∃ acc', l.foldlM (addInstruction lib blockSlot block tran ti) acc = .ok acc' ∧
      acc'.1 = (l.filterMap (parsedEntry lib blockSlot block tran)).foldl List.pushAt acc.1 := by
  induction l generalizing acc with
  | nil => exact ⟨acc, rfl, rfl⟩
  | cons x l ih =>
    obtain ⟨hx, hl⟩ := forall_mem_cons.1 h
    obtain ⟨acc₁, h₁, ha₁⟩ := exists_addInstruction lib blockSlot block ti acc hx
    obtain ⟨acc', h', ha'⟩ := ih hl acc₁
    refine ⟨acc', ?_, ?_⟩
    · rw [foldlM_cons]
      exact bind_eq_ok.2 ⟨acc₁, h₁, h'⟩
    · rw [ha', ha₁, filterMap_cons]
      cases parsedEntry lib blockSlot block tran x <;> rfl

theorem forall_zipIdx_iff {A : Type*} {P : A → Prop} {l : List A} :
    (∀ x ∈ l.zipIdx, P x.1) ↔ ∀ a ∈ l, P a := by
  rw [← forall_mem_map (f := Prod.fst), zipIdx_map_fst]

theorem exists_createInstructions (lib : InstructionLibraries) (blockSlot : Slot)
    (block : EncodedConfirmedBlock) (ti : Int32) (h : ∀ inst ∈ tran.message.instructions,
      inst.programIdIndex.toNat < tran.message.accountKeys.length) :
    ∃ r, createInstructions lib blockSlot block tran ti = .ok r ∧
      r.1 = List.pushAll (entries lib blockSlot block tran) :=
  exists_foldlM_addInstruction ti (forall_zipIdx_iff.2 h) (∅, [])

theorem inRange_of_createInstructions {ti : Int32} {r : Instructions}
    (h : createInstructions lib blockSlot block tran ti = .ok r) :
    ∀ inst ∈ tran.message.instructions,
      inst.programIdIndex.toNat < tran.message.accountKeys.length := by
  refine (forall_zipIdx_iff (P := fun inst : CompiledInstruction =>
    inst.programIdIndex.toNat < tran.message.accountKeys.length)).1 ?_
  apply foldlM_invariant (I := fun l _ => ∀ x ∈ l,
    x.1.programIdIndex.toNat < tran.message.accountKeys.length) h nofun
  intro l x acc acc' _ hl hx
  apply forall_mem_append.2 ⟨hl, ?_⟩
  intro y hy
  obtain rfl := mem_singleton.1 hy
  by_contra ho
  rw [addInstruction_eq_panic ti acc ho] at hx
  cases hx

def entriesOf (lib : InstructionLibraries) (blockSlot : Slot) (block : EncodedConfirmedBlock)
    (l : List (EncodedTransactionWithStatusMeta × ℕ)) : List (List (InstructionKey × Entity)) :=
  (l.filterMap fun x => lib.decode x.1.transaction).map (entries lib blockSlot block)

variable {l : List (EncodedTransactionWithStatusMeta × ℕ)}

theorem exists_foldlM_addTransactionInstructions (lib : InstructionLibraries) (blockSlot : Slot)
    (block : EncodedConfirmedBlock) (h : ∀ tran ∈ l.filterMap fun x => lib.decode x.1.transaction,
      ∀ inst ∈ tran.message.instructions,
        inst.programIdIndex.toNat < tran.message.accountKeys.length) :
    ∃ r, l.foldlM (addTransactionInstructions lib blockSlot block) (∅, []) = .ok r ∧
      r.1 = List.extendAll (entriesOf lib blockSlot block l) := by
  induction l using List.reverseRecOn with
  | nil => exact ⟨_, rfl, rfl⟩
  | append_singleton l x ih =>
    rw [filterMap_append, forall_mem_append] at h
    obtain ⟨hl, hx⟩ := h
    obtain ⟨acc, ha, hg⟩ := ih hl
    rw [foldlM_append, entriesOf, filterMap_append, map_append]
    have hs : [x].filterMap (fun x => lib.decode x.1.transaction) =
        (lib.decode x.1.transaction).toList := by
      cases h : lib.decode x.1.transaction <;> simp [h]
    rw [hs] at hx ⊢
    rcases hd : lib.decode x.1.transaction with - | tran
    · refine ⟨acc, bind_eq_ok.2 ⟨acc, ha, ?_⟩, ?_⟩
      · rw [foldlM_cons, addTransactionInstructions, hd]
        rfl
      · rw [hg]
        exact congrArg List.extendAll (append_nil _).symm
    · rw [hd] at hx
      obtain ⟨r, hr, he⟩ :=
        exists_createInstructions lib blockSlot block (.ofNat x.2) (hx tran mem_cons_self)
      refine ⟨(r.1 ∪ acc.1, acc.2 ++ r.2), bind_eq_ok.2 ⟨acc, ha, ?_⟩, ?_⟩
      · rw [foldlM_cons, addTransactionInstructions, hd]
        show (createInstructions _ _ _ _ _ >>= _) >>= _ = _
        rw [hr]
        rfl
      · rw [he, hg]
        exact (extendAll_concat _ _).symm

theorem inRange_of_foldlM {acc : Instructions}
    (h : l.foldlM (addTransactionInstructions lib blockSlot block) (∅, []) = .ok acc) :
    ∀ tran ∈ l.filterMap fun x => lib.decode x.1.transaction, ∀ inst ∈ tran.message.instructions,
        inst.programIdIndex.toNat < tran.message.accountKeys.length := by
  apply foldlM_invariant (I := fun l _ =>
    ∀ tran ∈ l.filterMap fun x => lib.decode x.1.transaction, ∀ inst ∈ tran.message.instructions,
      inst.programIdIndex.toNat < tran.message.accountKeys.length) h nofun
  intro l x acc acc' _ hl hx
  rw [filterMap_append, forall_mem_append]
  refine ⟨hl, fun tran ht => ?_⟩
  obtain ⟨y, hy, hd⟩ := mem_filterMap.1 ht
  obtain rfl := mem_singleton.1 hy
  rw [addTransactionInstructions, hd] at hx
  obtain ⟨r, hr, -⟩ := bind_eq_ok.1 hx
  exact inRange_of_createInstructions hr

def rowsOf (lib : InstructionLibraries) (key : InstructionKey) (entities : List Entity) :
    List (Table × Entity) :=
  (tableOf lib key).toList.flatMap fun table => entities.map fun entity => (table, entity)

theorem groupCommand_rows (g : (_ : InstructionKey) × List Entity) :
    ((groupCommand lib g).flatMap fun c =>
      c.values.map fun v => (c.table, v)) = rowsOf lib g.1 g.2 := by
  rw [groupCommand, rowsOf, tableOf]
  rcases g.1.createTable lib with (- | table) | e | -
  · rfl
  · rfl
  · rfl
  · rfl

theorem rowsOf_sublist (key : InstructionKey) {l l' : List Entity} (h : l.Sublist l') :
    (rowsOf lib key l).Sublist (rowsOf lib key l') := by
  rw [rowsOf, rowsOf]
  cases tableOf lib key with
  | none => exact List.Sublist.refl _
  | some t => simpa using h.map fun e => (t, e)

variable {key : InstructionKey}

theorem rowsOf_eq_iff {l l' : List Entity} :
    rowsOf lib key l = rowsOf lib key l' ↔ ((tableOf lib key).isSome → l = l') := by
  rw [rowsOf, rowsOf]
  cases tableOf lib key with
  | none => exact iff_of_true rfl nofun
  | some t =>
    have hi : Function.Injective fun e : Entity => (t, e) := fun _ _ h => (Prod.mk.inj h).2
    simpa using hi.list_map.eq_iff

theorem perm_rowsOf {ks : List InstructionKey} (hks : ks.Nodup)
    {l : List (InstructionKey × Entity)} (hl : ∀ x ∈ l, x.1 ∈ ks) :
    (ks.flatMap fun key => rowsOf lib key ((l.filter (·.1 = key)).map Prod.snd)).Perm
      (l.filterMap fun x => (tableOf lib x.1).map fun t => (t, x.2)) := by
  have hg : ∀ key, rowsOf lib key ((l.filter (·.1 = key)).map Prod.snd) =
      (l.filter (·.1 = key)).filterMap fun x =>
        (tableOf lib x.1).map fun t => (t, x.2) := by
    intro key
    have hk : ∀ x ∈ l.filter (·.1 = key), ((tableOf lib x.1).map fun t => (t, x.2)) =
        (tableOf lib key).map fun t => (t, x.2) := by
      intro x hx
      rw [of_decide_eq_true (mem_filter.mp hx).2]
    rw [filterMap_congr hk, rowsOf]
    cases tableOf lib key with
    | none => simp
    | some t => simp [filterMap_eq_map', Function.comp_def]
  rw [flatMap_congr fun key _ => hg key, ← filterMap_flatMap]
  exact (perm_flatMap_filter_self hks hl).filterMap _

theorem filterMap_zipIdx_eq_decoded :
    (block.transactions.zipIdx.filterMap fun x => lib.decode x.1.transaction) =
      decoded lib block := by
  have hm : block.transactions = block.transactions.zipIdx.map Prod.fst := (zipIdx_map_fst 0 _).symm
  rw [decoded, hm, filterMap_map, zipIdx_map_fst]
  rfl

theorem entriesOf_zipIdx : entriesOf lib blockSlot block block.transactions.zipIdx =
    (decoded lib block).map (entries lib blockSlot block) := by
  rw [entriesOf, filterMap_zipIdx_eq_decoded]

theorem programsInRange_iff (order : Finmap.IterOrder fun _ : InstructionKey => List Entity) :
    (∃ r, instructionCommands lib blockSlot block order = .ok r) ↔ ProgramsInRange lib block := by
  rw [instructionCommands, exists_bind_iff, ProgramsInRange, ← filterMap_zipIdx_eq_decoded]
  constructor
  · rintro ⟨acc, ha, -⟩
    exact inRange_of_foldlM ha
  · intro h
    obtain ⟨acc, ha, -⟩ := exists_foldlM_addTransactionInstructions lib blockSlot block h
    exact ⟨acc, ha, _, rfl⟩

def groupKeys (order : Finmap.IterOrder fun _ : InstructionKey => List Entity)
    (groups : HashMap InstructionKey (List Entity)) : List InstructionKey :=
  (order.toList groups).map Sigma.fst

theorem mem_groupKeys {order : Finmap.IterOrder fun _ : InstructionKey => List Entity}
    {groups : HashMap InstructionKey (List Entity)} :
    key ∈ groupKeys order groups ↔ key ∈ groups := by
  rw [groupKeys, mem_map, ← Finmap.lookup_isSome, Option.isSome_iff_exists]
  constructor
  · rintro ⟨⟨_, es⟩, hm, rfl⟩
    exact ⟨es, (order.enumerates groups).mem_iff.1 hm⟩
  · rintro ⟨es, h⟩
    exact ⟨⟨key, es⟩, (order.enumerates groups).mem_iff.2 h, rfl⟩

section

variable (o : Finmap.IterOrder fun _ : InstructionKey => List Entity)

include o

variable {ls : List (List (InstructionKey × Entity))}

theorem insertedRows_eq (h : ProgramsInRange lib block)
    (hls : ls = (decoded lib block).map (entries lib blockSlot block)) :
    insertedRows lib blockSlot block o = (groupKeys o (List.extendAll ls)).flatMap
      fun key => rowsOf lib key (((List.extendAll ls).lookup key).getD []) := by
  rw [ProgramsInRange, ← filterMap_zipIdx_eq_decoded] at h
  obtain ⟨acc, ha, hg⟩ := exists_foldlM_addTransactionInstructions lib blockSlot block h
  rw [entriesOf_zipIdx, ← hls] at hg
  have hc : instructionCommands lib blockSlot block o =
      .ok ((o.toList acc.1).flatMap (groupCommand lib), programCommand (o.toList acc.1)) := by
    rw [instructionCommands, ha]
    rfl
  rw [insertedRows, hc, ← hg]
  show ((o.toList acc.1).flatMap (groupCommand lib)).flatMap _ = _
  rw [flatMap_assoc, groupKeys, flatMap_map]
  refine flatMap_congr fun g hgr => ?_
  rw [groupCommand_rows, (o.enumerates acc.1).mem_iff.1 hgr]
  rfl

theorem noSharedKeys_iff (hls : ls = (decoded lib block).map (entries lib blockSlot block)) :
    NoSharedKeys lib blockSlot block ↔ ∀ key ∈ groupKeys o (List.extendAll ls),
      (tableOf lib key).isSome → ls.Pairwise fun l l' =>
        ¬((∃ x ∈ l, x.1 = key) ∧ ∃ x ∈ l', x.1 = key) := by
  have hp : NoSharedKeys lib blockSlot block ↔ ls.Pairwise fun l l' =>
      ∀ key, (tableOf lib key).isSome → ¬((∃ x ∈ l, x.1 = key) ∧ ∃ x ∈ l', x.1 = key) := by
    rw [hls, pairwise_map]
    rfl
  rw [hp]
  constructor
  · intro h key _ ht
    exact h.imp fun hll' => hll' key ht
  · intro h
    rw [pairwise_iff_getElem]
    intro i j hi hj hij key ht hb
    have hm : key ∈ groupKeys o (List.extendAll ls) := by
      rw [mem_groupKeys, mem_extendAll]
      obtain ⟨x, hx, hk⟩ := hb.1
      exact ⟨x, mem_flatten_of_mem (getElem_mem hi) hx, hk⟩
    exact pairwise_iff_getElem.1 (h key hm ht) i j hi hj hij hb

theorem perm_insertedRows_iff (h : ProgramsInRange lib block) :
    (insertedRows lib blockSlot block o).Perm (expectedRows lib blockSlot block) ↔
      NoSharedKeys lib blockSlot block := by
  set ls := (decoded lib block).map (entries lib blockSlot block) with hls
  set ks := groupKeys o (List.extendAll ls)
  have hks : ks.Nodup := (o.enumerates (List.extendAll ls)).nodupKeys
  have ha : ∀ x ∈ ls.flatten, x.1 ∈ ks := fun x hx =>
    mem_groupKeys.2 (mem_extendAll.2 ⟨x, hx, rfl⟩)
  have he : (ks.flatMap fun key =>
      rowsOf lib key ((ls.flatten.filter (·.1 = key)).map Prod.snd)).Perm
        (expectedRows lib blockSlot block) := perm_rowsOf hks ha
  have hs : ∀ key ∈ ks, (rowsOf lib key (((List.extendAll ls).lookup key).getD [])).Sublist
      (rowsOf lib key ((ls.flatten.filter (·.1 = key)).map Prod.snd)) := fun key _ =>
    rowsOf_sublist key (lookup_extendAll_sublist ls key)
  calc (insertedRows lib blockSlot block o).Perm (expectedRows lib blockSlot block)
    _ ↔ (ks.flatMap fun key => rowsOf lib key (((List.extendAll ls).lookup key).getD [])).Perm
          (ks.flatMap fun key => rowsOf lib key ((ls.flatten.filter (·.1 = key)).map Prod.snd)) := by
        rw [insertedRows_eq o h hls]
        exact ⟨fun hp => hp.trans he.symm, fun hp => hp.trans he⟩
    _ ↔ ∀ key ∈ ks, (tableOf lib key).isSome → ls.Pairwise fun l l' =>
          ¬((∃ x ∈ l, x.1 = key) ∧ ∃ x ∈ l', x.1 = key) := by
        rw [perm_flatMap_iff_of_sublist hs]
        refine forall₂_congr fun key _ => ?_
        rw [rowsOf_eq_iff, extendAll_complete_iff]
    _ ↔ NoSharedKeys lib blockSlot block := (noSharedKeys_iff o hls).symm

end

theorem noSharedKeys_of_expectedRows (h : expectedRows lib blockSlot block = []) :
    NoSharedKeys lib blockSlot block := by
  refine pairwise_of_forall_mem_list fun tran htr _ _ key ht hb => ?_
  obtain ⟨⟨x, hx, rfl⟩, -⟩ := hb
  obtain ⟨t, ht⟩ := Option.isSome_iff_exists.1 ht
  have hr : (t, x.2) ∈ expectedRows lib blockSlot block := by
    refine mem_filterMap.2 ⟨x, ?_, by rw [ht]; rfl⟩
    exact mem_flatten_of_mem (mem_map_of_mem htr) hx
  rw [h] at hr
  exact not_mem_nil hr

/-- **The rows of a block are inserted once each if and only if** there are none, or no instruction
is out of range and no two transactions share a key that has a table. -/
theorem rowsOnce_iff (lib : InstructionLibraries) (blockSlot : Slot) (block : EncodedConfirmedBlock)
    (order : Finmap.IterOrder fun _ : InstructionKey => List Entity) :
    (insertedRows lib blockSlot block order).Perm (expectedRows lib blockSlot block) ↔
      expectedRows lib blockSlot block = [] ∨
        ProgramsInRange lib block ∧ NoSharedKeys lib blockSlot block := by
  by_cases hr : ProgramsInRange lib block
  · rw [perm_insertedRows_iff order hr]
    constructor
    · exact fun h => .inr ⟨hr, h⟩
    · rintro (hn | h)
      · exact noSharedKeys_of_expectedRows hn
      · exact h.2
  · have hn : insertedRows lib blockSlot block order = [] := by
      rw [insertedRows]
      rcases hc : instructionCommands lib blockSlot block order with r | e | -
      · exact absurd ((programsInRange_iff order).1 ⟨r, hc⟩) hr
      · rfl
      · rfl
    rw [hn, nil_perm]
    exact ⟨.inl, fun h => h.resolve_right fun h => hr h.1⟩

def transferLibraries : InstructionLibraries where
  decode text := some
    { signatures := [text.toUTF8.toList]
      message :=
        { accountKeys := [⟨List.replicate 32 0, Pubkey.length_zeros⟩]
          recentBlockhash := ""
          instructions := [⟨0, [], []⟩] } }
  parse _ _ _ := .ok
    { program := "system"
      programId := "11111111111111111111111111111111"
      parsed := .object [("type", .string "transfer")] }
  parsableProgramIds _ := some .system

def twoTransfers : EncodedConfirmedBlock where
  previousBlockhash := ""
  blockhash := ""
  parentSlot := 0
  transactions := [⟨"a", none⟩, ⟨"b", none⟩]
  rewards := []
  blockTime := none
  blockHeight := none

theorem rowsOnce_two_transfers :
    (expectedRows transferLibraries 7 twoTransfers).length = 2 ∧
    ∀ order, ¬(insertedRows transferLibraries 7 twoTransfers order).Perm
      (expectedRows transferLibraries 7 twoTransfers) := by
  refine ⟨by decide +kernel, fun order hp => ?_⟩
  have hr : ProgramsInRange transferLibraries twoTransfers := by
    unfold ProgramsInRange
    decide +kernel
  have hs := (perm_insertedRows_iff order hr).1 hp
  have hpa := rel_of_pairwise_cons hs mem_cons_self
    ⟨"system", "11111111111111111111111111111111", "transfer"⟩ (by decide +kernel)
  exact hpa ⟨⟨_, mem_cons_self, rfl⟩, _, mem_cons_self, rfl⟩

end Massbit.Analytics
