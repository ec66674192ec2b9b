/-
The rows of the transactions of a block and of their accounts
(`SolanaRawTransactionHandler::handle_block`).
-/
import Massbit.Analytics.Table
import Massbit.Solana.GetBlock

open List Outcome

namespace Massbit.Analytics

open Solana (Slot Decoder Transaction Pubkey UiTransactionStatusMeta
  EncodedTransactionWithStatusMeta EncodedConfirmedBlock)

def Table.bindParams (self : Table) (entity : Entity) : ℕ :=
  (self.columns.filter fun column => (entity.lookup column.name).any (· ≠ .null)).length

def UpsertCommand.bindParams (self : UpsertCommand) : ℕ :=
  (self.values.map self.table.bindParams).sum

namespace RawTransaction

def createTransTable : Table :=
  .new "solana_transactions" [⟨"block_slot", .bigInt⟩, ⟨"tx_index", .int⟩, ⟨"signatures", .string⟩,
     ⟨"signers", .string⟩,
     ⟨"instructions", .textArray⟩,
     ⟨"reward", .bigInt⟩,
     ⟨"fee", .bigInt⟩,
     ⟨"status", .string⟩]

def createAccTransTable : Table :=
  .new "solana_account_transactions" [⟨"block_slot", .bigInt⟩, ⟨"tx_index", .int⟩,
     ⟨"account", .string⟩,
     ⟨"pre_balance", .bigInt⟩,
     ⟨"post_balance", .bigInt⟩]

def maxRows : ℕ := 65535 / createAccTransTable.columns.length

def createEntity (blockSlot : Slot) (tran : Transaction) (tranMeta : Option UiTransactionStatusMeta)
    (ind : Int32) : Outcome String Entity := do
  let instructions ← tran.message.instructions.mapM fun inst =>
    Outcome.ofOption tran.message.accountKeys[inst.programIdIndex.toNat]?
  let signers := (List.range tran.signatures.length).filterMap fun i => tran.message.accountKeys[i]?
  return .ofList [("block_slot", .bigInt blockSlot.toNat), ("tx_index", .int ind),
     ("signatures", tran.signatures[0]?.elim .null fun sig => .string (Base58.encode sig)),
     ("signers", .string (",".intercalate (signers.map Pubkey.toString))),
     ("instructions", .list (instructions.map fun key => .string key.toString)),
     ("status", .string (tranMeta.elim "" fun status =>
       match status.status with
       | .ok _ => "1"
       | .error _ => "0")),
     ("reward", .bigInt 0),
     ("fee", .bigInt (tranMeta.elim 0 fun status => status.fee.toNat))]

def balanceAt (balances : UiTransactionStatusMeta → List UInt64)
    (tranMeta : Option UiTransactionStatusMeta) (ind : ℕ) : ℤ :=
  ((tranMeta.bind fun status => (balances status)[ind]?).getD 0).toNat

def createTransactionAccount (blockSlot : Slot) (tran : Transaction)
    (tranMeta : Option UiTransactionStatusMeta) (tranIndex : Int32) : List Entity :=
  tran.message.accountKeys.mapIdx fun ind key => .ofList [("block_slot", .bigInt blockSlot.toNat),
     ("tx_index", .int tranIndex),
     ("account", .string key.toString),
     ("pre_balance", .bigInt (balanceAt UiTransactionStatusMeta.preBalances tranMeta ind)),
     ("post_balance", .bigInt (balanceAt UiTransactionStatusMeta.postBalances tranMeta ind))]

def addRows (vecEntities : List (List Entity)) (entities : List Entity) : List (List Entity) :=
  if entities.length > 0 then
    match vecEntities.getLast? with
    | none => vecEntities ++ [entities]
    | some last =>
      if last.length + entities.length ≤ maxRows then vecEntities.dropLast ++ [last ++ entities]
      else vecEntities ++ [entities]
  else vecEntities

section

variable (decode : Decoder) (blockSlot : Slot)

def addTransaction (acc : List Entity × List (List Entity))
    (x : EncodedTransactionWithStatusMeta × ℕ) :
    Outcome String (List Entity × List (List Entity)) :=
  match decode x.1.transaction with
  | none => return acc
  | some tran => do
    let entity ← createEntity blockSlot tran x.1.metadata (.ofNat x.2)
    return (acc.1 ++ [entity],
      addRows acc.2 (createTransactionAccount blockSlot tran x.1.metadata (.ofNat x.2)))

def commands (block : EncodedConfirmedBlock) : Outcome String (List UpsertCommand) := do
  let (tranEntities, vecEntities) ←
    block.transactions.zipIdx.foldlM (addTransaction decode blockSlot) ([], [])
  let vecCommands : List UpsertCommand :=
    vecEntities.map fun values => { table := createAccTransTable, values }
  return if tranEntities.length > 0 then
      vecCommands ++ [{ table := createTransTable, values := tranEntities }]
    else vecCommands

def decodedTransactions (transactions : List (EncodedTransactionWithStatusMeta × ℕ)) :
    List (Transaction × Option UiTransactionStatusMeta × Int32) :=
  transactions.filterMap fun x =>
    (decode x.1.transaction).map fun tran => (tran, x.1.metadata, .ofNat x.2)

def accountRows (decoded : List (Transaction × Option UiTransactionStatusMeta × Int32)) :
    List Entity :=
  decoded.flatMap fun x => createTransactionAccount blockSlot x.1 x.2.1 x.2.2

def transactionParams (decoded : List (Transaction × Option UiTransactionStatusMeta × Int32)) : ℕ :=
  (decoded.map fun x => if x.1.signatures = [] then 7 else 8).sum

end

theorem flatten_addRows (ve : List (List Entity)) (entities : List Entity) :
    (addRows ve entities).flatten = ve.flatten ++ entities := by
  fun_cases addRows
  · simp
  next last hl _ =>
    obtain ⟨f, rfl⟩ := getLast?_eq_some_iff.1 hl
    simp
  · simp
  next he => simp_all

theorem length_of_mem_addRows {ve : List (List Entity)} {es : List Entity}
    (h : ∀ vs ∈ ve, vs.length ≤ maxRows) (he : es.length ≤ maxRows) :
    ∀ vs ∈ addRows ve es, vs.length ≤ maxRows := by
  fun_cases addRows
  · grind
  next last _ _ => grind [mem_of_mem_dropLast]
  · grind
  · exact h

variable {decode : Decoder} {blockSlot : Slot} {tm : Option UiTransactionStatusMeta}
  {tran : Transaction} {ind : Int32} {e : Entity}

theorem bindParams_createEntity (h : createEntity blockSlot tran tm ind = .ok e) :
    createTransTable.bindParams e = if tran.signatures = [] then 7 else 8 := by
  obtain ⟨ins, -, rfl⟩ := bind_pure_eq_ok.1 h
  obtain ⟨ss, m⟩ := tran
  cases ss with
  | nil => rfl
  | cons s ss => rfl

theorem bindParams_createTransactionAccount
    (h : e ∈ createTransactionAccount blockSlot tran tm ind) :
    createAccTransTable.bindParams e = 5 := by
  obtain ⟨_, _, rfl⟩ := mem_mapIdx.1 h
  rfl

structure Collected (blockSlot : Slot)
    (decoded : List (Transaction × Option UiTransactionStatusMeta × Int32))
    (acc : List Entity × List (List Entity)) : Prop where
  transactions : UpsertCommand.bindParams { table := createTransTable, values := acc.1 } =
    transactionParams decoded
  accounts : acc.2.flatten = accountRows blockSlot decoded
  length_le : (∀ x ∈ decoded, x.1.message.accountKeys.length ≤ maxRows) →
    ∀ values ∈ acc.2, values.length ≤ maxRows

theorem Collected.addTransaction {l : List (EncodedTransactionWithStatusMeta × ℕ)}
    {x : EncodedTransactionWithStatusMeta × ℕ} {acc acc' : List Entity × List (List Entity)}
    (h : Collected blockSlot (decodedTransactions decode l) acc)
    (hx : addTransaction decode blockSlot acc x = .ok acc') :
    Collected blockSlot (decodedTransactions decode (l ++ [x])) acc' := by
  rw [RawTransaction.addTransaction] at hx
  rw [decodedTransactions, filterMap_append]
  cases hd : decode x.1.transaction with
  | none =>
    rw [hd] at hx
    obtain rfl := Outcome.ok.inj hx
    simpa [hd, decodedTransactions] using h
  | some tran =>
    rw [hd] at hx
    obtain ⟨e, he, rfl⟩ := bind_pure_eq_ok.1 hx
    simp only [filterMap_cons, filterMap_nil, hd, Option.map_some]
    refine ⟨?_, ?_, fun hk => ?_⟩
    · have ht := h.transactions
      rw [UpsertCommand.bindParams, transactionParams] at ht ⊢
      rw [map_append, sum_append, ht, map_append, sum_append]
      simp [bindParams_createEntity he, decodedTransactions]
    · rw [flatten_addRows, h.accounts]
      simp [accountRows, decodedTransactions]
    · obtain ⟨hl, hla⟩ := forall_mem_append.1 hk
      refine length_of_mem_addRows (h.length_le hl) ?_
      simpa [createTransactionAccount] using hla

variable {block : EncodedConfirmedBlock} {vecCommands : List UpsertCommand}

theorem commands_spec (h : commands decode blockSlot block = .ok vecCommands) :
    ∃ acc, Collected blockSlot (decodedTransactions decode block.transactions.zipIdx) acc ∧
      vecCommands = acc.2.map (fun values => { table := createAccTransTable, values }) ++
        if acc.1.length > 0 then [{ table := createTransTable, values := acc.1 }] else [] := by
  obtain ⟨acc, ha, rfl⟩ := bind_pure_eq_ok.1 h
  refine ⟨acc, ?_, by grind⟩
  exact foldlM_invariant
    (I := fun l acc => Collected blockSlot (decodedTransactions decode l) acc) ha
    ⟨rfl, rfl, nofun⟩ fun _ hi hx => hi.addTransaction hx

/-- **All commands have at most 65535 parameters if and only if** the rows of the transactions
together have. -/
theorem commands_right_iff (h : commands decode blockSlot block = .ok vecCommands)
    (hkeys : ∀ x ∈ decodedTransactions decode block.transactions.zipIdx,
      x.1.message.accountKeys.length ≤ 256) :
    (vecCommands.filter (·.table = createAccTransTable)).flatMap UpsertCommand.values =
        accountRows blockSlot (decodedTransactions decode block.transactions.zipIdx) ∧
      ((∀ command ∈ vecCommands, command.bindParams ≤ 65535) ↔
        transactionParams (decodedTransactions decode block.transactions.zipIdx) ≤ 65535) := by
  obtain ⟨⟨te, ve⟩, hac, rfl⟩ := commands_spec h
  have ha : ∀ command ∈ ve.map fun values =>
      ({ table := createAccTransTable, values } : UpsertCommand), command.bindParams ≤ 65535 := by
    intro command hc
    obtain ⟨values, hv, rfl⟩ := mem_map.1 hc
    have hr : ∀ e ∈ values, createAccTransTable.bindParams e = 5 := by
      intro e he
      have hm : e ∈ accountRows blockSlot _ := hac.accounts ▸ mem_flatten_of_mem hv he
      obtain ⟨x, -, hm⟩ := mem_flatMap.1 hm
      exact bindParams_createTransactionAccount hm
    have hle : values.length ≤ 13107 :=
      hac.length_le (fun x hx => (hkeys x hx).trans (by decide)) values hv
    rw [UpsertCommand.bindParams, map_congr_left hr, map_const', sum_replicate_nat]
    omega
  constructor
  · have hl : (if te.length > 0 then
        [({ table := createTransTable, values := te } : UpsertCommand)] else []).filter
          (·.table = createAccTransTable) = [] := by
      have hne : createTransTable ≠ createAccTransTable := by decide
      split_ifs
      · simp [hne]
      · rfl
    rw [filter_append, hl, append_nil, filter_map, flatMap_map]
    simp [Function.comp_def, ← hac.accounts, flatMap_id']
  · rw [forall_mem_append, and_iff_right ha, ← hac.transactions]
    rcases te with - | ⟨e, te⟩
    · simp [UpsertCommand.bindParams]
    · simp

def oneAccount (_ : String) : Option Transaction :=
  some ⟨[[]], ⟨[⟨replicate 32 0, Pubkey.length_zeros⟩], "", []⟩⟩

def blockWith (n : ℕ) : EncodedConfirmedBlock := ⟨"", "", 0, replicate n ⟨"", none⟩, [], none, none⟩

theorem exists_commands_blockWith (n : ℕ) :
    ∃ vecCommands, commands oneAccount 7 (blockWith n) = .ok vecCommands := by
  obtain ⟨acc, ha⟩ := exists_foldlM_eq_ok (f := addTransaction oneAccount 7)
    (l := (blockWith n).transactions.zipIdx) (fun _ _ _ => ⟨_, rfl⟩) ([], [])
  exact ⟨_, bind_pure_eq_ok.2 ⟨acc, ha, rfl⟩⟩

theorem commands_three_transactions :
    ∃ vecCommands, commands oneAccount 7 (blockWith 3) = .ok vecCommands ∧
      ∀ command ∈ vecCommands, command.bindParams ≤ 65535 := by
  obtain ⟨vecCommands, h⟩ := exists_commands_blockWith 3
  exact ⟨vecCommands, h, (commands_right_iff h (by decide)).2.2 (by decide)⟩

theorem commands_too_large :
    ∃ vecCommands, commands oneAccount 7 (blockWith 8192) = .ok vecCommands ∧
      ∃ command ∈ vecCommands, command.bindParams = 65536 := by
  obtain ⟨vecCommands, h⟩ := exists_commands_blockWith 8192
  obtain ⟨⟨te, ve⟩, ha, rfl⟩ := commands_spec h
  have hp : ∀ n, transactionParams
      (decodedTransactions oneAccount (blockWith n).transactions.zipIdx) = n * 8 := by
    simp [transactionParams, decodedTransactions, oneAccount, blockWith, Function.comp_def]
  have ht := ha.transactions.trans (hp 8192)
  refine ⟨_, h, _, mem_append_right _ ?_, ht⟩
  rcases te with - | ⟨e, te⟩
  · cases ht
  · exact mem_singleton_self _

end RawTransaction

end Massbit.Analytics
