/-
The rows of token balances (`raw_token_balance.rs`).
-/
import Massbit.Analytics.Table
import Massbit.Data.Decimal
import Massbit.Solana.GetBlock

open List

namespace Massbit.Analytics

open Solana (Slot Decoder Transaction Pubkey UiTransactionTokenBalance UiTransactionStatusMeta
  EncodedTransactionWithStatusMeta EncodedConfirmedBlock)

namespace TokenBalance

def createTable : Table :=
  .new "solana_token_balances" [⟨"block_slot", .bigInt⟩, ⟨"tx_index", .int⟩, ⟨"account", .string⟩,
     ⟨"token_address", .string⟩,
     ⟨"decimals", .int⟩,
     ⟨"pre_amount", .bigInt⟩,
     ⟨"post_amount", .bigInt⟩]

def amount (tokenBalance : UiTransactionTokenBalance) : ℤ :=
  (BigInt.fromStr tokenBalance.uiTokenAmount.amount).getD 0

def account (transaction : Transaction) (accountIndex : UInt8) : String :=
  (transaction.message.accountKeys[accountIndex.toNat]?.map Pubkey.toString).getD ""

section

variable (decode : Decoder)

def createTokenBalances (tran : EncodedTransactionWithStatusMeta) (status : UiTransactionStatusMeta)
    (blockSlot : Slot) (tranIndex : Int32) : List Entity :=
  match status.preTokenBalances, status.postTokenBalances, decode tran.transaction with
  | some preTokenBalances, some postTokenBalances, some decodedTran =>
    postTokenBalances.mapIdx fun ind tokenBalance =>
      let preAmount := (preTokenBalances[ind]?.bind fun tokenBalance =>
        BigInt.fromStr tokenBalance.uiTokenAmount.amount).getD 0
      Entity.ofList [("block_slot", .bigInt blockSlot.toNat), ("tx_index", .int tranIndex),
         ("account", .string (account decodedTran tokenBalance.accountIndex)),
         ("token_address", .string tokenBalance.mint),
         ("decimals", .int (.ofNat tokenBalance.uiTokenAmount.decimals.toNat)),
         ("pre_amount", .bigInt preAmount),
         ("post_amount", .bigInt (amount tokenBalance))]
  | _, _, _ => []

def handleBlock (blockSlot : Slot) (block : EncodedConfirmedBlock) : Option UpsertCommand :=
  let values := (block.transactions.mapIdx fun tranOrder tran =>
    match tran.metadata with
    | some status => createTokenBalances decode tran status blockSlot (.ofNat tranOrder)
    | none => []).flatten
  if values.length > 0 then some { table := createTable, values } else none

def amountOf (balances : List UiTransactionTokenBalance) (accountIndex : UInt8) : ℤ :=
  ((balances.find? fun balance => balance.accountIndex = accountIndex).map amount).getD 0

/-- The row of an entry of the balances after the transaction. -/
structure IsBalanceRow (transaction : Option Transaction) (pre : List UiTransactionTokenBalance)
    (entry : UiTransactionTokenBalance) (row : Entity) : Prop where
  account : ∀ decoded, transaction = some decoded →
    row.lookup "account" = some (.string (account decoded entry.accountIndex))
  tokenAddress : row.lookup "token_address" = some (.string entry.mint)
  decimals : row.lookup "decimals" = some (.int (.ofNat entry.uiTokenAmount.decimals.toNat))
  preAmount : row.lookup "pre_amount" = some (.bigInt (amountOf pre entry.accountIndex))
  postAmount : row.lookup "post_amount" = some (.bigInt (amount entry))

/-- The balances before the transaction have, at the position of each entry, the amount of its
account. -/
def Aligned (pre post : List UiTransactionTokenBalance) : Prop :=
  ∀ (i : ℕ) entry, post[i]? = some entry → (pre[i]?.map amount).getD 0 = amountOf pre entry.accountIndex

variable {decode} {tran : EncodedTransactionWithStatusMeta} {status : UiTransactionStatusMeta}
  {pre post : List UiTransactionTokenBalance}

theorem getD_bind_fromStr (e : Option UiTransactionTokenBalance) :
    (e.bind fun tb => BigInt.fromStr tb.uiTokenAmount.amount).getD 0 = (e.map amount).getD 0 := by
  cases e <;> rfl

theorem createTokenBalances_of_none (hdecode : decode tran.transaction = none) (blockSlot : Slot)
    (tranIndex : Int32) : createTokenBalances decode tran status blockSlot tranIndex = [] := by
  rw [createTokenBalances, hdecode]
  simp

variable {decoded : Transaction}

section

variable (hpre : status.preTokenBalances = some pre) (hpost : status.postTokenBalances = some post)
  (h : decode tran.transaction = some decoded) (bs : Slot) (ti : Int32)

include hpre hpost h bs ti

theorem getElem?_createTokenBalances (i : ℕ) :
    (createTokenBalances decode tran status bs ti)[i]? = post[i]?.map fun e =>
      Entity.ofList [("block_slot", .bigInt bs.toNat), ("tx_index", .int ti),
         ("account", .string (account decoded e.accountIndex)),
         ("token_address", .string e.mint),
         ("decimals", .int (.ofNat e.uiTokenAmount.decimals.toNat)),
         ("pre_amount", .bigInt ((pre[i]?.map amount).getD 0)),
         ("post_amount", .bigInt (amount e))] := by
  simp only [createTokenBalances, hpre, hpost, h, List.getElem?_mapIdx, getD_bind_fromStr]

theorem length_createTokenBalances :
    (createTokenBalances decode tran status bs ti).length = post.length := by
  simp only [createTokenBalances, hpre, hpost, h, length_mapIdx]

end

theorem isBalanceRow_iff {e : UiTransactionTokenBalance} {blockSlot tranIndex : Value} {pa : ℤ} :
    IsBalanceRow (some decoded) pre e (Entity.ofList
        [("block_slot", blockSlot),
         ("tx_index", tranIndex),
         ("account", .string (account decoded e.accountIndex)),
         ("token_address", .string e.mint),
         ("decimals", .int (.ofNat e.uiTokenAmount.decimals.toNat)),
         ("pre_amount", .bigInt pa),
         ("post_amount", .bigInt (amount e))]) ↔
      pa = amountOf pre e.accountIndex := by
  constructor
  · intro h
    have hpre := h.preAmount
    simpa [Entity.ofList, Finmap.lookup_insert_of_ne] using hpre
  · rintro rfl
    constructor
    · intro _ h
      cases h
      simp [Entity.ofList, Finmap.lookup_insert_of_ne]
    all_goals simp [Entity.ofList, Finmap.lookup_insert_of_ne]

/-- **The rows of token balances are right if and only if** the transaction can be decoded and the
two lists of balances are aligned. -/
theorem tokenBalances_right_iff (decode : Decoder)
    {tran : EncodedTransactionWithStatusMeta} {status : UiTransactionStatusMeta}
    {pre post : List UiTransactionTokenBalance} (hpre : status.preTokenBalances = some pre)
    (hpost : status.postTokenBalances = some post) (blockSlot : Slot) (tranIndex : Int32) :
    List.Forall₂ (IsBalanceRow (decode tran.transaction) pre) post
        (createTokenBalances decode tran status blockSlot tranIndex) ↔
      post = [] ∨ (decode tran.transaction).isSome ∧ Aligned pre post := by
  rcases hdecode : decode tran.transaction with - | decoded
  · rw [createTokenBalances_of_none hdecode]
    constructor
    · simp
    · simp
  have hro := getElem?_createTokenBalances hpre hpost hdecode blockSlot tranIndex
  have hl := length_createTokenBalances hpre hpost hdecode blockSlot tranIndex
  rw [forall₂_iff_get]
  constructor
  · rintro ⟨-, h⟩
    refine .inr ⟨rfl, fun i e he => ?_⟩
    obtain ⟨hi, rfl⟩ := List.getElem?_eq_some_iff.1 he
    have hg := hro i
    rw [he] at hg
    obtain ⟨hi', hg⟩ := List.getElem?_eq_some_iff.1 hg
    have hr := h i hi hi'
    rw [get_eq_getElem, get_eq_getElem, hg] at hr
    exact isBalanceRow_iff.1 hr
  · intro h
    have ha : Aligned pre post := by
      rcases h with rfl | h
      · intro i e he
        cases he
      · exact h.2
    refine ⟨hl.symm, fun i hi hi' => ?_⟩
    have he : post[i]? = some post[i] := List.getElem?_eq_getElem hi
    have hg := hro i
    rw [he] at hg
    obtain ⟨_, hg⟩ := List.getElem?_eq_some_iff.1 hg
    rw [get_eq_getElem, get_eq_getElem, hg]
    exact isBalanceRow_iff.2 (ha i post[i] he)

end

def twoAccounts : Transaction where
  signatures := []
  message :=
    { accountKeys := [⟨List.replicate 32 1, rfl⟩, ⟨List.replicate 32 2, rfl⟩]
      recentBlockhash := ""
      instructions := [] }

def balance (accountIndex : UInt8) (amount : String) : UiTransactionTokenBalance :=
  ⟨accountIndex, "mint", ⟨0, amount⟩⟩

def statusOf (pre post : List UiTransactionTokenBalance) : UiTransactionStatusMeta where
  status := .ok ()
  fee := 0
  preBalances := []
  postBalances := []
  innerInstructions := none
  logMessages := none
  preTokenBalances := some pre
  postTokenBalances := some post
  rewards := none

theorem tokenBalances_right_new_account :
    List.Forall₂ (IsBalanceRow (some twoAccounts) [balance 0 "20"]) [balance 0 "5", balance 1 "15"]
      (createTokenBalances (fun _ => some twoAccounts) ⟨"", none⟩
        (statusOf [balance 0 "20"] [balance 0 "5", balance 1 "15"]) 7 0) := by
  apply (tokenBalances_right_iff (fun _ => some twoAccounts) rfl rfl 7 0).2
  refine .inr ⟨rfl, fun i e he => ?_⟩
  rcases i with - | - | i
  · cases he
    rfl
  · cases he
    rfl
  · cases he

theorem tokenBalances_swapped :
    ((createTokenBalances (fun _ => some twoAccounts) ⟨"", none⟩
        (statusOf [balance 1 "20", balance 0 "10"] [balance 0 "5", balance 1 "25"]) 7 0)[0]?.bind
          (Finmap.lookup "pre_amount")) = some (.bigInt 20) ∧
    amountOf [balance 1 "20", balance 0 "10"] 0 = 10 ∧
    ¬List.Forall₂ (IsBalanceRow (some twoAccounts) [balance 1 "20", balance 0 "10"])
      [balance 0 "5", balance 1 "25"]
      (createTokenBalances (fun _ => some twoAccounts) ⟨"", none⟩
        (statusOf [balance 1 "20", balance 0 "10"] [balance 0 "5", balance 1 "25"]) 7 0) := by
  have hpre : ((createTokenBalances (fun _ => some twoAccounts) ⟨"", none⟩
      (statusOf [balance 1 "20", balance 0 "10"] [balance 0 "5", balance 1 "25"]) 7 0)[0]?.bind
        (Finmap.lookup "pre_amount")) = some (.bigInt 20) := by decide +kernel
  refine ⟨hpre, by decide +kernel, fun h => ?_⟩
  obtain ⟨row, hro⟩ : ∃ row, (createTokenBalances (fun _ => some twoAccounts) ⟨"", none⟩
      (statusOf [balance 1 "20", balance 0 "10"] [balance 0 "5", balance 1 "25"]) 7 0)[0]? =
        some row := ⟨_, rfl⟩
  rw [hro] at hpre
  obtain ⟨hi, hg⟩ := List.getElem?_eq_some_iff.1 hro
  have hr := (forall₂_iff_get.1 h).2 0 (by decide) hi
  rw [get_eq_getElem, get_eq_getElem, hg] at hr
  exact absurd (hpre.symm.trans hr.preAmount) (by decide +kernel)

end TokenBalance

end Massbit.Analytics
