/-
Solana blocks as the chain reader handles them (`types.rs`, `data_type.rs`), and the filter of an
indexer.
-/
import Massbit.Lib.Base58

namespace Massbit.Solana

abbrev Slot := UInt64

abbrev Pubkey := { bytes : List UInt8 // bytes.length = 32 }

namespace Pubkey

def toString (self : Pubkey) : String := Base58.encode self.1

def fromStr (text : String) : Option Pubkey :=
  (Base58.decode text).bind fun bytes =>
    if h : bytes.length = 32 then some ⟨bytes, h⟩ else none

theorem fromStr_toString (key : Pubkey) : fromStr key.toString = some key := by
  rw [fromStr, toString, Base58.decode_encode, Option.bind_some, dif_pos key.2]

theorem toString_injective : Function.Injective toString := fun _ _ h =>
  Subtype.ext (Base58.encode_injective h)

theorem length_zeros : (List.replicate 32 (0 : UInt8)).length = 32 := rfl

end Pubkey

structure CompiledInstruction where
  programIdIndex : UInt8
  accounts : List UInt8
  data : List UInt8
  deriving DecidableEq, Repr

structure InnerInstructions where
  index : UInt8
  instructions : List CompiledInstruction
  deriving DecidableEq, Repr

structure UiTokenAmount where
  decimals : UInt8
  amount : String
  deriving DecidableEq, Repr

structure TransactionTokenBalance where
  accountIndex : UInt8
  mint : String
  uiTokenAmount : UiTokenAmount
  owner : String
  deriving DecidableEq, Repr

structure Reward where
  pubkey : String
  lamports : ℤ
  postBalance : UInt64
  deriving DecidableEq, Repr

structure TransactionStatusMeta where
  status : Except String Unit
  fee : UInt64
  preBalances : List UInt64
  postBalances : List UInt64
  innerInstructions : Option (List InnerInstructions)
  logMessages : Option (List String)
  preTokenBalances : Option (List TransactionTokenBalance)
  postTokenBalances : Option (List TransactionTokenBalance)
  rewards : Option (List Reward)
  deriving DecidableEq

structure Message where
  accountKeys : List Pubkey
  recentBlockhash : String
  instructions : List CompiledInstruction
  deriving DecidableEq, Repr

structure Transaction where
  signatures : List (List UInt8)
  message : Message
  deriving DecidableEq, Repr

/-- What decodes an encoded transaction. -/
abbrev Decoder := String → Option Transaction

structure TransactionWithStatusMeta where
  transaction : Transaction
  metadata : Option TransactionStatusMeta
  deriving DecidableEq

structure ConfirmedBlock where
  previousBlockhash : String
  blockhash : String
  parentSlot : Slot
  transactions : List TransactionWithStatusMeta
  rewards : List Reward
  blockTime : Option ℤ
  blockHeight : Option UInt64
  deriving DecidableEq

structure ConfirmedBlockWithSlot where
  blockSlot : Slot
  block : Option ConfirmedBlock
  deriving DecidableEq

def ConfirmedBlockWithSlot.cheapClone (self : ConfirmedBlockWithSlot) : ConfirmedBlockWithSlot where
  blockSlot := self.blockSlot
  block := self.block.map fun block => { block with transactions := [] }

inductive BlockInfo where
  | blockSlot (slot : Slot)
  | confirmBlockWithSlot (block : ConfirmedBlockWithSlot)
  deriving DecidableEq

structure ExtBlock where
  version : String
  timestamp : ℤ
  blockNumber : Slot
  block : ConfirmedBlock
  listLogMessages : List (Option (List String))
  deriving DecidableEq

structure BlockResponse where
  version : String
  payload : List ExtBlock
  deriving DecidableEq

structure SolanaFilter where
  keys : List Pubkey
  deriving DecidableEq, Repr

namespace SolanaFilter

def new (keys : List String) : SolanaFilter where
  keys := keys.map fun key => (Pubkey.fromStr key).getD ⟨List.replicate 32 0, rfl⟩

def isMatch (self : SolanaFilter) (tran : TransactionWithStatusMeta) : Bool :=
  self.keys.any fun key => tran.transaction.message.accountKeys.any fun accountKey => key = accountKey

def filterBlock (self : SolanaFilter) (block : ConfirmedBlock) : ConfirmedBlock :=
  -- without keys, all transactions are accepted
  if self.keys.isEmpty then block
  else { block with transactions := block.transactions.filter self.isMatch }

variable {self : SolanaFilter}

theorem filterBlock_eq (hk : self.keys ≠ []) (block : ConfirmedBlock) :
    self.filterBlock block = { block with transactions := block.transactions.filter self.isMatch } :=
  if_neg (by simpa using hk)

theorem isMatch_iff {tran : TransactionWithStatusMeta} :
    self.isMatch tran ↔ ∃ key ∈ self.keys, key ∈ tran.transaction.message.accountKeys := by
  simp only [isMatch, List.any_eq_true, decide_eq_true_eq, exists_eq_right']

end SolanaFilter

end Massbit.Solana
