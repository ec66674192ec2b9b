/-
The tables and the rows of parsed instructions (`system_instruction.rs`, `spltoken_instruction.rs`,
`vote_instruction.rs`).
-/
import Massbit.Analytics.Table
import Massbit.Solana.Types

open List

namespace Massbit.Analytics

open Solana (Slot)

inductive JsonValue where
  | null
  | bool (b : Bool)
  | number (asU64 : Option UInt64)
  | string (s : String)
  | array (values : List JsonValue)
  | object (members : List (String × JsonValue))

namespace JsonValue

def index (self : JsonValue) (field : String) : JsonValue :=
  match self with
  | object members => (members.lookup field).getD null
  | null | bool _ | number _ | string _ | array _ => null

def asStr : JsonValue → Option String
  | string s => some s
  | null | bool _ | number _ | array _ | object _ => none

def asU64 : JsonValue → Option UInt64
  | number n => n
  | null | bool _ | string _ | array _ | object _ => none

end JsonValue

structure ParsedInstruction where
  program : String
  programId : String
  parsed : JsonValue

def ParsedInstruction.text (self : ParsedInstruction) (field : String) : Value :=
  .string (((self.parsed.index "info").index field).asStr.getD "")

def ParsedInstruction.number (self : ParsedInstruction) (field : String) : Value :=
  .bigInt (((self.parsed.index "info").index field).asU64.getD 0).toNat

def instTable (name : String) (columns : List Column) : Table :=
  .new name ([⟨"tx_hash", .string⟩, ⟨"block_time", .bigInt⟩, ⟨"inst_order", .int⟩] ++ columns)

def createSystemInstTable : String → Option Table
  | "createAccount" => some (instTable "solana_inst_create_accounts"
      [⟨"source", .string⟩, ⟨"new_account", .string⟩, ⟨"lamports", .bigInt⟩, ⟨"space", .bigInt⟩,
       ⟨"owner", .string⟩])
  | "createAccountWithSeed" => some (instTable "solana_inst_create_accounts"
      [⟨"source", .string⟩, ⟨"new_account", .string⟩, ⟨"lamports", .bigInt⟩, ⟨"space", .bigInt⟩,
       ⟨"owner", .string⟩, ⟨"base", .string⟩, ⟨"seed", .string⟩])
  | "assign" => some (instTable "solana_inst_assigns" [⟨"account", .string⟩, ⟨"owner", .string⟩])
  | "assignWithSeed" => some (instTable "solana_inst_assigns"
      [⟨"account", .string⟩, ⟨"owner", .string⟩, ⟨"base", .string⟩, ⟨"seed", .string⟩])
  | "transfer" => some (instTable "solana_inst_transfers"
      [⟨"source", .string⟩, ⟨"destination", .string⟩, ⟨"lamports", .bigInt⟩])
  | "transferWithSeed" => some (instTable "solana_inst_transfers"
      [⟨"source", .string⟩, ⟨"destination", .string⟩, ⟨"lamports", .bigInt⟩,
       ⟨"source_base", .string⟩, ⟨"source_seed", .string⟩, ⟨"source_owner", .string⟩])
  | "allocate" => some (instTable "solana_inst_allocates"
      [⟨"account", .string⟩, ⟨"space", .bigInt⟩])
  | "allocateWithSeed" => some (instTable "solana_inst_allocates"
      [⟨"account", .string⟩, ⟨"space", .bigInt⟩, ⟨"owner", .string⟩, ⟨"base", .string⟩,
       ⟨"seed", .string⟩])
  | "advanceNonce" => some (instTable "solana_inst_advance_nonces"
      [⟨"nonce_account", .string⟩, ⟨"recent_block_hashes_sysvar", .string⟩,
       ⟨"nonce_authority", .string⟩])
  | "withdrawFromNonce" => some (instTable "solana_inst_withdraw_from_nonces"
      [⟨"nonce_account", .string⟩, ⟨"destination", .string⟩,
       ⟨"recent_block_hashes_sysvar", .string⟩, ⟨"rent_sysvar", .string⟩,
       ⟨"nonce_authority", .string⟩, ⟨"lamports", .bigInt⟩])
  | "initializeNonce" => some (instTable "solana_inst_initialize_nonces"
      [⟨"nonce_account", .string⟩, ⟨"recent_block_hashes_sysvar", .string⟩,
       ⟨"rent_sysvar", .string⟩, ⟨"nonce_authority", .string⟩])
  | "authorizeNonce" => some (instTable "solana_inst_authorize_nonces"
      [⟨"nonce_account", .string⟩, ⟨"nonce_authority", .string⟩, ⟨"new_authorized", .string⟩])
  | _ => none

def createSpltokenInstTable : String → Option Table
  | "initializeMint" => some (instTable "solana_spl_token_initialize_mints"
      [⟨"source", .string⟩, ⟨"new_account", .string⟩, ⟨"lamports", .bigInt⟩, ⟨"space", .bigInt⟩,
       ⟨"owner", .string⟩])
  | _ => none

def systemAttributes (inst : ParsedInstruction) : String → Option (List (Attribute × Value))
  | "createAccount" => some createAccount
  | "createAccountWithSeed" => some (createAccount ++ seed)
  | "assign" => some assign
  | "assignWithSeed" => some (assign ++ seed)
  | "transfer" => some transfer
  | "transferWithSeed" => some (transfer ++
      [("source_base", inst.text "sourceBase"), ("source_seed", inst.text "sourceSeed"),
       ("source_owner", inst.text "sourceOwner")])
  | "allocate" => some allocate
  | "allocateWithSeed" => some (allocate ++ seed ++ [("owner", inst.text "owner")])
  | "advanceNonce" => some [("nonce_account", inst.text "nonceAccount"),
       ("recent_block_hashes_sysvar", inst.text "recentBlockhashesSysvar"),
       ("nonce_authority", inst.text "nonceAuthority")]
  | "withdrawFromNonce" => some
      [("nonce_account", inst.text "nonceAccount"), ("destination", inst.text "destination"),
       ("recent_block_hashes_sysvar", inst.text "recentBlockhashesSysvar"),
       ("rent_sysvar", inst.text "rentSysvar"), ("nonce_authority", inst.text "nonceAuthority"),
       ("lamports", inst.number "lamports")]
  | "initializeNonce" => some [("nonce_account", inst.text "nonceAccount"),
       ("recent_block_hashes_sysvar", inst.text "recentBlockhashesSysvar"),
       ("rent_sysvar", inst.text "rentSysvar"), ("nonce_authority", inst.text "nonceAuthority")]
  | "authorizeNonce" => some
      [("nonce_account", inst.text "nonceAccount"), ("nonce_authority", inst.text "nonceAuthority"),
       ("new_authorized", inst.text "newAuthorized")]
  | _ => none
where
  createAccount := [("source", inst.text "source"), ("new_account", inst.text "newAccount"),
    ("lamports", inst.number "lamports"), ("space", inst.number "space"),
    ("owner", inst.text "owner")]
  assign := [("account", inst.text "account"), ("owner", inst.text "owner")]
  transfer := [("source", inst.text "source"), ("destination", inst.text "destination"),
    ("lamports", inst.number "lamports")]
  allocate := [("account", inst.text "account"), ("space", inst.number "space")]
  seed := [("base", inst.text "base"), ("seed", inst.text "seed")]

def createSystemEntity (_blockSlot : Slot) (txHash : String) (blockTime : UInt64)
    (instOrder : Int32) (inst : ParsedInstruction) : Option Entity := do
  let instType ← (inst.parsed.index "type").asStr
  let attributes ← systemAttributes inst instType
  return .ofList ([("tx_hash", .string txHash), ("block_time", .bigInt blockTime.toNat),
    ("inst_order", .int instOrder)] ++ attributes)

def createSpltokenEntity (_blockSlot : Slot) (_txHash : String) (_blockTime : UInt64)
    (_instOrder : Int32) (_inst : ParsedInstruction) : Option Entity := none

def createVoteEntity (_blockSlot : Slot) (_txHash : String) (_blockTime : UInt64)
    (_instOrder : Int32) (_inst : ParsedInstruction) : Option Entity := none

end Massbit.Analytics
