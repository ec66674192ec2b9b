/-
What an Ethereum node hands out, and the triggers made of it (`components/ethereum/types.rs`,
`trigger.rs`).
-/
import Massbit.Data.Bytes
import Massbit.Indexer.BlockState
import Massbit.Lib.StableSort
import Massbit.Stream.Polling

open Option

namespace Massbit

abbrev H256 := { bs : Bytes // bs.length = 32 }

def H256.zero : H256 := ⟨List.replicate 32 0, List.length_replicate⟩

structure Log where
  address : Address
  topics : List H256
  data : Bytes
  blockHash : Option H256
  blockNumber : Option ℕ
  transactionHash : Option H256
  transactionIndex : Option ℕ
  logIndex : Option ℕ
  deriving DecidableEq

structure Transaction where
  hash : H256
  blockHash : Option H256
  blockNumber : Option ℕ
  transactionIndex : Option ℕ
  deriving DecidableEq

structure BlockHeader where
  hash : Option H256
  number : Option ℕ
  deriving DecidableEq

structure LightEthereumBlock extends BlockHeader where
  transactions : List Transaction
  deriving DecidableEq

structure CallAction where
  fromAddress : Address
  toAddress : Address
  value : ℕ
  input : Bytes
  deriving DecidableEq

inductive Action where
  | call (call : CallAction)
  | create
  | suicide
  | reward
  deriving DecidableEq

inductive Res where
  | call (output : Bytes) (gasUsed : ℕ)
  | create
  deriving DecidableEq

structure Trace where
  action : Action
  result : Option Res
  transactionPosition : Option ℕ
  transactionHash : Option H256
  blockNumber : ℕ
  blockHash : H256
  error : Option String
  deriving DecidableEq

def blockNumberOfNat (n : ℕ) : Option BlockNumber := if (n : ℤ) ≤ i32Max then some n else none

theorem blockNumberOfNat_eq_some {n : ℕ} {nu : BlockNumber} :
    blockNumberOfNat n = some nu ↔ (n : ℤ) = nu ∧ nu ≤ i32Max := by
  unfold blockNumberOfNat
  rw [ite_none_right_eq_some]
  constructor
  · rintro ⟨hle, h⟩
    cases h
    exact ⟨rfl, hle⟩
  · rintro ⟨rfl, hle⟩
    exact ⟨hle, rfl⟩

def BlockPtr.ofH256 (hash : H256) (number : BlockNumber) : BlockPtr := ⟨hash.1, number⟩

def BlockPtr.hashAsH256 (self : BlockPtr) : Option H256 :=
  if h : self.hash.length = 32 then some ⟨self.hash, h⟩ else none

@[simp] theorem BlockPtr.hashAsH256_ofH256 (hash : H256) (n : BlockNumber) :
    (BlockPtr.ofH256 hash n).hashAsH256 = some hash :=
  dif_pos hash.2

namespace BlockHeader

variable (self : BlockHeader)

def blockNumber : Option BlockNumber := self.number.bind blockNumberOfNat

def blockPtr : Option BlockPtr := do
  let hash ← self.hash
  let number ← self.blockNumber
  return .ofH256 hash number

end BlockHeader

structure EthereumCall where
  fromAddress : Address
  toAddress : Address
  value : ℕ
  gasUsed : ℕ
  input : Bytes
  output : Bytes
  blockNumber : BlockNumber
  blockHash : H256
  transactionHash : Option H256
  transactionIndex : ℕ
  deriving DecidableEq

def EthereumCall.tryFromTrace (trace : Trace) : Option EthereumCall :=
  if trace.error.isSome then none
  else
    match trace.action with
    | .call call =>
      -- transfers between contracts have no input
      if call.input.length < 4 then none
      else
        match trace.result with
        | some (.call output gasUsed) =>
          -- the only traces without transactions are those of block rewards
          trace.transactionPosition.map fun transactionIndex =>
            { fromAddress := call.fromAddress
              toAddress := call.toAddress
              value := call.value
              gasUsed
              input := call.input
              output
              blockNumber := i32 trace.blockNumber
              blockHash := trace.blockHash
              transactionHash := trace.transactionHash
              transactionIndex }
        | some .create | none => none
    | .create | .suicide | .reward => none

theorem EthereumCall.tryFromTrace_eq_some {t : Trace} {call : EthereumCall}
    (h : tryFromTrace t = some call) :
    (∃ ac, t.action = .call ac ∧ ac.toAddress = call.toAddress) ∧ 4 ≤ call.input.length ∧
      call.blockNumber = i32 t.blockNumber ∧ call.blockHash = t.blockHash := by
  unfold tryFromTrace at h
  split at h
  · cases h
  · split at h
    next ac ha =>
      split at h
      · cases h
      next hl =>
        split at h
        next =>
          obtain ⟨_, -, rfl⟩ := map_eq_some_iff.mp h
          dsimp only
          exact ⟨⟨ac, ha, rfl⟩, not_lt.mp hl, Eq.refl _, Eq.refl _⟩
        next => cases h
        next => cases h
    next => cases h
    next => cases h
    next => cases h

def EthereumCall.blockPtr (call : EthereumCall) : BlockPtr := .ofH256 call.blockHash call.blockNumber

inductive EthereumBlockTriggerType where
  | every
  | withCallTo (address : Address)
  deriving DecidableEq

inductive EthereumTrigger where
  | block (ptr : BlockPtr) (kind : EthereumBlockTriggerType)
  | call (call : EthereumCall)
  | log (log : Log)
  deriving DecidableEq

def compareOption : Option ℕ → Option ℕ → Ordering
  | none, none => .eq
  | none, some _ => .lt
  | some _, none => .gt
  | some a, some b => compare a b

theorem compareOption_swap (a b : Option ℕ) : (compareOption a b).swap = compareOption b a := by
  rcases a with - | a
  · rcases b with - | b <;> rfl
  · rcases b with - | b
    · rfl
    · exact Nat.compare_swap a b

namespace EthereumTrigger

def blockNumber : EthereumTrigger → Option BlockNumber
  | block ptr _ => some ptr.number
  | call c => some c.blockNumber
  | log l => l.blockNumber.bind blockNumberOfNat

def blockHash : EthereumTrigger → Option H256
  | block ptr _ => ptr.hashAsH256
  | call c => some c.blockHash
  | log l => l.blockHash

def cmp : EthereumTrigger → EthereumTrigger → Option Ordering
  -- keep the order when comparing two block triggers
  | block _ _, block _ _ => some .eq
  -- block triggers always come last
  | block _ _, call _ | block _ _, log _ => some .gt
  | call _, block _ _ | log _, block _ _ => some .lt
  -- calls are ordered by their transaction indexes
  | call a, call b => some (compare a.transactionIndex b.transactionIndex)
  -- events are ordered by their log index
  | log a, log b => some (compareOption a.logIndex b.logIndex)
  -- if they are from the same transaction, events come first
  | call a, log b => b.transactionIndex.map fun i =>
    if a.transactionIndex = i then .gt else compare a.transactionIndex i
  | log a, call b => a.transactionIndex.map fun i =>
    if i = b.transactionIndex then .lt else compare i b.transactionIndex

variable {a : EthereumCall} {b : EthereumTrigger} {o : Ordering}

theorem cmp_call_log {b : Log} :
    cmp (call a) (log b) = some o ↔ cmp (log b) (call a) = some o.swap := by
  simp only [cmp, map_eq_some_iff]
  refine exists_congr fun i => and_congr_right fun _ => ?_
  by_cases h : a.transactionIndex = i
  · rw [if_pos h, if_pos h.symm]
    cases o <;> decide
  · rw [if_neg h, if_neg (Ne.symm h), ← Nat.compare_swap i, Ordering.swap_eq_iff_eq_swap]

theorem cmp_swap {a : EthereumTrigger} (h : cmp a b = some o) :
    cmp b a = some o.swap := by
  rcases a with ⟨ptr, kind⟩ | a | a
  · rcases b with ⟨ptr', kind'⟩ | b | b <;> (obtain rfl := Option.some.inj h; rfl)
  · rcases b with ⟨ptr', kind'⟩ | b | b
    · cases h
      rfl
    · cases h
      exact congrArg some (Nat.compare_swap _ _).symm
    · exact cmp_call_log.1 h
  · rcases b with ⟨ptr', kind'⟩ | b | b
    · cases h
      rfl
    · rw [cmp_call_log, Ordering.swap_swap]
      exact h
    · cases h
      exact congrArg some (compareOption_swap _ _).symm

open List (NotGreater)

theorem notGreater_block (a : EthereumTrigger) (ptr : BlockPtr) (kind : EthereumBlockTriggerType) :
    NotGreater cmp a (block ptr kind) := by
  rcases a with ⟨ptr', kind'⟩ | a | a
  · exact ⟨.eq, rfl, by decide⟩
  · exact ⟨.lt, rfl, by decide⟩
  · exact ⟨.lt, rfl, by decide⟩

theorem exists_block_of_notGreater {ptr : BlockPtr} {kind : EthereumBlockTriggerType}
    (h : NotGreater cmp (block ptr kind) b) : ∃ ptr' kind', b = block ptr' kind' := by
  obtain ⟨o, ho, hne⟩ := h
  rcases b with ⟨ptr', kind'⟩ | b | b
  · exact ⟨ptr', kind', rfl⟩
  · exact absurd (Option.some.inj ho).symm hne
  · exact absurd (Option.some.inj ho).symm hne

theorem notGreater_call_call {b : EthereumCall} :
    NotGreater cmp (call a) (call b) ↔ a.transactionIndex ≤ b.transactionIndex := by
  simp [NotGreater, cmp, Nat.compare_ne_gt]

theorem notGreater_log_log {a b : Log} :
    NotGreater cmp (log a) (log b) ↔ compareOption a.logIndex b.logIndex ≠ .gt := by
  simp [NotGreater, cmp]

theorem notGreater_call_log {b : Log} :
    NotGreater cmp (call a) (log b) ↔ ∃ i, b.transactionIndex = some i ∧ a.transactionIndex < i := by
  simp only [NotGreater, cmp, map_eq_some_iff]
  constructor
  · rintro ⟨o, ⟨i, hi, rfl⟩, hne⟩
    refine ⟨i, hi, ?_⟩
    split at hne
    · exact absurd rfl hne
    next h => exact lt_of_le_of_ne (Nat.compare_ne_gt.mp hne) h
  · rintro ⟨i, hi, hlt⟩
    exact ⟨_, ⟨i, hi, if_neg hlt.ne⟩, Nat.compare_ne_gt.mpr hlt.le⟩

theorem notGreater_log_call {a : Log} {b : EthereumCall} :
    NotGreater cmp (log a) (call b) ↔ ∃ i, a.transactionIndex = some i ∧ i ≤ b.transactionIndex := by
  simp only [NotGreater, cmp, map_eq_some_iff]
  constructor
  · rintro ⟨o, ⟨i, hi, rfl⟩, hne⟩
    refine ⟨i, hi, ?_⟩
    split at hne
    next h => exact h.le
    next => exact Nat.compare_ne_gt.mp hne
  · rintro ⟨i, hi, hle⟩
    refine ⟨_, ⟨i, hi, rfl⟩, ?_⟩
    split
    · decide
    · exact Nat.compare_ne_gt.mpr hle

theorem compareOption_trans {a b c : Option ℕ} (hab : compareOption a b ≠ .gt)
    (hbc : compareOption b c ≠ .gt) : compareOption a c ≠ .gt := by
  rcases a with - | a
  · rcases c with - | c <;> simp [compareOption]
  · rcases b with - | b
    · exact absurd rfl hab
    · rcases c with - | c
      · exact absurd rfl hbc
      · rw [compareOption, Nat.compare_ne_gt] at *
        exact hab.trans hbc

def LogsFollowTransactions (triggers : List EthereumTrigger) : Prop :=
  ∀ a, log a ∈ triggers → (∃ i, a.transactionIndex = some i) ∧
    ∀ b, log b ∈ triggers → compareOption a.logIndex b.logIndex ≠ .gt →
      ∀ i j, a.transactionIndex = some i → b.transactionIndex = some j → i ≤ j

theorem notGreater_trans {triggers : List EthereumTrigger}
    (hl : LogsFollowTransactions triggers) {a c : EthereumTrigger} (ha : a ∈ triggers)
    (hb : b ∈ triggers) (hc : c ∈ triggers) (hab : NotGreater cmp a b) (hbc : NotGreater cmp b c) :
    NotGreater cmp a c := by
  -- a block comes after everything, and only blocks come after a block
  rcases c with ⟨ptr, kind⟩ | c | c
  · exact notGreater_block a ptr kind
  all_goals
    rcases b with ⟨ptr, kind⟩ | b | b
    · obtain ⟨ptr', kind', h⟩ := exists_block_of_notGreater hbc
      cases h
    all_goals
      rcases a with ⟨ptr, kind⟩ | a | a
      · obtain ⟨ptr', kind', h⟩ := exists_block_of_notGreater hab
        cases h
  · rw [notGreater_call_call] at *
    exact hab.trans hbc
  · rw [notGreater_call_call] at hbc
    rw [notGreater_log_call] at *
    obtain ⟨i, hi, hle⟩ := hab
    exact ⟨i, hi, hle.trans hbc⟩
  · rw [notGreater_call_log] at hab
    rw [notGreater_log_call] at hbc
    rw [notGreater_call_call]
    obtain ⟨i, hi, hlt⟩ := hab
    obtain ⟨j, hj, hle⟩ := hbc
    obtain rfl : i = j := Option.some.inj (hi.symm.trans hj)
    exact hlt.le.trans hle
  · rw [notGreater_log_log] at hab
    rw [notGreater_log_call] at *
    obtain ⟨⟨i, hi⟩, hf⟩ := hl a ha
    obtain ⟨j, hj, hle⟩ := hbc
    exact ⟨i, hi, (hf b hb hab i j hi hj).trans hle⟩
  · rw [notGreater_call_call] at hab
    rw [notGreater_call_log] at *
    obtain ⟨i, hi, hlt⟩ := hbc
    exact ⟨i, hi, hab.trans_lt hlt⟩
  · -- a log, a call of the same transaction or a later one, and a log of a later one still
    rw [notGreater_log_call] at hab
    rw [notGreater_call_log] at hbc
    rw [notGreater_log_log]
    obtain ⟨i, hi, hle⟩ := hab
    obtain ⟨j, hj, hlt⟩ := hbc
    intro hgt
    have hca : compareOption c.logIndex a.logIndex ≠ .gt := by
      rw [← compareOption_swap, hgt]
      decide
    have hji : j ≤ i := (hl c hc).2 a ha hca j i hj hi
    omega
  · rw [notGreater_call_log] at *
    rw [notGreater_log_log] at hbc
    obtain ⟨i, hi, hlt⟩ := hab
    obtain ⟨⟨j, hj⟩, -⟩ := hl c hc
    exact ⟨j, hj, hlt.trans_le ((hl b hb).2 c hc hbc i j hi hj)⟩
  · rw [notGreater_log_log] at *
    exact compareOption_trans hab hbc

end EthereumTrigger

end Massbit
