/-
The scan of a range of blocks for triggers (`ethereum_adapter.rs`).
-/
import Massbit.Ethereum.Filter
import Massbit.Lib.GroupBy
import Massbit.Lib.Unfold
import Mathlib.Data.List.Sort

namespace Massbit

structure LogsRequest where
  index : ℕ
  start : BlockNumber
  stop : BlockNumber
  step : ℤ
  filter : EthGetLogsFilter

inductive TraceFetch where
  | calls
  | blocksWithCalls
  deriving DecidableEq

structure TracesRequest where
  fetch : TraceFetch
  start : BlockNumber
  stop : BlockNumber
  addresses : Finset Address

/-- The answers of a node after the retries, and what else a scan depends on. -/
structure EthereumAdapter where
  traceStreamStepSize : ℤ
  maxEventOnlyRange : ℤ
  logsWithSigs : LogsRequest → Except String (List Log)
  traces : TracesRequest → Except AnyError (List Trace)
  blockByNumber : BlockNumber → Except AnyError (Option BlockHeader)
  blockWithTxs : H256 → Except AnyError (Option LightEthereumBlock)
  completion : List (List EthereumTrigger) → List (List EthereumTrigger)
  completion_perm : ∀ l, (completion l).Perm l
  addressOrder : Finset.IterOrder (BlockNumber × Address)
  hashOrder : Finset.IterOrder H256
  debugBlock : LightEthereumBlock → String

namespace EthereumAdapter

variable (self : EthereumAdapter) (fuel : ℕ) (fromBlock toBlock : BlockNumber)

def tooManyLogsFingerprints : List String :=
  ["ServerError(-32005)", "503 Service Unavailable", "ServerError(-32000)"]

def isTooManyLogs (error : String) : Bool :=
  tooManyLogsFingerprints.any fun f => f.toList <:+: error.toList

def logStreamTurn (index : ℕ) (filter : EthGetLogsFilter) (seed : BlockNumber × ℤ) :
    Outcome AnyError (Option (List Log × BlockNumber × ℤ)) :=
  let (start, step) := seed
  if start > toBlock then .ok none
  else
    let stop := min (i32 (start + step)) toBlock
    match self.logsWithSigs ⟨index, start, stop, step, filter⟩ with
    | .error error =>
      if isTooManyLogs error ∧ step > 0 then .ok (some ([], start, step / 10))
      else .err (.msg error)
    | .ok logs => .ok (some (logs, i32 (stop + 1), step))

def logStreamStep (filter : EthGetLogsFilter) : ℤ :=
  if filter.contracts.isEmpty then
    min (i32 (toBlock - fromBlock)) (i32 (self.maxEventOnlyRange - 1))
  else i32 (toBlock - fromBlock)

def logStream (index : ℕ) (filter : EthGetLogsFilter) : Outcome AnyError (List Log) :=
  -- cannot produce a log stream on a backwards block range
  if fromBlock > toBlock then .panic
  else do
    let logs ← Outcome.tryUnfold (self.logStreamTurn toBlock index filter) fuel
      (fromBlock, self.logStreamStep fromBlock toBlock filter)
    return logs.flatten

def logsInBlockRange (logFilter : EthereumLogFilter) : Outcome AnyError (List Log) := do
  let logs ← logFilter.ethLogsFilters.zipIdx.mapM fun (filter, index) =>
    self.logStream fuel fromBlock toBlock index filter
  return logs.flatten

def traceStreamTurn (fetch : TraceFetch) (addresses : Finset Address) (start : BlockNumber) :
    Outcome AnyError (Option (List Trace × BlockNumber)) :=
  if start > toBlock then .ok none
  else do
    let stop := min (i32 (i32 (start + self.traceStreamStepSize) - 1)) toBlock
    let traces ← .ofExcept (self.traces ⟨fetch, start, stop, addresses⟩)
    return some (traces, i32 (stop + 1))

def traceStream (fetch : TraceFetch) (addresses : Finset Address) : Outcome AnyError (List Trace) :=
  -- can not produce a call stream on a backwards block range
  if fromBlock > toBlock then .panic
  else do
    let traces ← Outcome.tryUnfold (self.traceStreamTurn toBlock fetch addresses) fuel fromBlock
    return traces.flatten

def startedAddresses (callFilter : EthereumCallFilter) : Finset Address :=
  callFilter.contractAddressesFunctionSignatures.keys.filter fun address =>
    (callFilter.contractAddressesFunctionSignatures.lookup address).any fun s => s.1 ≤ toBlock

def filterCalls (callFilter : EthereumCallFilter) : List EthereumCall → Option (List EthereumCall)
  | [] => some []
  | call :: calls => do
    let isMatch ← callFilter.matchesCall call
    let rest ← filterCalls callFilter calls
    return if isMatch then call :: rest else rest

def callsInBlockRange (fetch : TraceFetch) (callFilter : EthereumCallFilter) :
    Outcome AnyError (List EthereumCall) :=
  let addresses := startedAddresses toBlock callFilter
  -- prevents an expensive call to `trace_filter` with empty `addresses`
  if addresses = ∅ then .ok []
  else do
    let traces ← self.traceStream fuel fromBlock toBlock fetch addresses
    .ofOption (filterCalls callFilter (traces.filterMap EthereumCall.tryFromTrace))

def loadBlockPtr (number : BlockNumber) : Outcome AnyError BlockPtr := do
  match ← .ofExcept (self.blockByNumber number) with
  | some block => .ofOption block.blockPtr
  | none => .err (.msg ("Ethereum node did not find block " ++ toString number))

def blockNumbers : List BlockNumber :=
  (List.range (toBlock + 1 - fromBlock).toNat).map fun i : ℕ => fromBlock + i

def blockRangeToPtrs : Outcome AnyError (List BlockPtr) :=
  (blockNumbers fromBlock toBlock).mapM self.loadBlockPtr

def blockHashByBlockNumber (number : BlockNumber) : Outcome AnyError (Option H256) := do
  let block ← .ofExcept (self.blockByNumber number)
  return block.bind fun block => block.hash

def loadBlock (hash : H256) : Outcome AnyError LightEthereumBlock := do
  match ← .ofExcept (self.blockWithTxs hash) with
  | some block => return block
  | none => .err (.msg ("Ethereum node did not find block " ++ Bytes.display hash.1))

def loadBlocks (hashes : Finset H256) : Outcome AnyError (List LightEthereumBlock) := do
  let blocks ← (self.hashOrder.toList hashes).mapM self.loadBlock
  return blocks.insertionSort fun a b => compareOption a.number b.number ≠ .gt

def logTriggers (filter : EthereumLogFilter) : Outcome AnyError (List EthereumTrigger) := do
  let logs ← self.logsInBlockRange fuel fromBlock toBlock filter
  return logs.map .log

def callTriggers (filter : EthereumCallFilter) : Outcome AnyError (List EthereumTrigger) := do
  let calls ← self.callsInBlockRange fuel fromBlock toBlock .calls filter
  return calls.map .call

def everyBlockTriggers : Outcome AnyError (List EthereumTrigger) := do
  let ptrs ← self.blockRangeToPtrs fromBlock toBlock
  return ptrs.map fun ptr => .block ptr .every

def callBlockTriggers (filter : EthereumBlockFilter) : Outcome AnyError (List EthereumTrigger) := do
  let calls ← self.callsInBlockRange fuel fromBlock toBlock .blocksWithCalls
    (filter.toCallFilter self.addressOrder)
  return calls.map fun call => .block call.blockPtr (.withCallTo call.toAddress)

def fetches (filter : TriggerFilter) : List (Outcome AnyError (List EthereumTrigger)) :=
  (if filter.log.isEmpty then [] else [self.logTriggers fuel fromBlock toBlock filter.log]) ++
  (if filter.call.isEmpty then [] else [self.callTriggers fuel fromBlock toBlock filter.call]) ++
  (if filter.block.triggerEveryBlock then [self.everyBlockTriggers fromBlock toBlock]
    else if filter.block.contractAddresses = ∅ then []
    else [self.callBlockTriggers fuel fromBlock toBlock filter.block])

def collectTriggers (filter : TriggerFilter) : Outcome AnyError (List EthereumTrigger) := do
  let triggers ← (self.fetches fuel fromBlock toBlock filter).mapM id
  return (self.completion triggers).flatten

def numbered (triggers : List EthereumTrigger) :
    Outcome AnyError (List (BlockNumber × EthereumTrigger)) :=
  triggers.mapM fun t => .ofOption (t.blockNumber.map fun number => (number, t))

def attachTriggers : HashMap BlockNumber (List EthereumTrigger) → List LightEthereumBlock →
    Outcome AnyError (List (LightEthereumBlock × List EthereumTrigger))
  | _, [] => .ok []
  | triggersByBlock, block :: blocks => do
    let number ← .ofOption block.blockNumber
    match triggersByBlock.lookup number with
    | some triggers =>
      let sorted ← .ofOption (triggers.sortByM EthereumTrigger.cmp)
      let rest ← attachTriggers (triggersByBlock.erase number) blocks
      return (block, sorted) :: rest
    | none => .err (.msg ("block " ++ self.debugBlock block ++ " not found in `triggers_by_block`"))

def withFinality (item : LightEthereumBlock × List EthereumTrigger) :
    Outcome AnyError TriggeredBlock :=
  .ofOption (item.1.finality.map fun block => ⟨block, item.2⟩)

def checkRange (blocks : List TriggeredBlock) :
    Outcome AnyError (List TriggeredBlock) := do
  let first ← .ofOption blocks.head?
  let last ← .ofOption blocks.getLast?
  if first.block.number < fromBlock then
    .err (.msg ("block " ++ toString first.block.number ++
      " returned by the Ethereum node is before " ++ toString fromBlock ++
      ", the first block of the requested range"))
  else if last.block.number > toBlock then
    .err (.msg ("block " ++ toString last.block.number ++
      " returned by the Ethereum node is after " ++ toString toBlock ++
      ", the last block of the requested range"))
  else return blocks

def assemble (toHash : H256) (triggers : List EthereumTrigger) :
    Outcome AnyError (List TriggeredBlock) := do
  let hashes ← triggers.mapM fun t => .ofOption t.blockHash
  let keyed ← numbered triggers
  let triggersByBlock := keyed.pushAll
  let triggersByBlock :=
    if toBlock ∈ triggersByBlock then triggersByBlock else triggersByBlock.insert toBlock []
  let blocks ← self.loadBlocks (insert toHash hashes.toFinset)
  let items ← self.attachTriggers triggersByBlock blocks
  let found ← items.mapM withFinality
  checkRange fromBlock toBlock (found.insertionSort fun a b => a.block.number ≤ b.block.number)

def blocksWithTriggers (filter : TriggerFilter) :
    Outcome AnyError (List TriggeredBlock) := do
  let triggers ← self.collectTriggers fuel fromBlock toBlock filter
  match ← self.blockHashByBlockNumber toBlock with
  | some toHash => self.assemble fromBlock toBlock toHash triggers
  | none => .err (.msg ("Block " ++ toString toBlock ++ " not found in the chain"))

end EthereumAdapter

def Log.id (log : Log) : Option H256 × Option ℕ := (log.transactionHash, log.logIndex)

def Log.number (log : Log) : ℤ := (log.blockNumber.getD 0 : ℕ)

def Trace.number (trace : Trace) : ℤ := trace.blockNumber

structure EthereumChain where
  height : ℕ
  hash : ℕ → H256
  transactions : ℕ → List Transaction
  logs : List Log
  traces : List Trace
  receiver : Trace → Option Address
  height_le : (height : ℤ) ≤ i32Max
  hash_injOn : ∀ m ≤ height, ∀ n ≤ height, hash m = hash n → m = n
  log_block : ∀ log ∈ logs, ∃ n ≤ height, log.blockNumber = some n ∧ log.blockHash = some (hash n)
  logs_nodup : (logs.map Log.id).Nodup
  trace_block : ∀ trace ∈ traces, trace.blockNumber ≤ height ∧
    trace.blockHash = hash trace.blockNumber
  receiver_call : ∀ {trace call}, trace.action = .call call → receiver trace = some call.toAddress

namespace EthereumChain

variable (chain : EthereumChain)

def heightOf? (hash : H256) : Option ℕ :=
  (List.range (chain.height + 1)).find? fun n => chain.hash n = hash

def header (n : ℕ) : BlockHeader := ⟨some (chain.hash n), some n⟩

def header? (number : BlockNumber) : Option BlockHeader :=
  if 0 ≤ number ∧ number ≤ chain.height then some (chain.header number.toNat) else none

def block? (hash : H256) : Option LightEthereumBlock :=
  (chain.heightOf? hash).map fun n => ⟨chain.header n, chain.transactions n⟩

def logsFor (request : LogsRequest) : List Log :=
  (chain.logs.filter request.filter.matchesLog).inRange Log.number request.start request.stop

def tracesFor (request : TracesRequest) : List Trace :=
  (chain.traces.filter fun trace => (chain.receiver trace).any (· ∈ request.addresses)).inRange
    Trace.number request.start request.stop

variable {chain}

theorem heightOf?_eq_some {hash : H256} {n : ℕ} :
    chain.heightOf? hash = some n ↔ n ≤ chain.height ∧ chain.hash n = hash := by
  constructor
  · intro h
    have hme := List.mem_of_find?_eq_some h
    exact ⟨Nat.lt_succ_iff.1 (List.mem_range.1 hme), by simpa using List.find?_some h⟩
  · rintro ⟨hn, rfl⟩
    rcases e : chain.heightOf? (chain.hash n) with _ | m
    · have hno := List.find?_eq_none.1 e n (List.mem_range.2 (Nat.lt_succ_iff.2 hn))
      exact absurd (decide_eq_true rfl) hno
    · have hm := List.mem_range.1 (List.mem_of_find?_eq_some e)
      have hh : chain.hash m = chain.hash n := by simpa using List.find?_some e
      rw [chain.hash_injOn m (Nat.lt_succ_iff.1 hm) n hn hh]

theorem header_blockNumber {n : ℕ} (hn : n ≤ chain.height) :
    (chain.header n).blockNumber = some (n : ℤ) := by
  have hle : (n : ℤ) ≤ i32Max := le_trans (by exact_mod_cast hn) chain.height_le
  exact blockNumberOfNat_eq_some.2 ⟨rfl, hle⟩

variable (chain) in
theorem header?_of_mem {n : BlockNumber} (h0 : 0 ≤ n)
    (hh : n ≤ chain.height) : chain.header? n = some (chain.header n.toNat) :=
  if_pos ⟨h0, hh⟩

end EthereumChain

/-- The node answers each request with what the chain has for it; a request for the logs of more
than one block may be too heavy. -/
structure EthereumAdapter.Serves (adapter : EthereumAdapter) (chain : EthereumChain) : Prop where
  logs : ∀ request, (∃ logs, adapter.logsWithSigs request = .ok logs ∧
      logs.Perm (chain.logsFor request)) ∨
    (0 < request.step ∧ ∃ error, adapter.logsWithSigs request = .error error ∧
      EthereumAdapter.isTooManyLogs error = true)
  traces : ∀ request, ∃ traces, adapter.traces request = .ok traces ∧
    traces.Perm (chain.tracesFor request)
  blockByNumber : ∀ number, adapter.blockByNumber number = .ok (chain.header? number)
  blockWithTxs : ∀ hash, adapter.blockWithTxs hash = .ok (chain.block? hash)

noncomputable def EthereumChain.node (chain : EthereumChain) : EthereumAdapter where
  traceStreamStepSize := 50
  maxEventOnlyRange := 500
  logsWithSigs request := .ok (chain.logsFor request)
  traces request := .ok (chain.tracesFor request)
  blockByNumber number := .ok (chain.header? number)
  blockWithTxs hash := .ok (chain.block? hash)
  completion l := l
  completion_perm l := .refl l
  addressOrder := .choose
  hashOrder := .choose
  debugBlock block := (block.hash.elim "None" fun hash => Bytes.display hash.1)

theorem EthereumChain.serves_node (chain : EthereumChain) : chain.node.Serves chain where
  logs _ := .inl ⟨_, rfl, .refl _⟩
  traces _ := ⟨_, rfl, .refl _⟩
  blockByNumber _ := rfl
  blockWithTxs _ := rfl

end Massbit
