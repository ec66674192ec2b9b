/-
Data sources (`data_source.rs`): how a trigger is matched and decoded, and how a data source is
made, stored and loaded.
-/
import Massbit.Ethereum.Types
import Massbit.Indexer.Instance

namespace Massbit

inductive ParamType where
  | address
  | bytes
  | int (size : ℕ)
  | uint (size : ℕ)
  | bool
  | string
  | array (inner : ParamType)
  | fixedBytes (size : ℕ)
  | fixedArray (inner : ParamType) (size : ℕ)
  | tuple (components : List ParamType)

structure EventParam where
  name : String
  kind : ParamType
  indexed : Bool

structure Event where
  name : String
  inputs : List EventParam

inductive StateMutability where
  | pure
  | view
  | nonPayable
  | payable

structure Param where
  name : String
  kind : ParamType

structure Function where
  name : String
  inputs : List Param
  outputs : List Param
  stateMutability : StateMutability

structure LogParam (Token : Type) where
  name : String
  value : Token

structure EthereumLibraries where
  keccak256 : Bytes → H256
  Contract : Type
  decEqContract : DecidableEq Contract
  events : Contract → List Event
  functions : Contract → List Function
  Token : Type
  displayKind : ParamType → String
  parseLog : Event → List H256 → Bytes → Except AnyError (List (LogParam Token))
  decodeInput : Function → Bytes → Except AnyError (List Token)
  decodeOutput : Function → Bytes → Except AnyError (List Token)
  debugFunction : Function → String
  addressFromStr : String → Except AnyError Address
  contextToString : Entity → String
  contextFromStr : String → Except AnyError Entity

instance (lib : EthereumLibraries) : DecidableEq lib.Contract := lib.decEqContract

structure MappingABI (lib : EthereumLibraries) where
  name : String
  contract : lib.Contract
  deriving DecidableEq

inductive BlockHandlerFilter where
  | call
  deriving DecidableEq

structure MappingBlockHandler where
  handler : String
  filter : Option BlockHandlerFilter
  deriving DecidableEq

structure MappingCallHandler where
  function : String
  handler : String
  deriving DecidableEq

structure MappingEventHandler where
  event : String
  topic0? : Option H256
  handler : String
  deriving DecidableEq

structure Mapping (lib : EthereumLibraries) where
  abis : List (MappingABI lib)
  blockHandlers : List MappingBlockHandler
  callHandlers : List MappingCallHandler
  eventHandlers : List MappingEventHandler
  deriving DecidableEq

variable {lib : EthereumLibraries}

def stringBytes (s : String) : Bytes := s.toByteArray.data.toList

def stringToH256 (lib : EthereumLibraries) (s : String) : H256 :=
  lib.keccak256 (stringBytes (s.replace " " ""))

def MappingEventHandler.topic0 (lib : EthereumLibraries) (self : MappingEventHandler) : H256 :=
  self.topic0?.getD (stringToH256 lib (self.event.replace "indexed " ""))

def MappingCallHandler.selector (lib : EthereumLibraries) (self : MappingCallHandler) : Bytes :=
  (lib.keccak256 (stringBytes self.function)).1.take 4

def Mapping.findAbi (self : Mapping lib) (abiName : String) : Except AnyError (MappingABI lib) :=
  match self.abis.find? fun abi => abi.name = abiName with
  | some abi => .ok abi
  | none => .error (.msg ("No ABI entry with name `" ++ abiName ++ "` found"))

structure DataSource (lib : EthereumLibraries) where
  kind : String
  network : Option String
  name : String
  source : Source
  mapping : Mapping lib
  context : Option Entity
  creationBlock : Option BlockNumber
  contractAbi : MappingABI lib

structure DataSourceTemplate (lib : EthereumLibraries) where
  kind : String
  network : Option String
  name : String
  abi : String
  mapping : Mapping lib

inductive IndexerManifestValidationError where
  | noDataSources
  | sourceAddressRequired
  | multipleEthereumNetworks
  | ethereumNetworkRequired
  | dataSourceBlockHandlerLimitExceeded
  | blockNotFound (number : String)
  | schemaValidationError (errors : List String)
  deriving DecidableEq

/-- A block as it is processed, with its hash and number. -/
structure BlockFinality where
  hash : H256
  number : BlockNumber
  transactions : List Transaction
  deriving DecidableEq

abbrev TriggeredBlock := BlockWithTriggers BlockFinality EthereumTrigger

namespace BlockFinality

def ptr (self : BlockFinality) : BlockPtr := .ofH256 self.hash self.number

def transactionForLog (self : BlockFinality) (log : Log) : Option Transaction :=
  log.transactionHash.bind fun hash => self.transactions.find? fun tx => tx.hash = hash

def transactionForCall (self : BlockFinality) (call : EthereumCall) : Option Transaction :=
  call.transactionHash.bind fun hash => self.transactions.find? fun tx => tx.hash = hash

end BlockFinality

def LightEthereumBlock.finality (self : LightEthereumBlock) : Option BlockFinality := do
  let hash ← self.hash
  let number ← self.blockNumber
  return ⟨hash, number, self.transactions⟩

inductive MappingTrigger (Token : Type) where
  | log (block : BlockFinality) (transaction : Transaction) (log : Log)
      (params : List (LogParam Token)) (handler : MappingEventHandler)
  | call (block : BlockFinality) (transaction : Transaction) (call : EthereumCall)
      (inputs outputs : List (LogParam Token)) (handler : MappingCallHandler)
  | block (block : BlockFinality) (handler : MappingBlockHandler)

def MappingTrigger.handlerName {Token : Type} : MappingTrigger Token → String
  | log _ _ _ _ handler => handler.handler
  | call _ _ _ _ _ handler => handler.handler
  | block _ handler => handler.handler

def orMsg {A : Type} (message : String) : Option A → Except AnyError A
  | some a => .ok a
  | none => .error (.msg message)

def withContext {A : Type} (message : String) : Except AnyError A → Except AnyError A
  | .ok a => .ok a
  | .error e => .error (.context message e)

def ensure (p : Prop) [Decidable p] (message : String) : Except AnyError Unit :=
  if p then .ok () else .error (.msg message)

namespace DataSource

variable (self : DataSource lib)

def validate : List IndexerManifestValidationError :=
  -- there must be a source address if there are call or block handlers
  (if self.source.address.isNone ∧
      (self.mapping.callHandlers ≠ [] ∨ self.mapping.blockHandlers ≠ [])
    then [.sourceAddressRequired] else []) ++
  -- there must not be more than one of each type of block handler
  (if 1 < self.mapping.blockHandlers.countP (fun handler => handler.filter.isNone) ∨
      1 < self.mapping.blockHandlers.countP (fun handler => handler.filter.isSome)
    then [.dataSourceBlockHandlerLimitExceeded] else [])

def handlersForLog (log : Log) : Except AnyError (List MappingEventHandler) := do
  -- get the signature from the log
  let topic0 ← orMsg "Ethereum event has no topics" log.topics.head?
  return self.mapping.eventHandlers.filter fun handler => topic0 = handler.topic0 lib

def handlerForCall (call : EthereumCall) : Except AnyError (Option MappingCallHandler) := do
  ensure (4 ≤ call.input.length) "Ethereum call has input with less than 4 bytes"
  return self.mapping.callHandlers.find? fun handler => call.input.take 4 = handler.selector lib

def handlerForBlock : EthereumBlockTriggerType → Option MappingBlockHandler
  | .every => self.mapping.blockHandlers.find? fun handler => handler.filter = none
  | .withCallTo _ => self.mapping.blockHandlers.find? fun handler => handler.filter = some .call

mutual

def eventParamTypeSignature : ParamType → String
  | .address => "address"
  | .bytes => "bytes"
  | .int size => "int" ++ toString size
  | .uint size => "uint" ++ toString size
  | .bool => "bool"
  | .string => "string"
  | .array inner => eventParamTypeSignature inner ++ "[]"
  | .fixedBytes size => "bytes" ++ toString size
  | .fixedArray inner size => eventParamTypeSignature inner ++ "[" ++ toString size ++ "]"
  | .tuple components =>
    "(" ++ String.intercalate "," (eventParamTypeSignatures components) ++ ")"

def eventParamTypeSignatures : List ParamType → List String
  | [] => []
  | kind :: kinds => eventParamTypeSignature kind :: eventParamTypeSignatures kinds

end

def ambiguousEventSignature (event : Event) : String :=
  event.name ++ "(" ++ String.intercalate ","
    (event.inputs.map fun input => eventParamTypeSignature input.kind) ++ ")"

def eventSignature (event : Event) : String :=
  event.name ++ "(" ++ String.intercalate "," (event.inputs.map fun input =>
    (if input.indexed then "indexed " else "") ++ eventParamTypeSignature input.kind) ++ ")"

def eventName (signature : String) : String :=
  if '(' ∈ signature.toList then String.ofList (signature.toList.takeWhile (· ≠ '(')) else ""

def contractEventWithSignature (signature : String) : Option Event :=
  let events := lib.events self.contractAbi.contract
  (events.find? fun event => eventSignature event = signature).or
    (match events.filter fun event => event.name = eventName signature with
    | [event] => if ambiguousEventSignature event = signature then some event else none
    | _ => none)

def contractFunctionWithSignature (targetSignature : String) : Option Function :=
  ((lib.functions self.contractAbi.contract).filter fun function =>
    match function.stateMutability with
    | .payable | .nonPayable => true
    | .pure | .view => false).find? fun function =>
      targetSignature = function.name ++ "(" ++ String.intercalate ","
        (function.inputs.map fun input => lib.displayKind input.kind) ++ ")"

def matchesTriggerAddress (trigger : EthereumTrigger) : Bool :=
  match self.source.address with
  -- wildcard data sources match any trigger address
  | none => true
  | some address =>
    match trigger with
    | .block _ (.withCallTo triggerAddress) => address = triggerAddress
    | .call call => address = call.toAddress
    | .log log => address = log.address
    -- unfiltered block triggers match any data source address
    | .block _ .every => true

def matchingHandlers (log : Log) (handlers : List MappingEventHandler) :
    Except AnyError (List (MappingEventHandler × List (LogParam lib.Token))) := do
  let valid ← handlers.mapM fun handler => do
    let event ← orMsg ("Event with the signature \"" ++ handler.event ++ "\" not found in " ++
      "contract \"" ++ self.contractAbi.name ++ "\" of data source \"" ++ self.name ++ "\"")
      (self.contractEventWithSignature handler.event)
    return (handler, event)
  -- handlers whose events cannot decode the log are left out
  return valid.filterMap fun (handler, event) =>
    match lib.parseLog event log.topics log.data with
    | .ok params => some (handler, params)
    | .error _ => none

def transactionOfLog (block : BlockFinality) (log : Log) : Except AnyError Transaction :=
  if log.transactionHash = some block.hash then
    .ok ⟨block.hash, some block.hash, some block.number.toNat, log.transactionIndex⟩
  else orMsg "Found no transaction for event" (block.transactionForLog log)

def decodeLog (block : BlockFinality) (log : Log) :
    Except AnyError (Option (MappingTrigger lib.Token)) := do
  let potential ← self.handlersForLog log
  let matching ← self.matchingHandlers log potential
  match matching.getLast? with
  | none => return none
  | some (handler, params) =>
    ensure (matching.length = 1) ("Multiple handlers defined for event `" ++ handler.event ++
      "`, only one is supported")
    let transaction ← transactionOfLog block log
    return some (.log block transaction log params handler)

def namedTokens (params : List Param) (tokens : List lib.Token) : List (LogParam lib.Token) :=
  (params.zip tokens).map fun (param, token) => ⟨param.name, token⟩

def decodeCall (block : BlockFinality) (call : EthereumCall) :
    Except AnyError (Option (MappingTrigger lib.Token)) := do
  match ← self.handlerForCall call with
  | none => return none
  | some handler =>
    let function ← orMsg ("Function with the signature \"" ++ handler.function ++
      "\" not found in contract \"" ++ self.contractAbi.name ++ "\" of data source \"" ++
      self.name ++ "\"") (self.contractFunctionWithSignature handler.function)
    let inputs ← withContext ("Generating function inputs for the call " ++
      lib.debugFunction function ++ " failed, raw input: " ++ Bytes.encode call.input)
      (lib.decodeInput function (call.input.drop 4))
    ensure (inputs.length = function.inputs.length)
      "Number of arguments in call does not match number of inputs in function signature."
    let outputs ← withContext ("Decoding function outputs for the call " ++
      lib.debugFunction function ++ " failed, raw output: " ++ Bytes.encode call.output)
      (lib.decodeOutput function call.output)
    ensure (outputs.length = function.outputs.length)
      ("Number of parameters in the call output does not match " ++
        "number of outputs in the function signature.")
    let transaction ← orMsg "Found no transaction for call" (block.transactionForCall call)
    return some (.call block transaction call (namedTokens function.inputs inputs)
      (namedTokens function.outputs outputs) handler)

def matchAndDecode (trigger : EthereumTrigger) (block : BlockFinality) :
    Except AnyError (Option (MappingTrigger lib.Token)) :=
  if !self.matchesTriggerAddress trigger then .ok none
  else if self.source.startBlock > block.number then .ok none
  else
    match trigger with
    | .block _ kind => .ok ((self.handlerForBlock kind).map (.block block))
    | .log log => self.decodeLog block log
    | .call call => self.decodeCall block call

def hasHandler : EthereumTrigger → Bool
  | .block _ kind => (self.handlerForBlock kind).isSome
  | .log log => match self.handlersForLog log with
    | .ok handlers => !handlers.isEmpty
    | .error _ => false
  | .call call => match self.handlerForCall call with
    | .ok handler => handler.isSome
    | .error _ => false

/-- The trigger matches the data source by address, start block and handler. -/
structure Matches (trigger : EthereumTrigger) (block : BlockNumber) : Prop where
  address : self.matchesTriggerAddress trigger = true
  startBlock : self.source.startBlock ≤ block
  handler : self.hasHandler trigger = true

def asStoredDynamicDataSource : StoredDynamicDataSource where
  name := self.name
  source := self.source
  context := self.context.map lib.contextToString
  creationBlock := self.creationBlock

def fromStoredDynamicDataSource (templates : String → Option (DataSourceTemplate lib))
    (stored : StoredDynamicDataSource) : Except AnyError (DataSource lib) := do
  let template ← orMsg ("no template named `" ++ stored.name ++ "` was found")
    (templates stored.name)
  let context ← stored.context.mapM lib.contextFromStr
  let contractAbi ← template.mapping.findAbi template.abi
  return ⟨template.kind, template.network, stored.name, stored.source, template.mapping, context,
    stored.creationBlock, contractAbi⟩

def isDuplicateOf (other : DataSource lib) : Bool :=
  self.kind = other.kind && self.network = other.network && self.name = other.name &&
    self.source = other.source && self.mapping.abis = other.mapping.abis &&
    self.mapping.eventHandlers = other.mapping.eventHandlers &&
    self.mapping.callHandlers = other.mapping.callHandlers &&
    self.mapping.blockHandlers = other.mapping.blockHandlers && self.context = other.context

def tryFrom (info : DataSourceTemplateInfo (DataSourceTemplate lib)) :
    Except AnyError (DataSource lib) := do
  let template := info.template
  -- the address is the first parameter
  let param ← orMsg ("Failed to create data source from template `" ++ template.name ++
    "`: address parameter is missing") info.params.head?
  let address ← withContext ("Failed to create data source from template `" ++ template.name ++
    "`, invalid address provided")
    (lib.addressFromStr (String.ofList (trimStartMatches '0' 'x' param.toList)))
  let contractAbi ← withContext ("template `" ++ template.name ++ "`")
    (template.mapping.findAbi template.abi)
  return ⟨template.kind, template.network, template.name, ⟨some address, template.abi, 0⟩,
    template.mapping, info.context, some info.creationBlock, contractAbi⟩

variable {self}

end DataSource

end Massbit
