/-
Ethereum as a blockchain (`chain.rs`), and which triggers of a block a filter selects.
-/
import Massbit.Ethereum.Scan
import Massbit.Indexer.Watch

namespace Massbit

variable {lib : EthereumLibraries}

def EthereumTrigger.errorContext (self : EthereumTrigger) : String :=
  let transactionId := match self with
    | .log l => l.transactionHash
    | .call c => c.transactionHash
    | .block _ _ => none
  match transactionId with
  | some hash => "block #" ++ self.blockNumber.elim "" toString ++ " (" ++
      self.blockHash.elim "" (fun hash => Bytes.display hash.1) ++ "), transaction " ++
      Bytes.encode hash.1
  | none => ""

def ethereum (lib : EthereumLibraries) (order : Finset.IterOrder (BlockNumber × Address)) :
    Blockchain where
  Block := BlockFinality
  TriggerData := EthereumTrigger
  MappingTrigger := MappingTrigger lib.Token
  DataSource := DataSource lib
  DataSourceTemplate := DataSourceTemplate lib
  TriggerFilter := TriggerFilter
  ptr := BlockFinality.ptr
  errorContext := EthereumTrigger.errorContext
  handlerName := MappingTrigger.handlerName
  templateName := DataSourceTemplate.name
  dataSourceName := DataSource.name
  creationBlock := DataSource.creationBlock
  isDuplicateOf := DataSource.isDuplicateOf
  asStoredDynamicDataSource := DataSource.asStoredDynamicDataSource
  tryFrom := DataSource.tryFrom
  matchAndDecode := DataSource.matchAndDecode
  fromDataSources := TriggerFilter.fromDataSources order
  extendFilter := TriggerFilter.extend order

def EthereumAdapter.triggersInBlock (self : EthereumAdapter) (fuel : ℕ) (block : BlockFinality)
    (filter : TriggerFilter) : Outcome AnyError TriggeredBlock := do
  match ← self.blocksWithTriggers fuel block.number block.number filter with
  | [block] => return block
  | _ => .panic

def TriggerFilter.selects (self : TriggerFilter) : EthereumTrigger → Bool
  | .log log => self.log.matchesLog log
  | .call call =>
    (self.call.contractAddressesFunctionSignatures.lookup call.toAddress).any (fun s =>
      s.1 ≤ call.blockNumber) && self.call.matchesCall call = some true
  | .block _ .every => self.block.triggerEveryBlock
  -- blocks with calls are not looked for if every block is a trigger
  | .block ptr (.withCallTo address) => !self.block.triggerEveryBlock &&
      decide (∃ e ∈ self.block.contractAddresses, e.2 = address ∧ e.1 ≤ ptr.number)

section Example

open EthereumAdapter (zeroHash oneCallChain firstTrace collectTriggers fetches oneLogChain_loadBlocks)

local instance unitWeight : EntityWeight := ⟨fun _ _ => 1⟩

noncomputable abbrev plainChain : Blockchain := ethereum plainLibraries .choose

def firstBlock : BlockFinality := ⟨zeroHash, 0, []⟩

noncomputable def idleEnvironment (blockTriggers : List EthereumTrigger) :
    Environment plainChain where
  store := Content.empty.serve
  build _ := .ok ()
  handle _ _ _ := .ok ⟨[], none, .prefer []⟩
  display _ := ""
  timeout := none
  triggersInBlock _ filter := .ok (blockTriggers.filter (TriggerFilter.selects filter))
  isCanceled := false
  order := .prefer []
  entityCacheSize := 100
  transactBlockOperations _ _ _ := .ok ()

noncomputable def plainHost (ds : DataSource plainLibraries) : RuntimeHost plainChain :=
  ⟨ds, "QmIndexer", "source", [], plainChain.templateName⟩

noncomputable def plainContext (ds : DataSource plainLibraries) : IndexingContext plainChain :=
  ⟨⟨"QmIndexer", [plainHost ds], by simp [plainHost]⟩, [],
    TriggerFilter.fromDataSources .choose [ds], .new⟩

def blockTriggers (kind : EthereumBlockTriggerType) : List EthereumTrigger :=
  [.block firstBlock.ptr kind]

theorem everyBlock_processed :
    ∃ r hosts created, watchBlock .pushing (idleEnvironment (blockTriggers .every)) 1
        (plainContext (plainSource [⟨"handle", none⟩] [])) firstBlock (blockTriggers .every)
      = .ok (hosts ++ created, r) ∧
    ∀ watched ∈ hosts ++ created,
      watched.processed = (blockTriggers .every).filter (watched.host.matches? firstBlock) := by
  obtain ⟨r, hr, hc⟩ : ∃ r, processBlock .pushing
      (idleEnvironment (blockTriggers .every)) 1
      (plainContext (plainSource [⟨"handle", none⟩] [])) firstBlock (blockTriggers .every) = .ok r ∧
      r.transacted = some ([], []) := ⟨_, rfl, rfl⟩
  obtain ⟨hosts, created, hw, hh, -, hs, hi⟩ := processed_iff_selected
    .pushing (idleEnvironment (blockTriggers .every)) rfl
    (fun filter ts h => (Except.ok.inj h).symm) hr hc
  refine ⟨r, hosts, created, hw, hi.2 ?_⟩
  have ho : ∃ processed r', watchBlock .pushing
      (idleEnvironment (blockTriggers .every)) 1
      (plainContext (plainSource [⟨"handle", none⟩] [])) firstBlock (blockTriggers .every)
      = .ok ([⟨plainHost (plainSource [⟨"handle", none⟩] []),
        TriggerFilter.fromDataSources .choose [plainSource [⟨"handle", none⟩] []], processed⟩], r') :=
    ⟨_, _, rfl⟩
  obtain ⟨processed, r', ho⟩ := ho
  rw [(Prod.mk.inj (Outcome.ok.inj (hw.symm.trans ho))).1]
  intro watched hwa t ht _
  obtain rfl := List.mem_singleton.1 hwa
  obtain rfl := List.mem_singleton.1 ht
  rfl

abbrev callSource : DataSource plainLibraries := plainSource [⟨"handle", some .call⟩] []

def firstCall : EthereumCall where
  fromAddress := 2
  toAddress := 1
  value := 0
  gasUsed := 0
  input := [0, 0, 0, 0]
  output := []
  blockNumber := 0
  blockHash := zeroHash
  transactionHash := some zeroHash
  transactionIndex := 0

theorem tryFromTrace_firstTrace : EthereumCall.tryFromTrace firstTrace = some firstCall := by
  decide

theorem triggersInBlock_oneCallChain :
    oneCallChain.node.triggersInBlock 2 firstBlock (TriggerFilter.fromDataSources .choose [callSource])
      = .ok ⟨firstBlock, []⟩ := by
  refine bind_eq_ok.2 ⟨[⟨firstBlock, []⟩], ?_, rfl⟩
  refine bind_eq_ok.2 ⟨[], ?_, bind_eq_ok.2 ⟨some zeroHash, rfl, ?_⟩⟩
  · rw [collectTriggers, fetches,
      if_pos (TriggerFilter.fromDataSources_block_contractAddresses .choose _)]
    rfl
  · refine bind_eq_ok.2 ⟨[], rfl, bind_eq_ok.2 ⟨[], rfl, ?_⟩⟩
    exact bind_eq_ok.2 ⟨_, oneLogChain_loadBlocks (by simp), rfl⟩

theorem callBlock_not_processed :
    oneCallChain.HasTrigger 0 (.block firstBlock.ptr (.withCallTo 1)) ∧
    oneCallChain.node.triggersInBlock 2 firstBlock (TriggerFilter.fromDataSources .choose [callSource])
      = .ok ⟨firstBlock, []⟩ ∧
    (blockTriggers (.withCallTo 1)).filter
      (TriggerFilter.fromDataSources .choose [callSource]).selects = [] ∧
    ∃ r watched, watchBlock .pushing
        (idleEnvironment (blockTriggers (.withCallTo 1))) 1
        (plainContext callSource) firstBlock []
      = .ok ([watched], r) ∧ r.transacted = some ([], []) ∧ watched.processed = [] ∧
    (blockTriggers (.withCallTo 1)).filter (watched.host.matches? firstBlock)
      = blockTriggers (.withCallTo 1) := by
  have ht : oneCallChain.HasTrigger firstTrace.number
      (.block firstCall.blockPtr (.withCallTo firstCall.toAddress)) :=
    .withCallTo (List.mem_singleton.2 rfl) tryFromTrace_firstTrace
  refine ⟨ht, triggersInBlock_oneCallChain, ?_, _, _, rfl, rfl, rfl, rfl⟩
  have hn := TriggerFilter.fromDataSources_block_contractAddresses .choose [callSource]
  simp [blockTriggers, TriggerFilter.selects, hn]

end Example

end Massbit
