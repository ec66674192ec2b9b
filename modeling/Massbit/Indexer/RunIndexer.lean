/-
`run_indexer` (`instance_manager.rs`, `registrar.rs`, `chain.rs`).
-/
import Massbit.Ethereum.Assembly
import Massbit.Indexer.ProcessBlock
import Massbit.Postgres.Concurrency
import Massbit.Stream.Firehose

open List

namespace Massbit

inductive IndexerRegistrarError where
  | manifestValidationError (errors : List IndexerManifestValidationError)
  deriving DecidableEq

def EthereumAdapter.blockPointerFromNumber (self : EthereumAdapter) (blockNumber : BlockNumber) :
    Outcome AnyError BlockPtr := do
  match ← self.blockHashByBlockNumber blockNumber with
  | some blockHash => return .ofH256 blockHash blockNumber
  | none => .err (.msg ("Ethereum node could not find start block hash by block number " ++
      toString blockNumber))

def resolveIndexerChainBlocks (adapter : EthereumAdapter) (startBlocks : List ℤ) :
    Outcome IndexerRegistrarError (Option BlockPtr) :=
  match startBlocks.min? with
  -- there are no data sources
  | none => .panic
  | some minStartBlock =>
    if minStartBlock = 0 then .ok none
    else do
      let ptr ← (adapter.blockPointerFromNumber (i32 (minStartBlock - 1))).mapErr fun _ =>
        .manifestValidationError [.blockNotFound (toString minStartBlock)]
      return some ptr

structure IndexerDeploymentEntity where
  earliestBlock : Option BlockPtr
  latestBlock : Option BlockPtr

def IndexerDeploymentEntity.new (earliestBlock : Option BlockPtr) : IndexerDeploymentEntity :=
  ⟨earliestBlock, earliestBlock⟩

def Database.createDeployment (self : Database) (site : Site)
    (deployment : IndexerDeploymentEntity) : Database :=
  if self.deployments.any fun d => d.deployment = site.deployment then self
  else { self with deployments := self.deployments ++ [⟨site.deployment,
    deployment.latestBlock.map BlockPtr.hash, deployment.latestBlock.map BlockPtr.number⟩] }

def DeploymentStore.blockPtr (self : DeploymentStore) (db : Database) (site : Site) :
    Outcome StoreError (Option BlockPtr) := do
  let _ ← Outcome.ofExcept self.conn
  db.blockPtr self.lib site.deployment

structure Chain (R : Type) (C : Blockchain) where
  name : String
  firehoseEndpoints : ℕ
  triggersAdapter : Except AnyError Unit
  maxBlockRangeSize : ℤ
  targetTriggersPerBlockRange : ℕ
  toBlockStreamEvent : R → Except AnyError (BlockWithTriggers C.Block C.TriggerData)
  filterBytes : C.TriggerFilter → Except AnyError (List UInt8)

inductive BlockStream (F R : Type) (C : Blockchain) where
  | polling (stream : PollingBlockStream F C.Block C.TriggerData)
  | firehose (stream : FirehoseBlockStream R (BlockWithTriggers C.Block C.TriggerData) AnyError)

structure StreamAnswer (R : Type) (C : Blockchain) where
  scan : ScanAnswer C.Block C.TriggerData AnyError
  network : FirehoseAnswer R AnyError

section

variable {F R : Type} [F64 F] {C : Blockchain}

def Chain.newPollingBlockStream (self : Chain R C) (startBlock : BlockNumber) :
    BlockStream F R C :=
  .polling (.new startBlock self.maxBlockRangeSize self.targetTriggersPerBlockRange)

def Chain.newFirehoseBlockStream (self : Chain R C) (startBlock : BlockNumber)
    (filter : C.TriggerFilter) : BlockStream F R C :=
  .firehose (.new ⟨self.toBlockStreamEvent, self.name, self.filterBytes filter, startBlock⟩)

def Chain.newBlockStream (self : Chain R C) (startBlock : BlockNumber) (filter : C.TriggerFilter) :
    Except AnyError (BlockStream F R C) :=
  if self.firehoseEndpoints > 0 then .ok (self.newFirehoseBlockStream startBlock filter)
  else self.triggersAdapter.map fun _ => self.newPollingBlockStream startBlock

namespace BlockStream

def firstBlock : BlockStream F R C → ℤ
  | polling stream => stream.ctx.fromBlock
  | firehose stream => (stream.blockRequest []).startBlockNumber.elim 0 Nat.cast

def ofFirehose {B T E : Type} : FirehoseResult (BlockWithTriggers B T) E → PollingResult B T E
  | .pending => .pending
  | .block block => .block block
  | .error e => .error e
  | .panicked => .panicked

def turn (self : BlockStream F R C) (answer : StreamAnswer R C) :
    Turn (BlockStream F R C) (PollingEvent C.Block C.TriggerData AnyError)
      (PollingResult C.Block C.TriggerData AnyError) :=
  match self with
  | polling stream =>
    let turn := stream.turn answer.scan
    ⟨.polling turn.state, turn.events, turn.result⟩
  | firehose stream =>
    let turn := stream.turn answer.network
    ⟨.firehose turn.state, [], turn.result.map ofFirehose⟩

end BlockStream

inductive RunPhase (F R : Type) (C : Blockchain) where
  | starting
  | streaming (stream : BlockStream F R C)
  | canceled
  | failed (e : AnyError)
  | failedBlock (e : BlockProcessingError)
  | panicked

/-- A stream that was created: the pointer that was stored then, and the first block of the stream.
-/
structure Creation where
  stored : Option BlockPtr
  firstBlock : ℤ
  deriving DecidableEq

/-- A block that a stream handed out: the pointer that was stored then, and the number of the block.
-/
structure Offer where
  stored : Option BlockPtr
  number : ℤ
  deriving DecidableEq

structure IndexerRun (F R : Type) (C : Blockchain) where
  ctx : IndexingContext C
  db : Database
  phase : RunPhase F R C
  created : List Creation
  scans : List (PollingEvent C.Block C.TriggerData AnyError)
  offered : List Offer

inductive RunAction (R : Type) (C : Blockchain) where
  | start
  | poll (answer : StreamAnswer R C) (env : Environment C) (fuel : ℕ)
  | cancel

namespace IndexerRun

def new (ctx : IndexingContext C) (db : Database) : IndexerRun F R C :=
  ⟨ctx, db, .starting, [], [], []⟩

variable [EntityWeight]
variable (impl : EntityHeap)
variable (chain : Chain R C) (store : DeploymentStore) (site : Site)

def startStream (self : IndexerRun F R C) : IndexerRun F R C :=
  match store.blockPtr self.db site with
  | .panic => { self with phase := .panicked }
  | .err e => { self with phase := .failed (.msg e.display) }
  | .ok ptr =>
    let indexerPtr := ptr.elim 0 BlockPtr.number
    match chain.newBlockStream indexerPtr self.ctx.filter with
    | .error e => { self with phase := .failed e }
    | .ok stream =>
      { self with
        phase := .streaming stream
        created := self.created ++ [⟨ptr, stream.firstBlock⟩] }

def commit (db : Database) (blockPtr : BlockPtr) :
    Option (List EntityModification × List StoredDynamicDataSource) → Database
  | none => db
  | some transacted =>
    (store.transactBlockOperations db site blockPtr transacted.1 transacted.2).2

def process (self : IndexerRun F R C) (block : BlockWithTriggers C.Block C.TriggerData)
    (env : Environment C) (fuel : ℕ) : IndexerRun F R C :=
  match processBlock impl env fuel self.ctx block.block block.triggerData with
  | .panic => { self with phase := .panicked }
  | .err .canceled => { self with phase := .canceled }
  | .err e => { self with phase := .failedBlock e }
  | .ok processed =>
    { self with
      ctx := processed.ctx
      db := commit store site self.db (C.ptr block.block) processed.transacted
      phase := if processed.needsRestart then .starting else self.phase }

def offer (self : IndexerRun F R C) (block : C.Block) : IndexerRun F R C :=
  { self with offered := self.offered ++
      [⟨(store.blockPtr self.db site).value?.join, (C.ptr block).number⟩] }

def pollStream (self : IndexerRun F R C) (stream : BlockStream F R C) (answer : StreamAnswer R C)
    (env : Environment C) (fuel : ℕ) : IndexerRun F R C :=
  let turn := stream.turn answer
  let self := { self with phase := .streaming turn.state, scans := self.scans ++ turn.events }
  match turn.result with
  | none | some .pending => self
  -- log and drop the errors from the block stream
  | some (.error _) => self
  | some .panicked => { self with phase := .panicked }
  | some (.block block) => (self.offer store site block.block).process impl store site block env fuel

def step (self : IndexerRun F R C) : RunAction R C → Option (IndexerRun F R C)
  | .start =>
    match self.phase with
    | .starting => some (self.startStream chain store site)
    | _ => none
  | .poll answer env fuel =>
    match self.phase with
    | .streaming stream => some (self.pollStream impl store site stream answer env fuel)
    | _ => none
  | .cancel =>
    match self.phase with
    | .streaming _ => some self
    | _ => none

end IndexerRun

end

/-! ### The stored pointer -/

namespace Database

def Points (db : Database) (id : DeploymentHash) (ptr : Option BlockPtr) : Prop :=
  db.deployments.filter (fun d => d.deployment = id)
    = [⟨id, ptr.map BlockPtr.hash, ptr.map BlockPtr.number⟩]

variable {db db' : Database} {id : DeploymentHash} {ptr : Option BlockPtr}

theorem points_createDeployment {site : Site} (hn : ∀ d ∈ db.deployments,
    d.deployment ≠ site.deployment) (start : Option BlockPtr) :
    (db.createDeployment site (.new start)).Points site.deployment start := by
  have ha : (db.deployments.any fun d => d.deployment = site.deployment) = false := by
    simpa using hn
  have hf : db.deployments.filter (fun d => d.deployment = site.deployment) = [] := by
    simpa using hn
  rw [Points, createDeployment, ha, if_neg Bool.false_ne_true]
  simp [hf, IndexerDeploymentEntity.new]

theorem Points.of_blockPtr {lib : Libraries} {ptr' : Option BlockPtr} (h : db.Points id ptr)
    (hr : db.blockPtr lib id = .ok ptr') :
    ptr' = ptr ∧ ∀ p ∈ ptr, 0 ≤ p.number ∧ p.number ≤ blockNumberMax := by
  rw [blockPtr, ← List.head?_filter, show List.filter _ _ = _ from h] at hr
  rcases ptr with - | ⟨hash, number⟩
  · exact ⟨(Outcome.ok.inj hr).symm, nofun⟩
  · simp only [List.head?_cons, Option.map_some, detailBlock] at hr
    split at hr
    · cases hr
    · split at hr
      · cases hr
      next hn =>
        split at hr
        · cases hr
        next hm =>
          refine ⟨(Outcome.ok.inj hr).symm, ?_⟩
          intro p hp
          cases hp
          push Not at hn
          exact ⟨hn.1, not_lt.mp hm⟩

theorem Points.forward {next : BlockPtr} (h : db.Points id ptr)
    (hb : ∃ d ∈ db.deployments, isBehind id next.number d = true)
    (hm : db'.deployments = db.deployments.map fun d => if isBehind id next.number d then
      { d with latestEthereumBlockHash := some next.hash,
               latestEthereumBlockNumber := some next.number } else d) :
    db'.Points id (some next) ∧ ∀ p ∈ ptr, p.number < next.number := by
  obtain ⟨d, hd, hb⟩ := hb
  obtain ⟨hid, hlt⟩ := isBehind_iff.1 hb
  have hr : d = ⟨id, ptr.map BlockPtr.hash, ptr.map BlockPtr.number⟩ := by
    apply mem_singleton.1
    rw [← show List.filter _ _ = _ from h]
    simp [hd, hid]
  constructor
  · rw [Points, hm, filter_map]
    have hk : ((fun d : IndexerDeployment => decide (d.deployment = id)) ∘ fun d =>
        if isBehind id next.number d then
          { d with latestEthereumBlockHash := some next.hash,
                   latestEthereumBlockNumber := some next.number } else d)
        = fun d => decide (d.deployment = id) := by
      funext d
      show decide ((if _ then _ else d : IndexerDeployment).deployment = id) = _
      split
      · rfl
      · rfl
    rw [hk, show List.filter _ _ = _ from h, ← hr]
    simp [hb, hid]
  · intro p hp
    apply hlt
    rw [hr, Option.mem_def.mp hp]
    rfl

end Database

theorem DeploymentStore.blockPtr_eq_ok {store : DeploymentStore} {db : Database} {site : Site}
    {ptr : Option BlockPtr} (h : store.blockPtr db site = .ok ptr) :
    db.blockPtr store.lib site.deployment = .ok ptr := by
  obtain ⟨-, -, h⟩ := bind_eq_ok.1 h
  exact h

theorem resolveIndexerChainBlocks_eq_ok {a : EthereumAdapter} {sb : List ℤ}
    {st : Option BlockPtr} (h : resolveIndexerChainBlocks a sb = .ok st) :
    ∃ msb, sb.min? = some msb ∧
      (msb = 0 ∧ st = none ∨
        msb ≠ 0 ∧ ∃ ptr, st = some ptr ∧ ptr.number = i32 (msb - 1)) := by
  unfold resolveIndexerChainBlocks at h
  split at h
  next => cases h
  next msb hm =>
    refine ⟨msb, hm, ?_⟩
    by_cases hz : msb = 0
    · rw [if_pos hz] at h
      exact .inl ⟨hz, (Outcome.ok.inj h).symm⟩
    · rw [if_neg hz] at h
      obtain ⟨ptr, hp, h⟩ := bind_eq_ok.1 h
      obtain ⟨hash?, -, hp⟩ := bind_eq_ok.1 (mapErr_eq_ok.1 hp)
      refine .inr ⟨hz, ptr, (Outcome.ok.inj h).symm, ?_⟩
      rcases hash? with - | hash
      · cases hp
      · cases hp
        rfl

section

variable {F R : Type} [F64 F] {C : Blockchain}

/-- The stream starts right after the stored block, or with the genesis block. -/
def Creation.StartsRight (self : Creation) : Prop :=
  self.firstBlock = self.stored.elim 0 fun p => p.number + 1

instance (self : Creation) : Decidable self.StartsRight := inferInstanceAs (Decidable (_ = _))

variable {st : BlockStream F R C} {f : C.TriggerFilter} {chain : Chain R C}

theorem Chain.firstBlock_newBlockStream {startBlock : ℤ}
    (h : chain.newBlockStream startBlock f = .ok st) :
    st.firstBlock = if chain.firehoseEndpoints = 0 then i32 (startBlock + 1)
      else asU64 startBlock := by
  unfold newBlockStream at h
  by_cases hn : chain.firehoseEndpoints = 0
  · rw [if_neg (by omega)] at h
    rw [if_pos hn]
    rcases ha : chain.triggersAdapter with e | u
    · rw [ha] at h
      cases h
    · rw [ha] at h
      cases h
      rfl
  · rw [if_pos (by omega)] at h
    rw [if_neg hn]
    cases h
    rfl

theorem i32_succ_eq_iff {n : ℤ} (hp : 0 ≤ n) : i32 (n + 1) = n + 1 ↔ n < i32Max := by
  constructor
  · intro heq
    have hlt : i32 (n + 1) < 2 ^ 31 := by
      have := Int.bmod_lt (x := n + 1) (m := 2 ^ 32) (by norm_num)
      simpa [i32] using this
    unfold i32Max
    omega
  · intro hlt
    apply i32_of_mem
    · unfold i32Min
      omega
    · exact hlt

theorem asU64_of_mem {n : ℤ} (hp : 0 ≤ n) (hm : n ≤ i32Max) : (asU64 n : ℤ) = n := by
  unfold i32Max at hm
  rw [asU64, Int.emod_eq_of_lt hp (by omega)]
  exact Int.toNat_of_nonneg hp

def Chain.RightFor (chain : Chain R C) (stored : Option BlockPtr) : Prop :=
  if chain.firehoseEndpoints = 0 then ∃ p ∈ stored, p.number < i32Max else stored = none

theorem Chain.startsRight_iff {stored : Option BlockPtr}
    (hv : ∀ p ∈ stored, 0 ≤ p.number ∧ p.number ≤ blockNumberMax)
    (h : chain.newBlockStream (stored.elim 0 BlockPtr.number) f = .ok st) :
    (Creation.mk stored st.firstBlock).StartsRight ↔ chain.RightFor stored := by
  rw [Creation.StartsRight, RightFor, firstBlock_newBlockStream h]
  rcases stored with - | ⟨hash, number⟩
  · -- no block comes before the genesis block
    by_cases hn : chain.firehoseEndpoints = 0
    · simp [hn, i32]
    · simp [hn, asU64]
  · obtain ⟨hp, hm⟩ := hv _ rfl
    by_cases hn : chain.firehoseEndpoints = 0
    · rw [if_pos hn, if_pos hn]
      refine (i32_succ_eq_iff hp).trans ?_
      simp
    · rw [if_neg hn, if_neg hn]
      refine iff_of_false ?_ nofun
      show (asU64 number : ℤ) ≠ number + 1
      rw [asU64_of_mem hp hm]
      exact (Int.lt_succ number).ne

end

/-! ### What a stream has passed -/

namespace PollingBlockStream

variable {F B T E : Type} [F64 F] (number : B → ℤ)

def Polls (self : PollingBlockStream F B T) (fromBlock toBlock : ℤ) : Prop :=
  match self.state with
  | .reconciliation (.created ctx) => fromBlock = ctx.fromBlock ∧ toBlock = ctx.toBlock
  | .reconciliation (.scanning fromBlock' toBlock' _) => fromBlock = fromBlock' ∧ toBlock = toBlock'
  | _ => False

def AnswersInRange (self : PollingBlockStream F B T) (answer : ScanAnswer B T E) : Prop :=
  ∀ fromBlock toBlock blocks, self.Polls fromBlock toBlock → answer = .ready (.ok blocks) →
    (blocks.map fun b => number b.block).Pairwise (· < ·) ∧
      ∀ b ∈ blocks, fromBlock ≤ number b.block ∧ number b.block ≤ toBlock

structure Beyond (stream : PollingBlockStream F B T) (ptr : ℤ) : Prop where
  ok : stream.ctx.Ok
  ptr_le : ptr ≤ stream.ctx.streamPtr
  state :
    match stream.state with
    | .beginReconciliation => True
    | .reconciliation (.created ctx) => ctx = stream.ctx
    | .reconciliation (.scanning fromBlock toBlock rangeSize) =>
      Scans stream.ctx fromBlock toBlock rangeSize
    | .reconciliation .completed => True
    | .yieldingBlocks nextBlocks => (nextBlocks.map fun b => number b.block).Pairwise (· < ·) ∧
        ∀ b ∈ nextBlocks, ptr < number b.block ∧ number b.block ≤ stream.ctx.streamPtr

structure TurnsBeyond (stream : PollingBlockStream F B T) (ptr : ℤ)
    (turn : Turn (PollingBlockStream F B T) (PollingEvent B T E) (PollingResult B T E)) :
    Prop where
  beyond : turn.state.Beyond number ptr
  scanned : ∀ n, stream.ctx.streamPtr < n → n ≤ turn.state.ctx.streamPtr →
    ∃ fromBlock toBlock blocks, PollingEvent.answered fromBlock toBlock blocks ∈ turn.events ∧
      fromBlock ≤ n ∧ n ≤ toBlock
  block : ∀ b, turn.result = some (.block b) →
    ptr < number b.block ∧ turn.state.Beyond number (number b.block)

variable {number} {self : PollingBlockStream F B T} {ptr : ℤ}

theorem beyond_new {startBlock mbrs : ℤ} (hp : 0 ≤ startBlock) (hm : 1 ≤ mbrs) (t : ℕ) :
    Beyond number (new startBlock mbrs t : PollingBlockStream F B T) startBlock := by
  refine ⟨⟨?_, hm, le_rfl⟩, le_rfl, trivial⟩
  show i32Min ≤ startBlock
  unfold i32Min
  omega

variable {a : ScanAnswer B T E}

theorem turnsBeyond_pollScan (h : self.Beyond number ptr) {fb tb rangeSize : ℤ}
    (hsc : Scans self.ctx fb tb rangeSize) (ha : ∀ bs, a = .ready (.ok bs) →
      (bs.map fun b => number b.block).Pairwise (· < ·) ∧
        ∀ b ∈ bs, fb ≤ number b.block ∧ number b.block ≤ tb) {f : NextBlocksFuture F}
    (hst : self.state = .reconciliation f) (ask : List (PollingEvent B T E)) (hp : f.poll a
      = ((NextBlocksFuture.pollScan (F := F) fb tb rangeSize a).1,
        ask ++ (NextBlocksFuture.pollScan (F := F) fb tb rangeSize a).2.1,
        some (NextBlocksFuture.pollScan (F := F) fb tb rangeSize a).2.2)) :
    self.TurnsBeyond number ptr (self.turn a) := by
  obtain ⟨rfl, rfl, hpo, hm⟩ := hsc
  rw [turn, hst]
  dsimp only
  rw [hp]
  rcases a with - | (e | bs)
  · -- the scan is pending
    refine ⟨⟨h.ok, h.ptr_le, ⟨rfl, rfl, hpo, hm⟩⟩, ?_, by rintro b ⟨⟩⟩
    intro n hlt hle
    exact absurd hle (not_le.2 hlt)
  · -- the scan failed
    refine ⟨⟨h.ok, h.ptr_le, trivial⟩, ?_, by rintro b ⟨⟩⟩
    intro n hlt hle
    exact absurd hle (not_le.2 hlt)
  · -- the scan found blocks
    have hmi : i32Min ≤ self.ctx.streamPtr := h.ok.ptr_min
    have hpt : i32 (self.ctx.streamPtr + rangeSize) = self.ctx.streamPtr + rangeSize :=
      i32_of_mem (by omega) hm
    have hle := h.ptr_le
    obtain ⟨hs, hr⟩ := ha bs rfl
    refine ⟨⟨⟨?_, h.ok.max_pos, hpo⟩, ?_, hs, ?_⟩, ?_, by rintro b ⟨⟩⟩
    · show i32Min ≤ i32 (self.ctx.streamPtr + rangeSize)
      omega
    · show ptr ≤ i32 (self.ctx.streamPtr + rangeSize)
      omega
    · intro b hb
      obtain ⟨hf, hto⟩ := hr b hb
      refine ⟨by omega, ?_⟩
      show number b.block ≤ i32 (self.ctx.streamPtr + rangeSize)
      omega
    · intro n hlt hle
      refine ⟨_, _, bs, mem_append_right ask (mem_singleton_self _), hlt, ?_⟩
      exact hle.trans hpt.le

theorem Beyond.turn (h : self.Beyond number ptr) (ho : self.NoOverflow)
    (ha : self.AnswersInRange number a) :
    self.TurnsBeyond number ptr (self.turn a) := by
  obtain ⟨st, ctx⟩ := self
  cases st with
  | beginReconciliation =>
    refine ⟨⟨h.ok, h.ptr_le, rfl⟩, ?_, nofun⟩
    intro n hlt hle
    exact absurd hle (not_le.2 hlt)
  | reconciliation f =>
    cases f with
    | created ctx' =>
      obtain rfl : ctx' = ctx := h.state
      have hno := ho ctx' rfl
      have hc : ctx'.Ok := h.ok
      obtain ⟨hfr, hto⟩ := BlockStreamContext.request_eq hc hno
      have hm : ctx'.toBlock ≤ i32Max := by
        have hl := hno.2
        omega
      refine turnsBeyond_pollScan h
        ⟨hfr, hto, BlockStreamContext.rangeSize_pos hc hno, hm⟩ ?_ rfl
        [.request ctx'.fromBlock ctx'.toBlock] rfl
      intro bs hbl
      exact ha _ _ bs ⟨rfl, rfl⟩ hbl
    | scanning fb tb rs =>
      refine turnsBeyond_pollScan h h.state ?_ rfl [] rfl
      intro bs hbl
      exact ha _ _ bs ⟨rfl, rfl⟩ hbl
    | completed =>
      refine ⟨⟨h.ok, h.ptr_le, trivial⟩, ?_, nofun⟩
      intro n hlt hle
      exact absurd hle (not_le.2 hlt)
  | yieldingBlocks nb =>
    cases nb with
    | nil =>
      refine ⟨⟨h.ok, h.ptr_le, trivial⟩, ?_, nofun⟩
      intro n hlt hle
      exact absurd hle (not_le.2 hlt)
    | cons nbl nb =>
      obtain ⟨hs, hr⟩ := h.state
      obtain ⟨hf, hs⟩ := pairwise_cons.1 hs
      obtain ⟨⟨hlt, hle⟩, hr⟩ := forall_mem_cons.1 hr
      refine ⟨⟨h.ok, h.ptr_le, hs, hr⟩, ?_, ?_⟩
      · intro n hlt hle
        exact absurd hle (not_le.2 hlt)
      · intro b hb
        obtain rfl : nbl = b := by
          injection hb with hb
          injection hb
        refine ⟨hlt, h.ok, hle, hs, ?_⟩
        intro b hb
        exact ⟨hf _ (mem_map_of_mem hb), (hr b hb).2⟩

end PollingBlockStream

section

variable {F R : Type} [F64 F] {C : Blockchain} [EntityWeight]
variable {impl : EntityHeap}
variable {chain : Chain R C} {store : DeploymentStore} {site : Site}

/-! ### Runs -/

def RunPhase.Ended : RunPhase F R C → Prop
  | .starting | .streaming _ => False
  | .canceled | .failed _ | .failedBlock _ | .panicked => True

namespace IndexerRun

variable (store site) in
/-- The adapter answers with blocks of the ranges, block numbers do not overflow, and what is
committed was accepted by the store. -/
def Serves (s : IndexerRun F R C) : RunAction R C → Prop
  | .start | .cancel => True
  | .poll answer env _ =>
    (∀ stream, s.phase = .streaming (.polling stream) → stream.NoOverflow ∧
      stream.AnswersInRange (fun block => (C.ptr block).number) answer.scan) ∧
    ∀ ptr mods dataSources, env.transactBlockOperations ptr mods dataSources = .ok () →
      (store.transactBlockOperations s.db site ptr mods dataSources).1 = .ok ()

variable {s s' : IndexerRun F R C} {ac : RunAction R C}

variable (impl store site) in
theorem pollStream_cases (s : IndexerRun F R C) (stream : BlockStream F R C)
    (answer : StreamAnswer R C) (env : Environment C) (fuel : ℕ) :
    (∃ phase, (phase = .streaming (stream.turn answer).state ∨ phase.Ended) ∧
      s.pollStream impl store site stream answer env fuel
        = { s with phase, scans := s.scans ++ (stream.turn answer).events }) ∨
    ∃ block, (stream.turn answer).result = some (.block block) ∧
      ((∃ phase : RunPhase F R C, phase.Ended ∧
        s.pollStream impl store site stream answer env fuel = { s.offer store site block.block with
              phase, scans := s.scans ++ (stream.turn answer).events }) ∨
      ∃ processed, processBlock impl env fuel s.ctx block.block block.triggerData = .ok processed ∧
        s.pollStream impl store site stream answer env fuel
          = { s.offer store site block.block with
              scans := s.scans ++ (stream.turn answer).events
              ctx := processed.ctx
              db := commit store site s.db (C.ptr block.block) processed.transacted
              phase := if processed.needsRestart then .starting
                else .streaming (stream.turn answer).state }) := by
  simp only [pollStream]
  rcases hr : (stream.turn answer).result with - | - | block | e | -
  · exact .inl ⟨_, .inl rfl, rfl⟩
  · exact .inl ⟨_, .inl rfl, rfl⟩
  · refine .inr ⟨block, rfl, ?_⟩
    simp only [process, offer]
    rcases processBlock impl env fuel s.ctx block.block block.triggerData
      with processed | (e | e | -) | -
    · exact .inr ⟨processed, rfl, rfl⟩
    · exact .inl ⟨.failedBlock (.unknown e), trivial, rfl⟩
    · exact .inl ⟨.failedBlock (.deterministic e), trivial, rfl⟩
    · exact .inl ⟨.canceled, trivial, rfl⟩
    · exact .inl ⟨.panicked, trivial, rfl⟩
  · exact .inl ⟨_, .inl rfl, rfl⟩
  · exact .inl ⟨.panicked, .inr trivial, rfl⟩

theorem step_cases (h : s.step impl chain store site ac = some s') :
    (∃ ptr stream, s.phase = .starting ∧ store.blockPtr s.db site = .ok ptr ∧
      chain.newBlockStream (ptr.elim 0 BlockPtr.number) s.ctx.filter = .ok stream ∧
      s' = { s with phase := .streaming stream, created := s.created ++ [⟨ptr, stream.firstBlock⟩] }) ∨
    (∃ phase : RunPhase F R C, phase.Ended ∧ s' = { s with phase }) ∨
    s' = s ∨
    ∃ stream answer env fuel, ac = .poll answer env fuel ∧ s.phase = .streaming stream ∧
      s' = s.pollStream impl store site stream answer env fuel := by
  cases ac with
  | start =>
    simp only [step] at h
    split at h
    next hp =>
      cases h
      simp only [startStream]
      rcases hpt : store.blockPtr s.db site with ptr | e | -
      · rcases hs : chain.newBlockStream (F := F) (ptr.elim 0 BlockPtr.number) s.ctx.filter
          with e | stream
        · simp only [hs]
          exact .inr (.inl ⟨.failed e, trivial, rfl⟩)
        · simp only [hs]
          exact .inl ⟨ptr, stream, hp, rfl, hs, rfl⟩
      · exact .inr (.inl ⟨.failed (.msg e.display), trivial, rfl⟩)
      · exact .inr (.inl ⟨.panicked, trivial, rfl⟩)
    next => cases h
  | poll answer env fuel =>
    simp only [step] at h
    split at h
    next stream hp =>
      exact .inr (.inr (.inr ⟨stream, answer, env, fuel, rfl, hp, (Option.some.inj h).symm⟩))
    next => cases h
  | cancel =>
    simp only [step] at h
    split at h
    next => exact .inr (.inr (.inl (Option.some.inj h).symm))
    next => cases h

variable {b : C.Block}

theorem points_commit {ptr : Option BlockPtr} (h : s.db.Points site.deployment ptr)
    {a : StreamAnswer R C} {env : Environment C} {fuel : ℕ}
    (hs : s.Serves store site (.poll a env fuel)) {ts : List C.TriggerData} {p : Processed C}
    (hp : processBlock impl env fuel s.ctx b ts = .ok p) :
    (commit store site s.db (C.ptr b) p.transacted).Points site.deployment ptr ∨
    (commit store site s.db (C.ptr b) p.transacted).Points site.deployment
      (some (C.ptr b)) := by
  rcases ht : p.transacted with - | t
  · exact .inl h
  · have hc := hs.2 _ _ _ (processBlock_transacted hp ht)
    have hf := @BlockCall.forward_of_ok ⟨store, site, C.ptr b, t.1, t.2⟩ s.db hc
    exact .inr (h.forward hf.1 hf.2).1

variable (chain site) in
structure Streams (start : Option BlockPtr) (s : IndexerRun F R C) : Prop where
  points : ∃ ptr, s.db.Points site.deployment ptr ∧ (start.isSome → ptr.isSome)
  right_iff : ∀ c ∈ s.created, c.StartsRight ↔ chain.RightFor c.stored
  stored : ∀ c ∈ s.created, start.isSome → c.stored.isSome
  first : s.created = [] → s.db.Points site.deployment start ∧ ∀ stream, s.phase ≠ .streaming stream
  first_mem : s.created ≠ [] → ∃ c ∈ s.created, c.stored = start

theorem Streams.step {start : Option BlockPtr} (h : Streams chain site start s)
    (hse : s.Serves store site ac)
    (hsp : s.step impl chain store site ac = some s') : Streams chain site start s' := by
  obtain ⟨ptr, hp, hs⟩ := h.points
  rcases step_cases hsp with ⟨ptr', stream, hph, hr, hst, rfl⟩ | ⟨phase, he, rfl⟩ |
    rfl | ⟨stream, answer, env, fuel, rfl, hph, rfl⟩
  · -- a stream is created
    obtain ⟨rfl, hv⟩ := hp.of_blockPtr (DeploymentStore.blockPtr_eq_ok hr)
    refine ⟨⟨ptr', hp, hs⟩, ?_, ?_, ?_, ?_⟩
    · intro c hc
      rcases mem_append.1 hc with hc | hc
      · exact h.right_iff c hc
      · rw [mem_singleton.1 hc]
        exact Chain.startsRight_iff hv hst
    · intro c hc
      rcases mem_append.1 hc with hc | hc
      · exact h.stored c hc
      · rw [mem_singleton.1 hc]
        exact hs
    · intro hn
      simp at hn
    · intro _
      by_cases hn : s.created = []
      · -- the first stream reads the first pointer
        obtain ⟨rfl, -⟩ := (h.first hn).1.of_blockPtr (DeploymentStore.blockPtr_eq_ok hr)
        exact ⟨_, mem_append_right _ (mem_singleton_self _), rfl⟩
      · obtain ⟨c, hc, heq⟩ := h.first_mem hn
        exact ⟨c, mem_append_left _ hc, heq⟩
  · refine ⟨⟨ptr, hp, hs⟩, h.right_iff, h.stored, ?_, h.first_mem⟩
    intro hn
    refine ⟨(h.first hn).1, ?_⟩
    rintro stream rfl
    exact he
  · exact h
  · -- a turn creates no stream, and there is one already
    have hne : s.created ≠ [] := fun hn => (h.first hn).2 stream hph
    rcases pollStream_cases impl store site s stream answer env fuel
      with ⟨phase, -, heq⟩ | ⟨block, -, ⟨phase, -, heq⟩ | ⟨processed, hpr, heq⟩⟩
    · rw [heq]
      exact ⟨⟨ptr, hp, hs⟩, h.right_iff, h.stored, fun hn => absurd hn hne, h.first_mem⟩
    · rw [heq]
      exact ⟨⟨ptr, hp, hs⟩, h.right_iff, h.stored, fun hn => absurd hn hne, h.first_mem⟩
    · rw [heq]
      refine ⟨?_, h.right_iff, h.stored, fun hn => absurd hn hne, h.first_mem⟩
      rcases points_commit hp hse hpr with hpt | hpt
      · exact ⟨ptr, hpt, hs⟩
      · exact ⟨_, hpt, fun _ => rfl⟩

/-- Some scan of the run was answered for the block. -/
def Scanned (s : IndexerRun F R C) (n : ℤ) : Prop :=
  ∃ fromBlock toBlock blocks, PollingEvent.answered fromBlock toBlock blocks ∈ s.scans ∧
    fromBlock ≤ n ∧ n ≤ toBlock

variable (site) in
structure Blocks (first : ℤ) (s : IndexerRun F R C) (ptr : BlockPtr) : Prop where
  points : s.db.Points site.deployment (some ptr)
  scanned : ∀ n, first ≤ n → n ≤ ptr.number → s.Scanned n
  stream : ∀ stream, s.phase = .streaming stream → ∃ polling, stream = .polling polling ∧
    polling.Beyond (fun block => (C.ptr block).number) ptr.number ∧
    ∀ n, first ≤ n → n ≤ polling.ctx.streamPtr → s.Scanned n
  offered : ∀ o ∈ s.offered, ∀ p ∈ o.stored, p.number < o.number

omit [F64 F] [EntityWeight] in
theorem Scanned.append {n : ℤ} (h : s.Scanned n) (hs : s.scans <+: s'.scans) : s'.Scanned n := by
  obtain ⟨fb, tb, bs, hm, hr⟩ := h
  exact ⟨fb, tb, bs, hs.subset hm, hr⟩

omit [F64 F] [EntityWeight] in
theorem streaming_of_ite {nr : Bool} {stream st' : BlockStream F R C}
    (h : (if nr then .starting else .streaming st') = RunPhase.streaming stream) :
    st' = stream := by
  split at h
  · cases h
  · injection h

variable {ptr : BlockPtr}

omit [EntityWeight] in
theorem Blocks.start {f : ℤ} (h : Blocks site f s ptr) (hp : chain.firehoseEndpoints = 0)
    (hm : 1 ≤ chain.maxBlockRangeSize) {ptr' : Option BlockPtr} {st : BlockStream F R C}
    (hr : store.blockPtr s.db site = .ok ptr')
    (hs : chain.newBlockStream (ptr'.elim 0 BlockPtr.number) s.ctx.filter = .ok st)
    (created : List Creation) :
    Blocks site f { s with phase := .streaming st, created } ptr := by
  obtain ⟨rfl, hv⟩ := h.points.of_blockPtr (DeploymentStore.blockPtr_eq_ok hr)
  refine ⟨h.points, h.scanned, ?_, h.offered⟩
  intro st' heq
  injection heq with heq
  subst heq
  rw [Chain.newBlockStream, if_neg (by omega)] at hs
  rcases ha : chain.triggersAdapter with e | u
  · rw [ha] at hs
    cases hs
  · rw [ha] at hs
    cases hs
    exact ⟨_, rfl, PollingBlockStream.beyond_new (hv ptr rfl).1 hm _, h.scanned⟩

omit [F64 F] [EntityWeight] in
theorem Blocks.offer {f : ℤ} (h : Blocks site f s ptr) (hlt : ptr.number < (C.ptr b).number) :
    ∀ o ∈ (s.offer store site b).offered, ∀ p ∈ o.stored, p.number < o.number := by
  intro o ho p hp
  rcases mem_append.1 ho with ho | ho
  · exact h.offered o ho p hp
  · rw [mem_singleton.1 ho] at hp ⊢
    have hr := value?_eq_some.1 (Option.join_eq_some_iff.1 hp)
    obtain ⟨heq, -⟩ := h.points.of_blockPtr (DeploymentStore.blockPtr_eq_ok hr)
    cases heq
    exact hlt

theorem Blocks.step {first : ℤ} (h : Blocks site first s ptr) (hpo : chain.firehoseEndpoints = 0)
    (hm : 1 ≤ chain.maxBlockRangeSize) (hse : s.Serves store site ac)
    (hst : s.step impl chain store site ac = some s') : ∃ ptr', Blocks site first s' ptr' := by
  rcases step_cases hst with ⟨ptr', stream, hp, hre, hs, rfl⟩ | ⟨phase, he, rfl⟩ |
    rfl | ⟨stream, answer, env, fuel, rfl, hp, rfl⟩
  · exact ⟨ptr, h.start hpo hm hre hs _⟩
  · refine ⟨ptr, h.points, h.scanned, ?_, h.offered⟩
    rintro stream rfl
    exact he.elim
  · exact ⟨ptr, h⟩
  · obtain ⟨polling, rfl, hb, hsd⟩ := h.stream stream hp
    obtain ⟨ho, ha⟩ := hse.1 polling hp
    have ht := hb.turn ho ha
    -- the scans of the turn cover what the stream pointer passes
    have hc : ∀ (s' : IndexerRun F R C), s'.scans = s.scans ++ (polling.turn answer.scan).events →
        ∀ n, first ≤ n → n ≤ (polling.turn answer.scan).state.ctx.streamPtr → s'.Scanned n := by
      intro s' hsc n hf hle
      by_cases hol : n ≤ polling.ctx.streamPtr
      · exact (hsd n hf hol).append ⟨_, hsc.symm⟩
      · obtain ⟨fromBlock, toBlock, blocks, hme, hr⟩ := ht.scanned n (not_le.1 hol) hle
        refine ⟨fromBlock, toBlock, blocks, ?_, hr⟩
        rw [hsc]
        exact mem_append_right _ hme
    have hk : ∀ (s' : IndexerRun F R C), s.scans <+: s'.scans →
        ∀ n, first ≤ n → n ≤ ptr.number → s'.Scanned n := fun s' hsc n hf hle =>
      (h.scanned n hf hle).append hsc
    rcases pollStream_cases impl store site s (.polling polling)
      answer env fuel with ⟨phase, hp', heq⟩ | ⟨block, hbl, hca⟩
    · rw [heq]
      refine ⟨ptr, h.points, hk _ ⟨_, rfl⟩, ?_, h.offered⟩
      rintro stream rfl
      rcases hp' with hp' | he
      · injection hp' with hp'
        subst hp'
        exact ⟨_, rfl, ht.beyond, hc _ rfl⟩
      · exact he.elim
    · obtain ⟨hlt, hb'⟩ := ht.block block hbl
      rcases hca with ⟨phase, he, heq⟩ | ⟨processed, hpr, heq⟩
      · rw [heq]
        refine ⟨ptr, h.points, hk _ ⟨_, rfl⟩, ?_, h.offer hlt⟩
        rintro stream rfl
        exact he.elim
      · rw [heq]
        rcases points_commit h.points hse hpr with hpt | hpt
        · refine ⟨ptr, hpt, hk _ ⟨_, rfl⟩, ?_, h.offer hlt⟩
          intro stream hs
          obtain rfl := streaming_of_ite hs
          exact ⟨_, rfl, ht.beyond, hc _ rfl⟩
        · refine ⟨C.ptr block.block, hpt, ?_, ?_, h.offer hlt⟩
          · intro n hf hle
            exact hc _ rfl n hf (hle.trans hb'.ptr_le)
          · intro stream hs
            obtain rfl := streaming_of_ite hs
            exact ⟨_, rfl, hb', hc _ rfl⟩

section Every

variable {ctx : IndexingContext C} {db : Database} {actions : List (RunAction R C)}

theorem Streams.of_run {start : Option BlockPtr} (hp : db.Points site.deployment start)
    (hr : Run (IndexerRun.step impl chain store site) (Serves store site) (.new ctx db) actions s) :
    Streams chain site start s := by
  refine hr.invariant (I := fun _ s => Streams chain site start s) ?_ ?_
  · exact ⟨⟨start, hp, id⟩, nofun, nofun, fun _ => ⟨hp, nofun⟩, fun h => absurd rfl h⟩
  · intro _ s ac s' h hs hst
    exact h.step hs hst

theorem Blocks.of_run {f : ℤ} {ptr : BlockPtr} (hpo : db.Points site.deployment (some ptr))
    (hb : ptr.number = f - 1) (hp : chain.firehoseEndpoints = 0) (hm : 1 ≤ chain.maxBlockRangeSize)
    (hr : Run (IndexerRun.step impl chain store site) (Serves store site) (.new ctx db) actions s) :
    ∃ ptr', Blocks site f s ptr' := by
  refine hr.invariant (I := fun _ s => ∃ ptr', Blocks site f s ptr') ?_ ?_
  · refine ⟨ptr, hpo, ?_, nofun, nofun⟩
    intro n hge hle
    rw [hb] at hle
    omega
  · rintro _ s ac s' ⟨ptr', h⟩ hs hst
    exact h.step hp hm hs hst

end Every

omit [F64 F] [EntityWeight] in
theorem Streams.startsRight_iff {st : Option BlockPtr} (h : Streams chain site st s)
    (hcr : s.created ≠ []) : (∀ c ∈ s.created, c.StartsRight) ↔
      if chain.firehoseEndpoints = 0 then
        st.isSome ∧ ∀ c ∈ s.created, ∀ p ∈ c.stored, p.number < i32Max
      else ∀ c ∈ s.created, c.stored = none := by
  rw [forall₂_congr h.right_iff]
  by_cases hn : chain.firehoseEndpoints = 0
  · simp only [Chain.RightFor, if_pos hn]
    constructor
    · intro hr
      constructor
      · obtain ⟨c, hc, rfl⟩ := h.first_mem hcr
        obtain ⟨p, hp, -⟩ := hr c hc
        exact Option.isSome_iff_exists.2 ⟨p, hp⟩
      · intro c hc p hp
        obtain ⟨p', hp', hlt⟩ := hr c hc
        obtain rfl := Option.mem_unique hp hp'
        exact hlt
    · rintro ⟨hs, hlt⟩ c hc
      obtain ⟨p, hp⟩ := Option.isSome_iff_exists.1 (h.stored c hc hs)
      exact ⟨p, hp, hlt c hc p hp⟩
  · simp only [Chain.RightFor, if_neg hn]

variable (impl) in
/-- **Where streams start.** In every run of a new deployment, every stream starts right after the
stored block, or with the genesis block if none is stored, if and only if * the streams are polling
streams, the minimum start block is not 0, and no stored block is the last block number; or * the
streams are firehose streams, and none is created while a block is stored. -/
theorem streams_start_right_iff {adapter : EthereumAdapter} {startBlocks : List ℤ}
    {start : Option BlockPtr} (hstart : resolveIndexerChainBlocks adapter startBlocks = .ok start)
    {db : Database} (hnew : ∀ d ∈ db.deployments, d.deployment ≠ site.deployment)
    {ctx : IndexingContext C} {actions : List (RunAction R C)} {s : IndexerRun F R C}
    (hrun : Run (step impl chain store site) (Serves store site)
      (.new ctx (db.createDeployment site (.new start))) actions s) (hcreated : s.created ≠ []) :
    ((∀ c ∈ s.created, c.StartsRight) ↔
      if chain.firehoseEndpoints = 0 then
        startBlocks.min? ≠ some 0 ∧ ∀ c ∈ s.created, ∀ p ∈ c.stored, p.number < i32Max
      else ∀ c ∈ s.created, c.stored = none) ∧
    (chain.firehoseEndpoints = 0 → 1 ≤ chain.maxBlockRangeSize →
      ∀ first, startBlocks.min? = some first → 0 < first → first ≤ i32Max →
        (∀ o ∈ s.offered, ∀ p ∈ o.stored, p.number < o.number) ∧
        ∀ p, store.blockPtr s.db site = .ok (some p) →
          ∀ n, first ≤ n → n ≤ p.number → s.Scanned n) := by
  have hp := Database.points_createDeployment hnew start
  obtain ⟨msb, hm, hc⟩ := resolveIndexerChainBlocks_eq_ok hstart
  constructor
  · have hz : start.isSome ↔ startBlocks.min? ≠ some 0 := by
      rw [hm]
      rcases hc with ⟨rfl, rfl⟩ | ⟨hne, ptr, rfl, -⟩
      · simp
      · simpa using hne
    rw [(Streams.of_run hp hrun).startsRight_iff hcreated, hz]
  · intro hpo hma first hf hps hle
    obtain rfl : msb = first := Option.some.inj (hm.symm.trans hf)
    rcases hc with ⟨rfl, -⟩ | ⟨-, ptr, rfl, hn⟩
    · cases hps
    · have hbe : ptr.number = msb - 1 := by
        rw [hn]
        apply i32_of_mem
        · unfold i32Min
          omega
        · omega
      obtain ⟨ptr', hb⟩ := Blocks.of_run hp hbe hpo hma hrun
      refine ⟨hb.offered, ?_⟩
      intro p hr
      obtain ⟨heq, -⟩ := hb.points.of_blockPtr (DeploymentStore.blockPtr_eq_ok hr)
      cases heq
      exact hb.scanned

end IndexerRun

end

section Example

open DeploymentStore (tokenStore tokenSite tokenDatabase)
open EthereumAdapter (oneLogChain zeroHash)

local instance : EntityWeight := ⟨fun _ _ => 1⟩

local instance : F64 ℚ := PollingBlockStream.instF64Rat

def tokenStreams (firehoseEndpoints : ℕ) : Chain Unit tokenChain where
  name := "mainnet"
  firehoseEndpoints
  triggersAdapter := .ok ()
  maxBlockRangeSize := 1000
  targetTriggersPerBlockRange := 100
  toBlockStreamEvent _ := .error (.msg "")
  filterBytes _ := .ok []

def newDatabase : Database := { tokenDatabase .empty with deployments := [] }

def newRun (start : Option BlockPtr) : IndexerRun ℚ Unit tokenChain :=
  .new (tokenIndexing .empty).ctx (newDatabase.createDeployment tokenSite (.new start))

noncomputable abbrev tokenStep (firehoseEndpoints : ℕ) :=
  IndexerRun.step (F := ℚ) .pushing (tokenStreams firehoseEndpoints)
    (tokenStore []) tokenSite

theorem polling_starts_after_pointer : ∃ s,
    Run (tokenStep 0) (IndexerRun.Serves (tokenStore []) tokenSite) (newRun (some ⟨zeroHash.1, 0⟩))
      [.start] s ∧
    s.created = [⟨some ⟨zeroHash.1, 0⟩, 1⟩] ∧ ∀ c ∈ s.created, c.StartsRight := by
  obtain ⟨s, hru, hc⟩ : ∃ s, Run (tokenStep 0) (IndexerRun.Serves (tokenStore []) tokenSite)
      (newRun (some ⟨zeroHash.1, 0⟩)) [.start] s ∧
      s.created = [⟨some ⟨zeroHash.1, 0⟩, 1⟩] :=
    ⟨_, .cons trivial rfl (.nil _), by decide⟩
  have hs : resolveIndexerChainBlocks oneLogChain.node [3, 1] = .ok (some ⟨zeroHash.1, 0⟩) := rfl
  have hr := (IndexerRun.streams_start_right_iff _ hs (by decide) hru (by simp [hc])).1
  refine ⟨s, hru, hc, hr.2 ?_⟩
  rw [hc]
  decide

theorem streams_start_wrong :
    (resolveIndexerChainBlocks oneLogChain.node [0] = .ok none ∧
      ∃ s, Run (tokenStep 0) (IndexerRun.Serves (tokenStore []) tokenSite) (newRun none) [.start] s ∧
        s.created = [⟨none, 1⟩] ∧ ¬ ∀ c ∈ s.created, c.StartsRight) ∧
    resolveIndexerChainBlocks oneLogChain.node [1] = .ok (some ⟨zeroHash.1, 0⟩) ∧
      ∃ s, Run (tokenStep 1) (IndexerRun.Serves (tokenStore []) tokenSite)
          (newRun (some ⟨zeroHash.1, 0⟩)) [.start] s ∧
        s.created = [⟨some ⟨zeroHash.1, 0⟩, 0⟩] ∧ ¬ ∀ c ∈ s.created, c.StartsRight := by
  refine ⟨⟨rfl, _, .cons trivial rfl (.nil _), ?_, ?_⟩, rfl, _, .cons trivial rfl (.nil _), ?_, ?_⟩
  · decide
  · decide
  · decide
  · decide

end Example

end Massbit
