/-
What a scan finds on a node that has the chain: `mem_collectTriggers_iff`, and `logs_once_iff` for
logs that several event handlers are for.
-/
import Massbit.Ethereum.Assembly
import Massbit.Ethereum.LogStream

open List

namespace Massbit

/-- The numbers of the range and of the blocks that a step may reach are block numbers. -/
structure EthereumAdapter.Fits (adapter : EthereumAdapter) (fromBlock toBlock : ℤ) : Prop where
  nonneg : 0 ≤ fromBlock
  le : fromBlock ≤ toBlock
  logStep : toBlock + (toBlock - fromBlock) < i32Max
  traceStep : toBlock + adapter.traceStreamStepSize ≤ i32Max
  traceStreamStepSize : 0 < adapter.traceStreamStepSize
  maxEventOnlyRange : 0 < adapter.maxEventOnlyRange
  maxEventOnlyRange_le : adapter.maxEventOnlyRange ≤ i32Max

theorem EthereumAdapter.Fits.logsFit {a : EthereumAdapter} {fromBlock toBlock : ℤ}
    (h : a.Fits fromBlock toBlock) : a.LogsFit fromBlock toBlock where
  min_le := le_trans (by unfold i32Min; omega) h.nonneg
  le := h.le
  logStep := h.logStep
  maxEventOnlyRange := h.maxEventOnlyRange
  maxEventOnlyRange_le := h.maxEventOnlyRange_le

theorem i32_of_nonneg {x : ℤ} (h0 : 0 ≤ x) (hm : x ≤ i32Max) : i32 x = x :=
  i32_of_mem (le_trans (by unfold i32Min; omega) h0) hm

namespace EthereumAdapter

variable {self : EthereumAdapter} {chain : EthereumChain} {fuel : ℕ}
  {fromBlock toBlock : ℤ}

section

variable (hss : self.Serves chain) (hfs : self.Fits fromBlock toBlock)

include hss hfs in
theorem logStream_spec (hfuel : 2 * (toBlock + 1 - fromBlock).toNat ≤ fuel) (i : ℕ)
    (filter : EthGetLogsFilter) :
    ∃ logs, self.logStream fuel fromBlock toBlock i filter = .ok logs ∧
      logs.Perm ((chain.logs.filter filter.matchesLog).inRange Log.number fromBlock toBlock) := by
  obtain ⟨ss, re, hen, hl, ht⟩ := exists_logStream hfs.logsFit i filter
  obtain ⟨hr, -⟩ := ht fuel (hl.trans hfuel)
  rw [logStream, if_neg (not_lt.2 hfs.le), hr]
  rcases re with ps | e | -
  · obtain ⟨hti, hlo⟩ := hen
    refine ⟨ps.flatten, rfl, ?_⟩
    rw [hlo]
    refine hti.perm_inRange Log.number _ fun a ha => ?_
    obtain ⟨hm, han⟩ := mem_answered.1 ha
    obtain ⟨seed, -, hs⟩ := mem_map.1 hm
    have hf : a.1.filter = filter := by rw [← hs, logsRequest]
    rcases hss.logs a.1 with ⟨logs, hok, hp⟩ | ⟨-, er, he, -⟩
    · rw [han] at hok
      rw [Except.ok.inj hok, ← hf]
      exact hp
    · rw [han] at he
      cases he
  · -- a request is only too heavy for more than one block
    obtain ⟨r, -, er, han, -, hre⟩ := hen
    rcases hss.logs r with ⟨logs, hok, -⟩ | ⟨hpo, e', he, hma⟩
    · rw [han] at hok
      cases hok
    · obtain rfl : er = e' := Except.error.inj (han.symm.trans he)
      rcases hre with hn | hz
      · rw [hma] at hn
        cases hn
      · omega
  · exact hen.elim

def foundLogs (chain : EthereumChain) (fromBlock toBlock : ℤ) (filter : EthereumLogFilter) : List Log :=
  filter.ethLogsFilters.flatMap fun f =>
    (chain.logs.filter f.matchesLog).inRange Log.number fromBlock toBlock

include hss hfs in
theorem logsInBlockRange_spec (hfuel : 2 * (toBlock + 1 - fromBlock).toNat ≤ fuel)
    (filter : EthereumLogFilter) :
    ∃ logs, self.logsInBlockRange fuel fromBlock toBlock filter = .ok logs ∧
      logs.Perm (foundLogs chain fromBlock toBlock filter) := by
  obtain ⟨ps, hp, ha⟩ := Outcome.exists_mapM_eq_ok (l := filter.ethLogsFilters.zipIdx)
    (fun x _ => logStream_spec hss hfs hfuel x.2 x.1)
  refine ⟨ps.flatten, bind_eq_ok.2 ⟨ps, hp, rfl⟩, ?_⟩
  have hf : ∀ {l : List (EthGetLogsFilter × ℕ)} {ps : List (List Log)},
      List.Forall₂ (fun x logs => logs.Perm ((chain.logs.filter x.1.matchesLog).inRange Log.number
        fromBlock toBlock)) l ps →
      ps.flatten.Perm ((l.map Prod.fst).flatMap fun f =>
        (chain.logs.filter f.matchesLog).inRange Log.number fromBlock toBlock) := by
    intro l ps h
    induction h with
    | nil => exact .refl _
    | cons hx _ ih => exact hx.append ih
  have := hf ha
  rwa [zipIdx_map_fst] at this

include hss hfs in
theorem traceStreamTurn_cases (f : TraceFetch) (ads : Finset Address) {s : ℤ}
    (hst : fromBlock ≤ s) :
    (toBlock < s ∧ self.traceStreamTurn toBlock f ads s = .ok none) ∨
    ∃ ts stop, s ≤ stop ∧ stop ≤ toBlock ∧
      self.traceStreamTurn toBlock f ads s = .ok (some (ts, stop + 1)) ∧
      ts.Perm ((chain.traces.filter fun t =>
        (chain.receiver t).any (· ∈ ads)).inRange Trace.number s stop) := by
  obtain ⟨h0, hle, -, htr, hpo, -⟩ := hfs
  unfold traceStreamTurn
  split
  next hd => exact .inl ⟨hd, rfl⟩
  next hs =>
    have hsu : i32 (s + self.traceStreamStepSize) = s + self.traceStreamStepSize :=
      i32_of_nonneg (by omega) (by linarith)
    have hp : i32 (s + self.traceStreamStepSize - 1) = s + self.traceStreamStepSize - 1 :=
      i32_of_nonneg (by omega) (by linarith)
    obtain ⟨ts, ht, hpe⟩ := hss.traces ⟨f, s, min (s + self.traceStreamStepSize - 1) toBlock, ads⟩
    have hn : i32 (min (s + self.traceStreamStepSize - 1) toBlock + 1)
        = min (s + self.traceStreamStepSize - 1) toBlock + 1 :=
      i32_of_nonneg (by omega)
        (by have := min_le_right (s + self.traceStreamStepSize - 1) toBlock; linarith)
    refine .inr ⟨ts, _, le_min (by omega) (not_lt.1 hs), min_le_right _ _, ?_, hpe⟩
    rw [hsu, hp]
    dsimp only
    rw [ht]
    exact congrArg (fun next => Outcome.ok (some (ts, next))) hn

include hss hfs in
theorem traceStream_spec (hfuel : 2 * (toBlock + 1 - fromBlock).toNat ≤ fuel) (fe : TraceFetch)
    (ads : Finset Address) :
    ∃ ts, self.traceStream fuel fromBlock toBlock fe ads = .ok ts ∧
      ts.Perm ((chain.traces.filter fun t =>
        (chain.receiver t).any (· ∈ ads)).inRange Trace.number fromBlock toBlock) := by
  have hle := hfs.le
  obtain ⟨ss, r, ⟨ps, rfl, hp⟩, hl, ht⟩ := Outcome.exists_unfold
    (f := self.traceStreamTurn toBlock fe ads) (I := fun s => fromBlock ≤ s)
    (μ := fun s => (toBlock + 1 - s).toNat)
    (P := fun s _ r => ∃ ps, r = .ok ps ∧
      ps.flatten.Perm ((chain.traces.filter fun t =>
        (chain.receiver t).any (· ∈ ads)).inRange Trace.number s toBlock)) (by
      intro s hs
      rcases traceStreamTurn_cases hss hfs fe ads hs with
        ⟨he, h⟩ | ⟨ts, stop, hst, hto, h, hp⟩
      · refine .inl ⟨h, [], rfl, ?_⟩
        rw [flatten_nil, inRange_of_lt he]
      · refine .inr (.inr ⟨_, _, h, by omega, by omega, ?_⟩)
        rintro _ _ ⟨rest, rfl, hr⟩
        exact ⟨_, rfl, (hp.append hr).trans (perm_inRange_append _ _ hst hto)⟩)
    rfl le_rfl
  refine ⟨ps.flatten, ?_, hp⟩
  rw [traceStream, if_neg (not_lt.2 hle), (ht fuel (by omega)).1]
  rfl

theorem exists_filterCalls (filter : EthereumCallFilter) :
    ∀ {cs : List EthereumCall}, (∀ call ∈ cs, 4 ≤ call.input.length) →
      ∃ f, filterCalls filter cs = some f
  | [], _ => ⟨[], rfl⟩
  | call :: cs, h => by
    obtain ⟨f, hf⟩ := @exists_filterCalls filter cs fun c hc => h c (by simp [hc])
    obtain ⟨isMatch, hm⟩ : ∃ isMatch, filter.matchesCall call = some isMatch := by
      unfold EthereumCallFilter.matchesCall
      split
      · exact ⟨_, rfl⟩
      · split
        · exact ⟨_, rfl⟩
        · exact ⟨_, if_pos (h call (by simp))⟩
    exact ⟨_, Option.bind_eq_some_iff.2 ⟨isMatch, hm, Option.bind_eq_some_iff.2 ⟨f, hf, rfl⟩⟩⟩

include hss hfs in
theorem callsInBlockRange_spec (hfuel : 2 * (toBlock + 1 - fromBlock).toNat ≤ fuel)
    (f : TraceFetch) (filter : EthereumCallFilter) :
    ∃ calls, self.callsInBlockRange fuel fromBlock toBlock f filter = .ok calls ∧
      ∀ t ∈ chain.traces, fromBlock ≤ t.number → t.number ≤ toBlock → ∀ call,
        EthereumCall.tryFromTrace t = some call → filter.matchesCall call = some true →
        call.toAddress ∈ startedAddresses toBlock filter → call ∈ calls := by
  unfold callsInBlockRange
  dsimp only
  split
  next he =>
    refine ⟨[], rfl, fun _ _ _ _ call _ _ hs => ?_⟩
    rw [he] at hs
    cases hs
  next =>
    obtain ⟨ts, ht, hp⟩ :=
      traceStream_spec hss hfs hfuel f (startedAddresses toBlock filter)
    obtain ⟨calls, hca⟩ := @exists_filterCalls filter
      (ts.filterMap EthereumCall.tryFromTrace) fun call hc => by
        obtain ⟨t, -, hf⟩ := mem_filterMap.1 hc
        exact (EthereumCall.tryFromTrace_eq_some hf).2.1
    refine ⟨calls, bind_eq_ok.2 ⟨ts, ht, ofOption_eq_ok.2 hca⟩, ?_⟩
    intro t htr hf hto call hc hm hs
    rw [filterCalls_eq_some hca]
    obtain ⟨⟨a, hac, ha⟩, -⟩ := EthereumCall.tryFromTrace_eq_some hc
    refine mem_filter.2 ⟨mem_filterMap.2 ⟨t, ?_, hc⟩, decide_eq_true hm⟩
    refine hp.mem_iff.mpr (mem_inRange.mpr ⟨mem_filter.mpr ⟨htr, ?_⟩, hf, hto⟩)
    rw [chain.receiver_call hac, ha]
    exact decide_eq_true hs

theorem mem_blockNumbers {n : ℤ} :
    n ∈ blockNumbers fromBlock toBlock ↔ fromBlock ≤ n ∧ n ≤ toBlock := by
  unfold blockNumbers
  simp only [mem_map, mem_range]
  constructor
  · rintro ⟨i, hi, rfl⟩
    omega
  · rintro ⟨hf, hto⟩
    refine ⟨(n - fromBlock).toNat, by omega, ?_⟩
    show fromBlock + ((n - fromBlock).toNat : ℤ) = n
    omega

theorem nodup_blockNumbers : (blockNumbers fromBlock toBlock).Nodup :=
  nodup_range.map fun i j h => by
    have : fromBlock + (i : ℤ) = fromBlock + j := h
    omega

def ptrAt (chain : EthereumChain) (n : ℤ) : BlockPtr := .ofH256 (chain.hash n.toNat) n

include hss hfs in
theorem blockRangeToPtrs_spec (hheight : toBlock ≤ chain.height) :
    self.blockRangeToPtrs fromBlock toBlock
      = .ok ((blockNumbers fromBlock toBlock).map (ptrAt chain)) := by
  refine Outcome.mapM_eq_ok.2 (forall₂_map_right_iff.2 (forall₂_same.2 fun n hn => ?_))
  obtain ⟨hf, hto⟩ := mem_blockNumbers.1 hn
  have h0 : 0 ≤ n := hfs.nonneg.trans hf
  have hn : n.toNat ≤ chain.height := by omega
  have hp : (chain.header n.toNat).blockPtr = some (ptrAt chain n) := by
    rw [BlockHeader.blockPtr, EthereumChain.header_blockNumber hn, Int.toNat_of_nonneg h0]
    rfl
  have hh := chain.header?_of_mem h0 (hto.trans hheight)
  refine bind_eq_ok.2 ⟨some (chain.header n.toNat), ?_, ofOption_eq_ok.2 hp⟩
  rw [hss.blockByNumber, hh]
  rfl

include hss hfs in
theorem collectTriggers_spec (hheight : toBlock ≤ chain.height)
    (hfuel : 2 * (toBlock + 1 - fromBlock).toNat ≤ fuel) (filter : TriggerFilter)
    (hblock : filter.block.contractAddresses = ∅) :
    ∃ (logs : List Log) (cs : List EthereumCall) (ptrs : List BlockPtr) (ts : List EthereumTrigger),
      self.collectTriggers fuel fromBlock toBlock filter = .ok ts ∧
      ts.Perm (logs.map .log ++ cs.map .call ++ ptrs.map fun ptr => .block ptr .every) ∧
      logs.Perm (foundLogs chain fromBlock toBlock filter.log) ∧
      self.callsInBlockRange fuel fromBlock toBlock .calls filter.call = .ok cs ∧
      ptrs = if filter.block.triggerEveryBlock then
        (blockNumbers fromBlock toBlock).map (ptrAt chain) else [] := by
  obtain ⟨logs, hlo, hp⟩ := logsInBlockRange_spec hss hfs hfuel filter.log
  obtain ⟨cs, hc, -⟩ := callsInBlockRange_spec hss hfs hfuel .calls filter.call
  -- a fetch that is left out would find nothing
  have hl : ∃ ps, List.Forall₂ (fun f part => f = .ok part)
      (if filter.log.isEmpty then [] else [self.logTriggers fuel fromBlock toBlock filter.log]) ps ∧
      ps.flatten = logs.map .log := by
    split
    next he =>
      have hni : filter.log.ethLogsFilters = [] := isEmpty_iff.1 he
      rw [foundLogs, hni] at hp
      exact ⟨[], .nil, by rw [hp.eq_nil]; rfl⟩
    next => exact ⟨[logs.map .log], .cons (bind_eq_ok.2 ⟨logs, hlo, rfl⟩) .nil, by simp⟩
  have hcf : ∃ ps, List.Forall₂ (fun f part => f = .ok part)
      (if filter.call.isEmpty then [] else [self.callTriggers fuel fromBlock toBlock filter.call]) ps ∧
      ps.flatten = cs.map .call := by
    split
    next he =>
      have hn : startedAddresses toBlock filter.call = ∅ := by
        have hm : filter.call.contractAddressesFunctionSignatures = ∅ := of_decide_eq_true he
        rw [startedAddresses, hm, Finmap.keys_empty, Finset.filter_empty]
      rw [callsInBlockRange, if_pos hn] at hc
      rw [← Outcome.ok.inj hc]
      exact ⟨[], .nil, rfl⟩
    next => exact ⟨[cs.map .call], .cons (bind_eq_ok.2 ⟨cs, hc, rfl⟩) .nil, by simp⟩
  have hb : ∃ ps, List.Forall₂ (fun f part => f = .ok part)
      (if filter.block.triggerEveryBlock then [self.everyBlockTriggers fromBlock toBlock]
        else if filter.block.contractAddresses = ∅ then []
        else [self.callBlockTriggers fuel fromBlock toBlock filter.block]) ps ∧
      ps.flatten = (if filter.block.triggerEveryBlock then
        (blockNumbers fromBlock toBlock).map (ptrAt chain) else []).map fun ptr =>
          EthereumTrigger.block ptr .every := by
    split
    next =>
      refine ⟨[_], .cons (bind_eq_ok.2
        ⟨_, blockRangeToPtrs_spec hss hfs hheight, rfl⟩) .nil, by simp⟩
    next => exact ⟨[], .nil, rfl⟩
  obtain ⟨lp, hlp, hlf⟩ := hl
  obtain ⟨cp, hcp, hca⟩ := hcf
  obtain ⟨bp, hbp, hbf⟩ := hb
  refine ⟨logs, cs, _, _, bind_eq_ok.2 ⟨lp ++ cp ++ bp,
    Outcome.mapM_eq_ok.2 ?_, rfl⟩, ?_, hp, hc, rfl⟩
  · exact rel_append (rel_append hlp hcp) hbp
  · rw [← hlf, ← hca, ← hbf, ← flatten_append, ← flatten_append]
    exact (self.completion_perm _).flatten

end

end EthereumAdapter

variable {lib : EthereumLibraries}

/-! ### From data sources to filters -/

theorem DataSource.exists_address {ds : DataSource lib} (hv : ds.validate = [])
    (hh : ds.mapping.callHandlers ≠ [] ∨ ds.mapping.blockHandlers ≠ []) :
    ∃ address, ds.source.address = some address := by
  rcases ha : ds.source.address with _ | address
  · rw [validate, if_pos ⟨by rw [ha]; rfl, hh⟩] at hv
    cases hv
  · exact ⟨address, rfl⟩

namespace TriggerFilter

variable (o : Finset.IterOrder (BlockNumber × Address)) {dso : List (DataSource lib)}
  {ds : DataSource lib} {n : BlockNumber}

theorem exists_filter_of_matches (hds : ds ∈ dso) {log : Log} (hm : ds.Matches (.log log) n) :
    ∃ f ∈ (fromDataSources o dso).log.ethLogsFilters, f.matchesLog log = true := by
  obtain ⟨ha, -, hh⟩ := hm
  rcases e : ds.handlersForLog log with err | has
  · rw [DataSource.hasHandler, e] at hh
    cases hh
  · rw [DataSource.hasHandler, e] at hh
    unfold DataSource.handlersForLog at e
    rcases ht : log.topics.head? with _ | t
    · rw [ht] at e
      cases e
    · rw [ht] at e
      cases e
      -- some event handler is for the first topic
      obtain ⟨han, hme, rfl⟩ : ∃ han ∈ ds.mapping.eventHandlers,
          t = han.topic0 lib := by simpa using hh
      refine ⟨EthereumLogFilter.forHandler ds han, ?_, ?_⟩
      · exact mem_flatMap.2 ⟨ds, hds, mem_map_of_mem hme⟩
      · unfold EthereumLogFilter.forHandler
        unfold DataSource.matchesTriggerAddress at ha
        split at ha
        next hn =>
          rw [hn]
          simp [EthGetLogsFilter.matchesLog, ht]
        next a hs =>
          rw [hs]
          obtain rfl : a = log.address := of_decide_eq_true ha
          simp [EthGetLogsFilter.matchesLog, ht]

theorem matchesCall_of_matches (hv : ds.validate = []) (hds : ds ∈ dso)
    {call : EthereumCall} (hi : 4 ≤ call.input.length) (hm : ds.Matches (.call call) n)
    {toBlock : BlockNumber} (hto : n ≤ toBlock) :
    (fromDataSources o dso).call.matchesCall call = some true ∧
      call.toAddress ∈ EthereumAdapter.startedAddresses toBlock (fromDataSources o dso).call := by
  obtain ⟨ha, hst, hh⟩ := hm
  have hf : ds.handlerForCall call = .ok (ds.mapping.callHandlers.find? fun han =>
      call.input.take 4 = han.selector lib) := by
    rw [DataSource.handlerForCall, ensure, if_pos hi]
    rfl
  rw [DataSource.hasHandler, hf] at hh
  obtain ⟨han, hh⟩ := Option.isSome_iff_exists.1 hh
  have hme := mem_of_find?_eq_some hh
  have hse : call.input.take 4 = han.selector lib := by simpa using List.find?_some hh
  obtain ⟨a, hso⟩ := ds.exists_address hv (.inl (ne_nil_of_mem hme))
  obtain rfl : a = call.toAddress := by
    rw [DataSource.matchesTriggerAddress, hso] at ha
    exact of_decide_eq_true ha
  have hs : (ds.source.startBlock, call.toAddress, han.selector lib) ∈
      dso.flatMap EthereumCallFilter.signaturesOf := by
    refine mem_flatMap.2 ⟨ds, hds, ?_⟩
    rw [EthereumCallFilter.signaturesOf, hso]
    exact mem_map_of_mem hme
  obtain ⟨⟨sb, ss⟩, hl, hle, hin⟩ := EthereumCallFilter.lookup_foldl_addSignature hs ∅
  rw [show List.foldl _ _ _ =
    (EthereumCallFilter.fromDataSources dso).contractAddressesFunctionSignatures from rfl,
    ← lookup_fromDataSources_call o] at hl
  constructor
  · rw [EthereumCallFilter.matchesCall, hl]
    dsimp only
    rw [if_neg (Finset.ne_empty_of_mem hin), if_pos hi, hse]
    exact congrArg some (decide_eq_true hin)
  · refine Finset.mem_filter.2 ⟨Finmap.mem_keys.2 (Finmap.mem_of_lookup_eq_some hl), ?_⟩
    rw [hl]
    exact decide_eq_true (hle.trans (hst.trans hto))

theorem triggerEveryBlock_of_matches (hv : ds.validate = []) (hds : ds ∈ dso)
    {ptr : BlockPtr} (hm : ds.Matches (.block ptr .every) n) :
    (fromDataSources o dso).block.triggerEveryBlock = true := by
  obtain ⟨-, -, hh⟩ := hm
  obtain ⟨han, hh⟩ := Option.isSome_iff_exists.1 hh
  have hme := mem_of_find?_eq_some hh
  have hf : han.filter = none := by simpa using List.find?_some hh
  obtain ⟨a, hs⟩ := ds.exists_address hv (.inr (ne_nil_of_mem hme))
  have ha : ds.mapping.blockHandlers.any fun han => han.filter.isNone :=
    any_eq_true.2 ⟨han, hme, by rw [hf]; rfl⟩
  exact EthereumBlockFilter.triggerEveryBlock_fromDataSources hds (by rw [hs]; rfl) ha

end TriggerFilter

/-- The triggers of the block with the number. -/
inductive EthereumChain.HasTrigger (chain : EthereumChain) : BlockNumber → EthereumTrigger → Prop
  | log {log : Log} : log ∈ chain.logs → HasTrigger chain log.number (.log log)
  | call {trace : Trace} {call : EthereumCall} : trace ∈ chain.traces →
      EthereumCall.tryFromTrace trace = some call → HasTrigger chain trace.number (.call call)
  | every {n : BlockNumber} : 0 ≤ n → n ≤ chain.height →
      HasTrigger chain n (.block (EthereumAdapter.ptrAt chain n) .every)
  | withCallTo {trace : Trace} {call : EthereumCall} : trace ∈ chain.traces →
      EthereumCall.tryFromTrace trace = some call →
      HasTrigger chain trace.number (.block call.blockPtr (.withCallTo call.toAddress))

namespace EthereumAdapter

variable {self : EthereumAdapter} {chain : EthereumChain} {fuel : ℕ} {fromBlock toBlock : ℤ}

/-- **Which triggers a scan finds.** A trigger in the range that matches some valid data source by
address, start block and handler is found with the filter of the data sources if and only if it is
not that of a block with a call to an address. -/
theorem mem_collectTriggers_iff (order : Finset.IterOrder (BlockNumber × Address))
    {dataSources : List (DataSource lib)} (hvalid : ∀ ds ∈ dataSources, ds.validate = [])
    (hserves : self.Serves chain) (hfits : self.Fits fromBlock toBlock)
    (hheight : toBlock ≤ chain.height) (hfuel : 2 * (toBlock + 1 - fromBlock).toNat ≤ fuel)
    {n : BlockNumber} (hfrom : fromBlock ≤ n) (hto : n ≤ toBlock) {t : EthereumTrigger}
    (ht : chain.HasTrigger n t) {ds : DataSource lib} (hds : ds ∈ dataSources)
    (hmatches : ds.Matches t n) :
    ∃ triggers, self.collectTriggers fuel fromBlock toBlock
        (TriggerFilter.fromDataSources order dataSources) = .ok triggers ∧
      (t ∈ triggers ↔ ∀ ptr address, t ≠ .block ptr (.withCallTo address)) := by
  obtain ⟨logs, cs, ptrs, triggers, htr, hp, hl, hca, hpt⟩ :=
    collectTriggers_spec hserves hfits hheight hfuel
      (TriggerFilter.fromDataSources order dataSources)
      (TriggerFilter.fromDataSources_block_contractAddresses order dataSources)
  refine ⟨triggers, htr, ?_⟩
  rw [hp.mem_iff]
  cases ht with
  | @log log hlo =>
    refine iff_of_true ?_ nofun
    obtain ⟨f, hf, hm⟩ := TriggerFilter.exists_filter_of_matches order hds hmatches
    have hfo : log ∈ logs := by
      refine hl.mem_iff.2 (mem_flatMap.2 ⟨f, hf, ?_⟩)
      exact mem_inRange.2 ⟨mem_filter.2 ⟨hlo, hm⟩, hfrom, hto⟩
    simp [hfo]
  | @call trace call htc hc =>
    refine iff_of_true ?_ nofun
    obtain ⟨fo, hfo, hme⟩ := callsInBlockRange_spec hserves hfits hfuel .calls
      (TriggerFilter.fromDataSources order dataSources).call
    obtain rfl := Outcome.ok.inj (hca.symm.trans hfo)
    obtain ⟨hm, hs⟩ := TriggerFilter.matchesCall_of_matches order
      (hvalid ds hds) hds (EthereumCall.tryFromTrace_eq_some hc).2.1 hmatches hto
    simp [hme trace htc hfrom hto call hc hm hs]
  | every h0 hle =>
    refine iff_of_true ?_ nofun
    rw [hpt, if_pos (TriggerFilter.triggerEveryBlock_of_matches order (hvalid ds hds) hds hmatches)]
    refine mem_append_right _ (mem_map_of_mem (mem_map_of_mem ?_))
    exact mem_blockNumbers.mpr ⟨hfrom, hto⟩
  | withCallTo htc hc =>
    simp

end EthereumAdapter

def plainLibraries : EthereumLibraries where
  keccak256 _ := EthereumAdapter.zeroHash
  Contract := Unit
  decEqContract := inferInstance
  events _ := []
  functions _ := []
  Token := Unit
  displayKind _ := ""
  parseLog _ _ _ := .ok []
  decodeInput _ _ := .ok []
  decodeOutput _ _ := .ok []
  debugFunction _ := ""
  addressFromStr _ := .ok 1
  contextToString _ := ""
  contextFromStr _ := .error (.msg "")

def plainSource (blockHandlers : List MappingBlockHandler)
    (eventHandlers : List MappingEventHandler) : DataSource plainLibraries where
  kind := "ethereum/contract"
  network := none
  name := "source"
  source := ⟨some 1, "abi", 0⟩
  mapping := ⟨[], blockHandlers, [], eventHandlers⟩
  context := none
  creationBlock := none
  contractAbi := ⟨"abi", ()⟩

namespace EthereumAdapter

theorem fits_node (chain : EthereumChain) : chain.node.Fits 0 0 :=
  ⟨by decide, by decide, by decide, show (0 : ℤ) + 50 ≤ i32Max by decide,
    show (0 : ℤ) < 50 by decide, show (0 : ℤ) < 500 by decide, show (500 : ℤ) ≤ i32Max by decide⟩

theorem firstLog_found : ∃ triggers, oneLogChain.node.collectTriggers 2 0 0
        (TriggerFilter.fromDataSources .choose [plainSource [] [⟨"E()", none, "handle"⟩]])
      = .ok triggers ∧
      (.log firstLog ∈ triggers ↔
        ∀ ptr address, EthereumTrigger.log firstLog ≠ .block ptr (.withCallTo address)) :=
  mem_collectTriggers_iff .choose (by intro ds hds; obtain rfl := mem_singleton.1 hds; rfl)
    oneLogChain.serves_node (fits_node _) le_rfl (by decide) le_rfl le_rfl
    (@EthereumChain.HasTrigger.log oneLogChain firstLog (mem_singleton.2 rfl))
    (mem_singleton.2 rfl) ⟨rfl, le_rfl, rfl⟩

def firstTrace : Trace where
  action := .call ⟨2, 1, 0, [0, 0, 0, 0]⟩
  result := some (.call [] 0)
  transactionPosition := some 0
  transactionHash := some zeroHash
  blockNumber := 0
  blockHash := zeroHash
  error := none

def oneCallChain : EthereumChain where
  height := 0
  hash _ := zeroHash
  transactions _ := []
  logs := []
  traces := [firstTrace]
  receiver := oneLogChain.receiver
  height_le := oneLogChain.height_le
  hash_injOn := oneLogChain.hash_injOn
  log_block _ h := nomatch h
  logs_nodup := .nil
  trace_block := by
    intro trace htrace
    obtain rfl := mem_singleton.1 htrace
    exact ⟨le_rfl, rfl⟩
  receiver_call := oneLogChain.receiver_call

theorem callBlock_not_found :
    ∃ t, oneCallChain.HasTrigger 0 t ∧ (plainSource [⟨"handle", some .call⟩] []).validate = [] ∧
      (plainSource [⟨"handle", some .call⟩] []).Matches t 0 ∧
      ∃ triggers, oneCallChain.node.collectTriggers 2 0 0
          (TriggerFilter.fromDataSources .choose [plainSource [⟨"handle", some .call⟩] []])
        = .ok triggers ∧ t ∉ triggers := by
  refine ⟨_, @EthereumChain.HasTrigger.withCallTo oneCallChain firstTrace _
    (mem_singleton.2 rfl) rfl, rfl,
    ⟨rfl, le_rfl, rfl⟩, ?_⟩
  obtain ⟨logs, cs, ptrs, triggers, ht, hp, -⟩ :=
    collectTriggers_spec oneCallChain.serves_node (fits_node _) (le_refl 0)
      (show 2 * (0 + 1 - 0 : ℤ).toNat ≤ 2 by decide) _
      (TriggerFilter.fromDataSources_block_contractAddresses .choose
        [plainSource [⟨"handle", some .call⟩] []])
  refine ⟨triggers, ht, ?_⟩
  rw [hp.mem_iff]
  simp

variable {self : EthereumAdapter} {chain : EthereumChain} {fuel : ℕ} {fromBlock toBlock : ℤ}

/-! ### How often a trigger is found -/

def isLog (id : Option H256 × Option ℕ) : EthereumTrigger → Bool
  | .log log => log.id = id
  | .block _ _ | .call _ => false

def isBlock (kind : EthereumBlockTriggerType) : EthereumTrigger → Bool
  | .block _ kind' => kind' = kind
  | .log _ | .call _ => false

/-- Each log that the filter matches is in its block once, and each kind of block trigger at most
once. -/
structure Once (chain : EthereumChain) (filter : EthereumLogFilter)
    (b : TriggeredBlock) : Prop where
  log : ∀ log ∈ chain.logs, log.number = b.block.number → filter.matchesLog log = true →
    b.triggerData.countP (isLog log.id) = 1
  block : ∀ kind, b.triggerData.countP (isBlock kind) ≤ 1

variable {log : Log}

theorem blockNumber_of_mem (hl : log ∈ chain.logs) :
    (EthereumTrigger.log log).blockNumber = some log.number := by
  obtain ⟨m, hm, hbn, -⟩ := chain.log_block log hl
  have hle : (m : ℤ) ≤ i32Max := le_trans (by exact_mod_cast hm) chain.height_le
  show log.blockNumber.bind blockNumberOfNat = _
  rw [Log.number, hbn]
  exact blockNumberOfNat_eq_some.2 ⟨rfl, hle⟩

theorem countP_foundLogs {filter : EthereumLogFilter} (hlo : log ∈ chain.logs)
    (hf : fromBlock ≤ log.number) (hto : log.number ≤ toBlock) :
    (foundLogs chain fromBlock toBlock filter).countP (fun l => l.id = log.id)
      = filter.ethLogsFilters.countP fun f => f.matchesLog log := by
  -- it is the only log with its identity
  have ho : ∀ l ∈ chain.logs, (decide (l.id = log.id) = true ↔ l = log) := by
    intro l hl
    rw [decide_eq_true_iff]
    exact ⟨fun h => inj_on_of_nodup_map chain.logs_nodup hl hlo h, fun h => h ▸ rfl⟩
  have hon : ∀ f : EthGetLogsFilter,
      ((chain.logs.filter f.matchesLog).inRange Log.number fromBlock toBlock).countP
        (fun l => l.id = log.id) = if f.matchesLog log then 1 else 0 := by
    intro f
    have hc : ((chain.logs.filter f.matchesLog).inRange Log.number fromBlock toBlock).countP
        (fun l => l.id = log.id)
        = ((chain.logs.filter f.matchesLog).inRange Log.number fromBlock toBlock).count log := by
      refine countP_congr fun l hl => ?_
      have hl : l ∈ chain.logs := mem_of_mem_filter (mem_inRange.1 hl).1
      rw [ho l hl, beq_iff_eq]
    have hn : ((chain.logs.filter f.matchesLog).inRange Log.number fromBlock toBlock).Nodup :=
      ((List.Nodup.of_map _ chain.logs_nodup).filter _).filter _
    rw [hc, hn.count]
    refine if_congr ?_ rfl rfl
    rw [mem_inRange, mem_filter]
    tauto
  unfold foundLogs
  induction filter.ethLogsFilters with
  | nil => rfl
  | cons f fs ih => rw [flatMap_cons, countP_append, hon, ih, countP_cons, add_comm]

section

variable (hs : self.Serves chain) (hfits : self.Fits fromBlock toBlock)
  (hh : toBlock ≤ chain.height) (hfuel : 2 * (toBlock + 1 - fromBlock).toNat ≤ fuel)
  {fi : TriggerFilter} (hblock : fi.block.contractAddresses = ∅)
  {blocks : List TriggeredBlock}
  (h : self.blocksWithTriggers fuel fromBlock toBlock fi = .ok blocks)

include hs hfits hh hfuel hblock h

variable {b : TriggeredBlock}

theorem countP_log (hb : b ∈ blocks) {log : Log} (hlg : log ∈ chain.logs)
    (hn : log.number = b.block.number) :
    b.triggerData.countP (isLog log.id)
      = fi.log.ethLogsFilters.countP fun f => f.matchesLog log := by
  obtain ⟨ts, htr, ha⟩ := assembled_blocksWithTriggers hs.consistent h
  obtain ⟨logs, cs, ptrs, ts', ht', hp, hlo, -, -⟩ :=
    collectTriggers_spec hs hfits hh hfuel fi hblock
  obtain rfl := Outcome.ok.inj (htr.symm.trans ht')
  obtain ⟨hf, hto⟩ := ha.inRange b hb
  rw [ha.countP_triggerData hb, hp.countP_eq, countP_append, countP_append,
    countP_map, countP_map, countP_map]
  · have hc : cs.countP (isLog log.id ∘ .call) = 0 := countP_eq_zero.2 nofun
    have hpt : ptrs.countP (isLog log.id ∘ fun ptr => .block ptr .every) = 0 :=
      countP_eq_zero.2 nofun
    rw [hc, hpt]
    exact (hlo.countP_eq _).trans (countP_foundLogs hlg (hn ▸ hf) (hn ▸ hto))
  · -- a trigger for the log is a log of the chain, so it is the log
    intro t hid ht
    rcases t with ⟨ptr, kind⟩ | call | l
    · cases hid
    · cases hid
    · have hl : l ∈ logs := by simpa using hp.mem_iff.1 ht
      obtain ⟨f, -, hl⟩ := mem_flatMap.1 (hlo.mem_iff.1 hl)
      have hl : l ∈ chain.logs := mem_of_mem_filter (mem_inRange.1 hl).1
      obtain rfl := inj_on_of_nodup_map chain.logs_nodup hl hlg (of_decide_eq_true hid)
      rw [← hn]
      exact blockNumber_of_mem hl

theorem countP_block_le (hb : b ∈ blocks) (kind : EthereumBlockTriggerType) :
    b.triggerData.countP (isBlock kind) ≤ 1 := by
  obtain ⟨ts, htr, ha⟩ := assembled_blocksWithTriggers hs.consistent h
  obtain ⟨logs, cs, ptrs, ts', ht', hpe, -, -, hpt⟩ :=
    collectTriggers_spec hs hfits hh hfuel fi hblock
  obtain rfl := Outcome.ok.inj (htr.symm.trans ht')
  have ho : b.triggerData.countP (isBlock kind) = b.triggerData.countP fun t =>
      isBlock kind t && decide (t.blockNumber = some b.block.number) := by
    refine countP_congr fun t ht => ?_
    rw [(ha.own b hb t ht).1, decide_eq_true rfl, Bool.and_true]
  rw [ho, ha.countP_triggerData hb fun t hp _ => by simp at hp; exact hp.2,
    hpe.countP_eq, countP_append, countP_append, countP_map, countP_map,
    countP_map]
  have hlogs0 : logs.countP ((fun t => isBlock kind t && decide (t.blockNumber = some b.block.number))
      ∘ .log) = 0 := countP_eq_zero.2 nofun
  have hcalls0 : cs.countP ((fun t => isBlock kind t && decide (t.blockNumber = some b.block.number))
      ∘ .call) = 0 := countP_eq_zero.2 nofun
  rw [hlogs0, hcalls0, Nat.zero_add, hpt]
  split
  · rw [countP_map]
    calc _ ≤ (blockNumbers fromBlock toBlock).count b.block.number := by
          refine countP_mono_left fun n _ hn => ?_
          obtain ⟨-, hn⟩ := Bool.and_eq_true_iff.1 hn
          exact beq_iff_eq.2 (Option.some.inj (of_decide_eq_true hn))
      _ ≤ 1 := nodup_iff_count_le_one.1 nodup_blockNumbers _
  · exact Nat.zero_le _

end

/-- **How often a scan finds a log.** Every log is in its block once, and every kind of block
trigger at most once, if and only if no log of the range is matched by two filters. -/
theorem logs_once_iff (order : Finset.IterOrder (BlockNumber × Address))
    (dataSources : List (DataSource lib)) (hserves : self.Serves chain)
    (hfits : self.Fits fromBlock toBlock) (hheight : toBlock ≤ chain.height)
    (hfuel : 2 * (toBlock + 1 - fromBlock).toNat ≤ fuel) {blocks : List TriggeredBlock}
    (h : self.blocksWithTriggers fuel fromBlock toBlock
      (TriggerFilter.fromDataSources order dataSources) = .ok blocks) :
    (∀ b ∈ blocks, Once chain (TriggerFilter.fromDataSources order dataSources).log b) ↔
      ∀ log ∈ chain.logs, fromBlock ≤ log.number → log.number ≤ toBlock →
        (TriggerFilter.fromDataSources order dataSources).log.ethLogsFilters.countP
          (fun f => f.matchesLog log) ≤ 1 := by
  have hblock := TriggerFilter.fromDataSources_block_contractAddresses order dataSources
  have hc := @countP_log self chain fuel fromBlock toBlock hserves hfits hheight hfuel _ hblock _ h
  have hma : ∀ log, (TriggerFilter.fromDataSources order dataSources).log.matchesLog log = true ↔
      0 < (TriggerFilter.fromDataSources order dataSources).log.ethLogsFilters.countP
        fun f => f.matchesLog log := by
    intro log
    rw [EthereumLogFilter.matchesLog, any_eq_true, countP_pos_iff]
  constructor
  · intro ho log hl hfr hto
    by_contra hmn
    -- the log is found, so it has a block
    obtain ⟨ts, ht, ha⟩ := assembled_blocksWithTriggers hserves.consistent h
    obtain ⟨logs, cs, ptrs, ts', ht', hp, hlo, -, -⟩ :=
      collectTriggers_spec hserves hfits hheight hfuel _ hblock
    obtain rfl := Outcome.ok.inj (ht.symm.trans ht')
    have hm : (TriggerFilter.fromDataSources order dataSources).log.matchesLog log = true :=
      (hma log).2 (by omega)
    obtain ⟨f, hf, hfm⟩ := any_eq_true.1 hm
    have hme : log ∈ logs := hlo.mem_iff.2 (mem_flatMap.2 ⟨f, hf,
      mem_inRange.2 ⟨mem_filter.2 ⟨hl, hfm⟩, hfr, hto⟩⟩)
    obtain ⟨b, hb, -, hn, -⟩ := ha.exists_block
      (hp.mem_iff.2 (by simp [hme] : EthereumTrigger.log log ∈ _))
    have hn := Option.some.inj ((blockNumber_of_mem hl).symm.trans hn)
    have hon := (ho b hb).log log hl hn hm
    rw [hc hb hl hn] at hon
    omega
  · intro hle b hb
    obtain ⟨ts, -, ha⟩ := assembled_blocksWithTriggers hserves.consistent h
    obtain ⟨hfr, hto⟩ := ha.inRange b hb
    refine ⟨fun log hl hn hm => ?_, countP_block_le hserves hfits hheight hfuel hblock h hb⟩
    have hpos := (hma log).mp hm
    have hmost := hle log hl (hn ▸ hfr) (hn ▸ hto)
    rw [hc hb hl hn]
    omega

theorem firstLog_once :
    Once oneLogChain (TriggerFilter.fromDataSources .choose
      [plainSource [] [⟨"E()", none, "a"⟩]]).log ⟨⟨zeroHash, 0, []⟩, [.log firstLog]⟩ := by
  have h : oneLogChain.node.blocksWithTriggers 2 0 0 (TriggerFilter.fromDataSources .choose
      [plainSource [] [⟨"E()", none, "a"⟩]]) = .ok [⟨⟨zeroHash, 0, []⟩, [.log firstLog]⟩] := by
    refine bind_eq_ok.2 ⟨[.log firstLog], ?_, ?_⟩
    · rw [collectTriggers, fetches,
        if_pos (TriggerFilter.fromDataSources_block_contractAddresses .choose _)]
      rfl
    · refine bind_eq_ok.2 ⟨some zeroHash, rfl, bind_eq_ok.2 ⟨[zeroHash], rfl, ?_⟩⟩
      refine bind_eq_ok.2 ⟨[(0, .log firstLog)], rfl, ?_⟩
      exact bind_eq_ok.2 ⟨_, oneLogChain_loadBlocks (by simp), rfl⟩
  refine (logs_once_iff .choose _ oneLogChain.serves_node (fits_node _) le_rfl
    (show 2 * (0 + 1 - 0 : ℤ).toNat ≤ 2 by decide) h).2 ?_ _ (mem_singleton_self _)
  exact fun _ _ _ _ => countP_le_length

theorem firstLog_twice :
    ∃ blocks, oneLogChain.node.blocksWithTriggers 2 0 0 (TriggerFilter.fromDataSources .choose
        [plainSource [] [⟨"E()", none, "a"⟩], plainSource [] [⟨"E()", none, "b"⟩]]) = .ok blocks ∧
      ¬ ∀ b ∈ blocks, Once oneLogChain (TriggerFilter.fromDataSources .choose
        [plainSource [] [⟨"E()", none, "a"⟩], plainSource [] [⟨"E()", none, "b"⟩]]).log b := by
  have hf : oneLogChain.node.fetches 2 0 0 (TriggerFilter.fromDataSources .choose
        [plainSource [] [⟨"E()", none, "a"⟩], plainSource [] [⟨"E()", none, "b"⟩]])
      = [.ok [.log firstLog, .log firstLog]] := by
    rw [fetches, if_pos (TriggerFilter.fromDataSources_block_contractAddresses .choose _)]
    rfl
  refine ⟨[⟨⟨zeroHash, 0, []⟩, [.log firstLog, .log firstLog]⟩], ?_, fun ho => ?_⟩
  · refine bind_eq_ok.2 ⟨[.log firstLog, .log firstLog], ?_, ?_⟩
    · rw [collectTriggers, hf]
      rfl
    · refine bind_eq_ok.2 ⟨some zeroHash, rfl, ?_⟩
      refine bind_eq_ok.2 ⟨[zeroHash, zeroHash], rfl, ?_⟩
      refine bind_eq_ok.2 ⟨[(0, .log firstLog), (0, .log firstLog)], rfl, ?_⟩
      exact bind_eq_ok.2 ⟨_, oneLogChain_loadBlocks (by simp), rfl⟩
  · have hc := (ho _ (mem_singleton.2 rfl)).log firstLog (mem_singleton.2 rfl) rfl rfl
    exact absurd hc (by decide)

end EthereumAdapter

end Massbit
