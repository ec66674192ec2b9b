/-
What a scan returns, if the answers agree about which number belongs to which hash (`Consistent`):
`assembled_blocksWithTriggers`.
-/
import Massbit.Ethereum.Adapter

open List Outcome Finmap

namespace Massbit

namespace EthereumAdapter

variable {self : EthereumAdapter} {fuel : ℕ} {fromBlock toBlock : BlockNumber}
  {numberOf : H256 → BlockNumber}

/-- The answers agree that a block with the hash has the number `numberOf` gives, and each log,
trace and block carries the number and hash of its own block. -/
structure Consistent (adapter : EthereumAdapter) (numberOf : H256 → BlockNumber) : Prop where
  log : ∀ {request logs}, adapter.logsWithSigs request = .ok logs → ∀ log ∈ logs, ∀ {hash number},
    log.blockHash = some hash → log.blockNumber.bind blockNumberOfNat = some number →
      numberOf hash = number
  trace : ∀ {request traces}, adapter.traces request = .ok traces → ∀ trace ∈ traces,
    numberOf trace.blockHash = i32 trace.blockNumber
  header : ∀ {n block}, adapter.blockByNumber n = .ok (some block) → ∀ {hash},
    block.hash = some hash → numberOf hash = n ∧
      ∀ {number}, block.blockNumber = some number → numberOf hash = number
  block : ∀ {hash block}, adapter.blockWithTxs hash = .ok (some block) → block.hash = some hash ∧
    ∀ {number}, block.blockNumber = some number → numberOf hash = number

def OwnBlock (numberOf : H256 → BlockNumber) (t : EthereumTrigger) : Prop :=
  ∀ hash number, t.blockHash = some hash → t.blockNumber = some number → numberOf hash = number

variable {logs : List Log}

/-! ### Triggers carry the block they were found in -/

theorem exists_answer_of_mem_logStream {i : ℕ} {f : EthGetLogsFilter}
    (h : self.logStream fuel fromBlock toBlock i f = .ok logs) :
    ∀ log ∈ logs, ∃ r answer, self.logsWithSigs r = .ok answer ∧ log ∈ answer := by
  unfold logStream at h
  split at h
  · cases h
  · obtain ⟨ps, hp, rfl⟩ := bind_pure_eq_ok.1 h
    refine forall_mem_tryUnfold ?_ hp
    rintro ⟨start, step⟩ piece s' ht log hpi
    unfold logStreamTurn at ht
    dsimp only at ht
    split at ht
    · cases ht
    · split at ht
      · split at ht
        · cases ht
          cases hpi
        · cases ht
      next answer ha =>
        cases ht
        exact ⟨_, _, ha, hpi⟩

theorem exists_answer_of_mem_logsInBlockRange {f : EthereumLogFilter}
    (h : self.logsInBlockRange fuel fromBlock toBlock f = .ok logs) :
    ∀ log ∈ logs, ∃ r answer, self.logsWithSigs r = .ok answer ∧ log ∈ answer := by
  obtain ⟨ps, hp, rfl⟩ := bind_pure_eq_ok.1 h
  intro log hl
  obtain ⟨part, hpa, hl⟩ := mem_flatten.1 hl
  obtain ⟨_, -, hs⟩ := (mapM_eq_ok.1 hp).flip.exists_of_mem hpa
  exact exists_answer_of_mem_logStream hs log hl

theorem exists_answer_of_mem_traceStream {f : TraceFetch} {ads : Finset Address} {ts : List Trace}
    (h : self.traceStream fuel fromBlock toBlock f ads = .ok ts) :
    ∀ t ∈ ts, ∃ r answer, self.traces r = .ok answer ∧ t ∈ answer := by
  unfold traceStream at h
  split at h
  · cases h
  · obtain ⟨ps, hp, rfl⟩ := bind_pure_eq_ok.1 h
    refine forall_mem_tryUnfold ?_ hp
    intro s p s' ht t hpi
    unfold traceStreamTurn at ht
    split at ht
    · cases ht
    · obtain ⟨answer, ha, ht⟩ := bind_eq_ok.1 ht
      cases ht
      exact ⟨_, _, ofExcept_eq_ok.1 ha, hpi⟩

theorem filterCalls_eq_some {cf : EthereumCallFilter} :
    ∀ {cs found : List EthereumCall}, filterCalls cf cs = some found →
      found = cs.filter fun call => cf.matchesCall call = some true
  | [], _, h => (Option.some.inj h).symm
  | call :: cs, found, h => by
    obtain ⟨im, hm, h⟩ := Option.bind_eq_some_iff.1 h
    obtain ⟨rest, hr, h⟩ := Option.bind_eq_some_iff.1 h
    rw [filter_cons, hm, ← filterCalls_eq_some hr]
    cases im <;> exact (Option.some.inj h).symm

theorem exists_answer_of_mem_callsInBlockRange {fe : TraceFetch} {f : EthereumCallFilter}
    {cs : List EthereumCall} (h : self.callsInBlockRange fuel fromBlock toBlock fe f = .ok cs) :
    ∀ call ∈ cs, ∃ r a, self.traces r = .ok a ∧
      ∃ t ∈ a, EthereumCall.tryFromTrace t = some call := by
  intro call hc
  unfold callsInBlockRange at h
  dsimp only at h
  split at h
  · cases h
    cases hc
  · obtain ⟨ts, ht, h⟩ := bind_eq_ok.1 h
    rw [ofOption_eq_ok] at h
    rw [filterCalls_eq_some h] at hc
    obtain ⟨t, htr, hf⟩ := mem_filterMap.1 (mem_of_mem_filter hc)
    obtain ⟨r, a, ha, hm⟩ := exists_answer_of_mem_traceStream ht t htr
    exact ⟨r, a, ha, t, hm, hf⟩

theorem exists_header_of_mem_blockRangeToPtrs {ptrs : List BlockPtr}
    (h : self.blockRangeToPtrs fromBlock toBlock = .ok ptrs) :
    ∀ ptr ∈ ptrs, ∃ n b, self.blockByNumber n = .ok (some b) ∧
      b.blockPtr = some ptr := by
  intro ptr hp
  obtain ⟨n, -, hl⟩ := (mapM_eq_ok.1 h).flip.exists_of_mem hp
  obtain ⟨a, ha, hl⟩ := bind_eq_ok.1 hl
  rw [ofExcept_eq_ok] at ha
  rcases a with - | b
  · cases hl
  · exact ⟨n, b, ha, ofOption_eq_ok.mp hl⟩

section

variable (hco : self.Consistent numberOf)

include hco

theorem ownBlock_call {fe : TraceFetch} {f : EthereumCallFilter} {cs : List EthereumCall}
    (h : self.callsInBlockRange fuel fromBlock toBlock fe f = .ok cs)
    {call : EthereumCall} (hc : call ∈ cs) : numberOf call.blockHash = call.blockNumber := by
  obtain ⟨_, _, ha, t, ht, hf⟩ := exists_answer_of_mem_callsInBlockRange h call hc
  obtain ⟨-, -, hn, hh⟩ := EthereumCall.tryFromTrace_eq_some hf
  rw [hn, hh]
  exact hco.trace ha t ht

variable {triggers : List EthereumTrigger} {f : TriggerFilter}

theorem ownBlock_fetches {fe : Outcome AnyError (List EthereumTrigger)}
    (hf : fe ∈ self.fetches fuel fromBlock toBlock f) (h : fe = .ok triggers) :
    ∀ t ∈ triggers, OwnBlock numberOf t := by
  subst h
  unfold fetches at hf
  rw [mem_append, mem_append] at hf
  rcases hf with (hf | hf) | hf
  · split at hf
    · cases hf
    · obtain ⟨logs, hl, rfl⟩ := bind_pure_eq_ok.1 (mem_singleton.1 hf).symm
      intro t ht
      obtain ⟨log, hlo, rfl⟩ := mem_map.1 ht
      obtain ⟨_, _, ha, hm⟩ := exists_answer_of_mem_logsInBlockRange hl log hlo
      exact fun _ _ hh hn => hco.log ha log hm hh hn
  · split at hf
    · cases hf
    · obtain ⟨cs, hc, rfl⟩ := bind_pure_eq_ok.1 (mem_singleton.1 hf).symm
      intro t ht hash nu hh hn
      obtain ⟨call, hca, rfl⟩ := mem_map.1 ht
      cases hh
      cases hn
      exact ownBlock_call hco hc hca
  · split at hf
    · obtain ⟨ptrs, hpt, rfl⟩ := bind_pure_eq_ok.1 (mem_singleton.1 hf).symm
      intro t ht hash nu hh hn
      obtain ⟨ptr, hp, rfl⟩ := mem_map.1 ht
      obtain ⟨n, b, hb, hp⟩ := exists_header_of_mem_blockRangeToPtrs hpt ptr hp
      obtain ⟨bh, hbh, hp⟩ := Option.bind_eq_some_iff.1 hp
      obtain ⟨bn, hbn, hp⟩ := Option.bind_eq_some_iff.1 hp
      cases hp
      obtain rfl := Option.some.inj ((BlockPtr.hashAsH256_ofH256 _ _).symm.trans hh)
      cases hn
      exact (hco.header hb hbh).2 hbn
    · split at hf
      · cases hf
      · obtain ⟨cs, hc, rfl⟩ := bind_pure_eq_ok.1 (mem_singleton.1 hf).symm
        intro t ht hash nu hh hn
        obtain ⟨call, hca, rfl⟩ := mem_map.1 ht
        obtain rfl := Option.some.inj ((BlockPtr.hashAsH256_ofH256 _ _).symm.trans hh)
        cases hn
        exact ownBlock_call hco hc hca

theorem ownBlock_collectTriggers
    (h : self.collectTriggers fuel fromBlock toBlock f = .ok triggers) :
    ∀ t ∈ triggers, OwnBlock numberOf t := by
  obtain ⟨found, hf, rfl⟩ := bind_pure_eq_ok.1 h
  intro t ht
  obtain ⟨part, hp, ht⟩ := mem_flatten.1 ht
  have hm : part ∈ found := (self.completion_perm found).mem_iff.1 hp
  obtain ⟨fe, hfe, hok⟩ := (mapM_eq_ok.1 hf).flip.exists_of_mem hm
  exact ownBlock_fetches hco hfe hok t ht

end

/-! ### Triggers by block -/

def triggersAt (triggers : List EthereumTrigger) (number : BlockNumber) : List EthereumTrigger :=
  triggers.filter fun t => t.blockNumber = some number

variable {triggers : List EthereumTrigger} {k : List (BlockNumber × EthereumTrigger)}
  {found blocks : List TriggeredBlock}

theorem numbered_spec (h : numbered triggers = .ok k) :
    (∀ t ∈ triggers, ∃ number, t.blockNumber = some number ∧ (number, t) ∈ k) ∧
      ∀ number, (k.filter (·.1 = number)).map Prod.snd = triggersAt triggers number := by
  have ha := mapM_eq_ok.1 h
  refine ⟨fun t ht => ?_, fun number => ?_⟩
  · obtain ⟨e, he, hte⟩ := ha.exists_of_mem ht
    obtain ⟨n, hn, rfl⟩ := Option.map_eq_some_iff.mp (ofOption_eq_ok.mp hte)
    exact ⟨n, hn, he⟩
  · unfold triggersAt
    clear h
    induction ha with
    | nil => rfl
    | cons hte _ ih =>
      obtain ⟨n, hn, rfl⟩ := Option.map_eq_some_iff.1 (ofOption_eq_ok.1 hte)
      rw [filter_cons, filter_cons, hn, ← ih]
      by_cases hnu : n = number
      · simp [hnu]
      · simp [hnu]

theorem lookup_triggersByBlock (h : numbered triggers = .ok k) {number : BlockNumber}
    {ts : List EthereumTrigger}
    (hts : (if toBlock ∈ k.pushAll then k.pushAll else k.pushAll.insert toBlock
      []).lookup number = some ts) :
    ts = triggersAt triggers number ∧ (number ≠ toBlock → ts ≠ []) := by
  obtain ⟨-, hf⟩ := numbered_spec h
  have hg : (k.pushAll.lookup number).getD [] = triggersAt triggers number :=
    (getD_lookup_pushAll k number).trans (hf number)
  have hfo : k.pushAll.lookup number = some ts → ts = triggersAt triggers number ∧ ts ≠ [] := by
    intro hl
    rw [hl] at hg
    refine ⟨hg, fun hni => ?_⟩
    obtain ⟨e, he, hn⟩ := mem_pushAll.mp (mem_of_lookup_eq_some hl)
    have hm : e.2 ∈ triggersAt triggers number :=
      hf number ▸ mem_map_of_mem (mem_filter.mpr ⟨he, by simpa using hn⟩)
    rw [← hg, show Option.getD (some ts) [] = [] from hni] at hm
    cases hm
  split at hts
  · exact ⟨(hfo hts).1, fun _ => (hfo hts).2⟩
  next hto =>
    by_cases hn : number = toBlock
    · subst hn
      rw [lookup_insert] at hts
      cases hts
      rw [lookup_eq_none.mpr hto] at hg
      exact ⟨hg, fun hne => absurd rfl hne⟩
    · rw [lookup_insert_of_ne _ hn] at hts
      exact ⟨(hfo hts).1, fun _ => (hfo hts).2⟩

theorem attachTriggers_spec {blocks : List LightEthereumBlock} :
    ∀ {tbb : HashMap BlockNumber (List EthereumTrigger)}
      {its : List (LightEthereumBlock × List EthereumTrigger)},
      self.attachTriggers tbb blocks = .ok its →
      its.map Prod.fst = blocks ∧
      (blocks.map fun b => b.blockNumber).Nodup ∧
      ∀ item ∈ its, ∃ number ts, item.1.blockNumber = some number ∧
        tbb.lookup number = some ts ∧
        ts.sortByM EthereumTrigger.cmp = some item.2 := by
  induction blocks with
  | nil =>
    intro _ its h
    cases h
    exact ⟨rfl, .nil, fun _ hi => nomatch hi⟩
  | cons b blocks ih =>
    intro tbb its h
    obtain ⟨number, hn, h⟩ := bind_eq_ok.mp h
    rw [ofOption_eq_ok] at hn
    rcases hl : tbb.lookup number with _ | ts
    · rw [hl] at h
      cases h
    · rw [hl] at h
      obtain ⟨s, hs, h⟩ := bind_eq_ok.mp h
      rw [ofOption_eq_ok] at hs
      obtain ⟨rest, hr, rfl⟩ := bind_pure_eq_ok.mp h
      obtain ⟨hf, hno, hit⟩ := ih hr
      -- the entry of the number is gone for the other blocks
      have ho : ∀ item ∈ rest, ∃ n' ts', item.1.blockNumber = some n' ∧
          n' ≠ number ∧ tbb.lookup n' = some ts' ∧
          ts'.sortByM EthereumTrigger.cmp = some item.2 := by
        intro item hi
        obtain ⟨n', ts', hn', hl', hs'⟩ := hit item hi
        have hne : n' ≠ number := by
          rintro rfl
          rw [lookup_erase] at hl'
          cases hl'
        rw [lookup_erase_ne hne] at hl'
        exact ⟨n', ts', hn', hne, hl', hs'⟩
      refine ⟨by rw [map_cons, hf], nodup_cons.mpr ⟨fun hm => ?_, hno⟩, ?_⟩
      · obtain ⟨b', hb', heq⟩ := mem_map.mp hm
        obtain ⟨item, hi, rfl⟩ := mem_map.mp (hf ▸ hb')
        obtain ⟨n', _, hn', hne, -⟩ := ho item hi
        exact hne (Option.some.inj (hn'.symm.trans (heq.trans hn)))
      · intro item hi
        rcases mem_cons.mp hi with rfl | hi
        · exact ⟨number, ts, hn, hl, hs⟩
        · obtain ⟨n', ts', hn', -, hl', hs'⟩ := ho item hi
          exact ⟨n', ts', hn', hl', hs'⟩

theorem loadBlocks_spec (hconsistent : self.Consistent numberOf) {hs : Finset H256}
    {blocks : List LightEthereumBlock} (h : self.loadBlocks hs = .ok blocks) :
    (∀ hash ∈ hs, ∃ bl ∈ blocks, bl.hash = some hash) ∧
      ∀ bl ∈ blocks, ∀ {hash number}, bl.hash = some hash →
        bl.blockNumber = some number → numberOf hash = number := by
  obtain ⟨l, hl, rfl⟩ := bind_pure_eq_ok.1 h
  have hlo : ∀ {hash bl}, self.loadBlock hash = .ok bl →
      self.blockWithTxs hash = .ok (some bl) := by
    intro hash bl h
    obtain ⟨a, ha, h⟩ := bind_eq_ok.1 h
    rw [ofExcept_eq_ok] at ha
    rcases a with - | b
    · cases h
    · rw [ha, Outcome.ok.inj h]
  have hal := mapM_eq_ok.1 hl
  refine ⟨fun hash hha => ?_, fun bl hbl hash number hh hn => ?_⟩
  · obtain ⟨bl, hbl, hb⟩ := hal.exists_of_mem (self.hashOrder.mem_toList.2 hha)
    exact ⟨bl, (mem_insertionSort _).2 hbl, (hconsistent.block (hlo hb)).1⟩
  · rw [mem_insertionSort] at hbl
    obtain ⟨hash', -, hb⟩ := hal.flip.exists_of_mem hbl
    obtain ⟨hh', hnu⟩ := hconsistent.block (hlo hb)
    obtain rfl := Option.some.inj (hh'.symm.trans hh)
    exact hnu hn

variable {b : TriggeredBlock}

theorem withFinality_eq_ok {item : LightEthereumBlock × List EthereumTrigger}
    (h : withFinality item = .ok b) :
    item.1.hash = some b.block.hash ∧ item.1.blockNumber = some b.block.number ∧
      item.2 = b.triggerData := by
  obtain ⟨bl, hb, rfl⟩ := Option.map_eq_some_iff.1 (ofOption_eq_ok.1 h)
  obtain ⟨hash, hh, hb⟩ := Option.bind_eq_some_iff.1 hb
  obtain ⟨number, hnumber, hb⟩ := Option.bind_eq_some_iff.mp hb
  cases hb
  exact ⟨hh, hnumber, rfl⟩

theorem increasing_insertionSort
    (hn : ((found.insertionSort fun a b => a.block.number ≤ b.block.number).map fun b =>
      b.block.number).Nodup) :
    (found.insertionSort fun a b => a.block.number ≤ b.block.number).Pairwise fun a b =>
      a.block.number < b.block.number := by
  have hs := pairwise_insertionSort (fun a b : TriggeredBlock =>
      a.block.number ≤ b.block.number) found
  exact (hs.and (pairwise_map.1 hn)).imp fun ⟨hle, hne⟩ => lt_of_le_of_ne hle hne

theorem checkRange_spec {r : List TriggeredBlock}
    (hs : blocks.Pairwise fun a b => a.block.number < b.block.number)
    (h : checkRange fromBlock toBlock blocks = .ok r) :
    r = blocks ∧ ∃ last, blocks.getLast? = some last ∧
      ∀ b ∈ blocks, fromBlock ≤ b.block.number ∧ b.block.number ≤ last.block.number ∧
        last.block.number ≤ toBlock := by
  obtain ⟨f, hf, h⟩ := bind_eq_ok.1 h
  obtain ⟨last, hl, h⟩ := bind_eq_ok.1 h
  rw [ofOption_eq_ok] at hf hl
  split at h
  · cases h
  next hfr =>
    split at h
    · cases h
    next hto =>
      refine ⟨(Outcome.ok.inj h).symm, last, hl, fun b hb => ⟨?_, ?_, not_lt.1 hto⟩⟩
      · obtain ⟨rest, rfl⟩ := List.head?_eq_some_iff.1 hf
        rcases mem_cons.1 hb with rfl | hb
        · exact not_lt.1 hfr
        · exact (not_lt.1 hfr).trans ((pairwise_cons.1 hs).1 b hb).le
      · obtain ⟨init, rfl⟩ := List.getLast?_eq_some_iff.1 hl
        rcases mem_append.1 hb with hb | hb
        · exact ((pairwise_append.1 hs).2.2 b hb last (by simp)).le
        · rw [mem_singleton.1 hb]

/-! ### The blocks -/

/-- What the scan of a range returns: blocks in order, up to the last block of the range, with the
triggers that were found. -/
structure Assembled (fromBlock toBlock : BlockNumber) (triggers : List EthereumTrigger)
    (blocks : List TriggeredBlock) : Prop where
  increasing : blocks.Pairwise fun a b => a.block.number < b.block.number
  inRange : ∀ b ∈ blocks, fromBlock ≤ b.block.number ∧ b.block.number ≤ toBlock
  last : ∃ b, blocks.getLast? = some b ∧ b.block.number = toBlock
  nonempty : ∀ b ∈ blocks, b.block.number ≠ toBlock → b.triggerData ≠ []
  perm : (blocks.flatMap fun b => b.triggerData).Perm triggers
  own : ∀ b ∈ blocks, ∀ t ∈ b.triggerData,
    t.blockNumber = some b.block.number ∧ t.blockHash = some b.block.hash
  chain : ∀ b ∈ blocks, b.triggerData.IsChain (List.NotGreater EthereumTrigger.cmp)
  sorted : ∀ b ∈ blocks, EthereumTrigger.LogsFollowTransactions b.triggerData →
    b.triggerData.Pairwise (List.NotGreater EthereumTrigger.cmp)

structure Found (toBlock : BlockNumber) (numberOf : H256 → BlockNumber)
    (triggers : List EthereumTrigger)
    (found : List TriggeredBlock) : Prop where
  nodup : (found.map fun b => b.block.number).Nodup
  number : ∀ b ∈ found, numberOf b.block.hash = b.block.number
  triggerData : ∀ b ∈ found,
    (triggersAt triggers b.block.number).sortByM EthereumTrigger.cmp = some b.triggerData
  nonempty : ∀ b ∈ found, b.block.number ≠ toBlock → triggersAt triggers b.block.number ≠ []
  last : ∃ b ∈ found, b.block.number = toBlock
  own : ∀ t ∈ triggers, ∃ b ∈ found,
    t.blockNumber = some b.block.number ∧ t.blockHash = some b.block.hash

variable {th : H256}

theorem found_of_items (hconsistent : self.Consistent numberOf) (hto : numberOf th = toBlock)
    (ho : ∀ t ∈ triggers, OwnBlock numberOf t) {has : List H256}
    (hh : triggers.mapM (fun t => (.ofOption t.blockHash : Outcome AnyError H256)) = .ok has)
    (hk : numbered triggers = .ok k) {blocks : List LightEthereumBlock}
    (hbl : self.loadBlocks (insert th has.toFinset) = .ok blocks)
    {its : List (LightEthereumBlock × List EthereumTrigger)} (hit : self.attachTriggers
      (if toBlock ∈ k.pushAll then k.pushAll else k.pushAll.insert toBlock []) blocks
      = .ok its) (hf : its.mapM withFinality = .ok found) :
    Found toBlock numberOf triggers found := by
  obtain ⟨hl, hnu⟩ := loadBlocks_spec hconsistent hbl
  obtain ⟨hfs, hno, hi⟩ := attachTriggers_spec hit
  have ha := mapM_eq_ok.1 hf
  -- a found block is an item, which is a loaded block
  have hof : ∀ b ∈ found, ∃ item ∈ its, item.1 ∈ blocks ∧ item.1.hash = some b.block.hash ∧
      item.1.blockNumber = some b.block.number ∧ item.2 = b.triggerData := by
    intro b hb
    obtain ⟨item, hm, hok⟩ := ha.flip.exists_of_mem hb
    exact ⟨item, hm, hfs ▸ mem_map_of_mem hm, withFinality_eq_ok hok⟩
  have htr : ∀ b ∈ found,
      (triggersAt triggers b.block.number).sortByM EthereumTrigger.cmp = some b.triggerData ∧
      (b.block.number ≠ toBlock → triggersAt triggers b.block.number ≠ []) := by
    intro b hb
    obtain ⟨item, hm, -, -, hn, htr⟩ := hof b hb
    obtain ⟨n, ts, hn', hlo, hs⟩ := hi item hm
    obtain rfl := Option.some.inj (hn.symm.trans hn')
    obtain ⟨rfl, hne⟩ := lookup_triggersByBlock hk hlo
    exact ⟨htr ▸ hs, hne⟩
  have hn : ∀ b ∈ found, numberOf b.block.hash = b.block.number := by
    intro b hb
    obtain ⟨item, -, hbk, hha, hn, -⟩ := hof b hb
    exact hnu item.1 hbk hha hn
  have hha : ∀ hash ∈ insert th has.toFinset, ∃ b ∈ found, b.block.hash = hash := by
    intro hash hm
    obtain ⟨bl, hbk, hha⟩ := hl hash hm
    obtain ⟨item, hi, rfl⟩ := mem_map.1 (hfs ▸ hbk)
    obtain ⟨b, hb, hok⟩ := ha.exists_of_mem hi
    exact ⟨b, hb, Option.some.inj ((withFinality_eq_ok hok).1.symm.trans hha)⟩
  refine ⟨?_, hn, fun b hb => (htr b hb).1, fun b hb => (htr b hb).2, ?_, ?_⟩
  · have hma : found.map (fun b => some b.block.number)
        = blocks.map fun bl => bl.blockNumber := by
      rw [← hfs, map_map]
      refine forall₂_eq_eq_eq ▸ forall₂_map_left_iff.2
        (forall₂_map_right_iff.2 (ha.flip.imp fun b item hok => ?_))
      exact (withFinality_eq_ok hok).2.1.symm
    refine List.Nodup.of_map some ?_
    rw [map_map]
    exact hma ▸ hno
  · obtain ⟨b, hb, rfl⟩ := hha th (Finset.mem_insert_self _ _)
    exact ⟨b, hb, (hn b hb).symm.trans hto⟩
  · intro t ht
    obtain ⟨hash, hm, hth⟩ := (mapM_eq_ok.1 hh).exists_of_mem ht
    rw [ofOption_eq_ok] at hth
    obtain ⟨b, hb, rfl⟩ := hha hash (by simp [hm])
    obtain ⟨n, htn, -⟩ := (numbered_spec hk).1 t ht
    refine ⟨b, hb, ?_, hth⟩
    rw [htn, ← ho t ht _ _ hth htn, hn b hb]

namespace Found

variable {triggers : List EthereumTrigger}
  {found blocks : List TriggeredBlock}

theorem of_perm (h : Found toBlock numberOf triggers found) (hp : blocks.Perm found) :
    Found toBlock numberOf triggers blocks where
  nodup := (hp.map _).nodup_iff.2 h.nodup
  number b hb := h.number b (hp.mem_iff.1 hb)
  triggerData b hb := h.triggerData b (hp.mem_iff.1 hb)
  nonempty b hb := h.nonempty b (hp.mem_iff.1 hb)
  last := by
    obtain ⟨b, hb, hto⟩ := h.last
    exact ⟨b, hp.mem_iff.mpr hb, hto⟩
  own t ht := by
    obtain ⟨b, hb, ho⟩ := h.own t ht
    exact ⟨b, hp.mem_iff.mpr hb, ho⟩

theorem perm_flatMap (h : Found toBlock numberOf triggers blocks) :
    (blocks.flatMap fun b => b.triggerData).Perm triggers := by
  have hk : (blocks.map fun b => some b.block.number).Nodup :=
    map_map (f := fun b : TriggeredBlock => b.block.number)
      (g := some) ▸ h.nodup.map (Option.some_injective _)
  have ha : ∀ t ∈ triggers, t.blockNumber ∈ blocks.map fun b => some b.block.number := by
    intro t ht
    obtain ⟨b, hb, hn, -⟩ := h.own t ht
    exact mem_map.2 ⟨b, hb, hn.symm⟩
  have hg : (blocks.flatMap fun b => triggersAt triggers b.block.number)
      = (blocks.map fun b => some b.block.number).flatMap fun n =>
          triggers.filter fun t => t.blockNumber = n := by
    rw [flatMap_map]
    rfl
  have hs : (blocks.flatMap fun b => b.triggerData).Perm
      (blocks.flatMap fun b => triggersAt triggers b.block.number) :=
    List.Perm.flatMap_left _ fun b hb => perm_sortByM (h.triggerData b hb)
  exact hs.trans (hg ▸ perm_flatMap_filter_self hk ha)

theorem own_of_mem (h : Found toBlock numberOf triggers blocks) {b : TriggeredBlock}
    (hb : b ∈ blocks) {t : EthereumTrigger} (ht : t ∈ b.triggerData) :
    t.blockNumber = some b.block.number ∧ t.blockHash = some b.block.hash := by
  have hm : t ∈ triggersAt triggers b.block.number :=
    (perm_sortByM (h.triggerData b hb)).mem_iff.1 ht
  obtain ⟨htr, hn⟩ := mem_filter.1 hm
  obtain ⟨b', hb', hn', hh'⟩ := h.own t htr
  have hn : t.blockNumber = some b.block.number := by simpa using hn
  obtain rfl : b = b' := inj_on_of_nodup_map h.nodup hb hb'
    (Option.some.inj (hn.symm.trans hn'))
  exact ⟨hn, hh'⟩

end Found

theorem assemble_spec (hconsistent : self.Consistent numberOf) (hto : numberOf th = toBlock)
    (ho : ∀ t ∈ triggers, OwnBlock numberOf t)
    (h : self.assemble fromBlock toBlock th triggers = .ok blocks) :
    Assembled fromBlock toBlock triggers blocks := by
  obtain ⟨hs, hh, h⟩ := bind_eq_ok.mp h
  obtain ⟨k, hk, h⟩ := bind_eq_ok.mp h
  obtain ⟨l, hl, h⟩ := bind_eq_ok.mp h
  obtain ⟨its, hit, h⟩ := bind_eq_ok.mp h
  obtain ⟨found, hf, h⟩ := bind_eq_ok.mp h
  have hf := (found_of_items hconsistent hto ho hh hk hl hit hf).of_perm
    (perm_insertionSort (fun a b => a.block.number ≤ b.block.number) found)
  have hi := increasing_insertionSort hf.nodup
  obtain ⟨rfl, last, hla, hr⟩ := checkRange_spec hi h
  have hn : last.block.number = toBlock := by
    obtain ⟨b, hb, hbt⟩ := hf.last
    obtain ⟨-, hle, hge⟩ := hr b hb
    exact le_antisymm hge (hbt ▸ hle)
  refine ⟨hi, fun b hb => ?_, ⟨last, hla, hn⟩, fun b hb hne hni => ?_,
    hf.perm_flatMap, fun b hb t ht => hf.own_of_mem hb ht, fun b hb => ?_, fun b hb hlo => ?_⟩
  · obtain ⟨hge, hle, hla⟩ := hr b hb
    exact ⟨hge, hle.trans hla⟩
  · have hp := perm_sortByM (hf.triggerData b hb)
    rw [hni] at hp
    exact hf.nonempty b hb hne hp.symm.eq_nil
  · exact isChain_sortByM EthereumTrigger.cmp_swap (hf.triggerData b hb)
  · exact (isChain_sortByM EthereumTrigger.cmp_swap (hf.triggerData b hb)).pairwise_of_trans
      fun _ ha _ hb _ hc => EthereumTrigger.notGreater_trans hlo ha hb hc

theorem assembled_blocksWithTriggers (hconsistent : self.Consistent numberOf) {f : TriggerFilter}
    (h : self.blocksWithTriggers fuel fromBlock toBlock f = .ok blocks) :
    ∃ triggers, self.collectTriggers fuel fromBlock toBlock f = .ok triggers ∧
      Assembled fromBlock toBlock triggers blocks := by
  obtain ⟨triggers, htr, h⟩ := bind_eq_ok.1 h
  obtain ⟨th?, ht, h⟩ := bind_eq_ok.1 h
  rcases th? with - | th
  · cases h
  · obtain ⟨he?, hh, ht⟩ := bind_eq_ok.1 ht
    rw [ofExcept_eq_ok] at hh
    obtain ⟨header, rfl, hhash⟩ := Option.bind_eq_some_iff.mp (Outcome.ok.inj ht)
    exact ⟨triggers, htr, assemble_spec hconsistent (hconsistent.header hh hhash).1
      (ownBlock_collectTriggers hconsistent htr) h⟩

theorem Assembled.countP_triggerData (h : Assembled fromBlock toBlock triggers blocks)
    (hb : b ∈ blocks) {p : EthereumTrigger → Bool}
    (hp : ∀ t, p t = true → t ∈ triggers → t.blockNumber = some b.block.number) :
    b.triggerData.countP p = triggers.countP p := by
  have ho : ∀ b' ∈ blocks, b'.block.number ≠ b.block.number → b'.triggerData.countP p = 0 := by
    intro b' hb' hne
    refine countP_eq_zero.2 fun t ht hpt => hne ?_
    have htr : t ∈ triggers := h.perm.mem_iff.1 (mem_flatMap.2 ⟨b', hb', ht⟩)
    exact Option.some.inj ((h.own b' hb' t ht).1.symm.trans (hp t hpt htr))
  obtain ⟨pre, post, rfl⟩ := append_of_mem hb
  obtain ⟨-, hpo, hpr⟩ := pairwise_append.1 h.increasing
  have hpre0 : (pre.flatMap fun b => b.triggerData).countP p = 0 := by
    rw [countP_flatMap]
    refine sum_eq_zero fun n hn => ?_
    obtain ⟨b', hb', rfl⟩ := mem_map.1 hn
    exact ho b' (by simp [hb']) (hpr b' hb' b (by simp)).ne
  have hpost0 : (post.flatMap fun b => b.triggerData).countP p = 0 := by
    rw [countP_flatMap]
    refine sum_eq_zero fun n hn => ?_
    obtain ⟨b', hb', rfl⟩ := mem_map.1 hn
    exact ho b' (by simp [hb']) ((pairwise_cons.1 hpo).1 b' hb').ne'
  rw [← h.perm.countP_eq, flatMap_append, flatMap_cons, countP_append, countP_append, hpre0, hpost0]
  omega

theorem Assembled.exists_block (h : Assembled fromBlock toBlock triggers blocks)
    {t : EthereumTrigger} (ht : t ∈ triggers) :
    ∃ b ∈ blocks, t ∈ b.triggerData ∧ t.blockNumber = some b.block.number ∧
      t.blockHash = some b.block.hash := by
  obtain ⟨b, hb, htb⟩ := mem_flatMap.1 (h.perm.mem_iff.2 ht)
  exact ⟨b, hb, htb, h.own b hb t htb⟩

theorem Serves.consistent {c : EthereumChain} (h : self.Serves c) :
    self.Consistent fun hash => ((c.heightOf? hash).getD 0 : ℕ) where
  log := by
    intro r logs hl log hlo hash nu hha hnu
    rcases h.logs r with ⟨a, ha, hp⟩ | ⟨-, e, he, -⟩
    · obtain rfl := Except.ok.inj (hl.symm.trans ha)
      have hm : log ∈ c.logs :=
        mem_of_mem_filter (mem_inRange.1 (hp.mem_iff.1 hlo)).1
      obtain ⟨n, hn, hbn, hbh⟩ := c.log_block log hm
      obtain rfl := Option.some.inj (hbh.symm.trans hha)
      rw [hbn] at hnu
      rw [EthereumChain.heightOf?_eq_some.mpr ⟨hn, rfl⟩]
      exact (blockNumberOfNat_eq_some.mp hnu).1
    · rw [he] at hl
      cases hl
  trace := by
    intro r ts ht trace htr
    obtain ⟨a, ha, hp⟩ := h.traces r
    obtain rfl := Except.ok.inj (ht.symm.trans ha)
    have hm : trace ∈ c.traces :=
      mem_of_mem_filter (mem_inRange.1 (hp.mem_iff.1 htr)).1
    obtain ⟨hn, hha⟩ := c.trace_block trace hm
    have hle : (trace.blockNumber : ℤ) ≤ i32Max := le_trans (by exact_mod_cast hn) c.height_le
    have hge : i32Min ≤ (trace.blockNumber : ℤ) := by
      unfold i32Min
      omega
    rw [hha, EthereumChain.heightOf?_eq_some.2 ⟨hn, rfl⟩, i32_of_mem hge hle]
    rfl
  header := by
    intro n block hb hash hha
    have hh : c.header? n = some block := Except.ok.inj ((h.blockByNumber n).symm.trans hb)
    unfold EthereumChain.header? at hh
    rw [Option.ite_none_right_eq_some] at hh
    obtain ⟨⟨h0, hhe⟩, hh⟩ := hh
    cases hh
    cases hha
    have hn : n.toNat ≤ c.height := Int.toNat_le.2 hhe
    rw [EthereumChain.heightOf?_eq_some.2 ⟨hn, rfl⟩, EthereumChain.header_blockNumber hn,
      Option.getD_some]
    exact ⟨Int.toNat_of_nonneg h0, fun hnu => Option.some.inj hnu⟩
  block := by
    intro hash block hb
    have hb? : c.block? hash = some block := Except.ok.inj ((h.blockWithTxs hash).symm.trans hb)
    obtain ⟨n, hn, rfl⟩ := Option.map_eq_some_iff.1 hb?
    obtain ⟨hle, rfl⟩ := EthereumChain.heightOf?_eq_some.1 hn
    refine ⟨rfl, fun hnu => ?_⟩
    rw [hn]
    exact Option.some.inj ((EthereumChain.header_blockNumber hle).symm.trans hnu)

/-- **The blocks of a scan.** If the answers agree, the blocks are in order, in the range, up to its
last block, and every trigger that the fetches found is in the block with its number and hash as
many times as it was found. -/
theorem blocksWithTriggers_spec (hconsistent : self.Consistent numberOf) {filter : TriggerFilter}
    {blocks : List TriggeredBlock}
    (h : self.blocksWithTriggers fuel fromBlock toBlock filter = .ok blocks) :
    ∃ triggers, self.collectTriggers fuel fromBlock toBlock filter = .ok triggers ∧
      Assembled fromBlock toBlock triggers blocks ∧
      ∀ t ∈ triggers, ∃ b ∈ blocks, t.blockNumber = some b.block.number ∧
        t.blockHash = some b.block.hash ∧ b.triggerData.count t = triggers.count t := by
  obtain ⟨triggers, htr, h⟩ := assembled_blocksWithTriggers hconsistent h
  refine ⟨triggers, htr, h, fun t ht => ?_⟩
  obtain ⟨b, hb, -, hn, hh⟩ := h.exists_block ht
  refine ⟨b, hb, hn, hh, h.countP_triggerData hb fun t' heq _ => ?_⟩
  obtain rfl : t' = t := by simpa using heq
  exact hn

def zeroHash : H256 := H256.zero

def firstLog : Log where
  address := 1
  topics := [zeroHash]
  data := []
  blockHash := some zeroHash
  blockNumber := some 0
  transactionHash := some zeroHash
  transactionIndex := some 0
  logIndex := some 0

def oneLogChain : EthereumChain where
  height := 0
  hash _ := zeroHash
  transactions _ := []
  logs := [firstLog]
  traces := []
  receiver trace := match trace.action with
    | .call call => some call.toAddress
    | .create | .suicide | .reward => none
  height_le := by decide
  hash_injOn := by
    intro m hm n hn _
    exact (Nat.le_zero.1 hm).trans (Nat.le_zero.1 hn).symm
  log_block := by
    intro log hlog
    obtain rfl := mem_singleton.1 hlog
    exact ⟨0, le_rfl, rfl, rfl⟩
  logs_nodup := nodup_singleton _
  trace_block _ h := nomatch h
  receiver_call h := by rw [h]

theorem oneLogChain_loadBlocks {hs : List H256} (h : hs.toFinset ⊆ {zeroHash}) :
    oneLogChain.node.loadBlocks (insert zeroHash hs.toFinset)
      = .ok [⟨oneLogChain.header 0, []⟩] := by
  rw [show insert zeroHash hs.toFinset = {zeroHash} from
    Finset.eq_singleton_iff_unique_mem.2 ⟨Finset.mem_insert_self _ _, fun hash hm =>
      (Finset.mem_insert.1 hm).elim id fun hm => Finset.mem_singleton.1 (h hm)⟩,
    loadBlocks, Finset.IterOrder.toList_singleton]
  rfl

theorem oneLogChain_blocks : ∃ triggers,
    oneLogChain.node.collectTriggers 2 0 0 { log := ⟨[⟨[], []⟩]⟩ } = .ok triggers ∧
      Assembled 0 0 triggers [⟨⟨zeroHash, 0, []⟩, [.log firstLog]⟩] ∧
      ∀ t ∈ triggers, ∃ b ∈ [(⟨⟨zeroHash, 0, []⟩, [.log firstLog]⟩ : TriggeredBlock)],
        t.blockNumber = some b.block.number ∧ t.blockHash = some b.block.hash ∧
          b.triggerData.count t = triggers.count t := by
  refine blocksWithTriggers_spec oneLogChain.serves_node.consistent ?_
  refine bind_eq_ok.2 ⟨[.log firstLog], rfl, bind_eq_ok.2 ⟨some zeroHash, rfl, ?_⟩⟩
  refine bind_eq_ok.2 ⟨[zeroHash], rfl, bind_eq_ok.2 ⟨[(0, .log firstLog)], rfl, ?_⟩⟩
  exact bind_eq_ok.2 ⟨_, oneLogChain_loadBlocks (by simp), rfl⟩

end EthereumAdapter

end Massbit
