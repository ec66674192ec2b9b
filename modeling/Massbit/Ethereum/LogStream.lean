/-
The log stream (`EthereumAdapter::log_stream`), whatever the node answers: `exists_logStream`.
-/
import Massbit.Ethereum.Adapter

open List

namespace Massbit

/-- The blocks that a step of the log stream may reach have numbers. -/
structure EthereumAdapter.LogsFit (adapter : EthereumAdapter) (fromBlock toBlock : ℤ) : Prop where
  min_le : i32Min ≤ fromBlock
  le : fromBlock ≤ toBlock
  logStep : toBlock + (toBlock - fromBlock) < i32Max
  maxEventOnlyRange : 1 ≤ adapter.maxEventOnlyRange
  maxEventOnlyRange_le : adapter.maxEventOnlyRange ≤ i32Max

namespace EthereumAdapter

variable (self : EthereumAdapter) (fuel : ℕ) (fromBlock toBlock : ℤ) (index : ℕ)
  (filter : EthGetLogsFilter)

def logsRequest (seed : ℤ × ℤ) : LogsRequest :=
  ⟨index, seed.1, min (i32 (seed.1 + seed.2)) toBlock, seed.2, filter⟩

def requestsOf (seeds : List (ℤ × ℤ)) : List LogsRequest :=
  (seeds.filter fun seed => seed.1 ≤ toBlock).map (logsRequest toBlock index filter)

def logStreamRequests : List LogsRequest :=
  requestsOf toBlock index filter (Outcome.unfoldSeeds (self.logStreamTurn toBlock index filter) fuel
    (fromBlock, self.logStreamStep fromBlock toBlock filter))

def answered (requests : List LogsRequest) : List (LogsRequest × List Log) :=
  requests.filterMap fun request => (self.logsWithSigs request).toOption.map (request, ·)

variable {seed : ℤ × ℤ} {self fuel fromBlock toBlock index filter}

@[simp] theorem requestsOf_nil : requestsOf toBlock index filter [] = [] := rfl

theorem requestsOf_cons_of_le (h : seed.1 ≤ toBlock) (seeds : List (ℤ × ℤ)) :
    requestsOf toBlock index filter (seed :: seeds)
      = logsRequest toBlock index filter seed :: requestsOf toBlock index filter seeds := by
  simp [requestsOf, h]

theorem requestsOf_cons_of_lt (h : toBlock < seed.1) (seeds : List (ℤ × ℤ)) :
    requestsOf toBlock index filter (seed :: seeds) = requestsOf toBlock index filter seeds := by
  simp [requestsOf, h]

variable {request : LogsRequest} {requests : List LogsRequest} {logs : List Log}

theorem answered_cons_of_ok (h : self.logsWithSigs request = .ok logs)
    (requests : List LogsRequest) :
    self.answered (request :: requests) = (request, logs) :: self.answered requests := by
  simp [answered, h, Except.toOption]

theorem answered_cons_of_error {e : String} (h : self.logsWithSigs request = .error e)
    (requests : List LogsRequest) :
    self.answered (request :: requests) = self.answered requests := by
  simp [answered, h, Except.toOption]

theorem mem_answered {a : LogsRequest × List Log} :
    a ∈ self.answered requests ↔ a.1 ∈ requests ∧ self.logsWithSigs a.1 = .ok a.2 := by
  obtain ⟨request, logs⟩ := a
  have hok : ∀ {an : Except String (List Log)} {logs}, an.toOption = some logs ↔ an = .ok logs := by
    rintro (e | logs) logs' <;> simp [Except.toOption]
  simp only [answered, mem_filterMap, Option.map_eq_some_iff, hok, Prod.mk.injEq]
  simp

theorem logStreamStep_mem (hf : self.LogsFit fromBlock toBlock) (filter : EthGetLogsFilter) :
    0 ≤ self.logStreamStep fromBlock toBlock filter ∧
      self.logStreamStep fromBlock toBlock filter ≤ toBlock - fromBlock := by
  obtain ⟨hm, hle, hl, he, he'⟩ := hf
  have hz : i32Min ≤ 0 := by
    unfold i32Min
    omega
  have hd : toBlock - fromBlock ≤ i32Max := by
    unfold i32Min at hm
    unfold i32Max at hl ⊢
    omega
  have hr : i32 (toBlock - fromBlock) = toBlock - fromBlock :=
    i32_of_mem (hz.trans (sub_nonneg.2 hle)) hd
  have hma : i32 (self.maxEventOnlyRange - 1) = self.maxEventOnlyRange - 1 :=
    i32_of_mem (hz.trans (by omega)) (by omega)
  unfold logStreamStep
  omega

def LogSeed (fromBlock toBlock : ℤ) (seed : ℤ × ℤ) : Prop :=
  fromBlock ≤ seed.1 ∧ seed.1 ≤ toBlock + 1 ∧ 0 ≤ seed.2 ∧ seed.2 ≤ toBlock - fromBlock

inductive Requests (self : EthereumAdapter) (toBlock : ℤ) (index : ℕ) (filter : EthGetLogsFilter)
    (start step stop : ℤ) : Prop
  | answered (logs : List Log)
      (hanswer : self.logsWithSigs (logsRequest toBlock index filter (start, step)) = .ok logs)
      (hturn : self.logStreamTurn toBlock index filter (start, step)
        = .ok (some (logs, stop + 1, step)))
  | tooHeavy (error : String)
      (hanswer : self.logsWithSigs (logsRequest toBlock index filter (start, step)) = .error error)
      (hmany : isTooManyLogs error = true) (hpos : 0 < step)
      (hturn : self.logStreamTurn toBlock index filter (start, step)
        = .ok (some ([], start, step / 10)))
  | failed (error : String)
      (hanswer : self.logsWithSigs (logsRequest toBlock index filter (start, step)) = .error error)
      (herror : isTooManyLogs error = false ∨ step = 0)
      (hturn : self.logStreamTurn toBlock index filter (start, step) = .err (.msg error))

theorem logStreamTurn_cases (hf : self.LogsFit fromBlock toBlock) {start step : ℤ}
    (hse : LogSeed fromBlock toBlock (start, step)) :
    (toBlock < start ∧ self.logStreamTurn toBlock index filter (start, step) = .ok none) ∨
    ∃ stop, start ≤ stop ∧ stop ≤ toBlock ∧
      (logsRequest toBlock index filter (start, step)).stop = stop ∧
      self.Requests toBlock index filter start step stop := by
  obtain ⟨hfr, -, hst, hra⟩ := hse
  obtain ⟨hmi, hle, hl, -⟩ := hf
  rcases lt_or_ge toBlock start with hd | hs
  · exact .inl ⟨hd, if_pos hd⟩
  · refine .inr ⟨min (start + step) toBlock, le_min (by omega) hs, min_le_right _ _, ?_⟩
    have hsu : i32 (start + step) = start + step := i32_of_mem (by omega) (by omega)
    have hn : i32 (min (start + step) toBlock + 1) = min (start + step) toBlock + 1 :=
      i32_of_mem (by omega) (by omega)
    have hr : logsRequest toBlock index filter (start, step)
        = ⟨index, start, min (start + step) toBlock, step, filter⟩ := by
      rw [logsRequest, hsu]
    refine ⟨by rw [hr], ?_⟩
    rcases e : self.logsWithSigs (logsRequest toBlock index filter (start, step)) with er | logs
    · have ht : self.logStreamTurn toBlock index filter (start, step)
          = if isTooManyLogs er ∧ step > 0 then .ok (some ([], start, step / 10))
            else .err (.msg er) := by
        rw [hr] at e
        rw [logStreamTurn, if_neg (not_lt.2 hs), hsu]
        dsimp only
        rw [e]
      by_cases hm : isTooManyLogs er = true ∧ 0 < step
      · exact .tooHeavy er e hm.1 hm.2 (ht.trans (if_pos hm))
      · refine .failed er e ?_ (ht.trans (if_neg hm))
        rcases not_and_or.mp hm with h | h
        · exact .inl (Bool.eq_false_iff.mpr h)
        · exact .inr (by omega)
    · refine .answered logs e ?_
      rw [hr] at e
      rw [logStreamTurn, if_neg (not_lt.2 hs), hsu]
      dsimp only
      rw [e, hn]

def StreamEnd (self : EthereumAdapter) (toBlock start : ℤ) (requests : List LogsRequest) :
    Outcome AnyError (List (List Log)) → Prop
  | .ok pieces =>
    ((self.answered requests).map fun a => (a.1.start, a.1.stop)).Tiles start toBlock ∧
      pieces.flatten = (self.answered requests).flatMap (·.2)
  | .err e => ∃ request ∈ requests, ∃ error, self.logsWithSigs request = .error error ∧
      e = .msg error ∧ (isTooManyLogs error = false ∨ request.step = 0)
  | .panic => False

variable {r : Outcome AnyError (List (List Log))}

theorem StreamEnd.answered {s stop : ℤ} (h : self.StreamEnd toBlock (stop + 1) requests r)
    (ha : self.logsWithSigs request = .ok logs) (hst : request.start = s) (hs : request.stop = stop)
    (hle : s ≤ stop) (hto : stop ≤ toBlock) :
    self.StreamEnd toBlock s (request :: requests) (do let ps ← r; return logs :: ps) := by
  rcases r with ps | e | -
  · obtain ⟨ht, hl⟩ := h
    show _ ∧ (logs :: ps).flatten = _
    rw [answered_cons_of_ok ha, flatten_cons, flatMap_cons, hl, map_cons]
    refine ⟨⟨hst, ?_, ?_, ?_⟩, rfl⟩
    · rwa [hs]
    · rwa [hs]
    · rwa [hs]
  · obtain ⟨r', hm, he⟩ := h
    exact ⟨r', mem_cons_of_mem _ hm, he⟩
  · exact h

theorem StreamEnd.tooHeavy {s : ℤ} {er : String} (h : self.StreamEnd toBlock s requests r)
    (ha : self.logsWithSigs request = .error er) :
    self.StreamEnd toBlock s (request :: requests) (do let ps ← r; return [] :: ps) := by
  rcases r with ps | e | -
  · show _ ∧ ([] :: ps).flatten = _
    rw [answered_cons_of_error ha, flatten_cons, nil_append]
    exact h
  · obtain ⟨r', hm, he⟩ := h
    exact ⟨r', mem_cons_of_mem _ hm, he⟩
  · exact h

theorem exists_logStream (hf : self.LogsFit fromBlock toBlock) (index : ℕ)
    (filter : EthGetLogsFilter) :
    ∃ seeds r, self.StreamEnd toBlock fromBlock (requestsOf toBlock index filter seeds) r ∧
      seeds.length ≤ 2 * (toBlock + 1 - fromBlock).toNat ∧
      ∀ fuel, seeds.length ≤ fuel →
        Outcome.tryUnfold (self.logStreamTurn toBlock index filter) fuel
          (fromBlock, self.logStreamStep fromBlock toBlock filter) = r ∧
        Outcome.unfoldSeeds (self.logStreamTurn toBlock index filter) fuel
          (fromBlock, self.logStreamStep fromBlock toBlock filter) = seeds := by
  obtain ⟨hste, hst'⟩ := logStreamStep_mem hf filter
  have hse : LogSeed fromBlock toBlock (fromBlock, self.logStreamStep fromBlock toBlock filter) :=
    ⟨le_rfl, by omega, hste, hst'⟩
  obtain ⟨seeds, r, hen, hl, hfu⟩ := Outcome.exists_unfold
    (f := self.logStreamTurn toBlock index filter) (I := LogSeed fromBlock toBlock)
    (μ := fun seed => (toBlock + 1 - seed.1).toNat + seed.2.toNat)
    (P := fun seed seeds r =>
      self.StreamEnd toBlock seed.1 (requestsOf toBlock index filter seeds) r)
    (by
      rintro ⟨start, step⟩ hse
      obtain ⟨hfr, hto, hs, hs'⟩ := id hse
      rcases logStreamTurn_cases hf hse with ⟨hen, ht⟩ | ⟨stop, hst, hsp, hsp', hc⟩
      · refine .inl ⟨ht, ?_⟩
        have hst : toBlock + 1 = start := by omega
        rw [requestsOf_cons_of_lt hen]
        exact ⟨hst.symm, rfl⟩
      · have hr : ∀ seeds, requestsOf toBlock index filter ((start, step) :: seeds)
            = logsRequest toBlock index filter (start, step)
              :: requestsOf toBlock index filter seeds :=
          requestsOf_cons_of_le (hst.trans hsp)
        rcases hc with ⟨logs, ha, ht⟩ | ⟨e, ha, -, hp, ht⟩ |
          ⟨e, ha, he, ht⟩
        · refine .inr (.inr ⟨_, _, ht, ⟨?_, ?_, hs, hs'⟩, ?_, fun hre => ?_⟩)
          · dsimp only
            omega
          · dsimp only
            omega
          · dsimp only
            omega
          · rw [hr]
            exact hre.answered ha rfl hsp' hst hsp
        · refine .inr (.inr ⟨_, _, ht, ⟨hfr, hto, ?_, ?_⟩, ?_, fun hre => ?_⟩)
          · dsimp only
            omega
          · dsimp only
            omega
          · dsimp only
            omega
          · rw [hr]
            exact hre.tooHeavy ha
        · refine .inr (.inl ⟨_, ht, ?_⟩)
          rw [hr]
          exact ⟨_, mem_cons_self, e, ha, rfl, he⟩) rfl hse
  refine ⟨seeds, r, hen, hl.trans ?_, hfu⟩
  omega

/-- **The log stream goes through the range** by finitely many requests. -/
theorem logStream_covers (hfit : self.LogsFit fromBlock toBlock) (index : ℕ)
    (filter : EthGetLogsFilter) :
    ∃ requests result,
      (∃ enough, ∀ fuel, enough ≤ fuel →
        self.logStream fuel fromBlock toBlock index filter = result ∧
        self.logStreamRequests fuel fromBlock toBlock index filter = requests) ∧
      result ≠ .panic ∧
      (∀ logs, result = .ok logs →
        (((self.answered requests).map fun a => (a.1.start, a.1.stop)).Tiles fromBlock toBlock ∧
          ∀ n, (self.answered requests).countP (fun a => a.1.start ≤ n ∧ n ≤ a.1.stop)
            = if fromBlock ≤ n ∧ n ≤ toBlock then 1 else 0) ∧
        logs = (self.answered requests).flatMap (·.2)) ∧
      ∀ e, result = .err e → ∃ request ∈ requests, ∃ error,
        self.logsWithSigs request = .error error ∧ e = .msg error ∧
        (isTooManyLogs error = false ∨ request.step = 0) := by
  obtain ⟨ss, result, he, -, hf⟩ := exists_logStream hfit index filter
  refine ⟨requestsOf toBlock index filter ss, do let ps ← result; return ps.flatten,
    ⟨ss.length, fun fuel hle => ?_⟩, ?_⟩
  · obtain ⟨hr, hs⟩ := hf fuel hle
    rw [logStream, if_neg (not_lt.2 hfit.le), logStreamRequests, hr, hs]
    exact ⟨rfl, rfl⟩
  · rcases result with ps | e | -
    · obtain ⟨ht, hl⟩ := he
      refine ⟨nofun, fun logs hok => ⟨⟨ht, fun n => ?_⟩, ?_⟩, nofun⟩
      · rw [← ht.countP_eq, countP_map]
        rfl
      · rw [← Outcome.ok.inj hok]
        exact hl
    · refine ⟨nofun, nofun, fun e' her => ?_⟩
      obtain rfl := Outcome.err.inj her
      exact he
    · exact he.elim

noncomputable def slowNode : EthereumAdapter where
  traceStreamStepSize := 50
  maxEventOnlyRange := 500
  logsWithSigs request :=
    if request.stop ≤ request.start + 1 then .ok [] else .error "503 Service Unavailable"
  traces _ := .ok []
  blockByNumber _ := .ok none
  blockWithTxs _ := .ok none
  completion := List.reverse
  completion_perm := List.reverse_perm
  addressOrder := .choose
  hashOrder := .choose
  debugBlock _ := ""

theorem logsFit_slowNode : slowNode.LogsFit 3 14 := by
  constructor <;> decide

example : (slowNode.logStreamRequests 9 3 14 0 ⟨[], []⟩).map (fun r => (r.start, r.stop))
    = [(3, 14), (3, 4), (5, 6), (7, 8), (9, 10), (11, 12), (13, 14)] := by
  decide +kernel

theorem logStream_covers_slowNode :
    ∃ requests result,
      (∃ enough, ∀ fuel, enough ≤ fuel → slowNode.logStream fuel 3 14 0 ⟨[], []⟩ = result ∧
        slowNode.logStreamRequests fuel 3 14 0 ⟨[], []⟩ = requests) ∧
      result ≠ .panic := by
  obtain ⟨requests, result, he, hp, -⟩ := logStream_covers logsFit_slowNode 0 ⟨[], []⟩
  exact ⟨requests, result, he, hp⟩

end EthereumAdapter

end Massbit
