/-
`PollingBlockStream`: scan the chain for triggers, range by range.
-/
import Massbit.Lib.PollLoop
import Massbit.Store.Interface

open List

namespace Massbit

def i32Max : ℤ := 2 ^ 31 - 1

def i32Min : ℤ := -2 ^ 31

def i32 (x : ℤ) : ℤ := x.bmod (2 ^ 32)

theorem i32_of_mem {x : ℤ} (hm : i32Min ≤ x) (hma : x ≤ i32Max) : i32 x = x := by
  unfold i32Min at hm
  unfold i32Max at hma
  exact Int.bmod_eq_of_le (by omega) (by omega)

class F64 (F : Type) where
  ofInt : ℤ → F
  div : F → F → F
  max : F → F → F
  min : F → F → F
  isZero : F → Bool
  toI32 : F → ℤ
  le : F → F → Prop
  ofInt_le : ∀ {m n : ℤ}, m ≤ n → le (ofInt m) (ofInt n)
  le_max : ∀ x n, le (ofInt n) (max x (ofInt n))
  le_min : ∀ {x y z}, le x y → le x z → le x (min y z)
  toI32_le : ∀ {x y}, le x y → toI32 x ≤ toI32 y
  toI32_ofInt : ∀ {n : ℤ}, i32Min ≤ n → n ≤ i32Max → toI32 (ofInt n) = n

structure BlockWithTriggers (B T : Type) where
  block : B
  triggerData : List T
  deriving DecidableEq

def BlockWithTriggers.triggerCount {B T : Type} (self : BlockWithTriggers B T) : ℕ :=
  self.triggerData.length

structure BlockStreamContext (F : Type) where
  streamPtr : ℤ
  previousTriggersPerBlock : F
  previousBlockRangeSize : ℤ
  maxBlockRangeSize : ℤ
  targetTriggersPerBlockRange : ℕ

namespace BlockStreamContext

variable {F : Type} [F64 F] (self : BlockStreamContext F)

def fromBlock : ℤ := i32 (self.streamPtr + 1)

def rangeSizeUpperLimit : ℤ :=
  min self.maxBlockRangeSize (i32 (self.previousBlockRangeSize * 10))

def rangeSize : ℤ :=
  if F64.isZero self.previousTriggersPerBlock then self.rangeSizeUpperLimit
  else F64.toI32 (F64.min
    (F64.max (F64.div (F64.ofInt self.targetTriggersPerBlockRange) self.previousTriggersPerBlock)
      (F64.ofInt 1))
    (F64.ofInt self.rangeSizeUpperLimit))

def toBlock : ℤ := i32 (i32 (self.fromBlock + self.rangeSize) - 1)

end BlockStreamContext

inductive PollingEvent (B T E : Type) where
  | request (fromBlock toBlock : ℤ)
  | answered (fromBlock toBlock : ℤ) (blocks : List (BlockWithTriggers B T))
  | failed (fromBlock toBlock : ℤ) (e : E)
  | yielded (block : BlockWithTriggers B T)
  | repolled

/-- What a call of `poll_next` ends with. -/
inductive PollingResult (B T E : Type) where
  | pending
  | block (block : BlockWithTriggers B T)
  | error (e : E)
  | panicked

inductive NextBlocksFuture (F : Type) where
  | created (ctx : BlockStreamContext F)
  | scanning (fromBlock toBlock rangeSize : ℤ)
  | completed

inductive BlockStreamState (F B T : Type) where
  | beginReconciliation
  | reconciliation (future : NextBlocksFuture F)
  | yieldingBlocks (nextBlocks : List (BlockWithTriggers B T))

structure PollingBlockStream (F B T : Type) where
  state : BlockStreamState F B T
  ctx : BlockStreamContext F

section

variable {F B T E : Type} [F64 F]

abbrev ScanAnswer (B T E : Type) := Poll (Except E (List (BlockWithTriggers B T)))

namespace NextBlocksFuture

def pollScan (fromBlock toBlock rangeSize : ℤ) : ScanAnswer B T E →
    NextBlocksFuture F × List (PollingEvent B T E) ×
      Poll (Except E (List (BlockWithTriggers B T) × ℤ))
  | .pending => (.scanning fromBlock toBlock rangeSize, [], .pending)
  | .ready (.error e) => (.completed, [.failed fromBlock toBlock e], .ready (.error e))
  | .ready (.ok blocks) =>
    (.completed, [.answered fromBlock toBlock blocks], .ready (.ok (blocks, rangeSize)))

def poll (self : NextBlocksFuture F) (answer : ScanAnswer B T E) :
    NextBlocksFuture F × List (PollingEvent B T E) ×
      Option (Poll (Except E (List (BlockWithTriggers B T) × ℤ))) :=
  match self with
  | created ctx =>
    let r := pollScan ctx.fromBlock ctx.toBlock ctx.rangeSize answer
    (r.1, .request ctx.fromBlock ctx.toBlock :: r.2.1, some r.2.2)
  | scanning fromBlock toBlock rangeSize =>
    let r := pollScan fromBlock toBlock rangeSize answer
    (r.1, r.2.1, some r.2.2)
  -- a future resumed after completion
  | completed => (.completed, [.repolled], none)

end NextBlocksFuture

namespace PollingBlockStream

def new (streamPtr maxBlockRangeSize : ℤ) (targetTriggersPerBlockRange : ℕ) :
    PollingBlockStream F B T where
  state := .beginReconciliation
  ctx :=
    { streamPtr
      -- a high number here forces a slow start, with a range of 1
      previousTriggersPerBlock := F64.ofInt 1000000
      previousBlockRangeSize := 1
      maxBlockRangeSize
      targetTriggersPerBlockRange }

def scanned (ctx : BlockStreamContext F) (nextBlocks : List (BlockWithTriggers B T))
    (blockRangeSize : ℤ) : BlockStreamContext F :=
  let totalTriggers := (nextBlocks.map BlockWithTriggers.triggerCount).sum
  { ctx with
    previousTriggersPerBlock := F64.div (F64.ofInt totalTriggers) (F64.ofInt blockRangeSize)
    previousBlockRangeSize := blockRangeSize
    streamPtr := i32 (ctx.streamPtr + blockRangeSize) }

def turn (self : PollingBlockStream F B T) (answer : ScanAnswer B T E) :
    Turn (PollingBlockStream F B T) (PollingEvent B T E) (PollingResult B T E) :=
  match self.state with
  | .beginReconciliation =>
    -- start the reconciliation process by asking for blocks
    ⟨{ self with state := .reconciliation (.created self.ctx) }, [], none⟩
  | .reconciliation future =>
    match future.poll answer with
    | (_, events, some (.ready (.ok (nextBlocks, blockRangeSize)))) =>
      -- switch to yielding state until the blocks are depleted
      ⟨⟨.yieldingBlocks nextBlocks, scanned self.ctx nextBlocks blockRangeSize⟩, events, none⟩
    | (future, events, some .pending) =>
      ⟨{ self with state := .reconciliation future }, events, some .pending⟩
    | (future, events, some (.ready (.error e))) =>
      -- the state keeps the future
      ⟨{ self with state := .reconciliation future }, events, some (.error e)⟩
    | (future, events, none) =>
      ⟨{ self with state := .reconciliation future }, events, some .panicked⟩
  | .yieldingBlocks (nextBlock :: nextBlocks) =>
    ⟨{ self with state := .yieldingBlocks nextBlocks }, [.yielded nextBlock],
      some (.block nextBlock)⟩
  | .yieldingBlocks [] =>
    -- done yielding blocks
    ⟨{ self with state := .beginReconciliation }, [], none⟩

end PollingBlockStream

end

structure Monitor (B T : Type) where
  next : ℤ
  retry : Option ℤ
  owed : List (BlockWithTriggers B T)

namespace Monitor

variable {B T E : Type} [DecidableEq B] [DecidableEq T]

def step (m : Monitor B T) : PollingEvent B T E → Option (Monitor B T)
  -- blocks are handed out before more are asked for, and a failed scan is repeated
  | .request fromBlock _ =>
    if m.owed = [] ∧ m.retry.all (· = fromBlock) then some { m with retry := none } else none
  -- answered ranges are not empty and follow one another
  | .answered fromBlock toBlock blocks =>
    if fromBlock = m.next ∧ fromBlock ≤ toBlock then
      some { m with next := toBlock + 1, owed := m.owed ++ blocks }
    else none
  | .failed fromBlock _ _ => some { m with retry := some fromBlock }
  | .yielded block =>
    if m.owed.head? = some block then some { m with owed := m.owed.tail } else none
  | .repolled => none

def run (p : ℤ) (events : List (PollingEvent B T E)) : Option (Monitor B T) :=
  events.foldlM step ⟨p + 1, none, []⟩

theorem run_append (p : ℤ) (es es' : List (PollingEvent B T E)) :
    run p (es ++ es') = (run p es).bind fun m => es'.foldlM step m :=
  foldlM_append

end Monitor

/-- The monitor accepts the events of a stream that starts after block `p`. -/
def Accepts {B T E : Type} [DecidableEq B] [DecidableEq T] (p : ℤ)
    (events : List (PollingEvent B T E)) : Prop :=
  (Monitor.run p events).isSome

instance {B T E : Type} [DecidableEq B] [DecidableEq T] (p : ℤ)
    (events : List (PollingEvent B T E)) : Decidable (Accepts p events) :=
  inferInstanceAs (Decidable (_ = true))

namespace BlockStreamContext

variable {F : Type} [F64 F] {ctx : BlockStreamContext F}

/-- Requests are within the block numbers, and there is something to request. -/
structure Ok (ctx : BlockStreamContext F) : Prop where
  ptr_min : i32Min ≤ ctx.streamPtr
  max_pos : 1 ≤ ctx.maxBlockRangeSize
  previous_pos : 1 ≤ ctx.previousBlockRangeSize

/-- The arithmetic of the next request does not leave `i32`. -/
def NoOverflow (ctx : BlockStreamContext F) : Prop :=
  ctx.previousBlockRangeSize * 10 ≤ i32Max ∧ ctx.streamPtr + 1 + ctx.rangeSize ≤ i32Max

theorem rangeSize_pos (h : ctx.Ok) (ho : ctx.NoOverflow) : 1 ≤ ctx.rangeSize := by
  have hpr : (1 : ℤ) ≤ ctx.previousBlockRangeSize := h.previous_pos
  have hp : 1 ≤ ctx.rangeSizeUpperLimit := by
    have hm : i32Min ≤ ctx.previousBlockRangeSize * 10 := by
      unfold i32Min
      omega
    rw [rangeSizeUpperLimit, i32_of_mem hm ho.1]
    refine le_min h.max_pos ?_
    omega
  unfold rangeSize
  split
  · exact hp
  · -- the quotient is first raised to one, and the limit is at least one
    have hon : F64.toI32 (F64.ofInt 1 : F) = 1 := F64.toI32_ofInt (by decide) (by decide)
    have hle := F64.toI32_le (F64.le_min (F64.le_max
      (F64.div (F64.ofInt ctx.targetTriggersPerBlockRange) ctx.previousTriggersPerBlock) 1)
      (F64.ofInt_le hp))
    rwa [hon] at hle

theorem request_eq (h : ctx.Ok) (ho : ctx.NoOverflow) :
    ctx.fromBlock = ctx.streamPtr + 1 ∧ ctx.toBlock = ctx.streamPtr + ctx.rangeSize := by
  have hp : (1 : ℤ) ≤ ctx.rangeSize := rangeSize_pos h ho
  have hmi : -2 ^ 31 ≤ (ctx.streamPtr : ℤ) := h.ptr_min
  have hm : (ctx.streamPtr + 1 + ctx.rangeSize : ℤ) ≤ 2 ^ 31 - 1 := ho.2
  have hid {x : ℤ} (h₁ : -2 ^ 31 ≤ x) (h₂ : x ≤ 2 ^ 31 - 1) : i32 x = x := i32_of_mem h₁ h₂
  have hf : ctx.fromBlock = ctx.streamPtr + 1 := hid (by omega) (by omega)
  have hs : i32 (ctx.streamPtr + 1 + ctx.rangeSize) = ctx.streamPtr + 1 + ctx.rangeSize :=
    hid (by omega) hm
  refine ⟨hf, ?_⟩
  rw [toBlock, hf, hs, hid (by omega) (by omega)]
  omega

end BlockStreamContext

namespace PollingBlockStream

variable {F B T E : Type} [F64 F] [DecidableEq B] [DecidableEq T]

structure Scans (ctx : BlockStreamContext F) (fromBlock toBlock rangeSize : ℤ) :
    Prop where
  from_eq : fromBlock = ctx.streamPtr + 1
  to_eq : toBlock = ctx.streamPtr + rangeSize
  pos : 1 ≤ rangeSize
  to_le : toBlock ≤ i32Max

def Follows (self : PollingBlockStream F B T) (m : Monitor B T) : Prop :=
  m.next = self.ctx.streamPtr + 1 ∧ m.retry = none ∧
    match self.state with
    | .beginReconciliation => m.owed = []
    | .reconciliation (.created ctx) => m.owed = [] ∧ ctx = self.ctx
    | .reconciliation (.scanning fromBlock toBlock rangeSize) =>
      m.owed = [] ∧ Scans self.ctx fromBlock toBlock rangeSize
    | .reconciliation .completed => False
    | .yieldingBlocks nextBlocks => m.owed = nextBlocks

/-- The requests of the turn stay within the block numbers. -/
def NoOverflow (self : PollingBlockStream F B T) : Prop :=
  ∀ ctx, self.state = .reconciliation (.created ctx) → ctx.NoOverflow

end PollingBlockStream

def PollingResult.isError {B T E : Type} : PollingResult B T E → Bool
  | .error _ => true
  | .pending | .block _ | .panicked => false

namespace PollingBlockStream

variable {F B T E : Type} [F64 F] [DecidableEq B] [DecidableEq T]

def Phase (p : ℤ) (self : PollingBlockStream F B T) (es : List (PollingEvent B T E))
    (rs : List (PollingResult B T E)) : Prop :=
  (∃ m, Monitor.run p es = some m ∧ self.Follows m ∧ ∀ r ∈ rs, r.isError = false) ∨
  (self.state = .reconciliation .completed ∧ Accepts p es ∧
    (∀ r ∈ rs.dropLast, r.isError = false) ∧ ∃ r ∈ rs, r.isError = true) ∨
  (self.state = .reconciliation .completed ∧ ¬ Accepts p es ∧ ∃ r ∈ rs.dropLast, r.isError = true)

variable {p : ℤ} {self : PollingBlockStream F B T} {es : List (PollingEvent B T E)}
  {rs : List (PollingResult B T E)} {m : Monitor B T}

theorem phase_pollScan (asked : List (PollingEvent B T E)) {fb tb rangeSize : ℤ} (hok : self.ctx.Ok)
    (hsc : Scans self.ctx fb tb rangeSize) {f : NextBlocksFuture F}
    (hs : self.state = .reconciliation f) {a : ScanAnswer B T E} (hp : f.poll a
      = ((NextBlocksFuture.pollScan (F := F) fb tb rangeSize a).1,
        asked ++ (NextBlocksFuture.pollScan (F := F) fb tb rangeSize a).2.1,
        some (NextBlocksFuture.pollScan (F := F) fb tb rangeSize a).2.2))
    (hr : Monitor.run p (es ++ asked) = some ⟨self.ctx.streamPtr + 1, none, []⟩)
    (hrs : ∀ r ∈ rs, r.isError = false) :
    (self.turn a).state.ctx.Ok ∧ Phase p (self.turn a).state
      (es ++ (self.turn a).events) (rs ++ (self.turn a).result.toList) := by
  have hmi : -2 ^ 31 ≤ self.ctx.streamPtr := hok.ptr_min
  obtain ⟨rfl, rfl, hpo, hm⟩ := hsc
  rw [turn, hs]
  dsimp only
  rw [hp]
  rcases a with - | (e | bs)
  · -- the scan is pending
    refine ⟨hok, .inl ⟨⟨self.ctx.streamPtr + 1, none, []⟩, ?_,
      ⟨rfl, rfl, rfl, rfl, rfl, hpo, hm⟩, ?_⟩⟩
    · simpa [NextBlocksFuture.pollScan] using hr
    · simpa [NextBlocksFuture.pollScan, PollingResult.isError, or_imp, forall_and] using hrs
  · -- the scan failed
    refine ⟨hok, .inr (.inl ⟨rfl, ?_, ?_, ?_⟩)⟩
    · show (Monitor.run p (es ++ (asked ++ [_]))).isSome
      rw [← append_assoc, Monitor.run_append, hr]
      rfl
    · show ∀ r ∈ (rs ++ [PollingResult.error e]).dropLast, r.isError = false
      rw [dropLast_concat]
      exact hrs
    · exact ⟨.error e, by simp [NextBlocksFuture.pollScan], rfl⟩
  · -- the scan found blocks
    have hpt : i32 (self.ctx.streamPtr + rangeSize) = self.ctx.streamPtr + rangeSize :=
      i32_of_mem (by unfold i32Min; omega) hm
    refine ⟨⟨?_, hok.max_pos, hpo⟩, .inl ⟨⟨self.ctx.streamPtr + rangeSize + 1, none, bs⟩,
      ?_, ⟨?_, rfl, rfl⟩, ?_⟩⟩
    · show i32Min ≤ i32 (self.ctx.streamPtr + rangeSize)
      unfold i32Min
      omega
    · show Monitor.run p (es ++ (asked ++ [_])) = _
      rw [← append_assoc, Monitor.run_append, hr]
      have hle : self.ctx.streamPtr + 1 ≤ self.ctx.streamPtr + rangeSize := by omega
      simp [Monitor.step, hle]
    · show self.ctx.streamPtr + rangeSize + 1 = i32 (self.ctx.streamPtr + rangeSize) + 1
      rw [hpt]
    · simpa [NextBlocksFuture.pollScan] using hrs

theorem phase_repolled (p : ℤ) (es : List (PollingEvent B T E))
    (hs : self.state = .reconciliation .completed)
    (he : ∃ r ∈ rs, r.isError = true) (a : ScanAnswer B T E) :
    (self.turn a).state = self ∧ Phase p (self.turn a).state
      (es ++ (self.turn a).events) (rs ++ (self.turn a).result.toList) := by
  obtain ⟨s, ctx⟩ := self
  obtain rfl : s = .reconciliation .completed := hs
  refine ⟨rfl, .inr (.inr ⟨rfl, ?_, ?_⟩)⟩
  · show ¬ (Monitor.run p (es ++ [.repolled])).isSome
    rw [Monitor.run_append]
    rcases Monitor.run p es with - | m
    · exact Bool.false_ne_true
    · exact Bool.false_ne_true
  · show ∃ r ∈ (rs ++ [PollingResult.panicked]).dropLast, r.isError = true
    rw [dropLast_concat]
    exact he

theorem phase_turn (hok : self.ctx.Ok) (h : Phase p self es rs) (ho : self.NoOverflow)
    (a : ScanAnswer B T E) :
    (self.turn a).state.ctx.Ok ∧ Phase p (self.turn a).state
      (es ++ (self.turn a).events) (rs ++ (self.turn a).result.toList) := by
  rcases h with ⟨⟨next, re, owed⟩, hru, ⟨hn, hre, hf⟩, hrs⟩ | h | h
  · obtain rfl : next = _ := hn
    obtain rfl : re = none := hre
    obtain ⟨s, ctx⟩ := self
    cases s with
    | beginReconciliation =>
      obtain rfl : owed = [] := hf
      refine ⟨hok, .inl ⟨⟨ctx.streamPtr + 1, none, []⟩, ?_, ⟨rfl, rfl, rfl, rfl⟩, ?_⟩⟩
      · simpa [turn] using hru
      · simpa [turn] using hrs
    | reconciliation f =>
      cases f with
      | created ctx' =>
        obtain ⟨rfl, rfl⟩ : owed = [] ∧ ctx' = ctx := hf
        have hno := ho ctx' rfl
        have hc : ctx'.Ok := hok
        obtain ⟨hfr, hto⟩ := BlockStreamContext.request_eq hc hno
        have hm : ctx'.toBlock ≤ i32Max := by
          have hl := hno.2
          omega
        refine phase_pollScan [.request ctx'.fromBlock ctx'.toBlock] hok
          ⟨hfr, hto, BlockStreamContext.rangeSize_pos hc hno, hm⟩ rfl rfl ?_ hrs
        rw [Monitor.run_append, hru]
        rfl
      | scanning fromBlock toBlock rangeSize =>
        obtain ⟨rfl, hsc⟩ : owed = [] ∧ Scans ctx fromBlock toBlock rangeSize := hf
        refine phase_pollScan [] hok hsc rfl rfl ?_ hrs
        rw [append_nil]
        exact hru
      | completed => exact hf.elim
    | yieldingBlocks nextBlocks =>
      obtain rfl : owed = nextBlocks := hf
      cases owed with
      | nil =>
        refine ⟨hok, .inl ⟨⟨ctx.streamPtr + 1, none, []⟩, ?_, ⟨rfl, rfl, rfl⟩, ?_⟩⟩
        · simpa [turn] using hru
        · simpa [turn] using hrs
      | cons nb nextBlocks =>
        refine ⟨hok, .inl ⟨⟨ctx.streamPtr + 1, none, nextBlocks⟩, ?_, ⟨rfl, rfl, rfl⟩, ?_⟩⟩
        · show Monitor.run p (es ++ [_]) = _
          rw [Monitor.run_append, hru]
          simp [Monitor.step]
        · simpa [turn, PollingResult.isError, or_imp, forall_and] using hrs
  · -- the last call returned an error, and the future is polled again
    obtain ⟨hs, -, -, he⟩ := h
    obtain ⟨hsa, hp⟩ := phase_repolled p es hs he a
    refine ⟨?_, hp⟩
    rw [hsa]
    exact hok
  · obtain ⟨hs, -, r, hr, he⟩ := h
    obtain ⟨hsa, hp⟩ := phase_repolled p es hs ⟨r, mem_of_mem_dropLast hr, he⟩ a
    refine ⟨?_, hp⟩
    rw [hsa]
    exact hok

/-- **When the stream keeps its contract.** As long as block numbers do not overflow, the answered
ranges follow one another from the start block on, failed scans are repeated, blocks are handed out
once and in order and no finished future is polled, if and only if no call comes after one that
returned an error. -/
theorem accepts_iff_no_poll_after_error (hp : i32Min ≤ p) {maxBlockRangeSize : ℤ}
    (hmax : 1 ≤ maxBlockRangeSize) {targetTriggersPerBlockRange : ℕ}
    {answers : List (ScanAnswer B T E)}
    {s : Polled (PollingBlockStream F B T) (PollingEvent B T E) (PollingResult B T E)}
    (hrun : Run (Polled.step turn) (fun s _ => s.state.NoOverflow)
      (.start (new p maxBlockRangeSize targetTriggersPerBlockRange)) answers s) :
    Accepts p s.events ↔ ∀ r ∈ s.results.dropLast, r.isError = false := by
  have hph : s.state.ctx.Ok ∧ Phase p s.state s.events s.results := by
    refine Polled.invariant (I := fun s es rs => s.ctx.Ok ∧ Phase p s es rs) hrun ?_ ?_
    · exact ⟨⟨hp, hmax, le_refl 1⟩, .inl ⟨⟨p + 1, none, []⟩, rfl, ⟨rfl, rfl, rfl⟩, nofun⟩⟩
    · intro s es rs a hI ho
      exact phase_turn hI.1 hI.2 ho a
  rcases hph.2 with ⟨m, hm, -, hrs⟩ | ⟨-, ha, hrs, -⟩ | ⟨-, hre, r, hr, he⟩
  · refine iff_of_true ?_ fun r hr => hrs r (mem_of_mem_dropLast hr)
    rw [Accepts, hm]
    rfl
  · exact iff_of_true ha hrs
  · refine iff_of_false hre fun h => ?_
    rw [h r hr] at he
    cases he

section Example

local instance : F64 ℚ where
  ofInt n := n
  div := (· / ·)
  max := max
  min := min
  isZero x := x = 0
  toI32 := Rat.floor
  le := (· ≤ ·)
  ofInt_le h := Int.cast_le.2 h
  le_max x n := le_max_right x n
  le_min := le_min
  toI32_le h := Rat.floor_monotone h
  toI32_ofInt _ _ := Rat.floor_intCast _

abbrev firstStream : PollingBlockStream ℚ ℕ Unit := new 0 10 100

theorem rangeSize_firstStream : firstStream.ctx.rangeSize = 1 := by
  have hl : firstStream.ctx.rangeSizeUpperLimit = 10 := by decide
  have hq : max (((100 : ℕ) : ℤ) / ((1000000 : ℤ) : ℚ)) ((1 : ℤ) : ℚ) = ((1 : ℤ) : ℚ) :=
    max_eq_right (by norm_num)
  show (if decide (((1000000 : ℤ) : ℚ) = 0) = true then firstStream.ctx.rangeSizeUpperLimit
    else Rat.floor (min (max (((100 : ℕ) : ℤ) / ((1000000 : ℤ) : ℚ)) ((1 : ℤ) : ℚ))
      (firstStream.ctx.rangeSizeUpperLimit : ℚ))) = 1
  rw [if_neg (by simp), hq, hl, min_eq_left (by norm_num), Rat.floor_intCast]

theorem request_firstStream : firstStream.ctx.fromBlock = 1 ∧ firstStream.ctx.toBlock = 1 := by
  refine ⟨by decide, ?_⟩
  rw [BlockStreamContext.toBlock, rangeSize_firstStream]
  decide

theorem noOverflow_firstStream :
    (⟨.reconciliation (.created firstStream.ctx), firstStream.ctx⟩ :
      PollingBlockStream ℚ ℕ Unit).NoOverflow := by
  intro ctx h
  obtain rfl : firstStream.ctx = ctx := by
    injection h with h
    injection h
  refine ⟨by decide, ?_⟩
  rw [rangeSize_firstStream]
  decide

theorem poll_after_error_repolls :
    ∃ s : Polled (PollingBlockStream ℚ ℕ Unit) (PollingEvent ℕ Unit String)
        (PollingResult ℕ Unit String),
      Run (Polled.step turn) (fun s _ => s.state.NoOverflow) (.start firstStream)
        [.pending, .ready (.error "timeout"), .pending] s ∧
      s.events = [.request 1 1, .failed 1 1 "timeout", .repolled] ∧
      s.results = [.error "timeout", .panicked] ∧ ¬ Accepts 0 s.events := by
  have he : [PollingEvent.request firstStream.ctx.fromBlock firstStream.ctx.toBlock,
      .failed firstStream.ctx.fromBlock firstStream.ctx.toBlock "timeout", .repolled]
      = ([.request 1 1, .failed 1 1 "timeout", .repolled] : List (PollingEvent ℕ Unit String)) := by
    rw [request_firstStream.1, request_firstStream.2]
  obtain ⟨s, hru, hs, hr⟩ : ∃ s : Polled (PollingBlockStream ℚ ℕ Unit)
      (PollingEvent ℕ Unit String) (PollingResult ℕ Unit String),
      Run (Polled.step turn) (fun s _ => s.state.NoOverflow) (.start firstStream)
        [.pending, .ready (.error "timeout"), .pending] s ∧
      s.events = [.request 1 1, .failed 1 1 "timeout", .repolled] ∧
      s.results = [.error "timeout", .panicked] := by
    exact ⟨_, .cons nofun rfl (.cons noOverflow_firstStream rfl (.cons nofun rfl (.nil _))),
      he, rfl⟩
  refine ⟨s, hru, hs, hr, ?_⟩
  rw [hs]
  decide

theorem accepts_firstStream :
    ∃ s : Polled (PollingBlockStream ℚ ℕ Unit) (PollingEvent ℕ Unit String)
        (PollingResult ℕ Unit String),
      Run (Polled.step turn) (fun s _ => s.state.NoOverflow) (.start firstStream)
        [.pending, .ready (.ok [⟨1, [()]⟩]), .pending] s ∧
      s.results = [.block ⟨1, [()]⟩] ∧ Accepts 0 s.events := by
  obtain ⟨s, hru, hr⟩ : ∃ s : Polled (PollingBlockStream ℚ ℕ Unit)
      (PollingEvent ℕ Unit String) (PollingResult ℕ Unit String),
      Run (Polled.step turn) (fun s _ => s.state.NoOverflow) (.start firstStream)
        [.pending, .ready (.ok [⟨1, [()]⟩]), .pending] s ∧ s.results = [.block ⟨1, [()]⟩] := by
    exact ⟨_, .cons nofun rfl (.cons noOverflow_firstStream rfl (.cons nofun rfl (.nil _))), rfl⟩
  refine ⟨s, hru, hr, ?_⟩
  refine (accepts_iff_no_poll_after_error (by decide) (by decide) hru).2 ?_
  rw [hr]
  exact nofun

end Example

end PollingBlockStream

end Massbit
