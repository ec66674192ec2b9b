/-
The daily figures of Solana blocks (`stat_block.rs`).
-/
import Massbit.Lib.Outcome
import Massbit.Lib.MapLoop
import Mathlib.Algebra.BigOperators.Group.List.Basic
import Mathlib.Algebra.Order.Ring.Int
import Mathlib.Order.Bounds.Basic

open List Outcome

namespace Massbit.Analytics.StatBlock

inductive RewardType where
  | fee
  | rent
  | staking
  | voting
  deriving DecidableEq

structure Reward where
  lamports : ℤ
  rewardType : Option RewardType

structure TransactionMeta where
  status : Except String Unit
  fee : ℕ

structure SlotBlock where
  blockSlot : ℕ
  blockTime : Option ℤ
  rewards : List Reward
  transactions : List (Option TransactionMeta)

def asU64 (n : ℤ) : ℤ := n % 2 ^ 64

namespace SlotBlock

variable (self : SlotBlock)

def time : ℤ := self.blockTime.elim 0 asU64

def date : ℤ := self.time / 86400 * 86400

def reward : ℤ :=
  ((self.rewards.find? fun reward => reward.rewardType = some .fee).map fun reward =>
    asU64 reward.lamports).getD 0

def fees : List ℕ := self.transactions.filterMap fun tran => tran.bind fun tranMeta =>
  match tranMeta.status with
  | .ok _ => some tranMeta.fee
  | .error _ => none

end SlotBlock

/-- A row of `solana_daily_stat_blocks`, without its key. -/
structure Row where
  minBlockSlot : ℤ
  maxBlockSlot : ℤ
  blockCounter : ℤ
  totalTx : ℤ
  successTx : ℤ
  totalReward : ℤ
  totalFee : ℤ
  averageBlockTime : ℤ
  fistBlockTime : ℤ
  lastBlockTime : ℤ
  deriving DecidableEq

attribute [ext] Row

/-- Overflow is a panic, as in a debug build; nothing is returned then. -/
def addFees (fees : List ℕ) : Outcome String ℕ :=
  fees.foldlM (fun a b => if a + b < 2 ^ 64 then .ok (a + b) else .panic) 0

def createStatBlockEntity (block : SlotBlock) : Outcome String Row := do
  let totalFee ← addFees block.fees
  return { minBlockSlot := block.blockSlot
           maxBlockSlot := block.blockSlot
           blockCounter := 1
           totalTx := block.transactions.length
           successTx := block.fees.length
           totalReward := block.reward
           totalFee := totalFee
           averageBlockTime := 0
           fistBlockTime := block.time
           lastBlockTime := block.time }

def Row.merge (t excluded : Row) : Row where
  minBlockSlot := min t.minBlockSlot excluded.minBlockSlot
  maxBlockSlot := max t.maxBlockSlot excluded.maxBlockSlot
  blockCounter := t.blockCounter + excluded.blockCounter
  totalTx := t.totalTx + excluded.totalTx
  successTx := t.successTx + excluded.successTx
  totalReward := t.totalReward + excluded.totalReward
  totalFee := t.totalFee + excluded.totalFee
  fistBlockTime := min t.fistBlockTime excluded.fistBlockTime
  lastBlockTime := max t.lastBlockTime excluded.lastBlockTime
  averageBlockTime := ((max t.lastBlockTime excluded.lastBlockTime
      - min t.fistBlockTime excluded.fistBlockTime) * 1000).tdiv
    (max t.maxBlockSlot excluded.maxBlockSlot - min t.minBlockSlot excluded.minBlockSlot + 1)

def Row.values (row : Row) : List ℤ :=
  [row.minBlockSlot, row.maxBlockSlot, row.blockCounter, row.totalTx, row.successTx, row.totalReward,
    row.totalFee, row.averageBlockTime, row.fistBlockTime, row.lastBlockTime]

def checkRange (row : Row) : Outcome String Row :=
  if ∀ value ∈ row.values, -2 ^ 63 ≤ value ∧ value < 2 ^ 63 then .ok row
  else .err "bigint out of range"

def handleBlock (rows : HashMap ℤ Row) (block : SlotBlock) : Outcome String (HashMap ℤ Row) := do
  let entity ← createStatBlockEntity block
  let entity ← checkRange entity
  match rows.lookup block.date with
  | none => return rows.insert block.date entity
  | some t =>
    let row ← checkRange (t.merge entity)
    return rows.insert block.date row

def handleBlocks (blocks : List SlotBlock) : Outcome String (HashMap ℤ Row) :=
  blocks.foldlM handleBlock ∅

/-- The row has the figures of the blocks. -/
structure IsDayRow (blocks : List SlotBlock) (row : Row) : Prop where
  minBlockSlot : IsLeast {slot | ∃ block ∈ blocks, (block.blockSlot : ℤ) = slot} row.minBlockSlot
  maxBlockSlot : IsGreatest {slot | ∃ block ∈ blocks, (block.blockSlot : ℤ) = slot} row.maxBlockSlot
  blockCounter : row.blockCounter = blocks.length
  totalTx : row.totalTx = (blocks.map fun block => block.transactions.length).sum
  successTx : row.successTx = (blocks.map fun block => block.fees.length).sum
  totalReward : row.totalReward = (blocks.map SlotBlock.reward).sum
  totalFee : row.totalFee = (blocks.map fun block => block.fees.sum).sum
  fistBlockTime : IsLeast {time | ∃ block ∈ blocks, block.time = time} row.fistBlockTime
  lastBlockTime : IsGreatest {time | ∃ block ∈ blocks, block.time = time} row.lastBlockTime
  averageBlockTime : row.averageBlockTime = if blocks.length < 2 then 0 else
    ((row.lastBlockTime - row.fistBlockTime) * 1000).tdiv (row.maxBlockSlot - row.minBlockSlot + 1)

variable {blocks blocks' : List SlotBlock} {b : SlotBlock} {row row' entity : Row}

theorem addFees_eq {fees : List ℕ} {total : ℕ} (h : addFees fees = .ok total) : fees.sum = total := by
  refine foldlM_invariant (I := fun fees total => fees.sum = total) h rfl ?_
  intro fees total fee t' _ hsu hs
  split_ifs at hs
  grind

theorem isDayRow_singleton (h : createStatBlockEntity b = .ok entity) :
    IsDayRow [b] entity := by
  obtain ⟨totalFee, hf, rfl⟩ := bind_pure_eq_ok.1 h
  constructor
  case totalFee => simp [addFees_eq hf]
  all_goals simp [isLeast_singleton, isGreatest_singleton]

namespace IsDayRow

theorem ne_nil (h : IsDayRow blocks row) : blocks ≠ [] := by
  obtain ⟨_, hb, -⟩ := h.minBlockSlot.1
  exact ne_nil_of_mem hb

theorem merge (h : IsDayRow blocks row) (h' : IsDayRow blocks' row') :
    IsDayRow (blocks ++ blocks') (row.merge row') := by
  have hu : ∀ f : SlotBlock → ℤ, {x | ∃ b ∈ blocks ++ blocks', f b = x} =
      {x | ∃ b ∈ blocks, f b = x} ∪ {x | ∃ b ∈ blocks', f b = x} := by
    intro f
    ext x
    simp only [mem_append, Set.mem_ofPred_eq, Set.mem_union]
    grind
  have hl : ¬(blocks ++ blocks').length < 2 := by
    have := length_pos_iff.mpr h.ne_nil
    have := length_pos_iff.mpr h'.ne_nil
    rw [length_append]
    omega
  constructor
  case minBlockSlot => exact hu _ ▸ h.minBlockSlot.union h'.minBlockSlot
  case maxBlockSlot => exact hu _ ▸ h.maxBlockSlot.union h'.maxBlockSlot
  case fistBlockTime => exact hu _ ▸ h.fistBlockTime.union h'.fistBlockTime
  case lastBlockTime => exact hu _ ▸ h.lastBlockTime.union h'.lastBlockTime
  case averageBlockTime => exact (if_neg hl).symm
  case blockCounter => simp [Row.merge, h.blockCounter, h'.blockCounter]
  case totalTx => simp [Row.merge, h.totalTx, h'.totalTx]
  case successTx => simp [Row.merge, h.successTx, h'.successTx]
  case totalReward => simp [Row.merge, h.totalReward, h'.totalReward]
  case totalFee => simp [Row.merge, h.totalFee, h'.totalFee]

theorem perm (h : IsDayRow blocks row) (hp : blocks.Perm blocks') : IsDayRow blocks' row := by
  constructor
  case minBlockSlot => simpa only [hp.mem_iff] using h.minBlockSlot
  case maxBlockSlot => simpa only [hp.mem_iff] using h.maxBlockSlot
  case fistBlockTime => simpa only [hp.mem_iff] using h.fistBlockTime
  case lastBlockTime => simpa only [hp.mem_iff] using h.lastBlockTime
  case averageBlockTime => exact hp.length_eq ▸ h.averageBlockTime
  case blockCounter => exact hp.length_eq ▸ h.blockCounter
  case totalTx => rw [h.totalTx, (hp.map _).sum_eq]
  case successTx => rw [h.successTx, (hp.map _).sum_eq]
  case totalReward => rw [h.totalReward, (hp.map _).sum_eq]
  case totalFee => rw [h.totalFee, (hp.map _).sum_eq]

theorem unique (h : IsDayRow blocks row) (h' : IsDayRow blocks row') : row = row' := by
  have hm := h.minBlockSlot.unique h'.minBlockSlot
  have hma := h.maxBlockSlot.unique h'.maxBlockSlot
  have hf := h.fistBlockTime.unique h'.fistBlockTime
  have hl := h.lastBlockTime.unique h'.lastBlockTime
  ext
  case averageBlockTime => rw [h.averageBlockTime, h'.averageBlockTime, hm, hma, hf, hl]
  all_goals grind [h.blockCounter, h'.blockCounter, h.totalTx, h'.totalTx, h.successTx, h'.successTx,
    h.totalReward, h'.totalReward, h.totalFee, h'.totalFee]

end IsDayRow

def blocksOf (date : ℤ) (blocks : List SlotBlock) : List SlotBlock :=
  blocks.filter (·.date = date)

def DayRows (blocks : List SlotBlock) (rows : HashMap ℤ Row) : Prop :=
  ∀ date, (rows.lookup date).elim (blocksOf date blocks = []) (IsDayRow (blocksOf date blocks))

theorem checkRange_eq (h : checkRange row = .ok row') : row' = row := by
  rw [checkRange] at h
  grind

theorem DayRows.handleBlock {rows rows' : HashMap ℤ Row} (h : DayRows blocks rows)
    (hr' : handleBlock rows b = .ok rows') : DayRows (blocks ++ [b]) rows' := by
  obtain ⟨entity, he, hr⟩ := bind_eq_ok.1 hr'
  obtain ⟨e', hr, hr'⟩ := bind_eq_ok.1 hr
  rw [checkRange_eq hr] at hr'
  have hs := isDayRow_singleton he
  obtain ⟨row, rfl, hro⟩ : ∃ row, rows.insert b.date row = rows' ∧
      IsDayRow (blocksOf b.date blocks ++ [b]) row := by
    have hda := h b.date
    rcases e : rows.lookup b.date with - | t
    · rw [e] at hr' hda
      refine ⟨_, Outcome.ok.inj hr', ?_⟩
      rw [show blocksOf b.date blocks = [] from hda]
      exact hs
    · rw [e] at hr' hda
      obtain ⟨row, hr, hr'⟩ := bind_pure_eq_ok.1 hr'
      obtain rfl := checkRange_eq hr
      exact ⟨_, hr', IsDayRow.merge hda hs⟩
  intro date
  rw [blocksOf, filter_append]
  by_cases hd : b.date = date
  · subst hd
    rw [Finmap.lookup_insert, filter_singleton, decide_eq_true rfl]
    exact hro
  · rw [Finmap.lookup_insert_of_ne _ (Ne.symm hd), filter_singleton, decide_eq_false hd]
    exact (append_nil (blocksOf date blocks)).symm ▸ h date

theorem dayRows_handleBlocks {rows : HashMap ℤ Row} (h : handleBlocks blocks = .ok rows) :
    DayRows blocks rows :=
  foldlM_invariant (I := DayRows) h (fun _ => rfl) fun _ hi hs => hi.handleBlock hs

/-- **The rows of the days have the figures of their blocks**, in whatever order the blocks are
handled. -/
theorem dailyStats_right {rows rows' : HashMap ℤ Row} (hperm : blocks.Perm blocks')
    (h : handleBlocks blocks = .ok rows) (h' : handleBlocks blocks' = .ok rows') :
    rows = rows' ∧ ∀ date, (rows.lookup date).elim (blocksOf date blocks = [])
      (IsDayRow (blocksOf date blocks)) := by
  refine ⟨Finmap.ext_lookup fun date => ?_, dayRows_handleBlocks h⟩
  have hd := dayRows_handleBlocks h date
  have hd' := dayRows_handleBlocks h' date
  have hperm : (blocksOf date blocks).Perm (blocksOf date blocks') := hperm.filter _
  cases e : rows.lookup date with
  | none =>
    cases e' : rows'.lookup date with
    | none => rfl
    | some row' =>
      rw [e] at hd
      rw [e'] at hd'
      exact absurd (hperm.symm.trans (.of_eq hd)).eq_nil (IsDayRow.ne_nil hd')
  | some row =>
    rw [e] at hd
    cases e' : rows'.lookup date with
    | none =>
      rw [e'] at hd'
      exact absurd (hperm.trans (.of_eq hd')).eq_nil (IsDayRow.ne_nil hd)
    | some row' =>
      rw [e'] at hd'
      exact congrArg some (IsDayRow.unique hd (IsDayRow.perm hd' hperm.symm))

def blockAt (blockSlot : ℕ) (blockTime : ℤ) : SlotBlock :=
  ⟨blockSlot, some blockTime, [⟨9, some .fee⟩], [some ⟨.ok (), 5⟩, some ⟨.error "", 7⟩]⟩

theorem stats_of_two_blocks :
    ∃ rows, handleBlocks [blockAt 7 200, blockAt 3 100] = .ok rows ∧
      handleBlocks [blockAt 3 100, blockAt 7 200] = .ok rows ∧
      rows.lookup 0 = some ⟨3, 7, 2, 4, 2, 18, 10, 20000, 100, 200⟩ := by
  have h := dailyStats_right (.swap (blockAt 3 100) (blockAt 7 200) []) rfl rfl
  exact ⟨_, rfl, by rw [h.1]; rfl, by decide⟩

end Massbit.Analytics.StatBlock
