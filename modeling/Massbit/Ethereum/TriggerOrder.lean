/-
The order of the triggers of a block (`trigger.rs`, `block_stream.rs`).
-/
import Massbit.Ethereum.Types

open List

namespace Massbit

def BlockWithTriggers.new {B : Type} (block : B) (triggerData : List EthereumTrigger) :
    Option (BlockWithTriggers B EthereumTrigger) := do
  let triggerData ← triggerData.sortByM EthereumTrigger.cmp
  return { block, triggerData }

namespace EthereumTrigger

open List (NotGreater)

def isBlock : EthereumTrigger → Bool
  | block _ _ => true
  | call _ | log _ => false

def isCallOf (transactionIndex : ℕ) : EthereumTrigger → Bool
  | call c => c.transactionIndex = transactionIndex
  | block _ _ | log _ => false

def MayPrecede : EthereumTrigger → EthereumTrigger → Prop
  -- block triggers come last
  | _, block _ _ => True
  | block _ _, call _ | block _ _, log _ => False
  | call a, call b => a.transactionIndex ≤ b.transactionIndex
  -- logs appear by log index
  | log a, log b => compareOption a.logIndex b.logIndex = .lt
  -- calls come after the logs of their transaction and before those of later ones
  | log a, call b => ∀ i, a.transactionIndex = some i → i ≤ b.transactionIndex
  | call a, log b => ∀ i, b.transactionIndex = some i → a.transactionIndex < i

/-- The triggers in the order in which they are handled. -/
structure Ordered (input output : List EthereumTrigger) : Prop where
  perm : output.Perm input
  pairwise : output.Pairwise MayPrecede
  calls : ∀ i, output.filter (isCallOf i) = input.filter (isCallOf i)
  blocks : output.filter isBlock = input.filter isBlock

/-- The log indexes are distinct and increase with the transaction index. -/
structure LogsIncrease (triggers : List EthereumTrigger) : Prop where
  transaction : ∀ l, log l ∈ triggers → ∃ i, l.transactionIndex = some i
  distinct : triggers.Pairwise fun a b => ∀ l l', a = log l → b = log l' → l.logIndex ≠ l'.logIndex
  increase : ∀ l l', log l ∈ triggers → log l' ∈ triggers → ∀ i j, l.transactionIndex = some i →
    l'.transactionIndex = some j → i < j → compareOption l.logIndex l'.logIndex = .lt

theorem compareOption_self (a : Option ℕ) : compareOption a a = .eq := by
  rcases a with - | a
  · rfl
  · exact Nat.compare_eq_eq.2 rfl

theorem eq_of_compareOption {a b : Option ℕ} (h : compareOption a b = .eq) : a = b := by
  rcases a with - | a
  · rcases b with - | b
    · rfl
    · cases h
  · rcases b with - | b
    · cases h
    · rw [Nat.compare_eq_eq.1 h]

theorem cmp_self (a : EthereumTrigger) : cmp a a = some .eq := by
  rcases a with ⟨ptr, kind⟩ | a | a
  · rfl
  · exact congrArg some (Nat.compare_eq_eq.2 rfl)
  · exact congrArg some (compareOption_self _)

variable {a b : EthereumTrigger}

theorem exists_cmp (ha : ∀ l, a = log l → ∃ i, l.transactionIndex = some i)
    (hb : ∀ l, b = log l → ∃ i, l.transactionIndex = some i) : ∃ o, cmp a b = some o := by
  rcases a with ⟨ptr, kind⟩ | a | a
  · rcases b with ⟨ptr', kind'⟩ | b | b <;> exact ⟨_, rfl⟩
  · rcases b with ⟨ptr', kind'⟩ | b | b
    · exact ⟨_, rfl⟩
    · exact ⟨_, rfl⟩
    · obtain ⟨i, hi⟩ := hb b rfl
      exact ⟨_, by rw [cmp, hi, Option.map_some]⟩
  · rcases b with ⟨ptr', kind'⟩ | b | b
    · exact ⟨_, rfl⟩
    · obtain ⟨i, hi⟩ := ha a rfl
      exact ⟨_, by rw [cmp, hi, Option.map_some]⟩
    · exact ⟨_, rfl⟩

namespace LogsIncrease

variable {triggers : List EthereumTrigger} (h : LogsIncrease triggers)

include h

theorem logsFollowTransactions : LogsFollowTransactions triggers := by
  refine fun a ha => ⟨h.transaction a ha, fun b hb hab i j hi hj => ?_⟩
  by_contra hlt
  have hba := h.increase b a hb ha j i hj hi (by omega)
  refine hab ?_
  rw [← compareOption_swap, hba]
  rfl

theorem exists_cmp {a b : EthereumTrigger} (ha : a ∈ triggers) (hb : b ∈ triggers) :
    ∃ o, cmp a b = some o := by
  refine EthereumTrigger.exists_cmp ?_ ?_
  · rintro l rfl
    exact h.transaction l ha
  · rintro l rfl
    exact h.transaction l hb

theorem isPreorderOn : List.IsPreorderOn cmp triggers where
  refl a _ := cmp_self a
  swap a ha b hb := by
    obtain ⟨o, ho⟩ := h.exists_cmp ha hb
    exact ⟨o, ho, cmp_swap ho⟩
  trans _ ha _ hb _ hc := notGreater_trans h.logsFollowTransactions ha hb hc

end LogsIncrease

theorem MayPrecede.of_notGreater (h : NotGreater cmp a b)
    (hne : ∀ l l', a = log l → b = log l' → l.logIndex ≠ l'.logIndex) : MayPrecede a b := by
  rcases b with ⟨ptr', kind'⟩ | b | b
  · cases a <;> trivial
  · rcases a with ⟨ptr, kind⟩ | a | a
    · obtain ⟨ptr', kind', hb⟩ := exists_block_of_notGreater h
      cases hb
    · exact notGreater_call_call.1 h
    · obtain ⟨i, hi, hle⟩ := notGreater_log_call.1 h
      intro j hj
      obtain rfl : i = j := Option.some.inj (hi.symm.trans hj)
      exact hle
  · rcases a with ⟨ptr, kind⟩ | a | a
    · obtain ⟨ptr', kind', hb⟩ := exists_block_of_notGreater h
      cases hb
    · obtain ⟨i, hi, hlt⟩ := notGreater_call_log.1 h
      intro j hj
      obtain rfl : i = j := Option.some.inj (hi.symm.trans hj)
      exact hlt
    · have hle := notGreater_log_log.1 h
      show compareOption a.logIndex b.logIndex = .lt
      rcases e : compareOption a.logIndex b.logIndex with - | - | -
      · rfl
      · exact absurd (eq_of_compareOption e) (hne a b rfl rfl)
      · exact absurd e hle

theorem cmp_of_isCallOf {i : ℕ} (ha : isCallOf i a = true) (hb : isCallOf i b = true) :
    cmp a b = some .eq := by
  rcases a with ⟨ptr, kind⟩ | a | a
  · cases ha
  · rcases b with ⟨ptr', kind'⟩ | b | b
    · cases hb
    · have hi : a.transactionIndex = b.transactionIndex :=
        (of_decide_eq_true ha).trans (of_decide_eq_true hb).symm
      exact congrArg some (Nat.compare_eq_eq.2 hi)
    · cases hb
  · cases ha

theorem cmp_of_isBlock (ha : a.isBlock = true) (hb : b.isBlock = true) : cmp a b = some .eq := by
  rcases a with ⟨ptr, kind⟩ | a | a
  · rcases b with ⟨ptr', kind'⟩ | b | b
    · rfl
    · cases hb
    · cases hb
  · cases ha
  · cases ha

theorem LogsIncrease.ordered {triggers s : List EthereumTrigger} (h : LogsIncrease triggers)
    (hs : triggers.sortByM cmp = some s) : Ordered triggers s where
  perm := perm_sortByM hs
  pairwise := by
    have hp := perm_sortByM hs
    have hso : s.Pairwise (NotGreater cmp) :=
      (isChain_sortByM cmp_swap hs).pairwise_of_trans fun a ha b hb c hc =>
        h.isPreorderOn.trans a (hp.mem_iff.1 ha) b (hp.mem_iff.1 hb) c (hp.mem_iff.1 hc)
    have hd := (hp.pairwise_iff fun hab l l' hl hl' => (hab l' l hl' hl).symm).2 h.distinct
    exact hso.imp₂ (fun a b => .of_notGreater) hd
  calls _ := filter_sortByM (fun _ _ _ _ => cmp_of_isCallOf) hs
  blocks := filter_sortByM (fun _ _ _ _ => cmp_of_isBlock) hs

/-- **The triggers of a block are ordered** if the log indexes are distinct and increase with the
transaction index: the comparison is a total preorder, and the block has all triggers in order. -/
theorem new_ordered {B : Type} (b : B) {triggers : List EthereumTrigger}
    (h : LogsIncrease triggers) : List.IsPreorderOn cmp triggers ∧
      ∃ result, BlockWithTriggers.new b triggers = some result ∧ result.block = b ∧
        Ordered triggers result.triggerData := by
  refine ⟨h.isPreorderOn, ?_⟩
  obtain ⟨s, hs⟩ := exists_sortByM fun a ha b hb => h.exists_cmp ha hb
  refine ⟨⟨b, s⟩, ?_, rfl, h.ordered hs⟩
  rw [BlockWithTriggers.new, hs]
  rfl

def sampleLog (transactionIndex logIndex : ℕ) : Log :=
  ⟨0, [], [], none, some 1, none, some transactionIndex, some logIndex⟩

def sampleCall (transactionIndex : ℕ) (toAddress : Address) : EthereumCall :=
  ⟨0, toAddress, 0, 0, [], [], 1, H256.zero, none, transactionIndex⟩

def sampleTriggers : List EthereumTrigger :=
  [block ⟨[], 1⟩ .every, log (sampleLog 1 1), call (sampleCall 0 8), call (sampleCall 0 7),
    log (sampleLog 0 0)]

theorem logsIncrease_sampleTriggers : LogsIncrease sampleTriggers := by
  have hm : ∀ l, log l ∈ sampleTriggers → l = sampleLog 1 1 ∨ l = sampleLog 0 0 := by
    intro l hl
    simpa [sampleTriggers] using hl
  refine ⟨fun l hl => ?_, ?_, fun l l' hl hl' i j hi hj hlt => ?_⟩
  · rcases hm l hl with rfl | rfl
    · exact ⟨1, rfl⟩
    · exact ⟨0, rfl⟩
  · simp [sampleTriggers, sampleLog]
  · rcases hm l hl with rfl | rfl <;> rcases hm l' hl' with rfl | rfl <;>
      obtain rfl := Option.some.inj hi <;> obtain rfl := Option.some.inj hj
    all_goals first | rfl | omega

example : (BlockWithTriggers.new () sampleTriggers).map (·.triggerData)
    = some [log (sampleLog 0 0), call (sampleCall 0 8), call (sampleCall 0 7), log (sampleLog 1 1),
        block ⟨[], 1⟩ .every] := by
  decide

theorem new_ordered_sampleTriggers : List.IsPreorderOn cmp sampleTriggers ∧
    ∃ result, BlockWithTriggers.new () sampleTriggers = some result ∧ result.block = () ∧
      Ordered sampleTriggers result.triggerData :=
  new_ordered () logsIncrease_sampleTriggers

end EthereumTrigger

end Massbit
