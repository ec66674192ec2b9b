/-
The live loop of an indexer and the tasks for the blocks in a gap.
-/
import Massbit.IndexerApi.StartMapping
import Massbit.Lib.Tasks

open List

namespace Massbit.IndexerApi

open Solana (Slot ExtBlock Mapping StreamMessage IndexerRuntime)

structure MappingState (S : Type) where
  mapper : Mapper
  inputs : List (MappingInput S)
  cache : List ExtBlock := []
  flushes : List Slot := []
  commits : List (ExtBlock × Slot) := []

inductive MappingAction where
  | iterate
  | handleBlock (block : ExtBlock)
  | flush (block : ExtBlock)
  | history (call : HistoryCall)
  deriving DecidableEq

def handleBlocks (blocks : List ExtBlock) : List MappingAction :=
  blocks.flatMap fun block => [.handleBlock block, .flush block]

def followUp (event : Option MappingEvent) : List MappingAction × List (List MappingAction) :=
  match event with
  | some (.poll _ (.message blocks history)) =>
    (handleBlocks blocks, history.toList.map fun call => [.history call])
  | some (.poll _ .ended) | some (.poll _ .failed) | some (.request _ _) | none => ([], [])

section

variable {S Modification : Type} (env : Mapping S Modification) (indexerHash : String)
  (dataSource : DataSource) (history : HistoryCall → List ExtBlock)

def MappingState.flush (self : MappingState S) (block : ExtBlock) : MappingState S :=
  { self with
    cache := []
    flushes := self.flushes ++ [block.blockNumber]
    commits := self.commits ++ self.cache.map fun saved => (saved, block.blockNumber) }

def MappingState.act (self : MappingState S) (action : MappingAction) (saves : Bool) :
    Option (TaskEffect (MappingState S) MappingAction) :=
  match action with
  | .iterate =>
    match self.inputs with
    | [] => none
    | input :: inputs =>
      (self.mapper.step env indexerHash dataSource input).map fun mapper =>
        { shared := { self with mapper, inputs }
          next := (followUp mapper.log.getLast?).1 ++ [.iterate]
          spawned := (followUp mapper.log.getLast?).2 }
  | .handleBlock block =>
    if saves then
      some
        { shared := { self with cache := self.cache ++ [block] }
          next := [.handleBlock block] }
    else some { shared := self }
  | .flush block => some { shared := self.flush block }
  | .history call => some { shared := self, next := handleBlocks (history call) }

def startMapping (gotBlock : ℤ) (inputs : List (MappingInput S)) :
    Tasks (MappingState S) MappingAction where
  shared := { mapper := .start gotBlock, inputs }
  pending := [[.iterate]]

/-- The tasks take turns in any order. -/
abbrev Interleaves :=
  Run (Tasks.step (MappingState.act env indexerHash dataSource history)) fun _ _ => True

end

/-- The slots of the flushes increase, and what was saved for a block is committed under its slot.
-/
structure Isolated {S : Type} (s : MappingState S) : Prop where
  increasing : s.flushes.Pairwise (· < ·)
  own_slot : ∀ commit ∈ s.commits, commit.2 = commit.1.blockNumber

def liveBlocks (log : List MappingEvent) : List ExtBlock :=
  log.flatMap fun
    | .poll _ (.message blocks _) => blocks
    | .poll _ .ended | .poll _ .failed | .request _ _ => []

def historyCalls (log : List MappingEvent) : List HistoryCall :=
  log.filterMap fun
    | .poll _ (.message _ history) => history
    | .poll _ .ended | .poll _ .failed | .request _ _ => none

section

variable {S Modification : Type} {env : Mapping S Modification} {indexerHash : String}
  {dataSource : DataSource} {history : HistoryCall → List ExtBlock} {gotBlock : ℤ}
  {inputs : List (MappingInput S)}

theorem liveBlocks_concat (log : List MappingEvent) (e : MappingEvent) :
    liveBlocks (log ++ [e]) = liveBlocks log ++ liveBlocks [e] :=
  flatMap_append

theorem historyCalls_concat (log : List MappingEvent) (e : MappingEvent) :
    historyCalls (log ++ [e]) = historyCalls log ++ historyCalls [e] :=
  filterMap_append

/-- What the loop still has to do: the blocks that are not flushed yet, and then the next iteration.
-/
inductive LiveForm : List MappingAction → List ExtBlock → Prop
  | iterate : LiveForm [.iterate] []
  | handle {live : List MappingAction} {blocks : List ExtBlock} (block : ExtBlock)
      (h : LiveForm live blocks) :
      LiveForm (.handleBlock block :: .flush block :: live) (block :: blocks)
  | flush {live : List MappingAction} {blocks : List ExtBlock} (block : ExtBlock)
      (h : LiveForm live blocks) : LiveForm (.flush block :: live) (block :: blocks)

theorem liveForm_handleBlocks (blocks : List ExtBlock) :
    LiveForm (handleBlocks blocks ++ [.iterate]) blocks := by
  induction blocks with
  | nil => exact .iterate
  | cons b blocks ih => exact .handle b ih

def MappingAction.IsIdle (history : HistoryCall → List ExtBlock) : MappingAction → Prop
  | .history call => history call = []
  | .iterate | .handleBlock _ | .flush _ => False

structure Sequential (env : Mapping S Modification) (indexerHash : String) (dataSource : DataSource)
    (history : HistoryCall → List ExtBlock) (gotBlock : ℤ) (inputs : List (MappingInput S))
    (p : Tasks (MappingState S) MappingAction) (live : List MappingAction)
    (others : List (List MappingAction)) (blocks : List ExtBlock) : Prop where
  pending : p.pending = live :: others
  form : LiveForm live blocks
  idle : Tasks.All (MappingAction.IsIdle history) others
  flushes : p.shared.flushes ++ blocks.map ExtBlock.blockNumber =
    (liveBlocks p.shared.mapper.log).map ExtBlock.blockNumber
  cache : ∀ saved ∈ p.shared.cache, blocks.head? = some saved
  own_slot : ∀ commit ∈ p.shared.commits, commit.2 = commit.1.blockNumber
  run : ∃ pre, pre ++ p.shared.inputs = inputs ∧
    Mapper.Takes env indexerHash dataSource gotBlock pre
      p.shared.mapper

theorem followUp_concat (log : List MappingEvent) (e : MappingEvent) :
    followUp (log ++ [e]).getLast? = (handleBlocks (liveBlocks [e]),
      (historyCalls [e]).map fun call => [.history call]) := by
  rw [List.getLast?_concat]
  rcases e with ⟨r, st⟩ | ⟨st, ⟨blocks, history⟩ | - | -⟩
  · rfl
  · cases history <;> simp [followUp, liveBlocks, historyCalls]
  · rfl
  · rfl

variable {s : Mapper} {input : MappingInput S} {pre : List (MappingInput S)} {call : HistoryCall}
  {s' : Mapper}

theorem Mapper.exists_log_concat (h : s.step env indexerHash dataSource input = some s') :
    ∃ e, s'.log = s.log ++ [e] := by
  rcases Mapper.step_log h with ⟨_, _, hl⟩ | ⟨_, _, hl⟩ | ⟨_, _, -, hl⟩
  · exact ⟨_, hl⟩
  · exact ⟨_, hl⟩
  · exact ⟨_, hl⟩

section

variable {p p' : Tasks (MappingState S) MappingAction} {live : List MappingAction}
  {os : List (List MappingAction)} {blocks : List ExtBlock} {saves : Bool}
  {ef : TaskEffect (MappingState S) MappingAction}

section

variable
  (hidle : ∀ pre s, pre <+: inputs → Mapper.Takes env indexerHash dataSource gotBlock pre s →
    ∀ call ∈ historyCalls s.log, history call = [])

include hidle

theorem Sequential.step_iterate
    (h : Sequential env indexerHash dataSource history gotBlock inputs p [.iterate] os [])
    (hac : p.shared.act env indexerHash dataSource history .iterate saves = some ef) :
    ∃ blocks', Sequential env indexerHash dataSource history gotBlock inputs
      ⟨ef.shared, (ef.next ++ []) :: (os ++ ef.spawned)⟩ (ef.next ++ [])
      (os ++ ef.spawned) blocks' := by
  obtain ⟨pre, hp, hr⟩ := h.run
  rcases hi : p.shared.inputs with - | ⟨input, rest⟩
  · simp only [MappingState.act, hi, reduceCtorEq] at hac
  · simp only [MappingState.act, hi] at hac
    obtain ⟨m, hs, rfl⟩ := Option.map_eq_some_iff.1 hac
    obtain ⟨e, hl⟩ := Mapper.exists_log_concat hs
    have hr' := Run.snoc hr trivial hs
    have hi' : (pre ++ [input]) ++ rest = inputs := by
      rw [← hp, hi, append_assoc]
      rfl
    have hc := hidle _ _ ⟨rest, hi'⟩ hr'
    have hf := h.flushes
    rw [map_nil, append_nil] at hf
    refine ⟨liveBlocks [e], rfl, ?_, ?_, ?_, ?_, h.own_slot, pre ++ [input], hi', hr'⟩
    · rw [hl, followUp_concat, append_nil]
      exact liveForm_handleBlocks _
    · refine h.idle.append ?_
      rw [hl, followUp_concat]
      rw [hl, historyCalls_concat] at hc
      intro task ht a ha
      obtain ⟨call, hca, rfl⟩ := mem_map.1 ht
      obtain rfl := mem_singleton.1 ha
      exact hc call (mem_append_right _ hca)
    · show p.shared.flushes ++ _ = (liveBlocks m.log).map _
      rw [hl, liveBlocks_concat, map_append, hf]
    · intro sa hsa
      cases h.cache sa hsa

theorem Sequential.step_live
    (h : Sequential env indexerHash dataSource history gotBlock inputs p live os blocks)
    {a : MappingAction} {rest : List MappingAction} (hl : live = a :: rest)
    (ha : p.shared.act env indexerHash dataSource history a saves = some ef) :
    ∃ blocks', Sequential env indexerHash dataSource history gotBlock inputs
      ⟨ef.shared, (ef.next ++ rest) :: (os ++ ef.spawned)⟩ (ef.next ++ rest)
      (os ++ ef.spawned) blocks' := by
  subst hl
  obtain ⟨pre, hp, hru⟩ := h.run
  cases h.form with
  | iterate => exact h.step_iterate hidle ha
  | handle b hr =>
    cases saves with
    | true =>
      cases ha
      refine ⟨_, rfl, .handle b hr, h.idle.append nofun, h.flushes, ?_, h.own_slot, pre, hp,
        hru⟩
      intro sa hs
      rcases mem_append.1 hs with hs | hs
      · exact h.cache sa hs
      · obtain rfl := mem_singleton.mp hs
        rfl
    | false =>
      cases ha
      exact ⟨_, rfl, .flush b hr, h.idle.append nofun, h.flushes, h.cache, h.own_slot, pre,
        hp, hru⟩
  | flush b hr =>
    cases ha
    refine ⟨_, rfl, hr, h.idle.append nofun, ?_, nofun, ?_, pre, hp, hru⟩
    · have hf := h.flushes
      show (p.shared.flushes ++ [b.blockNumber]) ++ _ = _
      rw [append_assoc]
      exact hf
    · intro c hc
      rcases mem_append.1 hc with hc | hc
      · exact h.own_slot c hc
      · -- what is in the cache was saved for this block
        obtain ⟨sa, hs, rfl⟩ := mem_map.1 hc
        exact congrArg ExtBlock.blockNumber (Option.some.inj (h.cache sa hs))

end

theorem Sequential.step_other
    (h : Sequential env indexerHash dataSource history gotBlock inputs p live os blocks)
    {i : ℕ} {a : MappingAction} {rest : List MappingAction} (hi : os[i]? = some (a :: rest))
    (ha : p.shared.act env indexerHash dataSource history a saves = some ef) :
    Sequential env indexerHash dataSource history gotBlock inputs
      ⟨ef.shared, live :: (os.set i (ef.next ++ rest) ++ ef.spawned)⟩ live
      (os.set i (ef.next ++ rest) ++ ef.spawned) blocks := by
  have ht := h.idle.getElem? hi
  cases a with
  | history call =>
    cases ha
    have hn : handleBlocks (history call) = [] := by
      have hidle : history call = [] := ht _ mem_cons_self
      rw [hidle]
      rfl
    refine ⟨rfl, h.form, (h.idle.set i fun b hb => ?_).append nofun, h.flushes, h.cache, h.own_slot,
      h.run⟩
    rw [hn] at hb
    exact ht b (mem_cons_of_mem _ hb)
  | iterate => exact (ht _ mem_cons_self).elim
  | handleBlock bl => exact (ht _ mem_cons_self).elim
  | flush bl => exact (ht _ mem_cons_self).elim

end

theorem Sequential.of_run (hidle : ∀ pre s, pre <+: inputs →
      Mapper.Takes env indexerHash dataSource gotBlock pre s →
      ∀ call ∈ historyCalls s.log, history call = []) {ls : List (ℕ × Bool)}
    {p : Tasks (MappingState S) MappingAction}
    (hr : Interleaves env indexerHash dataSource history (startMapping gotBlock inputs) ls p) :
    ∃ live others blocks,
      Sequential env indexerHash dataSource history gotBlock inputs p live others blocks := by
  apply Run.invariant (I := fun _ p => ∃ live others blocks,
    Sequential env indexerHash dataSource history gotBlock inputs p live others blocks) hr
  · exact ⟨_, _, _, rfl, .iterate, nofun, rfl, nofun, nofun, [], rfl, .nil _⟩
  · rintro _ p ⟨i, saves⟩ p' ⟨live, others, blocks, h⟩ _ hs
    obtain ⟨a, rest, effect, hi, ha, rfl⟩ := Tasks.step_eq_some hs
    rw [h.pending] at hi ⊢
    rcases i with - | i
    · obtain ⟨bs', h'⟩ := h.step_live hidle (Option.some.inj hi) ha
      exact ⟨_, _, _, h'⟩
    · exact ⟨_, _, _, h.step_other hi ha⟩

theorem run_handleBlocks (env : Mapping S Modification) (indexerHash : String)
    (dataSource : DataSource) (history : HistoryCall → List ExtBlock) {i : ℕ}
    {rest : List MappingAction} (blocks : List ExtBlock) :
    ∀ {s : MappingState S} {pending : List (List MappingAction)}, s.cache = [] →
      pending[i]? = some (handleBlocks blocks ++ rest) →
      ∃ ls, Interleaves env indexerHash dataSource history ⟨s, pending⟩ ls
        ⟨{ s with flushes := s.flushes ++ blocks.map ExtBlock.blockNumber }, pending.set i rest⟩ := by
  induction blocks with
  | nil =>
    intro s pending _ hi
    obtain ⟨hlt, hg⟩ := List.getElem?_eq_some_iff.1 hi
    have hse : pending.set i rest = pending := by
      rw [show rest = pending[i] from hg.symm, set_getElem_self]
    rw [map_nil, append_nil, hse]
    exact ⟨[], .nil _⟩
  | cons b blocks ih =>
    intro s pending hc hi
    have hlt : i < pending.length := (List.getElem?_eq_some_iff.1 hi).1
    have hh : Tasks.step (MappingState.act env indexerHash dataSource history) ⟨s, pending⟩
        (i, false) = some ⟨s, pending.set i (.flush b :: (handleBlocks blocks ++ rest))⟩ :=
      Tasks.step_set hi rfl
    have hf : Tasks.step (MappingState.act env indexerHash dataSource history)
        ⟨s, pending.set i (.flush b :: (handleBlocks blocks ++ rest))⟩ (i, false) =
        some ⟨s.flush b, pending.set i (handleBlocks blocks ++ rest)⟩ := by
      rw [Tasks.step_set (List.getElem?_set_self hlt) rfl, set_set]
    have hs : s.flush b = { s with flushes := s.flushes ++ [b.blockNumber] } := by
      rw [MappingState.flush, hc]
      simp
    have hr : (pending.set i (handleBlocks blocks ++ rest))[i]? =
        some (handleBlocks blocks ++ rest) := List.getElem?_set_self hlt
    obtain ⟨ls, hls⟩ := ih (s := s.flush b) rfl hr
    rw [set_set, hs] at hls
    rw [hs] at hf
    refine ⟨(i, false) :: (i, false) :: ls, .cons trivial hh (.cons trivial hf ?_)⟩
    simpa using hls

theorem step_iterate {event : MappingEvent} (hs : s.step env indexerHash dataSource input = some s')
    (hl : s'.log = s.log ++ [event]) (history : HistoryCall → List ExtBlock)
    (rest : List (MappingInput S)) (flushes : List Slot) (others : List (List MappingAction)) :
    Tasks.step (MappingState.act env indexerHash dataSource history)
        ⟨{ mapper := s, inputs := input :: rest, flushes }, [.iterate] :: others⟩ (0, false) =
      some ⟨{ mapper := s', inputs := rest, flushes },
        (handleBlocks (liveBlocks [event]) ++ [.iterate]) ::
          (others ++ (historyCalls [event]).map fun call => [.history call])⟩ := by
  have ha : MappingState.act env indexerHash dataSource history
      { mapper := s, inputs := input :: rest, flushes } .iterate false =
      some
        { shared := { mapper := s', inputs := rest, flushes }
          next := handleBlocks (liveBlocks [event]) ++ [.iterate]
          spawned := (historyCalls [event]).map fun call => [.history call] } := by
    show (s.step env indexerHash dataSource input).map _ = _
    rw [hs, Option.map_some, hl, followUp_concat]
  rw [Tasks.step_of_getElem? rfl ha, append_nil]
  rfl

theorem inputs_cons {A : Type*} {pre rest l : List A} {a : A} (h : pre ++ [a] ++ rest = l) :
    pre ++ a :: rest = l := by
  rwa [append_assoc] at h

variable {rest : List (MappingInput S)}

theorem run_live (hr : Mapper.Takes env indexerHash dataSource gotBlock pre s)
    (history : HistoryCall → List ExtBlock) (hi : pre ++ rest = inputs) :
    ∃ ls others, Interleaves env indexerHash dataSource history (startMapping gotBlock inputs) ls
      ⟨{ mapper := s
         inputs := rest
         flushes := (liveBlocks s.log).map ExtBlock.blockNumber }, [.iterate] :: others⟩ := by
  induction hr generalizing rest with
  | nil =>
    obtain rfl : rest = inputs := hi
    exact ⟨[], [], .nil _⟩
  | @snoc s s' pre input hr _ hs ih =>
    obtain ⟨ls, others, hls⟩ := ih (inputs_cons hi)
    obtain ⟨event, hl⟩ := Mapper.exists_log_concat hs
    have hit := step_iterate hs hl history rest ((liveBlocks s.log).map ExtBlock.blockNumber) others
    have hf : ((handleBlocks (liveBlocks [event]) ++ [.iterate]) ::
        (others ++ (historyCalls [event]).map fun call => [.history call]))[0]? =
        some (handleBlocks (liveBlocks [event]) ++ [.iterate]) := rfl
    obtain ⟨ls', hls'⟩ := run_handleBlocks env indexerHash dataSource history (liveBlocks [event])
      (s := ⟨s', rest, [], (liveBlocks s.log).map ExtBlock.blockNumber, []⟩) rfl hf
    rw [hl, liveBlocks_concat, map_append]
    exact ⟨_, _, (hls.snoc trivial hit).append hls'⟩

def CalledFor (env : Mapping S Modification) (indexerHash : String) (dataSource : DataSource)
    (gotBlock : ℤ) (inputs : List (MappingInput S)) (call : HistoryCall) : Prop :=
  ∃ pre input s₁ s₂ stream blocks, pre ++ [input] <+: inputs ∧
    Mapper.Takes env indexerHash dataSource gotBlock pre s₁ ∧
    s₁.step env indexerHash dataSource input = some s₂ ∧
    s₂.log = s₁.log ++ [.poll stream (.message blocks (some call))] ∧ blocks ≠ []

theorem CalledFor.mono {inputs' : List (MappingInput S)}
    (h : CalledFor env indexerHash dataSource gotBlock inputs call) (hi : inputs <+: inputs') :
    CalledFor env indexerHash dataSource gotBlock inputs' call := by
  obtain ⟨pre, input, s₁, s₂, st, blocks, hp, h⟩ := h
  exact ⟨pre, input, s₁, s₂, st, blocks, hp.trans hi, h⟩

theorem calledFor_of_mem_historyCalls (hru : Mapper.Takes env indexerHash dataSource gotBlock pre s)
    (hc : call ∈ historyCalls s.log) :
    CalledFor env indexerHash dataSource gotBlock pre call := by
  induction hru with
  | nil => cases hc
  | @snoc s s' pre input hru _ hs ih =>
    have he : call ∈ historyCalls s.log →
        CalledFor env indexerHash dataSource gotBlock (pre ++ [input]) call := fun hc =>
      (ih hc).mono (prefix_append _ _)
    rcases Mapper.step_log hs with ⟨_, _, hl⟩ | ⟨st, blocks, hl⟩ | ⟨_, _, hr, hl⟩
    · rw [hl, historyCalls_concat] at hc
      exact he ((mem_append.1 hc).resolve_right not_mem_nil)
    · rw [hl, historyCalls_concat] at hc
      rcases mem_append.1 hc with hc | hc
      · exact he hc
      · -- the call of this message
        have hh : historyCall s.runtime.startBlock blocks = some call := by
          rcases hn : historyCall s.runtime.startBlock blocks with - | call'
          · simp [historyCalls, hn] at hc
          · simp [historyCalls, hn] at hc
            rw [hc]
        have hne : blocks ≠ [] := by
          rintro rfl
          cases hh
        rw [hh] at hl
        exact ⟨pre, input, s, s', st, blocks, prefix_refl _, hru, hs, hl, hne⟩
    · rw [hl, historyCalls_concat] at hc
      rcases hr with rfl | rfl
      · exact he ((mem_append.mp hc).resolve_right not_mem_nil)
      · exact he ((mem_append.mp hc).resolve_right not_mem_nil)

theorem run_message {s₁ s₂ : Mapper} {stream : ℕ} {blocks : List ExtBlock}
    (hr : Mapper.Takes env indexerHash dataSource gotBlock pre s₁)
    (hs : s₁.step env indexerHash dataSource input = some s₂)
    (hl : s₂.log = s₁.log ++ [.poll stream (.message blocks (some call))])
    (history : HistoryCall → List ExtBlock) (hin : pre ++ input :: rest = inputs) :
    ∃ ls others flushes,
      Interleaves env indexerHash dataSource history (startMapping gotBlock inputs) ls
      ⟨{ mapper := s₂, inputs := rest, flushes },
        (handleBlocks blocks ++ [.iterate]) :: (others ++ [[.history call]])⟩ := by
  obtain ⟨ls, others, hls⟩ := run_live hr history hin
  have hi := step_iterate hs hl history rest ((liveBlocks s₁.log).map ExtBlock.blockNumber) others
  have hb : liveBlocks [.poll stream (.message blocks (some call))] = blocks := by
    simp [liveBlocks]
  rw [hb] at hi
  exact ⟨_, others, _, hls.snoc trivial hi⟩

theorem run_history (env : Mapping S Modification) (indexerHash : String) (dataSource : DataSource)
    (history : HistoryCall → List ExtBlock) {i : ℕ} {s : MappingState S}
    {pe : List (List MappingAction)} (hc : s.cache = []) (hi : pe[i]? = some [.history call]) :
    ∃ ls, Interleaves env indexerHash dataSource history ⟨s, pe⟩ ls
      ⟨{ s with flushes := s.flushes ++ (history call).map ExtBlock.blockNumber },
        pe.set i []⟩ := by
  have hlt : i < pe.length := (List.getElem?_eq_some_iff.1 hi).1
  have hs : Tasks.step (MappingState.act env indexerHash dataSource history) ⟨s, pe⟩
      (i, false) = some ⟨s, pe.set i (handleBlocks (history call) ++ [])⟩ := by
    rw [Tasks.step_of_getElem? hi rfl, append_nil]
  obtain ⟨ls, hls⟩ := run_handleBlocks env indexerHash dataSource history (history call) hc
    (List.getElem?_set_self hlt)
  rw [set_set] at hls
  exact ⟨_, .cons trivial hs hls⟩

theorem not_isolated_of_calledFor (hc : CalledFor env indexerHash dataSource gotBlock inputs call)
    (hh : history call ≠ []) :
    ∃ ls p, Interleaves env indexerHash dataSource history (startMapping gotBlock inputs) ls p ∧
      ¬Isolated p.shared := by
  obtain ⟨pre, input, s₁, s₂, st, blocks, ⟨rest, hin⟩, hr, hs, hlo, hne⟩ := hc
  obtain ⟨ls, others, fs, hls⟩ := run_message hr hs hlo history (inputs_cons hin)
  obtain ⟨b, hb⟩ := exists_mem_of_ne_nil _ hne
  obtain ⟨old, ho⟩ := exists_mem_of_ne_nil _ hh
  have hl : ((handleBlocks blocks ++ [.iterate]) :: (others ++ [[.history call]]))[0]? =
      some (handleBlocks blocks ++ [.iterate]) := rfl
  have ht : ∀ live : List MappingAction,
      (live :: (others ++ [[.history call]]))[others.length + 1]? = some [.history call] := by
    simp
  by_cases hlt : b.blockNumber < old.blockNumber
  · -- the task runs first
    obtain ⟨ls₁, hls₁⟩ := run_history env indexerHash dataSource history
      (s := ⟨s₂, rest, [], fs, []⟩) rfl (ht (handleBlocks blocks ++ [.iterate]))
    obtain ⟨ls₂, hls₂⟩ := run_handleBlocks env indexerHash dataSource history blocks
      (s := ⟨s₂, rest, [], fs ++ (history call).map ExtBlock.blockNumber, []⟩) rfl
      (show (_ :: _)[0]? = some (handleBlocks blocks ++ [.iterate]) from rfl)
    refine ⟨_, _, (hls.append hls₁).append hls₂, fun hi => ?_⟩
    have hp : ((fs ++ (history call).map ExtBlock.blockNumber) ++
      blocks.map ExtBlock.blockNumber).Pairwise (· < ·) := hi.increasing
    have hrev := (pairwise_append.mp hp).2.2 old.blockNumber
      (mem_append_right _ (mem_map_of_mem ho)) b.blockNumber
      (mem_map_of_mem hb)
    exact UInt64.lt_irrefl _ (UInt64.lt_trans hlt hrev)
  · -- the task runs last
    obtain ⟨ls₁, hls₁⟩ := run_handleBlocks env indexerHash dataSource history blocks
      (s := ⟨s₂, rest, [], fs, []⟩) rfl hl
    obtain ⟨ls₂, hls₂⟩ := run_history env indexerHash dataSource history
      (s := ⟨s₂, rest, [], fs ++ blocks.map ExtBlock.blockNumber, []⟩) rfl (ht [.iterate])
    refine ⟨_, _, (hls.append hls₁).append hls₂, fun hi => ?_⟩
    have hp : ((fs ++ blocks.map ExtBlock.blockNumber) ++
      (history call).map ExtBlock.blockNumber).Pairwise (· < ·) := hi.increasing
    exact hlt ((pairwise_append.mp hp).2.2 b.blockNumber
      (mem_append_right _ (mem_map_of_mem hb)) old.blockNumber
      (mem_map_of_mem ho))

/-- **The flushes are isolated in all interleavings if and only if no task has a block**: nothing
makes the blocks in a gap come before the message. -/
theorem isolated_iff {env : Mapping S Modification} {indexerHash : String} {dataSource : DataSource}
    {gotBlock : ℤ} {inputs : List (MappingInput S)} (history : HistoryCall → List ExtBlock)
    (hlive : ∀ pre s, pre <+: inputs →
      Mapper.Takes env indexerHash dataSource gotBlock pre s →
      ((liveBlocks s.log).map ExtBlock.blockNumber).Pairwise (· < ·)) :
    (∀ ls p, Interleaves env indexerHash dataSource history (startMapping gotBlock inputs) ls p →
      Isolated p.shared) ↔
      ∀ pre s, pre <+: inputs →
        Mapper.Takes env indexerHash dataSource gotBlock pre s →
        ∀ call ∈ historyCalls s.log, history call = [] := by
  constructor
  · intro his pre s hpr hr call hc
    by_contra hh
    obtain ⟨ls, p, hp, hn⟩ := not_isolated_of_calledFor
      ((calledFor_of_mem_historyCalls hr hc).mono hpr) hh
    exact hn (his ls p hp)
  · intro hidle ls p hr
    obtain ⟨live, others, blocks, h⟩ := Sequential.of_run hidle hr
    obtain ⟨pre, hpr, hm⟩ := h.run
    have hi := hlive pre p.shared.mapper ⟨_, hpr⟩ hm
    rw [← h.flushes] at hi
    exact ⟨(pairwise_append.1 hi).1, h.own_slot⟩

end

def blockAt (slot : Slot) : ExtBlock :=
  ⟨"1.7.0", 0, slot, ⟨"a", "b", slot - 1, [⟨⟨[[1]], ⟨[], "", []⟩⟩, none⟩], [], none, none⟩, []⟩

def slotSevenInputs : List (MappingInput Unit) :=
  [⟨true, .timeout⟩, ⟨true, .message ⟨[blockAt 7], (), true⟩⟩]

theorem increasing_slotSeven (pre : List (MappingInput Unit)) (s : Mapper)
    (hp : pre <+: slotSevenInputs)
    (hru : Mapper.Takes (Solana.mappingOf (.ok ()) (.ok ())) "hash" solanaSource 4 pre s) :
    ((liveBlocks s.log).map ExtBlock.blockNumber).Pairwise (· < ·) := by
  have hs := hru.foldlM_eq
  rcases prefix_cons_iff.1 hp with rfl | ⟨rest, rfl, hr⟩
  · cases hs
    decide
  rcases prefix_cons_iff.1 hr with rfl | ⟨rest, rfl, hn⟩
  · cases hs
    decide
  · obtain rfl := prefix_nil.1 hn
    cases hs
    decide

theorem isolated_without_history :
    (∀ pre s, pre <+: slotSevenInputs →
      Mapper.Takes (Solana.mappingOf (.ok ()) (.ok ())) "hash" solanaSource 4 pre s →
      ((liveBlocks s.log).map ExtBlock.blockNumber).Pairwise (· < ·)) ∧
    ∀ ls p, Interleaves (Solana.mappingOf (.ok ()) (.ok ())) "hash" solanaSource
        (fun _ => []) (startMapping 4 slotSevenInputs) ls p →
      Isolated p.shared := by
  refine ⟨increasing_slotSeven, ?_⟩
  apply (isolated_iff _ increasing_slotSeven).2
  exact fun _ _ _ _ _ _ => rfl

theorem gap_flushed_late :
    (∀ pre s, pre <+: slotSevenInputs →
      Mapper.Takes (Solana.mappingOf (.ok ()) (.ok ())) "hash" solanaSource 4 pre s →
      ((liveBlocks s.log).map ExtBlock.blockNumber).Pairwise (· < ·)) ∧
    (∃ p, Interleaves (Solana.mappingOf (.ok ()) (.ok ())) "hash" solanaSource
        (fun _ => [blockAt 5]) (startMapping 4 slotSevenInputs)
        [(0, false), (0, false), (0, false), (0, false), (1, false), (1, false), (1, false)] p ∧
      p.shared.flushes = [7, 5] ∧ ¬Isolated p.shared) ∧
    ∃ p, Interleaves (Solana.mappingOf (.ok ()) (.ok ())) "hash" solanaSource
        (fun _ => [blockAt 5]) (startMapping 4 slotSevenInputs)
        [(0, false), (0, false), (0, true), (1, false), (1, false), (1, false), (0, false)] p ∧
      p.shared.commits = [(blockAt 7, 5)] ∧ ¬Isolated p.shared := by
  refine ⟨increasing_slotSeven, ⟨_, .of_foldlM rfl, rfl, fun h => ?_⟩,
    ⟨_, .of_foldlM rfl, rfl, fun h => ?_⟩⟩
  · exact absurd h.increasing (by decide)
  · exact absurd (h.own_slot (blockAt 7, 5) (mem_singleton_self _)) (by decide)

end Massbit.IndexerApi
