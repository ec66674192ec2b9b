/-
The loop of an indexer around its block stream (`indexer_runtime.rs`).
-/
import Massbit.Solana.HandlerProxy
import Massbit.Stream.Firehose

open List

namespace Massbit.IndexerApi

open Solana (ExtBlock SolanaFilter Mapping StreamMessage IndexerRuntime largestSlot)

structure Source where
  address : Option String
  startBlock : ℤ
  deriving DecidableEq, Repr

structure DataSource where
  kind : String
  network : Option String
  name : String
  source : Source
  deriving DecidableEq, Repr

structure BlockRequest where
  indexerHash : String
  startBlockNumber : Option UInt64
  chainType : ChainType
  network : String
  filter : SolanaFilter
  deriving DecidableEq

def chainTypeOf (kind : String) : ChainType :=
  if kind.toList.takeWhile (· ≠ '/') = "ethereum".toList then .ethereum else .solana

def blockRequest (indexerHash : String) (dataSource : DataSource) (startBlock : Option UInt64) :
    BlockRequest where
  indexerHash := indexerHash
  startBlockNumber := startBlock
  chainType := chainTypeOf dataSource.kind
  network := dataSource.network.getD ""
  filter := .new dataSource.source.address.toList

/-- What is asked of `mapping_history_data`. -/
structure HistoryCall where
  fromBlock : UInt64
  lastSignature : Option (List UInt8)
  deriving DecidableEq, Repr

def historyCall (startBlock : Option UInt64) (blocks : List ExtBlock) : Option HistoryCall :=
  match blocks, startBlock with
  | block :: _, some startBlockNumber =>
    if block.blockNumber > startBlockNumber then
      some
        { fromBlock := startBlockNumber
          lastSignature := block.block.transactions.head?.bind fun tran =>
            tran.transaction.signatures.head? }
    else none
  | _, _ => none

inductive StreamResponse (S : Type) where
  | timeout
  | transportError
  | ended
  | unreadable
  | message (message : StreamMessage S)

structure MappingInput (S : Type) where
  created : Bool
  response : StreamResponse S

inductive PollResult where
  | message (blocks : List ExtBlock) (history : Option HistoryCall)
  | ended
  | failed
  deriving DecidableEq

inductive MappingEvent where
  | request (request : BlockRequest) (stream : Option ℕ)
  | poll (stream : ℕ) (result : PollResult)
  deriving DecidableEq

structure Mapper where
  runtime : IndexerRuntime
  optStream : Option ℕ := none
  streams : ℕ := 0
  log : List MappingEvent := []
  deriving DecidableEq

namespace Mapper

section

variable {S Modification : Type} (env : Mapping S Modification) (indexerHash : String)
  (dataSource : DataSource)

def start (gotBlock : ℤ) : Mapper where
  runtime := .start gotBlock

def pollStream (self : Mapper) (stream : ℕ) : StreamResponse S → Option Mapper
  | .message message =>
    (self.runtime.handleMessage env message).map fun runtime =>
      { self with
        runtime
        log := self.log ++ [.poll stream (.message message.blocks
          (historyCall self.runtime.startBlock message.blocks))] }
  | .unreadable => none
  | .ended => some { self with log := self.log ++ [.poll stream .ended] }
  | .timeout | .transportError =>
    some { self with optStream := none, log := self.log ++ [.poll stream .failed] }

def tryCreateBlockStream (self : Mapper) (created : Bool) : Mapper :=
  let stream := if created then some self.streams else none
  { self with
    optStream := stream
    streams := if created then self.streams + 1 else self.streams
    log := self.log ++
      [.request (blockRequest indexerHash dataSource self.runtime.startBlock) stream] }

def step (self : Mapper) (input : MappingInput S) : Option Mapper :=
  match self.optStream with
  | none => some (self.tryCreateBlockStream indexerHash dataSource input.created)
  | some stream => self.pollStream env stream input.response

/-- The loop comes to the state, from the start and with the inputs. -/
abbrev Takes (gotBlock : ℤ) (inputs : List (MappingInput S)) (s : Mapper) : Prop :=
  Run (step env indexerHash dataSource) (fun _ _ => True) (.start gotBlock) inputs s

end

end Mapper

section

variable {S Modification : Type} {env : Mapping S Modification} {indexerHash : String}
  {dataSource : DataSource}

theorem Mapper.step_log {s s' : Mapper} {i : MappingInput S}
    (h : s.step env indexerHash dataSource i = some s') :
    (∃ re st, s'.log = s.log ++ [.request re st]) ∨
    (∃ st bs, s'.log = s.log ++ [.poll st (.message bs (historyCall s.runtime.startBlock bs))]) ∨
    ∃ st r, (r = .ended ∨ r = .failed) ∧ s'.log = s.log ++ [.poll st r] := by
  rcases hs : s.optStream with - | st
  · rw [step, hs] at h
    cases h
    exact .inl ⟨_, _, rfl⟩
  · rw [step, hs] at h
    rcases hr : i.response with - | - | - | - | m
    · rw [hr] at h
      cases h
      exact .inr (.inr ⟨st, .failed, .inr rfl, rfl⟩)
    · rw [hr] at h
      cases h
      exact .inr (.inr ⟨st, .failed, .inr rfl, rfl⟩)
    · rw [hr] at h
      cases h
      exact .inr (.inr ⟨st, .ended, .inl rfl, rfl⟩)
    · rw [hr] at h
      cases h
    · rw [hr] at h
      obtain ⟨ru, -, rfl⟩ := Option.map_eq_some_iff.1 h
      exact .inr (.inl ⟨st, m.blocks, rfl⟩)

end

def PollResult.IsOver (self : PollResult) : Prop := self = .ended ∨ self = .failed

def reported (log : List MappingEvent) : List ℤ :=
  log.filterMap fun
    | .poll _ (.message blocks _) => some (largestSlot blocks)
    | .poll _ .ended | .poll _ .failed | .request _ _ => none

def startAfter (gotBlock : ℤ) (log : List MappingEvent) : Option UInt64 :=
  match (reported log).getLast? with
  | some slot => some (.ofInt (slot + 1))
  | none => if gotBlock ≥ 0 then some (.ofInt (gotBlock + 1)) else none

/-- After a stream is over it is not polled again, and another one is requested that starts right
after the last reported slot. -/
structure Reconnects (gotBlock : ℤ) (log : List MappingEvent) : Prop where
  next : ∀ {pre stream result event post}, log = pre ++ .poll stream result :: event :: post →
    result.IsOver → ∃ request created, event = .request request created ∧
        request.startBlockNumber = startAfter gotBlock pre
  not_again : ∀ {pre stream result mid result' post},
    log = pre ++ .poll stream result :: (mid ++ .poll stream result' :: post) → ¬result.IsOver

def MappingEvent.stream? : MappingEvent → Option ℕ
  | .request _ stream => stream
  | .poll stream (.message _ _) | .poll stream .ended => some stream
  | .poll _ .failed => none

def openStream (log : List MappingEvent) : Option ℕ := log.getLast?.bind MappingEvent.stream?

def createdStreams (log : List MappingEvent) : ℕ :=
  (log.filter fun
    | .request _ (some _) => true
    | .request _ none | .poll _ _ => false).length

structure CallsHistory (startBlock : Option UInt64) (blocks : List ExtBlock)
    (history : Option HistoryCall) : Prop where
  history_eq : history = historyCall startBlock blocks
  transactions_ne_nil : ∀ {first rest start}, blocks = first :: rest → startBlock = some start →
    start < first.blockNumber → first.block.transactions ≠ []

inductive Next (gotBlock : ℤ) (log : List MappingEvent) : MappingEvent → Prop
  | request {request : BlockRequest} {stream : Option ℕ} (hnone : openStream log = none)
      (hstart : request.startBlockNumber = startAfter gotBlock log)
      (hstream : stream = none ∨ stream = some (createdStreams log)) :
      Next gotBlock log (.request request stream)
  | poll {stream : ℕ} {result : PollResult} (hopen : openStream log = some stream)
      (hmessage : ∀ {blocks history}, result = .message blocks history →
        CallsHistory (startAfter gotBlock log) blocks history) :
      Next gotBlock log (.poll stream result)

inductive Traced (gotBlock : ℤ) : List MappingEvent → Prop
  | nil : Traced gotBlock []
  | snoc {log : List MappingEvent} {event : MappingEvent} (h : Traced gotBlock log)
      (hnext : Next gotBlock log event) : Traced gotBlock (log ++ [event])

section

variable {gotBlock : ℤ} {log : List MappingEvent} {event : MappingEvent}

theorem openStream_concat (log : List MappingEvent) (event : MappingEvent) :
    openStream (log ++ [event]) = event.stream? := by
  rw [openStream, List.getLast?_concat]
  rfl

theorem startAfter_concat_message (log : List MappingEvent) (s : ℕ) (bs : List ExtBlock)
    (h : Option HistoryCall) :
    startAfter gotBlock (log ++ [.poll s (.message bs h)]) =
      some (.ofInt (largestSlot bs + 1)) := by
  have hr : reported (log ++ [.poll s (.message bs h)]) =
      reported log ++ [largestSlot bs] := filterMap_append
  rw [startAfter, hr, List.getLast?_concat]

theorem startAfter_concat (h : reported [event] = []) (log : List MappingEvent) :
    startAfter gotBlock (log ++ [event]) = startAfter gotBlock log := by
  have hr : reported (log ++ [event]) = reported log ++ reported [event] := filterMap_append
  rw [startAfter, hr, h, append_nil]
  rfl

theorem createdStreams_concat (log : List MappingEvent) (event : MappingEvent) :
    createdStreams (log ++ [event]) = createdStreams log + createdStreams [event] := by
  rw [createdStreams, filter_append, length_append]
  rfl

/-- The log and the state of the loop. -/
structure Logged (gotBlock : ℤ) (s : Mapper) : Prop where
  traced : Traced gotBlock s.log
  optStream : s.optStream = openStream s.log
  streams : s.streams = createdStreams s.log
  startBlock : s.runtime.startBlock = startAfter gotBlock s.log

theorem ofInt_add_one (slot : ℤ) : UInt64.ofInt slot + 1 = UInt64.ofInt (slot + 1) := by
  rw [UInt64.ofInt_add]
  rfl

theorem Logged.start (gotBlock : ℤ) : Logged gotBlock (.start gotBlock) where
  traced := .nil
  optStream := rfl
  streams := rfl
  startBlock := by
    show (if gotBlock ≥ 0 then some (UInt64.ofInt gotBlock + 1) else none) =
      if gotBlock ≥ 0 then some (UInt64.ofInt (gotBlock + 1)) else none
    rw [ofInt_add_one]

theorem Logged.tryCreateBlockStream {s : Mapper} (h : Logged gotBlock s)
    (hn : s.optStream = none) (indexerHash : String) (dataSource : DataSource) (c : Bool) :
    Logged gotBlock (s.tryCreateBlockStream indexerHash dataSource c) where
  traced := by
    refine .snoc h.traced (.request (h.optStream.symm.trans hn) h.startBlock ?_)
    cases c with
    | false => exact .inl rfl
    | true => exact .inr (congrArg some h.streams)
  optStream := by
    show (if c then some s.streams else none) = openStream (s.log ++ [_])
    rw [openStream_concat]
    rfl
  streams := by
    show (if c then s.streams + 1 else s.streams) = createdStreams (_ ++ [_])
    rw [createdStreams_concat, h.streams]
    cases c <;> rfl
  startBlock := h.startBlock.trans (startAfter_concat rfl _).symm

section

variable {S Modification : Type} {env : Mapping S Modification}

theorem Logged.pollStream {s s' : Mapper} (h : Logged gotBlock s) {stream : ℕ}
    (hst : s.optStream = some stream) {response : StreamResponse S}
    (hp : s.pollStream env stream response = some s') : Logged gotBlock s' := by
  have ho : openStream s.log = some stream := h.optStream.symm.trans hst
  have ht : ∀ result, (∀ {blocks history}, result = .message blocks history →
      CallsHistory (startAfter gotBlock s.log) blocks history) →
      Traced gotBlock (s.log ++ [.poll stream result]) := fun _ hm =>
    .snoc h.traced (.poll ho hm)
  have hl : ∀ result, openStream (s.log ++ [.poll stream result]) =
      (MappingEvent.poll stream result).stream? := fun _ => openStream_concat _ _
  have hs : ∀ result, s.streams = createdStreams (s.log ++ [.poll stream result]) := by
    intro result
    rw [createdStreams_concat]
    exact h.streams
  cases response with
  | message message =>
    obtain ⟨runtime, hr, rfl⟩ := Option.map_eq_some_iff.1 hp
    have hc : CallsHistory (startAfter gotBlock s.log) message.blocks
        (historyCall s.runtime.startBlock message.blocks) := by
      rw [← h.startBlock]
      exact ⟨rfl, fun hb hsr => IndexerRuntime.transactions_ne_nil hr hb hsr⟩
    refine ⟨ht _ ?_, hst.trans (hl (.message _ _)).symm, hs _, ?_⟩
    · rintro _ _ ⟨⟩
      exact hc
    rw [startAfter_concat_message, IndexerRuntime.handleMessage_eq hr, ← ofInt_add_one]
  | unreadable => cases hp
  | ended =>
    cases hp
    exact ⟨ht _ nofun, hst.trans (hl .ended).symm, hs _,
      h.startBlock.trans (startAfter_concat rfl _).symm⟩
  | timeout =>
    cases hp
    exact ⟨ht _ nofun, (hl .failed).symm, hs _, h.startBlock.trans (startAfter_concat rfl _).symm⟩
  | transportError =>
    cases hp
    exact ⟨ht _ nofun, (hl .failed).symm, hs _, h.startBlock.trans (startAfter_concat rfl _).symm⟩

theorem Logged.of_run {indexerHash : String} {dataSource : DataSource} {ins : List (MappingInput S)}
    {s : Mapper} (hr : Mapper.Takes env indexerHash dataSource gotBlock
      ins s) : Logged gotBlock s := by
  apply Run.invariant (I := fun _ s => Logged gotBlock s) hr (Logged.start gotBlock)
  intro _ s i s' h _ hst
  rcases hs : s.optStream with - | st
  · rw [Mapper.step, hs] at hst
    cases hst
    exact h.tryCreateBlockStream hs indexerHash dataSource i.created
  · rw [Mapper.step, hs] at hst
    exact h.pollStream hs hst

end

namespace Traced

theorem next_of_eq (h : Traced gotBlock log) :
    ∀ {pre post}, log = pre ++ event :: post → Next gotBlock pre event := by
  induction h with
  | nil =>
    intro pre post heq
    exact absurd heq.symm (append_ne_nil_of_right_ne_nil _ (cons_ne_nil _ _))
  | @snoc log last h hn ih =>
    intro pre post heq
    rcases eq_nil_or_concat post with rfl | ⟨post, last', rfl⟩
    · obtain ⟨rfl, hlast⟩ := append_inj' heq rfl
      exact (List.cons.inj hlast).1 ▸ hn
    · rw [concat_eq_append, ← cons_append, ← append_assoc] at heq
      exact ih (append_inj' heq rfl).1

theorem of_append : ∀ {post pre : List MappingEvent}, Traced gotBlock (pre ++ post) →
    Traced gotBlock pre := by
  intro post
  induction post using List.reverseRecOn with
  | nil => exact fun h => by rwa [append_nil] at h
  | append_singleton post last ih =>
    intro pre h
    rw [← append_assoc] at h
    generalize hl : pre ++ post ++ [last] = log at h
    cases h with
    | nil => exact absurd hl (append_ne_nil_of_right_ne_nil _ (cons_ne_nil _ _))
    | snoc h hn =>
      obtain ⟨rfl, -⟩ := append_inj' hl rfl
      exact ih h

variable {stream : ℕ}

theorem openStream_lt (h : Traced gotBlock log) (ho : openStream log = some stream) :
    stream < createdStreams log := by
  induction h generalizing stream with
  | nil => cases ho
  | @snoc log event h hn ih =>
    rw [openStream_concat] at ho
    rw [createdStreams_concat]
    cases hn with
    | request _ _ hs =>
      obtain rfl : _ = some stream := ho
      rcases hs with hs | hs
      · cases hs
      · cases hs
        exact Nat.lt_succ_self _
    | @poll stream' result ho' =>
      have hlt := ih ho'
      cases result with
      | message bs hi =>
        cases ho
        exact hlt
      | ended =>
        cases ho
        exact hlt
      | failed => cases ho

theorem openStream_ne {pre mid : List MappingEvent}
    (h : Traced gotBlock (pre ++ .poll stream .failed :: mid)) :
    openStream (pre ++ .poll stream .failed :: mid) ≠ some stream := by
  have hlt : stream < createdStreams pre := by
    cases h.next_of_eq rfl with
    | poll ho _ => exact (of_append h).openStream_lt ho
  -- the induction is on what comes after the failure
  induction mid using List.reverseRecOn with
  | nil =>
    rw [openStream_concat]
    nofun
  | append_singleton mid last ih =>
    have ha : pre ++ .poll stream .failed :: (mid ++ [last]) =
        (pre ++ .poll stream .failed :: mid) ++ [last] := by simp
    rw [ha] at h ⊢
    have hb := ih (of_append h)
    rw [openStream_concat]
    cases h.next_of_eq rfl with
    | request _ _ hs =>
      rintro (rfl : _ = some stream)
      rcases hs with hs | hs
      · cases hs
      · -- a new stream has a number of its own
        have heq := Option.some.inj hs
        have hle : createdStreams pre ≤ createdStreams (pre ++ .poll stream .failed :: mid) :=
          ((sublist_append_left pre _).filter _).length_le
        omega
    | @poll stream' result ho' =>
      intro ho
      cases result with
      | message bs hi => exact hb (ho'.trans ho)
      | ended => exact hb (ho'.trans ho)
      | failed => cases ho

end Traced

/-- A stream ends in the orderly way only as the last thing. -/
def EndsLast (log : List MappingEvent) : Prop :=
  ∀ pre stream event post, log ≠ pre ++ .poll stream .ended :: event :: post

theorem EndsLast.eq_failed (h : EndsLast log) {pre post : List MappingEvent} {s : ℕ}
    {r : PollResult} (heq : log = pre ++ .poll s r :: event :: post)
    (ho : r.IsOver) : r = .failed := by
  rcases ho with rfl | rfl
  · exact absurd heq (h pre s event post)
  · rfl

theorem Traced.reconnects (h : Traced gotBlock log) (he : EndsLast log) :
    Reconnects gotBlock log := by
  constructor
  · intro pre s r event post heq hov
    obtain rfl := he.eq_failed heq hov
    have hs : log = (pre ++ [.poll s .failed]) ++ event :: post := by
      rw [heq, append_assoc]
      rfl
    have hn := h.next_of_eq hs
    cases hn with
    | request _ hst _ => exact ⟨_, _, rfl, hst.trans (startAfter_concat rfl _)⟩
    | poll ho _ =>
      rw [openStream_concat] at ho
      cases ho
  · intro pre s r mid r' post heq hov
    obtain ⟨event, rest, hr⟩ : ∃ event rest, mid ++ .poll s r' :: post = event :: rest := by
      cases mid with
      | nil => exact ⟨_, _, rfl⟩
      | cons event mid => exact ⟨_, _, rfl⟩
    obtain rfl := he.eq_failed (heq.trans (by rw [hr])) hov
    have hs : log = (pre ++ .poll s .failed :: mid) ++ .poll s r' :: post := by
      rw [heq]
      simp
    rw [hs] at h
    cases h.next_of_eq rfl with
    | poll ho _ => exact h.of_append.openStream_ne ho

theorem Traced.endsLast (h : Traced gotBlock log) (hc : Reconnects gotBlock log) :
    EndsLast log := by
  intro pre stream event post heq
  obtain ⟨request, created, rfl, -⟩ := hc.next heq (.inl rfl)
  have hs : log = (pre ++ [.poll stream .ended]) ++ .request request created :: post := by
    rw [heq, append_assoc]
    rfl
  cases h.next_of_eq hs with
  | request hn _ _ =>
    rw [openStream_concat] at hn
    cases hn

end

/-- **Streams that are over are replaced if and only if none ends in the orderly way**, except as
the last thing: that end is taken for a success. -/
theorem reconnects_iff {S Modification : Type} {env : Mapping S Modification} {indexerHash : String}
    {dataSource : DataSource} {gotBlock : ℤ} {inputs : List (MappingInput S)} {s : Mapper}
    (hrun : Mapper.Takes env indexerHash dataSource gotBlock inputs s) :
    Reconnects gotBlock s.log ↔ EndsLast s.log := by
  have h := (Logged.of_run hrun).traced
  exact ⟨h.endsLast, h.reconnects⟩

def solanaSource : DataSource := ⟨"solana/contract", none, "contract", ⟨none, 0⟩⟩

theorem reconnects_after_timeout :
    ∃ s, Mapper.Takes (Solana.mappingOf (.ok ()) (.ok ())) "hash" solanaSource 4
        [⟨true, .timeout⟩, ⟨true, .timeout⟩, ⟨true, .timeout⟩] s ∧
      s.log = [.request (blockRequest "hash" solanaSource (some 5)) (some 0), .poll 0 .failed,
        .request (blockRequest "hash" solanaSource (some 5)) (some 1)] ∧
      Reconnects 4 s.log := by
  have hr : ∃ s, Mapper.Takes (Solana.mappingOf (.ok ()) (.ok ())) "hash" solanaSource 4
      [⟨true, .timeout⟩, ⟨true, .timeout⟩, ⟨true, .timeout⟩] s ∧
      s.log = [.request (blockRequest "hash" solanaSource (some 5)) (some 0), .poll 0 .failed,
        .request (blockRequest "hash" solanaSource (some 5)) (some 1)] :=
    ⟨_, .of_foldlM rfl, rfl⟩
  obtain ⟨s, hr, hl⟩ := hr
  refine ⟨s, hr, hl, (reconnects_iff hr).2 fun pre stream event post heq => ?_⟩
  have hm : .poll stream .ended ∈ s.log := heq ▸ mem_append_right pre mem_cons_self
  rw [hl] at hm
  simp at hm

theorem ended_stream_polled_again :
    ∃ s, Mapper.Takes (Solana.mappingOf (.ok ()) (.ok ())) "hash" solanaSource 4
        [⟨true, .ended⟩, ⟨true, .ended⟩, ⟨true, .timeout⟩] s ∧
      s.log = [.request (blockRequest "hash" solanaSource (some 5)) (some 0), .poll 0 .ended,
        .poll 0 .failed] ∧
      ¬Reconnects 4 s.log := by
  refine ⟨_, .of_foldlM rfl, rfl, fun h => ?_⟩
  have hl : [.request (blockRequest "hash" solanaSource (some 5)) (some 0),
      .poll 0 .ended, .poll 0 .failed] =
      [.request (blockRequest "hash" solanaSource (some 5)) (some 0)] ++
        MappingEvent.poll 0 .ended :: .poll 0 .failed :: [] := rfl
  obtain ⟨request, c, he, -⟩ := h.next hl (.inl rfl)
  cases he

end Massbit.IndexerApi
