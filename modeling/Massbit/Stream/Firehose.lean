/-
`FirehoseBlockStream`.
-/
import Massbit.Lib.PollLoop
import Massbit.Store.Interface

open List

namespace Massbit

inductive ChainType where
  | solana
  | ethereum
  deriving DecidableEq, Repr

structure BlockRequest where
  startBlockNumber : Option ℕ
  chainType : ChainType
  network : String
  filter : List UInt8
  deriving DecidableEq, Repr

inductive ConnectionFuture where
  | waiting (request : BlockRequest)
  | completed
  deriving DecidableEq, Repr

structure Streaming (B : Type) where
  request : BlockRequest
  served : List B

inductive FirehoseState (B : Type) where
  | disconnected
  | connecting (streamConnection : ConnectionFuture)
  | connected (streaming : Streaming B)

structure FirehoseBlockStreamContext (R B E : Type) where
  toBlockStreamEvent : R → Except E B
  network : String
  filterBytes : Except E (List UInt8)
  startBlock : BlockNumber

structure FirehoseBlockStream (R B E : Type) where
  state : FirehoseState B
  ctx : FirehoseBlockStreamContext R B E
  connectionAttempts : ℕ

structure FirehoseAnswer (R E : Type) where
  connection : Poll (Except E Unit)
  item : Poll (Option (Except E R))

inductive FirehoseEvent (B E : Type) where
  | request (request : BlockRequest)
  | connected
  | connectFailed (e : E)
  | lost
  | retry (seconds : ℕ)
  | yielded (block : B)
  | repolled

/-- What a call of `poll_next` ends with. -/
inductive FirehoseResult (B E : Type) where
  | pending
  | block (block : B)
  | error (e : E)
  | panicked

def waitDuration (attemptNumber : ℕ) : ℕ :=
  let pow := if attemptNumber > 5 then 5 else attemptNumber
  2 <<< pow

def asU64 (x : ℤ) : ℕ := (x % 2 ^ 64).toNat

namespace FirehoseBlockStream

variable {R B E : Type}

def new (ctx : FirehoseBlockStreamContext R B E) : FirehoseBlockStream R B E :=
  ⟨.disconnected, ctx, 0⟩

def blockRequest (self : FirehoseBlockStream R B E) (filter : List UInt8) : BlockRequest :=
  ⟨some (asU64 self.ctx.startBlock), .ethereum, self.ctx.network, filter⟩

def scheduleErrorRetry (self : FirehoseBlockStream R B E) (events : List (FirehoseEvent B E)) :
    Turn (FirehoseBlockStream R B E) (FirehoseEvent B E) (FirehoseResult B E) :=
  let connectionAttempts := self.connectionAttempts + 1
  ⟨{ self with connectionAttempts }, events ++ [.retry (waitDuration connectionAttempts)],
    some .pending⟩

def turn (self : FirehoseBlockStream R B E) (answer : FirehoseAnswer R E) :
    Turn (FirehoseBlockStream R B E) (FirehoseEvent B E) (FirehoseResult B E) :=
  match self.state with
  | .disconnected =>
    match self.ctx.filterBytes with
    | .error e => ⟨self, [], some (.error e)⟩
    | .ok filter =>
      let request := self.blockRequest filter
      match answer.connection with
      | .ready (.ok ()) =>
        ⟨{ self with state := .connected ⟨request, []⟩, connectionAttempts := 0 },
          [.request request, .connected], none⟩
      | .ready (.error e) => self.scheduleErrorRetry [.request request, .connectFailed e]
      | .pending =>
        ⟨{ self with state := .connecting (.waiting request) }, [.request request], some .pending⟩
  | .connecting (.waiting request) =>
    match answer.connection with
    | .ready (.ok ()) =>
      ⟨{ self with state := .connected ⟨request, []⟩ }, [.connected], none⟩
    | .ready (.error e) =>
      -- the state keeps the future
      scheduleErrorRetry { self with state := .connecting .completed } [.connectFailed e]
    | .pending => ⟨self, [], some .pending⟩
  -- a future resumed after completion
  | .connecting .completed => ⟨self, [.repolled], some .panicked⟩
  | .connected streaming =>
    match answer.item with
    | .ready (some (.ok response)) =>
      match self.ctx.toBlockStreamEvent response with
      | .ok event =>
        ⟨{ self with state := .connected { streaming with served := streaming.served ++ [event] } },
          [.yielded event], some (.block event)⟩
      | .error _ => scheduleErrorRetry { self with state := .disconnected } [.lost]
    | .ready (some (.error _)) => scheduleErrorRetry { self with state := .disconnected } [.lost]
    | .ready none => scheduleErrorRetry { self with state := .disconnected } [.lost]
    | .pending => ⟨self, [], some .pending⟩

def blocks (rs : List (FirehoseResult B E)) : List B :=
  rs.filterMap fun
    | .block b => some b
    | .pending | .error _ | .panicked => none

def Yields (self : FirehoseBlockStream R B E) (answer : FirehoseAnswer R E)
    (streaming : Streaming B) (block : B) : Prop :=
  self.state = .connected streaming ∧ ∃ response, answer.item = .ready (some (.ok response)) ∧
    self.ctx.toBlockStreamEvent response = .ok block

variable (number : B → ℤ)

/-- The endpoint serves blocks in increasing order from the start block of the request. -/
def EndpointServes (self : FirehoseBlockStream R B E) (answer : FirehoseAnswer R E) : Prop :=
  ∀ {streaming block}, self.Yields answer streaming block →
    (∀ start ∈ streaming.request.startBlockNumber, start ≤ number block) ∧
      ∀ earlier ∈ streaming.served, number earlier < number block

/-- All blocks that were handed out before came over the same connection. -/
def OneConnection (s : Polled (FirehoseBlockStream R B E) (FirehoseEvent B E)
    (FirehoseResult B E)) (answer : FirehoseAnswer R E) : Prop :=
  ∀ {streaming block}, s.state.Yields answer streaming block → blocks s.results = streaming.served

variable {number}

theorem turn_blocks (self : FirehoseBlockStream R B E) (a : FirehoseAnswer R E) :
    (∃ s b, self.Yields a s b ∧
      blocks (self.turn a).result.toList = [b]) ∨
      blocks (self.turn a).result.toList = [] := by
  fun_cases turn self a
  case case9 s hs response hi event he =>
    exact .inl ⟨s, event, ⟨hs, response, hi, he⟩, rfl⟩
  all_goals exact .inr rfl

/-- **Blocks come once, over one connection.** If the endpoint serves increasing blocks from each
start block, and no block is handed out over another connection than those before it, the numbers
strictly increase. -/
theorem blocks_increasing_of_run {ctx : FirehoseBlockStreamContext R B E}
    {answers : List (FirehoseAnswer R E)}
    {s : Polled (FirehoseBlockStream R B E) (FirehoseEvent B E) (FirehoseResult B E)}
    (hrun : Run (Polled.step turn)
      (fun s answer => s.state.EndpointServes number answer ∧ OneConnection s answer)
      (.start (new ctx)) answers s) :
    ((blocks s.results).map number).Pairwise (· < ·) := by
  refine Polled.invariant (I := fun _ _ rs => ((blocks rs).map number).Pairwise (· < ·)) hrun
    .nil ?_
  intro s es rs answer hI hok
  have ha : blocks (rs ++ (s.turn answer).result.toList)
      = blocks rs ++ blocks (s.turn answer).result.toList := filterMap_append
  rw [ha]
  rcases s.turn_blocks answer with ⟨st, block, hy, hb⟩ | hno
  · -- the new block comes after those of the connection, and these are all
    rw [hb, map_append, pairwise_append]
    refine ⟨hI, pairwise_singleton _ _, ?_⟩
    intro n hn n' hn'
    obtain rfl : n' = number block := by simpa using hn'
    obtain ⟨e, he, rfl⟩ := mem_map.1 hn
    rw [show blocks rs = st.served from hok.2 hy] at he
    exact (hok.1 hy).2 e he
  · rw [hno, append_nil]
    exact hI

/-- No completed future is polled, after a failed attempt the next poll starts a new one, and a
connection resets the count of attempts. -/
structure KeepsContract (s : FirehoseBlockStream R B E) (answer : FirehoseAnswer R E) :
    Prop where
  polled_once : .repolled ∉ (s.turn answer).events
  starts_anew : ∀ e, .connectFailed e ∈ (s.turn answer).events →
    ∀ next, ∃ request, .request request ∈ ((s.turn answer).state.turn next).events
  attempts_reset : .connected ∈ (s.turn answer).events →
    (s.turn answer).state.connectionAttempts = 0

/-- In `Connecting` no attempt fails, and one succeeds only if none failed before. -/
def NoLateFailure (self : FirehoseBlockStream R B E) (answer : FirehoseAnswer R E) : Prop :=
  ∀ future, self.state = .connecting future →
    match answer.connection with
    | .pending => True
    | .ready (.error _) => False
    | .ready (.ok _) => self.connectionAttempts = 0

variable {self : FirehoseBlockStream R B E}

theorem request_mem_of_disconnected (h : self.state = .disconnected) {filter : List UInt8}
    (hf : self.ctx.filterBytes = .ok filter) (next : FirehoseAnswer R E) :
    .request (self.blockRequest filter) ∈ (self.turn next).events := by
  rw [turn, h]
  rw [hf]
  rcases next.connection with - | (e | u) <;> simp [scheduleErrorRetry]

theorem keepsContract_iff_noLateFailure (h : self.state ≠ .connecting .completed)
    (answer : FirehoseAnswer R E) : self.KeepsContract answer ↔ self.NoLateFailure answer := by
  constructor
  · rintro hk (r | -) hs
    · rcases hc : answer.connection with - | (e | u)
      · trivial
      · -- the failed future is kept, so the next poll does not start anew
        obtain ⟨r', hm⟩ := hk.starts_anew e (by simp [turn, hs, hc, scheduleErrorRetry]) answer
        simp [turn, hs, hc, scheduleErrorRetry] at hm
      · have hr := hk.attempts_reset (by simp [turn, hs, hc])
        simpa [turn, hs, hc] using hr
    · exact absurd hs h
  · intro hno
    refine ⟨?_, fun e => ?_, ?_⟩
    · fun_cases turn self answer
      case case8 hs => exact absurd hs h
      all_goals simp [scheduleErrorRetry]
    · fun_cases turn self answer
      case case3 hs filter hfi _ _ _ =>
        refine fun _ next => ⟨self.blockRequest filter, ?_⟩
        apply request_mem_of_disconnected
        · exact hs
        · exact hfi
      case case6 hs e hc =>
        have hf := hno _ hs
        rw [hc] at hf
        exact hf.elim
      all_goals simp [scheduleErrorRetry]
    · fun_cases turn self answer
      case case5 r hs hc =>
        have hz := hno _ hs
        rw [hc] at hz
        exact fun _ => hz
      all_goals simp [scheduleErrorRetry]

theorem turn_state_ne_completed (h : self.state ≠ .connecting .completed)
    {a : FirehoseAnswer R E} (hno : self.NoLateFailure a) :
    (self.turn a).state.state ≠ .connecting .completed := by
  fun_cases turn self a
  case case6 hs e hc =>
    have hf := hno _ hs
    rw [hc] at hf
    exact hf.elim
  all_goals first | exact h | exact nofun

/-- **When connection attempts are handled as they should be**: if and only if no attempt fails in
`Connecting`, and one succeeds there only if none failed before. -/
theorem keepsContract_iff (ctx : FirehoseBlockStreamContext R B E)
    (answers : List (FirehoseAnswer R E))
    (s : Polled (FirehoseBlockStream R B E) (FirehoseEvent B E) (FirehoseResult B E)) :
    Run (Polled.step turn) (fun s answer => s.state.KeepsContract answer) (.start (new ctx))
        answers s ↔
      Run (Polled.step turn) (fun s answer => s.state.NoLateFailure answer) (.start (new ctx))
        answers s := by
  constructor
  · intro hr
    refine hr.mono (I := fun s => s.state.state ≠ .connecting .completed) nofun ?_ ?_
    · intro s answer s' hI hk hs
      cases hs
      exact turn_state_ne_completed hI ((keepsContract_iff_noLateFailure hI answer).1 hk)
    · intro s answer hI hk
      exact (keepsContract_iff_noLateFailure hI answer).mp hk
  · intro hr
    refine hr.mono (I := fun s => s.state.state ≠ .connecting .completed) nofun ?_ ?_
    · intro s answer s' hI hno hs
      cases hs
      exact turn_state_ne_completed hI hno
    · intro s answer hI hno
      exact (keepsContract_iff_noLateFailure hI answer).mpr hno

section Example

def numberStream : FirehoseBlockStreamContext ℤ ℤ String := ⟨.ok, "mainnet", .ok [], 5⟩

def sends (n : ℤ) : FirehoseAnswer ℤ String := ⟨.ready (.ok ()), .ready (some (.ok n))⟩

def breaks : FirehoseAnswer ℤ String := ⟨.ready (.error "down"), .ready none⟩

def waits : FirehoseAnswer ℤ String := ⟨.pending, .pending⟩

theorem endpointServes_sends {s : List ℤ} {ats : ℕ} {n : ℤ} (hsr : 5 ≤ n) (hse : ∀ m ∈ s, m < n) :
    (⟨.connected ⟨(new numberStream).blockRequest [], s⟩, numberStream, ats⟩ :
      FirehoseBlockStream ℤ ℤ String).EndpointServes (fun n => n) (sends n) := by
  rintro st block ⟨hst, response, hi, he⟩
  injection hst with hst
  subst hst
  obtain rfl : n = response := by
    injection hi with h
    injection h with h
    injection h
  obtain rfl : n = block := Except.ok.inj he
  refine ⟨?_, hse⟩
  intro start hs
  obtain rfl : asU64 5 = start := Option.some.inj hs
  exact hsr

theorem block_twice_after_reconnect :
    ∃ s : Polled (FirehoseBlockStream ℤ ℤ String) (FirehoseEvent ℤ String)
        (FirehoseResult ℤ String),
      Run (Polled.step turn) (fun s answer => s.state.EndpointServes (fun n => n) answer)
        (.start (new numberStream)) [sends 5, sends 5, breaks, sends 5, sends 5] s ∧
      blocks s.results = [5, 5] := by
  have hi {s : FirehoseBlockStream ℤ ℤ String} {answer : FirehoseAnswer ℤ String}
      (h : ∀ st b, ¬ s.Yields answer st b) :
      s.EndpointServes (fun n => n) answer := fun hy => (h _ _ hy).elim
  refine ⟨_, .cons (hi ?_) rfl
    (.cons (endpointServes_sends (by decide) (forall_mem_nil _)) rfl
      (.cons (hi ?_) rfl (.cons (hi ?_) rfl
        (.cons (endpointServes_sends (by decide) (forall_mem_nil _)) rfl (.nil _))))), rfl⟩
  · rintro st b ⟨hs, -⟩
    cases hs
  · rintro st b ⟨-, r, hit, -⟩
    cases hit
  · rintro st b ⟨hs, -⟩
    cases hs

theorem blocks_increasing_five_seven :
    ∃ s : Polled (FirehoseBlockStream ℤ ℤ String) (FirehoseEvent ℤ String)
        (FirehoseResult ℤ String),
      Run (Polled.step turn)
        (fun s answer => s.state.EndpointServes (fun n => n) answer ∧ OneConnection s answer)
        (.start (new numberStream)) [sends 5, sends 5, sends 7] s ∧
      blocks s.results = [5, 7] ∧ ((blocks s.results).map fun n => n).Pairwise (· < ·) := by
  obtain ⟨s, hr, hs⟩ : ∃ s : Polled (FirehoseBlockStream ℤ ℤ String) (FirehoseEvent ℤ String)
      (FirehoseResult ℤ String), Run (Polled.step turn)
        (fun s answer => s.state.EndpointServes (fun n => n) answer ∧ OneConnection s answer)
        (.start (new numberStream)) [sends 5, sends 5, sends 7] s ∧ blocks s.results = [5, 7] := by
    refine ⟨_, .cons ⟨?_, ?_⟩ rfl
      (.cons ⟨endpointServes_sends (by decide) (forall_mem_nil _), ?_⟩ rfl
        (.cons ⟨endpointServes_sends (by decide) (by decide), ?_⟩ rfl (.nil _))), rfl⟩
    · rintro st b ⟨hst, -⟩
      cases hst
    · rintro st b ⟨hst, -⟩
      cases hst
    · rintro st b ⟨hst, -⟩
      injection hst with hst
      exact hst ▸ rfl
    · rintro st b ⟨hst, -⟩
      injection hst with hst
      exact hst ▸ rfl
  exact ⟨s, hr, hs, blocks_increasing_of_run hr⟩

theorem repolled_after_late_failure :
    ∃ s : Polled (FirehoseBlockStream ℤ ℤ String) (FirehoseEvent ℤ String)
        (FirehoseResult ℤ String),
      Run (Polled.step turn) (fun _ _ => True) (.start (new numberStream))
        [waits, breaks, waits] s ∧
      s.events = [.request ((new numberStream).blockRequest []), .connectFailed "down",
        .retry 4, .repolled] ∧ s.results = [.pending, .pending, .panicked] :=
  ⟨_, .cons trivial rfl (.cons trivial rfl (.cons trivial rfl (.nil _))), rfl, rfl⟩

end Example

end FirehoseBlockStream

end Massbit
