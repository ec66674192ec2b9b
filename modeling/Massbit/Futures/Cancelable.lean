/-
Cancelable streams and futures, and their guards (`ext/futures.rs`).
-/
import Massbit.Lib.Outcome
import Massbit.Lib.PollLoop

open List

namespace Massbit.Futures

inductive Sender where
  | held
  | sent
  | dropped

inductive FusedReceiver where
  | incomplete
  | complete
  deriving DecidableEq

def FusedReceiver.poll : FusedReceiver → Sender → Poll (Except Unit Unit) × FusedReceiver
  | incomplete, .held => (.pending, incomplete)
  | incomplete, .sent => (.ready (.ok ()), complete)
  | incomplete, .dropped => (.ready (.error ()), complete)
  -- a fused future is not polled again
  | complete, _ => (.pending, complete)

structure Cancelable (A : Type) where
  inner : ℕ → Poll A
  polled : ℕ
  cancelReceiver : FusedReceiver
  onCancel : A

variable {A B : Type}

def Cancelable.poll (self : Cancelable A) (sender : Sender) :
    Outcome Empty (Poll A) × Cancelable A :=
  match self.cancelReceiver.poll sender with
  | (.ready (.ok _), cancelReceiver) => (.panic, { self with cancelReceiver })
  | (.ready (.error _), cancelReceiver) => (.ok (.ready self.onCancel), { self with cancelReceiver })
  | (.pending, cancelReceiver) =>
    (.ok (self.inner self.polled), { self with cancelReceiver, polled := self.polled + 1 })

namespace Cancelable

variable (self : Cancelable A)

theorem poll_held :
    self.poll .held = (.ok (self.inner self.polled), { self with polled := self.polled + 1 }) := by
  rcases self with ⟨inn, polled, - | -, oc⟩ <;> rfl

variable {self : Cancelable A}

theorem poll_complete (h : self.cancelReceiver = .complete) (s : Sender) :
    self.poll s = (.ok (self.inner self.polled), { self with polled := self.polled + 1 }) := by
  rcases self with ⟨inn, polled, - | -, oc⟩
  · cases h
  · rfl

theorem poll_dropped (h : self.cancelReceiver = .incomplete) :
    self.poll .dropped = (.ok (.ready self.onCancel), { self with cancelReceiver := .complete }) := by
  rcases self with ⟨inn, p, - | -, oc⟩
  · rfl
  · cases h

end Cancelable

structure CancelGuard where
  cancelSenders : List ℕ

def CancelGuard.new : CancelGuard := ⟨[]⟩

def CancelGuard.addCancelSender (self : CancelGuard) (cancelSender : ℕ) : CancelGuard :=
  ⟨self.cancelSenders ++ [cancelSender]⟩

structure SharedCancelGuard where
  guard : Option CancelGuard

def SharedCancelGuard.new : SharedCancelGuard := ⟨none⟩

structure Task (A : Type) where
  dummy : Bool
  cancelable : Cancelable A

structure Entry (A : Type) where
  index : ℕ
  dummy : Bool
  canceled : Bool
  before : Cancelable A
  result : Outcome Empty (Poll A)
  after : Cancelable A

structure World (A : Type) where
  guard : Option CancelGuard
  canceled : Bool
  tasks : List (Task A)
  log : List (Entry A)

inductive Op (A : Type) where
  | cancelable (dummy : Bool) (inner : ℕ → Poll A) (onCancel : A)
  | cancel
  | poll (index : ℕ)

namespace World

def new (guard : Option CancelGuard) : World A := ⟨guard, false, [], []⟩

def isCanceled (self : World A) : Bool := self.guard.isNone

def sender (self : World A) (index : ℕ) (dummy : Bool) : Sender :=
  if dummy then .sent
  else if ∃ guard ∈ self.guard, index ∈ guard.cancelSenders then .held
  else .dropped

def poll (self : World A) (index : ℕ) (task : Task A) : Entry A :=
  let polled := task.cancelable.poll (self.sender index task.dummy)
  ⟨index, task.dummy, self.canceled, task.cancelable, polled.1, polled.2⟩

def step (self : World A) : Op A → World A
  | .cancelable dummy inner onCancel =>
    { self with
      guard := if dummy then self.guard
        -- without a guard, the sender is dropped
        else self.guard.map fun guard => guard.addCancelSender self.tasks.length
      tasks := self.tasks ++ [⟨dummy, inner, 0, .incomplete, onCancel⟩] }
  | .cancel => { self with guard := none, canceled := true }
  | .poll index =>
    match self.tasks[index]? with
    | none => self
    | some task =>
      { self with
        tasks := self.tasks.set index ⟨task.dummy, (self.poll index task).after⟩
        log := self.log ++ [self.poll index task] }

def run (self : World A) (ops : List (Op A)) : World A := ops.foldl step self

end World

def Entry.isLate (e : Entry A) : Bool := e.canceled && !e.dummy

/-- What a poll should do: yield `on_cancel` after the cancellation, and poll the inner stream
before it. -/
def Entry.Right (e : Entry A) : Prop :=
  if e.isLate then
    e.result = .ok (.ready e.before.onCancel) ∧ e.after.polled = e.before.polled
  else
    e.result = .ok (e.before.inner e.before.polled) ∧ e.after.polled = e.before.polled + 1

namespace World

variable {w : World A} {task : Task A} {i : ℕ}

theorem run_invariant {I : World A → Prop} (h0 : I w) (hs : ∀ w op, I w → I (w.step op))
    (ops : List (Op A)) : I (w.run ops) :=
  List.foldlRecOn ops step h0 fun w hw op _ => hs w op hw

structure Guarded (w : World A) : Prop where
  owns : w.canceled = false → ∃ guard, w.guard = some guard ∧
    ∀ {i task}, w.tasks[i]? = some task → task.dummy = false → i ∈ guard.cancelSenders
  gone : w.canceled = true → w.guard = none
  complete_iff : ∀ {i task}, w.tasks[i]? = some task → task.dummy = false →
    (task.cancelable.cancelReceiver = .complete ↔ ∃ e ∈ w.log, e.isLate ∧ e.index = i)
  index_lt : ∀ e ∈ w.log, e.index < w.tasks.length
  right_iff : (∀ e ∈ w.log, e.dummy = false → e.Right) ↔
    ((w.log.filter Entry.isLate).map Entry.index).Nodup

theorem Guarded.sender (h : w.Guarded) (ht : w.tasks[i]? = some task) (hd : task.dummy = false) :
    w.sender i task.dummy = if w.canceled then .dropped else .held := by
  rcases hc : w.canceled with - | -
  · obtain ⟨g, hg, ho⟩ := h.owns hc
    simp [World.sender, hd, hg, ho ht hd]
  · simp [World.sender, hd, h.gone hc]

theorem getElem?_concat {T : Type} {l : List T} {a b : T} {i : ℕ} (h : (l ++ [a])[i]? = some b) :
    l[i]? = some b ∨ i = l.length ∧ a = b := by
  rw [List.getElem?_append] at h
  split at h
  · exact .inl h
  · obtain ⟨hi, heq⟩ := List.getElem?_eq_some_iff.mp h
    rw [getElem_singleton] at heq
    rw [length_singleton] at hi
    exact .inr ⟨by omega, heq⟩

theorem Guarded.cancelable (h : w.Guarded) (dummy : Bool) (inner : ℕ → Poll A) (onCancel : A) :
    (w.step (.cancelable dummy inner onCancel)).Guarded where
  owns := by
    intro hc
    obtain ⟨guard, hg, ho⟩ := h.owns hc
    rcases dummy with - | -
    · refine ⟨guard.addCancelSender w.tasks.length, by simp [step, hg], fun {i task} hi hd => ?_⟩
      rcases getElem?_concat hi with hi | ⟨rfl, -⟩
      · exact mem_append_left _ (ho hi hd)
      · exact mem_append_right _ mem_cons_self
    · refine ⟨guard, by simp [step, hg], fun {i task} hi hd => ?_⟩
      rcases getElem?_concat hi with hi | ⟨-, rfl⟩
      · exact ho hi hd
      · cases hd
  gone hc := by simp [step, h.gone hc]
  complete_iff := by
    intro i task hi hd
    rcases getElem?_concat hi with hi | ⟨rfl, rfl⟩
    · exact h.complete_iff hi hd
    · -- nothing was polled under the new number
      refine ⟨nofun, fun ⟨e, he, _, hin⟩ => ?_⟩
      exact absurd (h.index_lt e he) (by omega)
  index_lt e he := by
    have hlt := h.index_lt e he
    simp only [step, length_append, length_singleton]
    omega
  right_iff := h.right_iff

theorem Guarded.right_poll_iff (h : w.Guarded) (ht : w.tasks[i]? = some task)
    (hd : task.dummy = false) : (w.poll i task).Right ↔
      (w.canceled = true → ¬task.cancelable.cancelReceiver = .complete) := by
  rw [World.poll, h.sender ht hd]
  rcases hc : w.canceled with - | -
  · simp [Entry.Right, Entry.isLate, Cancelable.poll_held]
  · rcases hr : task.cancelable.cancelReceiver with - | -
    · simp [Entry.Right, Entry.isLate, hd, Cancelable.poll_dropped hr]
    · simp [Entry.Right, Entry.isLate, hd, Cancelable.poll_complete hr]

theorem Guarded.complete_poll_iff (h : w.Guarded) (ht : w.tasks[i]? = some task)
    (hd : task.dummy = false) : (w.poll i task).after.cancelReceiver = .complete ↔
      task.cancelable.cancelReceiver = .complete ∨ w.canceled = true := by
  rw [World.poll, h.sender ht hd]
  rcases hc : w.canceled with - | -
  · simp [Cancelable.poll_held]
  · rcases hr : task.cancelable.cancelReceiver with - | -
    · simp [Cancelable.poll_dropped hr]
    · simp [Cancelable.poll_complete hr, hr]

theorem getElem?_set_poll {ind : ℕ} {task' : Task A} (ht : w.tasks[ind]? = some task)
    (h : (w.tasks.set ind ⟨task.dummy, (w.poll ind task).after⟩)[i]? = some task') :
    i ≠ ind ∧ w.tasks[i]? = some task' ∨
      i = ind ∧ ⟨task.dummy, (w.poll ind task).after⟩ = task' := by
  by_cases hne : i = ind
  · subst hne
    rw [List.getElem?_set_self (List.getElem?_eq_some_iff.mp ht).1] at h
    exact .inr ⟨rfl, Option.some.inj h⟩
  · rw [List.getElem?_set_ne (Ne.symm hne)] at h
    exact .inl ⟨hne, h⟩

theorem Guarded.step_poll (h : w.Guarded) (index : ℕ) : (w.step (.poll index)).Guarded := by
  rcases ht : w.tasks[index]? with - | task
  · simpa only [step, ht] using h
  simp only [step, ht]
  have hlt := (List.getElem?_eq_some_iff.1 ht).1
  constructor
  case owns =>
    intro hc
    obtain ⟨guard, hg, ho⟩ := h.owns hc
    refine ⟨guard, hg, fun {i t} hi hd => ?_⟩
    rcases getElem?_set_poll ht hi with ⟨-, hi⟩ | ⟨rfl, rfl⟩
    · exact ho hi hd
    · exact ho ht hd
  case gone => exact h.gone
  case complete_iff =>
    intro i t hi hd
    simp only [mem_append, mem_singleton, or_and_right, exists_or, exists_eq_left]
    rcases getElem?_set_poll ht hi with ⟨hne, hi⟩ | ⟨rfl, rfl⟩
    · rw [h.complete_iff hi hd]
      simp [World.poll, Ne.symm hne]
    · have hdu : task.dummy = false := hd
      rw [h.complete_poll_iff ht hdu, h.complete_iff ht hdu]
      simp [World.poll, Entry.isLate, hdu]
  case index_lt =>
    intro e he
    rw [length_set]
    rcases mem_append.1 he with he | he
    · exact h.index_lt e he
    · obtain rfl := mem_singleton.1 he
      exact hlt
  case right_iff =>
    simp only [mem_append, mem_singleton, or_imp, forall_and, forall_eq,
      filter_append, map_append, h.right_iff]
    by_cases hl : (w.poll index task).isLate = true
    · obtain ⟨hc, hdu⟩ : w.canceled = true ∧ task.dummy = false := by
        simpa [Entry.isLate, World.poll] using hl
      have hm : index ∈ (w.log.filter Entry.isLate).map Entry.index ↔
          task.cancelable.cancelReceiver = .complete := by
        rw [h.complete_iff ht hdu]
        simp [and_assoc]
      rw [h.right_poll_iff ht hdu, filter_cons_of_pos hl, filter_nil,
        map_singleton, perm_append_comm.nodup_iff, singleton_append, nodup_cons,
        show (w.poll index task).index = index from rfl, hm]
      simp [World.poll, hdu, hc, and_comm]
    · rw [filter_cons_of_neg hl, filter_nil, map_nil, append_nil]
      refine and_iff_left fun hdu => (h.right_poll_iff ht hdu).2 fun hc => ?_
      exact absurd (by simpa [Entry.isLate, World.poll, hc] using hdu) hl

theorem guarded_run (ops : List (Op A)) : ((new (some .new)).run ops : World A).Guarded := by
  refine run_invariant ?_ (fun w op h => ?_) ops
  · exact ⟨fun _ => ⟨.new, rfl, nofun⟩, nofun, nofun, nofun, fun _ => nodup_nil, nofun⟩
  · rcases op with ⟨d, inn, oc⟩ | - | ind
    · exact h.cancelable d inn oc
    · exact ⟨nofun, fun _ => rfl, h.complete_iff, h.index_lt, h.right_iff⟩
    · exact h.step_poll ind

/-- The polls of the cancelables of a guard are right exactly if each is polled at most once after
the cancellation. -/
theorem cancelable_right_iff (block : A → Option B) (ops : List (Op A)) :
    let log := ((new (some .new)).run ops : World A).log
    ((∀ e ∈ log, e.dummy = false → e.Right) ↔ ((log.filter Entry.isLate).map Entry.index).Nodup) ∧
    ((∀ e ∈ log, e.dummy = false → e.Right) → ∀ e ∈ log, e.isLate = true →
      block e.before.onCancel = none → ∀ a, e.result = .ok (.ready a) → block a = none) := by
  refine ⟨(guarded_run ops).right_iff, fun hr e he hl hc a ha => ?_⟩
  have hd : e.dummy = false := by
    simp only [Entry.isLate, Bool.and_eq_true, Bool.not_eq_true'] at hl
    exact hl.2
  have h := hr e he hd
  rw [Entry.Right, if_pos hl, ha] at h
  cases h.1
  exact hc

def numbers (n : ℕ) : Poll (Option (Except String ℕ)) := .ready (some (.ok (n + 1)))

theorem block_after_cancel :
    let log := ((new (some .new)).run [.cancelable false numbers (some (.error "canceled")),
      .poll 0, .cancel, .poll 0, .poll 0] : World (Option (Except String ℕ))).log
    log.map Entry.result = [.ok (.ready (some (.ok 1))), .ok (.ready (some (.error "canceled"))),
      .ok (.ready (some (.ok 2)))] ∧
    log.map Entry.isLate = [false, true, true] ∧ ¬∀ e ∈ log, e.dummy = false → e.Right := by
  refine ⟨rfl, rfl, fun h => ?_⟩
  have hl := h _ (mem_cons_of_mem _ (mem_cons_of_mem _ mem_cons_self)) rfl
  exact absurd hl.1 nofun

structure Unguarded (w : World A) : Prop where
  none : w.guard = .none
  incomplete : (∀ e ∈ w.log, e.dummy = false) → ∀ task ∈ w.tasks, task.dummy = true →
    task.cancelable.cancelReceiver = .incomplete
  panics : ∀ e ∈ w.log, e.dummy = true → ∃ e ∈ w.log, e.dummy = true ∧ e.result = .panic

theorem Unguarded.step_poll (h : w.Unguarded) (ind : ℕ) : (w.step (.poll ind)).Unguarded := by
  rcases ht : w.tasks[ind]? with - | task
  · simpa only [step, ht] using h
  simp only [step, ht]
  refine ⟨h.none, fun hl task' ht' hdu => ?_, fun e he hdu => ?_⟩
  · have ho := hl _ (mem_append_right _ mem_cons_self)
    rcases mem_or_eq_of_mem_set ht' with ht' | rfl
    · exact h.incomplete (fun e he => hl e (mem_append_left _ he)) task' ht' hdu
    · exact absurd (hdu.symm.trans ho) nofun
  · by_cases hp : ∃ e ∈ w.log, e.dummy = true
    · obtain ⟨e, he, hd⟩ := hp
      obtain ⟨e', he', hpanic⟩ := h.panics e he hd
      exact ⟨e', mem_append_left _ he', hpanic⟩
    · -- the first poll of such a cancelable
      simp only [not_exists, not_and, Bool.not_eq_true] at hp
      rcases mem_append.1 he with he | he
      · exact absurd (hdu.symm.trans (hp e he)) nofun
      · obtain rfl := mem_singleton.1 he
        have hd : task.dummy = true := hdu
        have hr := h.incomplete hp task (mem_of_getElem? ht) hd
        refine ⟨_, mem_append_right _ mem_cons_self, hdu, ?_⟩
        simp [World.poll, World.sender, hd, Cancelable.poll, hr, FusedReceiver.poll]

end World

end Massbit.Futures
