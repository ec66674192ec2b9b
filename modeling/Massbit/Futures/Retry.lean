/-
Retrying an operation (`util/futures.rs`).
-/
import Massbit.Lib.Outcome
import Mathlib.Algebra.Order.Ring.Nat
import Mathlib.Order.MinMax

namespace Massbit.Futures

variable {I E : Type}

inductive TimeoutError (E : Type) where
  | inner (e : E)
  | elapsed

namespace TimeoutError

def isElapsed : TimeoutError E → Bool
  | inner _ => false
  | elapsed => true

def intoInner : TimeoutError E → Option E
  | inner e => some e
  | elapsed => none

end TimeoutError

inductive RetryIf (I E : Type) where
  | error
  | predicate (pred : Except E I → Bool)

def RetryIf.check : RetryIf I E → Except E I → Bool
  | error, .ok _ => false
  | error, .error _ => true
  | predicate pred, result => pred result

inductive RetryConfigProperty where
  | set (limit : ℕ)
  | clear
  | unknown

def RetryConfigProperty.unwrap : RetryConfigProperty → Outcome Empty (Option ℕ)
  | set limit => .ok (some limit)
  | clear => .ok none
  | unknown => .panic

structure RetryConfig (I E : Type) where
  condition : RetryIf I E
  limit : RetryConfigProperty

def retryStrategy (limitOpt : Option ℕ) : Option ℕ := limitOpt.map fun limit =>
  (limit + (2 ^ 64 - 1)) % 2 ^ 64

def unwrapOuter {R : Type} : Except R R → R
  | .ok r => r
  | .error r => r

def unwrapInner : Except (TimeoutError E) I → Outcome Empty (Except E I)
  | .ok i => .ok (.ok i)
  | .error e => do
    let e ← .ofOption e.intoInner
    return .error e

def attempt (condition : RetryIf I E) (resultWithTimeout : Except (TimeoutError E) I) :
    Outcome Empty (Except (Except (TimeoutError E) I) (Except (TimeoutError E) I)) :=
  let isElapsed := match resultWithTimeout with
    | .ok _ => false
    | .error e => e.isElapsed
  if isElapsed then .ok (.error resultWithTimeout)
  else do
    let result ← unwrapInner resultWithTimeout
    if condition.check result then return .error (result.mapError .inner)
    else return .ok (result.mapError .inner)

def spawn {R : Type} (action : ℕ → Outcome Empty (Except R R)) :
    ℕ → Option ℕ → ℕ → Option (Outcome Empty (Except R R × ℕ))
  | 0, _, _ => none
  | fuel + 1, delays, count =>
    match action count with
    | .panic => some .panic
    | .ok (.ok r) => some (.ok (.ok r, count + 1))
    | .ok (.error r) =>
      match delays with
      | some 0 => some (.ok (.error r, count + 1))
      | some (delays + 1) => spawn action fuel (some delays) (count + 1)
      | none => spawn action fuel none (count + 1)

def runRetry (condition : RetryIf I E) (limitOpt : Option ℕ)
    (tryItWithTimeout : ℕ → Except (TimeoutError E) I) (fuel : ℕ) :
    Option (Outcome Empty (Except (TimeoutError E) I × ℕ)) :=
  (spawn (fun n => attempt condition (tryItWithTimeout n)) fuel (retryStrategy limitOpt) 0).map
    fun x => do
      let (r, count) ← x
      return (unwrapOuter r, count)

def withTimeout : Option (Except E I) → Except (TimeoutError E) I
  | some res => res.mapError .inner
  | none => .error .elapsed

def RetryConfig.runWithTimeout (self : RetryConfig I E) (tryIt : ℕ → Option (Except E I))
    (fuel : ℕ) : Option (Outcome Empty (Except (TimeoutError E) I × ℕ)) :=
  match self.limit.unwrap with
  | .panic => some .panic
  | .ok limitOpt => runRetry self.condition limitOpt (fun n => withTimeout (tryIt n)) fuel

def RetryConfig.runNoTimeout (self : RetryConfig I E) (tryIt : ℕ → Except E I) (fuel : ℕ) :
    Option (Outcome Empty (Except E I × ℕ)) :=
  match self.limit.unwrap with
  | .panic => some .panic
  | .ok limitOpt => (runRetry self.condition limitOpt (fun n => (tryIt n).mapError .inner) fuel).map
    fun x => do
      let (r, count) ← x
      let r ← unwrapInner r
      return (r, count)

def RetryIf.settles (condition : RetryIf I E) : Except (TimeoutError E) I → Bool
  | .ok i => !condition.check (.ok i)
  | .error (.inner e) => !condition.check (.error e)
  | .error .elapsed => false

theorem attempt_eq (c : RetryIf I E) (r : Except (TimeoutError E) I) :
    attempt c r = .ok (if c.settles r then .ok r else .error r) := by
  rcases r with (e | -) | i
  · show (if c.check (.error e) then Outcome.ok _ else Outcome.ok _) =
      Outcome.ok (if !c.check (.error e) then _ else _)
    cases c.check (.error e) <;> rfl
  · rfl
  · show (if c.check (.ok i) then Outcome.ok _ else Outcome.ok _) =
      Outcome.ok (if !c.check (.ok i) then _ else _)
    cases c.check (.ok i) <;> rfl

section

variable {R : Type} {rs : ℕ → R} {s : ℕ → Bool} {a : ℕ → Outcome Empty (Except R R)}

theorem spawn_eq (ha : ∀ n, a n = .ok (if s n then .ok (rs n) else .error (rs n))) :
    ∀ (j c : ℕ) {fuel : ℕ} (ds : Option ℕ), (∀ i < j, s (c + i) = false) →
      (s (c + j) = true ∨ ds = some j) → (∀ n ∈ ds, j ≤ n) → j < fuel →
      (spawn a fuel ds c).map (fun x => do
        let (r, c) ← x
        return (unwrapOuter r, c)) = some (.ok (rs (c + j), c + j + 1)) := by
  intro j
  induction j with
  | zero =>
    intro c fuel ds _ hl _ hf
    obtain ⟨fuel, rfl⟩ := Nat.exists_eq_succ_of_ne_zero hf.ne'
    rw [spawn, ha]
    rcases hs : s c with - | -
    · obtain rfl := hl.resolve_left (by simp [hs])
      rfl
    · rfl
  | succ j ih =>
    intro c fuel ds hb hl hd hf
    obtain ⟨fuel, rfl⟩ := Nat.exists_eq_succ_of_ne_zero (Nat.ne_zero_of_lt hf)
    have hc : c + 1 + j = c + (j + 1) := by omega
    have hb' : ∀ i < j, s (c + 1 + i) = false := fun i hi => by
      rw [show c + 1 + i = c + (i + 1) by omega]
      exact hb (i + 1) (by omega)
    rw [spawn, ha, show s c = false from hb 0 (by omega), ← hc]
    rcases ds with - | - | ds
    · exact ih _ _ hb' (.inl (by simpa [hc] using hl)) nofun (by omega)
    · exact absurd (hd 0 rfl) (by omega)
    · refine ih _ _ hb' (hl.imp (by rw [hc]; exact id) fun h => ?_) (fun n hn => ?_) (by omega)
      · cases h
        rfl
      · cases hn
        exact Nat.le_of_succ_le_succ (hd _ rfl)

theorem spawn_eq_none (ha : ∀ n, a n = .ok (.error (rs n))) :
    ∀ fuel c, spawn a fuel none c = none
  | 0, _ => rfl
  | fuel + 1, c => by
    rw [spawn, ha]
    exact spawn_eq_none ha fuel (c + 1)

end

/-- The number of the first attempt that settles, counted from 1. -/
def FirstSettled (settled : ℕ → Bool) : Option ℕ → Prop
  | some k => 1 ≤ k ∧ settled (k - 1) = true ∧ ∀ j < k - 1, settled j = false
  | none => ∀ j, settled j = false

/-- There are as many attempts as the limit and the first settled one allow, and the last one gives
the result. -/
def MakesAttempts {R : Type} (limitOpt first : Option ℕ) (results : ℕ → R)
    (run : ℕ → Option (Outcome Empty (R × ℕ))) : Prop :=
  match limitOpt.merge min first with
  | some m => ∀ fuel ≥ m, run fuel = some (.ok (results (m - 1), m))
  | none => ∀ fuel, run fuel = none

theorem runRetry_makesAttempts {c : RetryIf I E} {lo f : Option ℕ}
    (hl : ∀ n ∈ lo, 1 ≤ n ∧ n < 2 ^ 64) {results : ℕ → Except (TimeoutError E) I}
    (hf : FirstSettled (fun n => c.settles (results n)) f) :
    MakesAttempts lo f results (runRetry c lo results) := by
  have ha : ∀ n, attempt c (results n) = .ok
      (if c.settles (results n) then .ok (results n) else .error (results n)) :=
    fun n => attempt_eq c (results n)
  have hs : ∀ {n}, lo = some n → retryStrategy lo = some (n - 1) := by
    rintro n rfl
    obtain ⟨hp, hlt⟩ := hl n rfl
    rw [retryStrategy, Option.map_some, show n + (2 ^ 64 - 1) = n - 1 + 2 ^ 64 by omega,
      Nat.add_mod_right, Nat.mod_eq_of_lt (by omega)]
  -- the attempts before the last one, the last one, and the delays before it
  have hr : ∀ {m}, 1 ≤ m → (∀ j < m - 1, c.settles (results j) = false) →
      (c.settles (results (m - 1)) = true ∨ lo = some m) →
      (∀ n ∈ lo, m ≤ n) → ∀ fuel ≥ m,
        runRetry c lo results fuel = some (.ok (results (m - 1), m)) := by
    intro m hm hb hla hle fuel hfu
    have h := spawn_eq ha (m - 1) 0 (retryStrategy lo)
      (fun i hi => by rw [Nat.zero_add]; exact hb i hi) (by
        rw [Nat.zero_add]
        exact hla.imp_right hs) (fun n hn => ?_) (show m - 1 < fuel by omega)
    · rw [Nat.zero_add, Nat.sub_add_cancel hm] at h
      exact h
    · rcases lo with - | l
      · cases hn
      · rw [hs rfl] at hn
        cases hn
        exact Nat.sub_le_sub_right (hle l rfl) 1
  rcases lo with - | l <;> rcases f with - | k
  · intro fuel
    rw [runRetry, show retryStrategy none = none from rfl, spawn_eq_none (fun n => by
      rw [ha, show c.settles (results n) = false from hf n]
      rfl)]
    rfl
  · exact hr hf.1 hf.2.2 (.inl hf.2.1) nofun
  · exact hr (hl l rfl).1 (fun j _ => hf j) (.inr rfl) (by simp)
  · obtain ⟨hk, hse, hb⟩ := hf
    refine hr (le_min (hl l rfl).1 hk) (fun j hj => hb j (by omega)) ?_ (by simp)
    rcases le_total l k with h | h
    · exact .inr (by rw [min_eq_left h])
    · exact .inl (by rw [min_eq_right h]; exact hse)

theorem unwrapInner_mapError (r : Except E I) : unwrapInner (r.mapError .inner) = .ok r := by
  cases r <;> rfl

/-- A run makes as many attempts as the limit and the first settled attempt allow, and returns the
result of the last; without a timeout its errors can be unwrapped. -/
theorem RetryConfig.run_makesAttempts (config : RetryConfig I E) {limitOpt : Option ℕ}
    (hconfig : config.limit.unwrap = .ok limitOpt) (hlimit : ∀ n ∈ limitOpt, 1 ≤ n ∧ n < 2 ^ 64) :
    (∀ tryIt first, FirstSettled (fun n => config.condition.settles (withTimeout (tryIt n))) first →
      MakesAttempts limitOpt first (fun n => withTimeout (tryIt n)) (config.runWithTimeout tryIt)) ∧
    ∀ tryIt first,
      FirstSettled (fun n => config.condition.settles ((tryIt n).mapError .inner)) first →
      MakesAttempts limitOpt first tryIt (config.runNoTimeout tryIt) := by
  refine ⟨fun tryIt first hf => ?_, fun tryIt first hf => ?_⟩
  · have hr : config.runWithTimeout tryIt =
        runRetry config.condition limitOpt fun n => withTimeout (tryIt n) := by
      funext fuel
      rw [runWithTimeout, hconfig]
    rw [hr]
    exact runRetry_makesAttempts hlimit hf
  · have h := runRetry_makesAttempts hlimit hf
    unfold MakesAttempts runNoTimeout at *
    simp only [hconfig]
    split at h
    · intro fuel hfu
      rw [h fuel hfu]
      show some (unwrapInner ((tryIt _).mapError .inner) >>= fun r => pure (r, _)) = _
      rw [unwrapInner_mapError]
      rfl
    · intro fuel
      rw [h fuel]
      rfl

theorem two_of_three_attempts :
    let config : RetryConfig ℕ String := ⟨.error, .set 3⟩
    let tryIt : ℕ → Option (Except String ℕ) := fun n => if n = 0 then none else some (.ok n)
    MakesAttempts (some 3) (some 2) (fun n => withTimeout (tryIt n)) (config.runWithTimeout tryIt) :=
  (RetryConfig.run_makesAttempts ⟨.error, .set 3⟩ rfl (fun n hn => by cases hn; decide)).1 _ (some 2)
    ⟨by decide, rfl, by decide⟩

end Massbit.Futures
