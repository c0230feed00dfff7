/-
The activity executor (`ActivityExecutor.run` of `workflow/src/executor.ts`) and the runtime's
adapter over it (`runActivity` of `workflow/src/runtime.ts`): the attempts of one activity under
its retry policy, and the compensation captured when it completes. What happens inside an attempt
(middleware, timeout, queue routing) is the result of the attempt.
-/
import StreetJS.Workflow.Journal

namespace StreetJS.Workflow

variable {V : Type}

/-- The total number of attempts, initial and retries. -/
structure RetryPolicy where
  maxAttempts : Int

/-- A rollback of a completed activity, called with its output. -/
abbrev Compensation (V : Type) := V → Except Thrown Unit

/-- A compensation captured as a compensable activity completes during a live drive. -/
structure CapturedCompensation (V : Type) where
  seq : Nat
  rollback : Compensation V
  output : V

structure ActivityOptions (V : Type) where
  retry : Option RetryPolicy := none
  metadata : Option V := none
  compensate : Option (Compensation V) := none

/-- One attempt: its clock readings, its result, the delay `computeBackoff` gives after it, and
whether the run's signal is aborted once that delay is over. -/
structure AttemptResult (V : Type) where
  startedAt : Int
  settledAt : Int
  result : Except Thrown V
  delayMs : Int := 0
  aborted : Bool := false

/-- The attempts of one activity, by their 1-based number. -/
abbrev Attempts (V : Type) := Nat → AttemptResult V

/-- An activity run to a terminal result or failure. -/
structure ActivityRunResult (V : Type) where
  result : Except SerializedError V
  attempts : Nat
  history : List (HistoryEvent V)

def noRecordedError : SerializedError :=
  { name := "Error", message := "Activity failed with no recorded error." }

/-- The attempt loop with `remaining` attempts left after `attempt` of them. -/
def ActivityExecutor.loop (seq : Nat) (metadata : Option V) (retry : Bool) (script : Attempts V) :
    Nat → Nat → Option SerializedError → List (HistoryEvent V) → ActivityRunResult V
  | 0, attempt, lastError, history =>
    { result := .error (lastError.getD noRecordedError), attempts := attempt, history }
  | remaining + 1, attempt, _, history =>
    let a := script (attempt + 1)
    let history := history ++ [.activityStarted a.startedAt seq (attempt + 1) metadata]
    match a.result with
    | .ok value =>
      { result := .ok value, attempts := attempt + 1,
        history := history ++ [.activityCompleted a.settledAt seq value] }
    | .error thrown =>
      let error := serializeError thrown
      let history := history ++ [.activityFailed a.settledAt seq (attempt + 1) error]
      if retry ∧ 0 < remaining then
        let history := history ++ [.retryScheduled a.settledAt seq (attempt + 1) a.delayMs (a.settledAt + a.delayMs)]
        -- the run was cancelled during backoff: fail terminally
        if a.aborted then { result := .error error, attempts := attempt + 1, history }
        else ActivityExecutor.loop seq metadata retry script remaining (attempt + 1) (some error) history
      else { result := .error error, attempts := attempt + 1, history }

def maxAttempts (retry : Option RetryPolicy) : Nat :=
  match retry with
  | some policy => (max 1 policy.maxAttempts).toNat
  | none => 1

def ActivityExecutor.run (seq : Nat) (options : ActivityOptions V) (script : Attempts V) : ActivityRunResult V :=
  ActivityExecutor.loop seq options.metadata options.retry.isSome script (maxAttempts options.retry) 0 none []

/-- The runtime's adapter: the executor's outcome and the compensation it captures. -/
def runActivity (seq : Nat) (options : ActivityOptions V) (script : Attempts V) : ActivityRunResult V × Option (CapturedCompensation V) :=
  let outcome := ActivityExecutor.run seq options script
  (outcome, match outcome.result with
    | .ok output => options.compensate.map fun rollback => { seq, rollback, output }
    | .error _ => none)

/-! ## Attempt bounds -/

theorem loop_attempts (seq : Nat) (metadata : Option V) (retry : Bool) (script : Attempts V)
    (remaining attempt : Nat) (lastError : Option SerializedError) (history : List (HistoryEvent V)) :
    let r := ActivityExecutor.loop seq metadata retry script remaining attempt lastError history
    attempt ≤ r.attempts ∧ r.attempts ≤ attempt + remaining ∧ (0 < remaining → attempt < r.attempts) := by
  fun_induction ActivityExecutor.loop seq metadata retry script remaining attempt lastError history with
  | case1 => simp
  | case2 => simp only; omega
  | case3 => simp only; omega
  | case4 _ _ _ _ _ _ _ _ _ _ _ _ _ ih =>
    omega
  | case5 => simp only; omega

theorem run_attempts (seq : Nat) (options : ActivityOptions V) (script : Attempts V) :
    1 ≤ (ActivityExecutor.run seq options script).attempts ∧
      (ActivityExecutor.run seq options script).attempts ≤ maxAttempts options.retry := by
  have hpos : 0 < maxAttempts options.retry := by unfold maxAttempts; split <;> omega
  obtain ⟨-, h2, h3⟩ := loop_attempts seq options.metadata options.retry.isSome script (maxAttempts options.retry) 0 none []
  exact ⟨h3 hpos, by rwa [Nat.zero_add] at h2⟩

theorem loop_seq (seq seq' : Nat) (metadata : Option V) (retry : Bool) (script : Attempts V) :
    ∀ (remaining attempt : Nat) (lastError : Option SerializedError) (history history' : List (HistoryEvent V)),
      let r := ActivityExecutor.loop seq metadata retry script remaining attempt lastError history
      let r' := ActivityExecutor.loop seq' metadata retry script remaining attempt lastError history'
      r.result = r'.result ∧ r.attempts = r'.attempts
  | 0, _, _, _, _ => ⟨rfl, rfl⟩
  | remaining + 1, attempt, _, history, history' => by
    unfold ActivityExecutor.loop
    simp only
    cases (script (attempt + 1)).result with
    | ok value => exact ⟨rfl, rfl⟩
    | error thrown =>
      simp only
      split
      · split
        · exact ⟨rfl, rfl⟩
        · exact loop_seq seq seq' metadata retry script remaining (attempt + 1) _ _ _
      · exact ⟨rfl, rfl⟩

theorem run_seq (seq seq' : Nat) (options : ActivityOptions V) (script : Attempts V) :
    (ActivityExecutor.run seq options script).result = (ActivityExecutor.run seq' options script).result ∧
      (ActivityExecutor.run seq options script).attempts = (ActivityExecutor.run seq' options script).attempts :=
  loop_seq seq seq' _ _ script _ _ _ _ _

end StreetJS.Workflow
