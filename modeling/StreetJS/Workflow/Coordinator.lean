/-
The signal and timer coordinator (`workflow/src/coordinator.ts`): timer outcomes, the buffering of
a delivered signal, the wait a run is parked on, and the consumption of buffered signals. The
resume bookkeeping (`resumed`) is part of the engine's state.
-/
import StreetJS.Workflow.Journal

namespace StreetJS.Workflow

variable {V : Type}

/-! ## Timers -/

/-- The journaled outcome of a timer command with an absolute expiry. -/
def timerOutcome [JsValue V] (seq : Nat) (now expiresAt : Int) : CommandOutcome V :=
  if expiresAt ≤ now then
    { settlement := .completed undefined
      history := [.timerFired now seq] }
  else
    { settlement := .waiting none (some expiresAt)
      runStatus := some .waiting
      history := [.timerSet now seq expiresAt] }

/-! ## The active wait -/

variable (run : WorkflowRun V)

/-- The most recent command still in the `waiting` state. -/
def activeWait : Option (CommandRecord V) :=
  run.commands.reverse.find? fun command => command.status = .waiting

/-- The absolute expiry of the active timer wait. -/
def preservedExpiry : Option Int := (activeWait run).bind (·.timerExpiresAt)

structure TimerFiring where
  runId : String
  seq : Nat
  expiresAt : Int

/-- The firing of a run whose active timer is due at `now`. -/
def dueTimer (now : Int) : Option TimerFiring :=
  match activeWait run with
  | none => none
  | some wait =>
    match wait.timerExpiresAt with
    | none => none
    | some expiresAt => if expiresAt ≤ now then some { runId := run.runId, seq := wait.seq, expiresAt } else none

/-! ## Signals -/

/-- The snapshot `deliverSignal` saves over the one it loaded. -/
def bufferSignal (loaded : WorkflowRun V) (name : String) (payload : V) (now : Int) : WorkflowRun V :=
  { loaded with
    pendingSignals := loaded.pendingSignals ++ [{ name, payload, receivedAt := now }]
    history := loaded.history ++ [.signalReceived now name payload]
    updatedAt := now }

/-- The wait that a signal of this name resumes. -/
def signalWait (name : String) : Option (CommandRecord V) :=
  if run.status = .waiting then (activeWait run).filter fun wait => wait.waitingFor = some name else none

/-- The first unconsumed signal of a name. -/
def findPending (signals : List (RecordedSignal V)) (name : String) : Option (RecordedSignal V) :=
  signals.find? fun signal => signal.name = name ∧ signal.consumed = false

/-- The signals after the first unconsumed one of `name` is marked consumed. -/
def markConsumed (name : String) : List (RecordedSignal V) → List (RecordedSignal V)
  | [] => []
  | signal :: rest =>
    if signal.name = name ∧ signal.consumed = false then { signal with consumed := true } :: rest
    else signal :: markConsumed name rest

/-- `tryConsumePending`: the payload consumed and the snapshot saved. -/
def tryConsumePending (name : String) (now : Int) : Option (V × WorkflowRun V) :=
  (findPending run.pendingSignals name).map fun signal =>
    (signal.payload, { run with pendingSignals := markConsumed name run.pendingSignals, updatedAt := now })

/-! ## Results -/

theorem activeWait_concat {run : WorkflowRun V} {commands : List (CommandRecord V)} {wait : CommandRecord V}
    (hc : run.commands = commands ++ [wait]) (hw : wait.status = .waiting) : activeWait run = some wait := by
  unfold activeWait
  rw [hc, List.reverse_append]
  simp [hw]

theorem bufferSignal_status (loaded : WorkflowRun V) (name : String) (payload : V) (now : Int) :
    (bufferSignal loaded name payload now).status = loaded.status := rfl

end StreetJS.Workflow
