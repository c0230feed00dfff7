/-
The journal (`workflow/src/journal.ts`): error (de)serialization, the suspension signal, command
outcomes, and `Journal.process`, split at its two await points. `Journal.issue` is the part up to
the call of the effect thunk (or the whole of a replay), `Journal.settle` the part after the thunk
has returned, ending in the save of the new snapshot. The thunks themselves are in `Context`.
-/
import StreetJS.Workflow.Types

namespace StreetJS.Workflow

variable {V : Type}

/-! ## Thrown values -/

/-- The control-flow signal thrown when a command settles as `waiting`. -/
structure WorkflowSuspension where
  seq : Nat
  kind : CommandKind
  waitingFor : Option String
  timerExpiresAt : Option Int

/-- A thrown value: an `Error`, a suspension, or anything else (kept as its `String(value)`). -/
inductive Thrown where
  | error (e : SerializedError)
  | suspension (s : WorkflowSuspension)
  | other (text : String)

/-- `String(suspension)`: it is a plain object. -/
def suspensionText : String := "[object Object]"

def serializeError : Thrown → SerializedError
  | .error e => e
  | .suspension _ => { name := "Error", message := suspensionText }
  | .other text => { name := "Error", message := text }

/-- The `Error` rebuilt from a recorded error. -/
def deserializeError : Option SerializedError → SerializedError
  | none => { name := "Error", message := "Workflow command failed." }
  | some e => { name := e.name, message := e.message, stack := e.stack }

/-! ## Command outcomes -/

inductive Settlement (V : Type) where
  | completed (result : V)
  | failed (error : SerializedError)
  | waiting (waitingFor : Option String) (timerExpiresAt : Option Int)

def Settlement.status : Settlement V → CommandStatus
  | .completed _ => .completed
  | .failed _ => .failed
  | .waiting _ _ => .waiting

/-- What an effect thunk reports. Absent `history` and `statePatch` are the empty ones. -/
structure CommandOutcome (V : Type) where
  settlement : Settlement V
  attempts : Option Nat := none
  history : List (HistoryEvent V) := []
  runStatus : Option RunStatus := none
  statePatch : List (String × V) := []

structure JournalExecuteInfo where
  seq : Nat
  now : Int

/-- A journaled command, without its effect thunk. -/
structure JournalCommandSpec (V : Type) where
  kind : CommandKind
  metadata : Option V := none

/-! ## The journal -/

structure Journal (V : Type) where
  current : WorkflowRun V
  cursor : Nat := 0

def Journal.replaying (j : Journal V) : Bool := decide (j.cursor < j.current.commands.length)

/-- `readState(key)`. -/
def Journal.readState [JsValue V] (j : Journal V) (key : String) : V := readKey j.current.state key

/-- A run-level patch; an absent `output` is `none`. -/
structure RunPatch (V : Type) where
  status : Option RunStatus := none
  output : Option V := none
  history : List (HistoryEvent V) := []

/-- The snapshot `commit` persists. -/
def Journal.commit (j : Journal V) (patch : RunPatch V) (now : Int) : Journal V :=
  { j with
    current := { j.current with
      status := patch.status.getD j.current.status
      output := patch.output.orElse fun _ => j.current.output
      history := j.current.history ++ patch.history
      updatedAt := now } }

def integrityError (message : String) : SerializedError := { name := "ResumeIntegrityError", message }

def kindMismatchMessage (runId : String) (index : Nat) (issued recorded : CommandKind) (seq : Nat) : String :=
  "Workflow run \"" ++ runId ++ "\" replayed command #" ++ toString index ++ " as \"" ++ issued.text ++
    "\" but the journal recorded a \"" ++ recorded.text ++ "\" at seq " ++ toString seq ++
    "; the workflow function is non-deterministic and cannot be resumed."

def missingResultMessage (runId : String) (recorded : CommandKind) (seq : Nat) : String :=
  "Workflow run \"" ++ runId ++ "\" cannot be resumed: completed command seq " ++ toString seq ++
    " (\"" ++ recorded.text ++ "\") is missing its recorded result."

/-- What the replay of a settled record hands to the function. -/
def replayOutcome (runId : String) (index : Nat) (kind : CommandKind) (recorded : CommandRecord V) : Except Thrown V :=
  if recorded.kind ≠ kind then
    .error (.error (integrityError (kindMismatchMessage runId index kind recorded.kind recorded.seq)))
  else
    match recorded.status with
    | .completed =>
      match recorded.result with
      | some result => .ok result
      | none => .error (.error (integrityError (missingResultMessage runId recorded.kind recorded.seq)))
    | _ => .error (.error (deserializeError recorded.error))

/-- A live command between the call of its thunk and the thunk's return. -/
structure Pending (V : Type) where
  spec : JournalCommandSpec V
  index : Nat
  recorded : Option (CommandRecord V)
  seq : Nat
  startedAt : Int

/-- `process` up to its first await. -/
inductive Issue (V : Type) where
  | replayed (journal : Journal V) (outcome : Except Thrown V)
  | live (pending : Pending V)

def Journal.live (j : Journal V) (spec : JournalCommandSpec V) (recorded : Option (CommandRecord V)) (startedAt : Int) : Pending V :=
  { spec, index := j.cursor, recorded, startedAt,
    seq := (recorded.map (·.seq)).getD j.current.nextSeq }

def Journal.issue (j : Journal V) (spec : JournalCommandSpec V) (startedAt : Int) : Issue V :=
  match j.current.commands[j.cursor]? with
  | some recorded =>
    if recorded.status ≠ .waiting then
      .replayed { j with cursor := j.cursor + 1 } (replayOutcome j.current.runId j.cursor spec.kind recorded)
    else .live (j.live spec (some recorded) startedAt)
  | none => .live (j.live spec none startedAt)

def buildRecord (spec : JournalCommandSpec V) (seq : Nat) (startedAt settledAt : Int)
    (outcome : CommandOutcome V) (previous : Option (CommandRecord V)) : CommandRecord V :=
  let record : CommandRecord V :=
    { seq
      kind := spec.kind
      status := outcome.settlement.status
      attempts := outcome.attempts.getD (if outcome.settlement.status = .waiting then (previous.map (·.attempts)).getD 0 else 1)
      metadata := spec.metadata.orElse fun _ => previous.bind (·.metadata)
      startedAt := some ((previous.bind (·.startedAt)).getD startedAt) }
  match outcome.settlement with
  | .completed result => { record with result := some result, completedAt := some settledAt }
  | .failed error => { record with error := some error, completedAt := some settledAt }
  | .waiting waitingFor timerExpiresAt => { record with waitingFor, timerExpiresAt }

theorem buildRecord_status (spec : JournalCommandSpec V) (seq : Nat) (startedAt settledAt : Int)
    (outcome : CommandOutcome V) (previous : Option (CommandRecord V)) :
    (buildRecord spec seq startedAt settledAt outcome previous).status = outcome.settlement.status := by
  unfold buildRecord
  cases h : outcome.settlement <;> rfl

/-- `process` after its thunk returned `outcome`: the journal over the snapshot it saves, and what
the function is handed. -/
def Journal.settle (j : Journal V) (p : Pending V) (settledAt : Int) (outcome : CommandOutcome V) : Journal V × Except Thrown V :=
  let nextRecord := buildRecord p.spec p.seq p.startedAt settledAt outcome p.recorded
  let persisted : WorkflowRun V := { j.current with
    status := outcome.runStatus.getD j.current.status
    commands := if p.recorded.isSome then j.current.commands.set p.index nextRecord
      else j.current.commands ++ [nextRecord]
    nextSeq := if p.recorded.isSome then j.current.nextSeq else j.current.nextSeq + 1
    state := mergeState j.current.state outcome.statePatch
    history := j.current.history ++ outcome.history
    updatedAt := settledAt }
  match outcome.settlement with
  | .completed result => ({ current := persisted, cursor := p.index + 1 }, .ok result)
  | .failed error => ({ current := persisted, cursor := p.index + 1 }, .error (.error (deserializeError (some error))))
  | .waiting waitingFor timerExpiresAt =>
    ({ current := persisted, cursor := p.index }, .error (.suspension { seq := p.seq, kind := p.spec.kind, waitingFor, timerExpiresAt }))

end StreetJS.Workflow
