/-
The data model of the workflow engine (`workflow/src/types.ts`): run statuses, journaled command
records, history events, buffered signals and the durable run. The journal is generic in the type
`V` of the values it stores (`unknown` in the source): values that the store copies by value.
Instants are the epoch milliseconds that the injected Clock reads.
-/
import StreetJS.Lib.OrderedMap

namespace StreetJS.Workflow

open StreetJS.Lib

/-- The type `unknown` of a value handed to or returned by user code: it has the value `undefined`,
`x !== undefined` can be tested, and strings, arrays and object literals are values. -/
class JsValue (V : Type) where
  undefined : V
  isUndefined : V → Bool
  isUndefined_iff : ∀ v, isUndefined v = true ↔ v = undefined
  string : String → V
  array : List V → V
  object : List (String × V) → V

export JsValue (undefined isUndefined)

/-! ## Run status -/

inductive RunStatus where
  | running
  | waiting
  | paused
  | completed
  | failed
  | compensating
  | compensated
  | cancelled
deriving DecidableEq

/-- The terminal run statuses (`TERMINAL.includes`). -/
def RunStatus.terminal : RunStatus → Bool
  | .completed | .failed | .compensated | .cancelled => true
  | .running | .waiting | .paused | .compensating => false

/-! ## Errors -/

/-- The JSON-safe projection of an `Error`; as a thrown value, an `Error` with these fields. -/
structure SerializedError where
  name : String
  message : String
  stack : Option String := none
deriving DecidableEq

/-! ## Command journaling -/

inductive CommandKind where
  | activity
  | parallelAll
  | parallelRace
  | parallelMap
  | sleep
  | waitUntil
  | cron
  | interval
  | queueDispatch
  | queueExecute
  | eventsPublish
  | eventsWaitFor
  | eventsSubscribe
  | storagePut
  | storageGet
  | storageDelete
  | storageMove
  | storageCopy
  | realtimeBroadcast
  | stateSet
deriving DecidableEq

/-- The string literal of a command kind. -/
def CommandKind.text : CommandKind → String
  | .activity => "activity"
  | .parallelAll => "parallel.all"
  | .parallelRace => "parallel.race"
  | .parallelMap => "parallel.map"
  | .sleep => "sleep"
  | .waitUntil => "waitUntil"
  | .cron => "cron"
  | .interval => "interval"
  | .queueDispatch => "queue.dispatch"
  | .queueExecute => "queue.execute"
  | .eventsPublish => "events.publish"
  | .eventsWaitFor => "events.waitFor"
  | .eventsSubscribe => "events.subscribe"
  | .storagePut => "storage.put"
  | .storageGet => "storage.get"
  | .storageDelete => "storage.delete"
  | .storageMove => "storage.move"
  | .storageCopy => "storage.copy"
  | .realtimeBroadcast => "realtime.broadcast"
  | .stateSet => "state.set"

inductive CommandStatus where
  | completed
  | failed
  | waiting
deriving DecidableEq

/-- One journaled command outcome. `result` is the property, not its value: `none` is a record
without the key, `some undefined` a recorded `undefined`. -/
structure CommandRecord (V : Type) where
  seq : Nat
  kind : CommandKind
  status : CommandStatus
  attempts : Nat
  result : Option V := none
  error : Option SerializedError := none
  metadata : Option V := none
  compensated : Bool := false
  timerExpiresAt : Option Int := none
  waitingFor : Option String := none
  startedAt : Option Int := none
  completedAt : Option Int := none
deriving DecidableEq

/-! ## History -/

inductive HistoryEvent (V : Type) where
  | runStarted (at_ : Int) (input : V)
  | runStatus (at_ : Int) (from_ to_ : RunStatus)
  | activityStarted (at_ : Int) (seq attempt : Nat) (metadata : Option V)
  | activityCompleted (at_ : Int) (seq : Nat) (result : V)
  | activityFailed (at_ : Int) (seq attempt : Nat) (error : SerializedError)
  | retryScheduled (at_ : Int) (seq attempt : Nat) (delayMs nextAttemptAt : Int)
  | compensationStarted (at_ : Int) (seq : Nat)
  | compensationCompleted (at_ : Int) (seq : Nat)
  | compensationFailed (at_ : Int) (seq : Nat) (error : SerializedError)
  | signalReceived (at_ : Int) (name : String) (payload : V)
  | timerSet (at_ : Int) (seq : Nat) (expiresAt : Int)
  | timerFired (at_ : Int) (seq : Nat)
  | publishFailed (at_ : Int) (event : String) (error : SerializedError)
deriving DecidableEq

/-! ## Signals and the durable run -/

/-- A signal recorded for a run (delivered early or being consumed). -/
structure RecordedSignal (V : Type) where
  name : String
  payload : V
  receivedAt : Int
  consumed : Bool := false
deriving DecidableEq

/-- A single durable execution of a workflow definition. -/
structure WorkflowRun (V : Type) where
  runId : String
  definition : String
  status : RunStatus
  input : V
  output : Option V := none
  commands : List (CommandRecord V) := []
  nextSeq : Nat := 0
  state : OrderedMap String V := []
  pendingSignals : List (RecordedSignal V) := []
  history : List (HistoryEvent V) := []
  createdAt : Int
  updatedAt : Int
deriving DecidableEq

/-! ## The durable state record -/

/-- `{ ...state, ...patch }`. -/
def mergeState {V : Type} (state patch : OrderedMap String V) : OrderedMap String V :=
  patch.foldl (fun s p => s.set p.1 p.2) state

/-- `state[key]`. -/
def readKey {V : Type} [JsValue V] (state : OrderedMap String V) (key : String) : V :=
  (state.get key).getD undefined

@[simp] theorem readKey_mergeState_single {V : Type} [JsValue V] (state : OrderedMap String V) (key k : String) (value : V) :
    readKey (mergeState state [(key, value)]) k = if key = k then value else readKey state k := by
  show readKey (state.set key value) k = _
  unfold readKey
  by_cases h : k = key
  · subst h; simp
  · simp [h, Ne.symm h]

end StreetJS.Workflow
