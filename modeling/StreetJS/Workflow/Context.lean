/-
The `ctx` surface (`createContext` of `workflow/src/context.ts` over the bridges of
`workflow/src/integrations`): the effectful commands a workflow function can issue, with the
journal spec and the effect thunk of each, and the function itself. A deterministic workflow
function is its next action after every list of replies it can have had from its context. What the
code outside the engine does during a call of a thunk (activities, mapped children, bridges) is an
`Effect`.
-/
import StreetJS.Workflow.Executor
import StreetJS.Workflow.Cron
import StreetJS.Workflow.Coordinator

namespace StreetJS.Workflow

variable {V : Type} [JsValue V]

/-! ## Commands -/

/-- A call of an effectful member of `ctx`. -/
inductive Command (V : Type) where
  | activity (options : ActivityOptions V)
  | parallelAll (activities : Nat)
  | parallelRace (activities : Nat)
  | parallelMap (mapped : Except Thrown Nat)
  | sleep (durationMs : Int)
  | waitUntil (atEpochMs : Int)
  | cron (expression : String)
  | interval (durationMs : Int)
  | queueDispatch (job : String) (payload : V)
  | publish (event : String) (payload : V)
  | waitFor (event : String) (parse : Option (V → Except Thrown V))
  | storagePut (key : String) (content : V)
  | storageGet (key : String)
  | storageDelete (key : String)
  | storageMove (from_ to_ : String)
  | storageCopy (from_ to_ : String)
  | broadcast (channel : String) (payload : V)
  | stateSet (key : String) (value : V)

def Command.kind : Command V → CommandKind
  | .activity _ => .activity
  | .parallelAll _ => .parallelAll
  | .parallelRace _ => .parallelRace
  | .parallelMap _ => .parallelMap
  | .sleep _ => .sleep
  | .waitUntil _ => .waitUntil
  | .cron _ => .cron
  | .interval _ => .interval
  | .queueDispatch _ _ => .queueDispatch
  | .publish _ _ => .eventsPublish
  | .waitFor _ _ => .eventsWaitFor
  | .storagePut _ _ => .storagePut
  | .storageGet _ => .storageGet
  | .storageDelete _ => .storageDelete
  | .storageMove _ _ => .storageMove
  | .storageCopy _ _ => .storageCopy
  | .broadcast _ _ => .realtimeBroadcast
  | .stateSet _ _ => .stateSet

/-- The spec a command hands to `Journal.process`. -/
def Command.spec (c : Command V) : JournalCommandSpec V :=
  { kind := c.kind
    metadata := match c with
      | .activity options => options.metadata
      | .stateSet key _ => some (JsValue.object [("key", JsValue.string key)])
      | _ => none }

/-! ## Effect thunks -/

/-- What happens outside the engine during one call of a thunk: the attempts of each activity it
runs, the raced activity that fulfils first, and the call of its bridge (`none`: not wired), with
the clock reading when a publish fails. -/
structure Effect (V : Type) where
  attempts : Nat → Attempts V
  first : Nat := 0
  bridge : Option (Except Thrown V)
  failedAt : Int := 0

/-- Every attempt and the bridge return `result`. -/
def Effect.always (result : Except Thrown V) : Effect V :=
  { attempts := fun _ _ => { startedAt := 0, settledAt := 0, result }, bridge := some result }

/-- One call of an effect thunk: the outcome it reports or the value it rejects with, and what its
closure writes of the drive: `currentAttempt` and the list of captured compensations. -/
structure Executed (V : Type) where
  outcome : Except Thrown (CommandOutcome V)
  attempt : Option Nat := none
  compensation : Option (CapturedCompensation V) := none

def workflowConfigError (message : String) : Thrown :=
  .error { name := "WorkflowConfigError", message }

def storageUnwired (operation : String) : Thrown :=
  workflowConfigError ("ctx.storage." ++ operation ++ " was called but no StorageLike bridge is configured; " ++
    "supply a storage bridge in the workflow configuration to use ctx.storage.")

def queueUnwired (job : String) : Thrown :=
  workflowConfigError ("ctx.queue.dispatch(\"" ++ job ++ "\") was called but no QueueLike bridge is wired; " ++
    "supply `bridges.queue` in the workflow configuration to dispatch background jobs.")

def eventsUnwired (operation : String) : Thrown :=
  workflowConfigError ("ctx.events." ++ operation ++ " was called but no EventsLike bridge is wired; " ++
    "supply `bridges.events` in the workflow configuration to publish, wait for, or subscribe to events.")

def realtimeUnwired (channel : String) : Thrown :=
  workflowConfigError ("ctx.realtime.broadcast(\"" ++ channel ++ "\") was called but no RealtimeLike bridge is wired; " ++
    "supply `bridges.realtime` in the workflow configuration to broadcast to connected clients.")

/-- The error of `Promise.any` when every promise rejects. -/
def aggregateError : SerializedError := { name := "AggregateError", message := "All promises were rejected" }

def completedWith (result : V) (history : List (HistoryEvent V)) : CommandOutcome V :=
  { settlement := .completed result, history }

/-- A thunk that only reports an outcome. -/
def reports (outcome : CommandOutcome V) : Executed V := { outcome := .ok outcome }

def rejects (thrown : Thrown) : Executed V := { outcome := .error thrown }

/-- A thunk that completes with a result made from what its bridge call returns. -/
def bridged (unwired : Thrown) (result : V → V) : Option (Except Thrown V) → Executed V
  | none => rejects unwired
  | some (.error thrown) => rejects thrown
  | some (.ok value) => reports (completedWith (result value) [])

def executeActivity (options : ActivityOptions V) (script : Attempts V) (seq : Nat) : Executed V :=
  let (outcome, compensation) := runActivity seq options script
  { outcome := .ok
      { settlement := match outcome.result with
          | .ok result => .completed result
          | .error error => .failed error
        attempts := some outcome.attempts
        history := outcome.history }
    attempt := some outcome.attempts
    compensation }

def runParallelChildren (activities : Nat) (attempts : Nat → Attempts V) (seq : Nat) : List (ActivityRunResult V) :=
  (List.range activities).map fun i => (runActivity seq {} (attempts i)).1

def errorOf : Except SerializedError V → Option SerializedError
  | .ok _ => none
  | .error error => some error

def valueOf : Except SerializedError V → V
  | .ok value => value
  | .error _ => undefined

variable (results : List (Except SerializedError V))

/-- The first failure in positional order, or the array of all results. -/
def combineResults : Settlement V :=
  match results.findSome? errorOf with
  | some error => .failed error
  | none => .completed (JsValue.array (results.map valueOf))

/-- `parallel.all` and `parallel.map` over their children's results. -/
def combineChildren (results : List (ActivityRunResult V)) : CommandOutcome V :=
  { settlement := combineResults (results.map (·.result)), history := results.flatMap (·.history) }

/-- `Promise.any`: the fulfilled activity that settled first. -/
def raceChildren (first : Nat) : CommandOutcome V :=
  match (results[first]?.toList ++ results).find? fun r => (errorOf r).isNone with
  | some winner => completedWith (valueOf winner) []
  | none => { settlement := .failed aggregateError }

def executeWaitFor (event : String) (parse : Option (V → Except Thrown V)) (run : WorkflowRun V) : Executed V :=
  match findPending run.pendingSignals event with
  | some signal =>
    match parse with
    | none => reports (completedWith signal.payload [])
    | some parse =>
      match parse signal.payload with
      | .ok payload => reports (completedWith payload [])
      | .error thrown => rejects thrown
  | none => reports { settlement := .waiting (some event) none, runStatus := some .waiting }

/-- One call of a command's effect thunk, over the journal's run at that moment. -/
def Command.execute (c : Command V) (effect : Effect V) (info : JournalExecuteInfo) (run : WorkflowRun V) : Executed V :=
  match c with
  | .activity options => executeActivity options (effect.attempts 0) info.seq
  | .parallelAll n => reports (combineChildren (runParallelChildren n effect.attempts info.seq))
  | .parallelRace n =>  reports (raceChildren ((runParallelChildren n effect.attempts info.seq).map (·.result)) effect.first)
  | .parallelMap (.ok n) => reports (combineChildren (runParallelChildren n effect.attempts info.seq))
  | .parallelMap (.error thrown) => rejects thrown
  | .sleep durationMs => reports (timerOutcome info.seq info.now (info.now + durationMs))
  | .waitUntil atEpochMs => reports (timerOutcome info.seq info.now atEpochMs)
  | .cron expression =>
    match computeNextCronTime expression info.now with
    | .ok expiresAt => reports (timerOutcome info.seq info.now expiresAt)
    | .error message => rejects (.error { name := "Error", message })
  | .interval durationMs => reports (timerOutcome info.seq info.now (info.now + durationMs))
  | .queueDispatch job _ => bridged (queueUnwired job) id effect.bridge
  | .publish event _ =>
    match effect.bridge with
    | none => rejects (eventsUnwired "publish")
    | some (.ok _) => reports (completedWith undefined [])
    | some (.error thrown) =>
      reports (completedWith undefined [.publishFailed effect.failedAt event (serializeError thrown)])
  | .waitFor event parse => executeWaitFor event parse run
  | .storagePut _ _ => bridged (storageUnwired "put") (fun _ => undefined) effect.bridge
  | .storageGet _ => bridged (storageUnwired "get") id effect.bridge
  | .storageDelete _ => bridged (storageUnwired "delete") (fun _ => undefined) effect.bridge
  | .storageMove _ _ => bridged (storageUnwired "move") (fun _ => undefined) effect.bridge
  | .storageCopy _ _ => bridged (storageUnwired "copy") (fun _ => undefined) effect.bridge
  | .broadcast channel _ =>
    match effect.bridge with
    | none => rejects (realtimeUnwired channel)
    | some _ => reports (completedWith undefined [])
  | .stateSet key value => reports { completedWith undefined [] with statePatch := [(key, value)] }

/-! ## Parallel outcomes -/

theorem combineResults_settles : (combineResults results).status ≠ .waiting := by
  unfold combineResults
  split <;> exact fun h => by cases h

theorem raceChildren_settles (first : Nat) :
    (raceChildren results first).settlement.status ≠ .waiting ∧ (raceChildren results first).runStatus = none := by
  unfold raceChildren
  split <;> exact ⟨nofun, rfl⟩

/-! ## Workflow functions -/

/-- What a workflow function does next. -/
inductive Action (V : Type) where
  | command (c : Command V)
  | getState (key : String)
  | getAttempt
  | returns (output : V)
  | throws (thrown : Thrown)

/-- What its context hands to a workflow function: the outcome of a command, the value of
`ctx.state.get`, or `ctx.metadata.attempt`. -/
inductive Reply (V : Type) where
  | settled (outcome : Except Thrown V)
  | state (value : V)
  | attempt (count : Nat)

/-- A deterministic workflow function: its next action on an input after the replies so far. -/
abbrev WorkflowFunction (V : Type) := V → List (Reply V) → Action V

/-- `(ctx) => ctx.activity(fn)`. -/
def oneActivity : WorkflowFunction V
  | _, [] => .command (.activity {})
  | _, [.settled (.ok result)] => .returns result
  | _, [.settled (.error thrown)] => .throws thrown
  | _, _ => .throws (.other "unexpected reply")

end StreetJS.Workflow
