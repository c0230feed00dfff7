/-
The job queue over its table, with any number of workers: each statement is one step, and between two
statements anything may happen. What the workers do not see is kept beside it: which execution wrote a row
last, and whose write was overwritten.
-/
import StreetJS.Lib.OrderedMap
import StreetJS.Lib.Runs
import Mathlib.Data.List.Sort
import Mathlib.Logic.Function.Basic

namespace StreetJS.Jobs

open StreetJS.Lib

/-! ## Rows and workers -/

inductive JobStatus where
  | pending
  | running
  | failed
  deriving DecidableEq

/-- A row of `street_jobs`; the payload is its JSON text. -/
structure JobRow where
  type : String
  payload : String := "{}"
  status : JobStatus := .pending
  attemptCount : Nat := 0
  runAt : Int
  workerId : Option String := none
  lockedAt : Option Int := none
  error : Option String := none
  deriving DecidableEq

/-- A row of `street_dead_letter_queue`. -/
structure DeadLetter where
  jobId : Nat
  type : String
  payload : String
  error : String
  deriving DecidableEq

/-- Delays are whole numbers of milliseconds. -/
structure RetryPolicy where
  maxAttempts : Nat
  initialDelayMs : Nat
  backoffMultiplier : Nat
  maxDelayMs : Nat

/-- A worker: its options, the types that it has a handler for, and its retry policies. -/
structure JobQueue where
  workerId : String
  concurrency : Nat := 5
  staleJobThresholdMs : Nat := 120000
  handlers : List String := []
  retryPolicies : OrderedMap String RetryPolicy := []

/-- Where the dispatch of a row stands: the statement that comes next, or the handler at work. -/
inductive Phase where
  | dispatching
  | handling
  | deleting
  | retrying (error : String)
  | burying (error : String)
  | marking (error : String)
  | done
  deriving DecidableEq

/-- The dispatch of a selected row by a worker. It is `stale` when a reaper has taken the row from it. -/
structure Execution where
  worker : Nat
  jobId : Nat
  type : String
  payload : String
  attempt : Nat
  phase : Phase := .dispatching
  stale : Bool := false
  deriving DecidableEq

/-- A statement has committed or the handler has returned, or else it has failed. -/
inductive Reply where
  | ok
  | fails (error : String)

/-! ## One execution -/

namespace JobQueue

variable (q : JobQueue) (e : Execution)

/-- A failure is retried, or moved to the dead letters when the attempts are used up. -/
def handleFailure (error : String) : Phase :=
  let maxAttempts := ((q.retryPolicies.get e.type).map (·.maxAttempts)).getD 1
  if maxAttempts ≤ e.attempt + 1 then .burying error else .retrying error

def retryDelay : Nat :=
  match q.retryPolicies.get e.type with
  | some policy => min (policy.initialDelayMs * policy.backoffMultiplier ^ e.attempt) policy.maxDelayMs
  | none => 0

def execute : Phase :=
  if e.type ∈ q.handlers then .handling
  else q.handleFailure e ("No handler registered for job type \"" ++ e.type ++ "\"")

/-- The phase that follows. A DELETE that fails is handled as a failure of the handler is. -/
def after : Phase → Reply → Phase
  | .dispatching, .ok => q.execute e
  | .dispatching, .fails _ => .done
  | .handling, .ok => .deleting
  | .handling, .fails error => q.handleFailure e error
  | .deleting, .ok => .done
  | .deleting, .fails error => q.handleFailure e error
  | .retrying _, _ => .done
  | .burying _, .ok => .done
  | .burying error, .fails _ => .marking error
  | .marking _, _ => .done
  | .done, _ => .done

/-- The row of the job after the statement of a phase has committed. No statement looks at anything but
the job's id. -/
def statement (now : Int) (row : Option JobRow) : Phase → Option JobRow
  | .dispatching =>
    row.map fun row => { row with status := .running, workerId := some q.workerId, lockedAt := some now }
  | .deleting => none
  | .retrying error =>
    row.map fun row => { row with
      status := .pending
      attemptCount := e.attempt + 1
      error := some error
      runAt := now + q.retryDelay e
      workerId := none
      lockedAt := none }
  | .burying _ => none
  | .marking error => row.map fun row => { row with status := .failed, error := some error }
  | .handling | .done => row

end JobQueue

/-- The dispatch has written its lock, or gone on without a row, and has not come to its end. -/
def Execution.underWay (e : Execution) : Bool :=
  match e.phase with
  | .dispatching | .done => false
  | _ => true

/-- The phases whose statement writes what has become of the job. -/
def Phase.isOutcome : Phase → Bool
  | .deleting | .retrying _ | .burying _ | .marking _ => true
  | _ => false

/-- The statement of the phase commits. -/
def Phase.writes (phase : Phase) : Reply → Bool
  | .ok => phase.isOutcome || phase == .dispatching
  | .fails _ => false

/-! ## The table and its workers -/

/-- The tables, the executions of all workers, the jobs that each worker holds as in flight, and the
heartbeats whose statement is still to come. `writer` is the execution that wrote a row last, none since a
reaper has; `overwritten` the outcome writes over a row that another execution had written. -/
structure JobTable where
  jobs : Nat → Option JobRow := fun _ => none
  nextId : Nat := 0
  deadLetters : List DeadLetter := []
  executions : List Execution := []
  inFlight : Nat → List Nat := fun _ => []
  heartbeats : List (Nat × List Nat) := []
  writer : Nat → Option Nat := fun _ => none
  overwritten : List (Nat × Nat) := []

inductive JobEvent where
  | enqueue (type payload : String) (runAt : Int)
  | poll (w : Nat) (now : Int)
  | goOn (x : Nat) (reply : Reply) (now : Int)
  | beat (w : Nat)
  | heartbeat (n : Nat) (now : Int)
  | reapStaleJobs (w : Nat) (now : Int)
  | crash (w : Nat)

namespace JobTable

variable (workers : Nat → JobQueue) (s : JobTable)

def enqueue (type payload : String) (runAt : Int) : JobTable :=
  { s with jobs := Function.update s.jobs s.nextId (some { type, payload, runAt }), nextId := s.nextId + 1 }

/-- The SELECT of a poll: due rows by their `run_at`, none of them locked between two statements. -/
def select (q : JobQueue) (now : Int) : List (Nat × JobRow) :=
  let rows := (List.range s.nextId).filterMap fun id => (s.jobs id).map fun row => (id, row)
  let due := rows.filter fun row => row.2.status = .pending ∧ row.2.runAt ≤ now
  (due.insertionSort fun a b => a.2.runAt ≤ b.2.runAt).take q.concurrency

def poll (w : Nat) (now : Int) : JobTable :=
  { s with
    executions := s.executions ++ (s.select (workers w) now).map fun (id, row) =>
      { worker := w, jobId := id, type := row.type, payload := row.payload, attempt := row.attemptCount } }

/-- The write that has another execution's write under it. -/
def overwrites (x : Nat) (e : Execution) : List (Nat × Nat) :=
  match s.jobs e.jobId, s.writer e.jobId with
  | some _, some y => if e.phase.isOutcome = true ∧ y ≠ x then [(x, y)] else []
  | _, _ => []

/-- The statement of execution `x` commits. -/
def write (x : Nat) (e : Execution) (now : Int) : JobTable :=
  { s with
    jobs := Function.update s.jobs e.jobId ((workers e.worker).statement e now (s.jobs e.jobId) e.phase)
    deadLetters := s.deadLetters ++ match e.phase with
      | .burying error => [{ jobId := e.jobId, type := e.type, payload := e.payload, error }]
      | _ => []
    writer := if (s.jobs e.jobId).isSome then Function.update s.writer e.jobId (some x) else s.writer
    overwritten := s.overwritten ++ s.overwrites x e }

/-- Execution `x` comes to another phase; a job is in flight from its lock to the end of its dispatch. -/
def move (x : Nat) (e : Execution) (phase : Phase) : JobTable :=
  { s with
    executions := s.executions.set x { e with phase }
    inFlight :=
      if e.phase = .dispatching then
        if phase = .done ∨ e.jobId ∈ s.inFlight e.worker then s.inFlight
        else Function.update s.inFlight e.worker (s.inFlight e.worker ++ [e.jobId])
      else if phase = .done then Function.update s.inFlight e.worker ((s.inFlight e.worker).filter (· ≠ e.jobId))
      else s.inFlight }

/-- Execution `x` goes on. -/
def goOn (x : Nat) (reply : Reply) (now : Int) : JobTable :=
  match s.executions[x]? with
  | none => s
  | some e =>
    (if e.phase.writes reply then s.write workers x e now else s).move x e ((workers e.worker).after e e.phase reply)

/-- A heartbeat takes the jobs in flight; without any it is skipped. -/
def beat (w : Nat) : JobTable :=
  if s.inFlight w = [] then s else { s with heartbeats := s.heartbeats ++ [(w, s.inFlight w)] }

/-- The statement of a heartbeat renews the locks of its worker. -/
def heartbeat (n : Nat) (now : Int) : JobTable :=
  match s.heartbeats[n]? with
  | none => s
  | some (w, ids) =>
    { s with
      heartbeats := s.heartbeats.eraseIdx n
      jobs := fun id => (s.jobs id).map fun row =>
        if row.status = .running ∧ row.workerId = some (workers w).workerId ∧ id ∈ ids then
          { row with lockedAt := some now }
        else row }

/-- The row is running, and its lock is older than the threshold. -/
def isStale (q : JobQueue) (now : Int) (id : Nat) : Bool :=
  match s.jobs id with
  | some row => match row.lockedAt with
    | some lockedAt => row.status == .running && decide (lockedAt < now - q.staleJobThresholdMs)
    | none => false
  | none => false

/-- Stale rows are pending again, taken from the executions under way. -/
def reapStaleJobs (w : Nat) (now : Int) : JobTable :=
  let stale := s.isStale (workers w) now
  { s with
    jobs := fun id =>
      if stale id then
        (s.jobs id).map fun row => { row with status := .pending, workerId := none, lockedAt := none }
      else s.jobs id
    executions := s.executions.map fun e => { e with stale := e.stale || (e.underWay && stale e.jobId) }
    writer := fun id => if stale id then none else s.writer id }

/-- The process of a worker stops. -/
def crash (w : Nat) : JobTable :=
  { s with
    executions := s.executions.map fun e => if e.worker = w then { e with phase := .done } else e
    inFlight := Function.update s.inFlight w [] }

def step : JobEvent → JobTable
  | .enqueue type payload runAt => s.enqueue type payload runAt
  | .poll w now => s.poll workers w now
  | .goOn x reply now => s.goOn workers x reply now
  | .beat w => s.beat w
  | .heartbeat n now => s.heartbeat workers n now
  | .reapStaleJobs w now => s.reapStaleJobs workers w now
  | .crash w => s.crash w

end JobTable

end StreetJS.Jobs
