/-
The saga workflow engine over its table row: one call of `resume`, statement by statement. The
database, the lock and the functions of the definition answer each await; what the call does between
two awaits is one step.
-/
import StreetJS.Workflow.Value
import StreetJS.Lib.OrderedMap
import StreetJS.Lib.Runs

namespace StreetJS.Jobs

open StreetJS.Lib StreetJS.Workflow

/-! ## JSON -/

mutual

/-- What a value reads back as after `JSON.stringify` and `JSON.parse`, `none` when it is left out. -/
def jsonImage : Value → Option Value
  | .undefined => none
  | .null => some .null
  | .bool b => some (.bool b)
  | .num n => some (.num n)
  | .str s => some (.str s)
  | .arr items => some (.arr (jsonItems items))
  | .obj fields => some (.obj (jsonFields fields))
  | .bytes content => some (.obj (content.mapIdx fun i byte => (toString i, .num byte.toNat)))
  | .buffer content =>
    some (.obj [("type", .str "Buffer"), ("data", .arr (content.map fun byte => .num byte.toNat))])

def jsonItems : List Value → List Value
  | [] => []
  | item :: items => (jsonImage item).getD .null :: jsonItems items

def jsonFields : List (String × Value) → List (String × Value)
  | [] => []
  | (key, value) :: fields =>
    match jsonImage value with
    | none => jsonFields fields
    | some image => (key, image) :: jsonFields fields

end

/-- The outputs that a row keeps of `stepOutputs`. -/
def jsonOutputs (outputs : OrderedMap String Value) : OrderedMap String Value :=
  outputs.filterMap fun e => (jsonImage e.2).map fun image => (e.1, image)

/-! ## Rows and definitions -/

inductive WorkflowStatus where
  | pending
  | running
  | completed
  | failed
  | timedOut
  deriving DecidableEq

/-- A row of `street_workflows`, its JSON columns parsed. -/
structure WorkflowRow where
  status : WorkflowStatus := .pending
  currentStep : Nat := 0
  stepOutputs : OrderedMap String Value := []
  input : Value := .null
  error : Option String := none

/-- A step: its name, and which of its optional members the definition gives. -/
structure WorkflowStep where
  name : String
  condition : Bool := false
  compensate : Bool := true
  timeoutMs : Option Nat := none

/-- The names that every object inherits. -/
def objectPrototype : List String :=
  ["constructor", "__defineGetter__", "__defineSetter__", "hasOwnProperty", "__lookupGetter__", "__lookupSetter__",
    "isPrototypeOf", "propertyIsEnumerable", "toString", "valueOf", "__proto__", "toLocaleString"]

/-- `stepOutputs[name]`. An inherited member is never `undefined`; what it is plays no part. -/
def readOutput (outputs : OrderedMap String Value) (name : String) : Value :=
  match outputs.get name with
  | some value => value
  | none => if name ∈ objectPrototype then .obj [] else .undefined

/-- `value ?? null`. -/
def orNull : Value → Value
  | .undefined => .null
  | value => value

/-! ## One call of `resume` -/

/-- The variables of a call. Completed steps are kept by their index. -/
structure Locals where
  stepOutputs : OrderedMap String Value
  completedSteps : List (Nat × Value)
  currentInput : Value

/-- Where a call that holds the lock stands. -/
inductive Point where
  | loop (i : Nat)
  | condition (i : Nat)
  | skipping (i : Nat) (passthrough : Value)
  | marking (i : Nat)
  | running (i : Nat)
  | persisting (i : Nat) (output : Value)
  | failing (status : WorkflowStatus) (error : String)
  | compensating (rest : List (Nat × Value))
  | finishing
  | releasing

/-- A call: the SELECT, the lock, the execution, the end. -/
inductive Call where
  | reading
  | locking (snapshot : WorkflowRow)
  | executing (l : Locals) (p : Point)
  | done

/-- What an await comes to. -/
inductive Answer where
  /-- A statement has committed, the lock is taken, or a compensation has returned. -/
  | ok
  /-- A statement has failed, or a function has thrown. -/
  | fails (error : String)
  | condition (b : Bool)
  | returns (output : Value)
  | timesOut

/-- What a call does that its history keeps: `run` is called, has returned, its output is in the row; a
skip is in the row; the row is failed; `compensate` is called. -/
inductive Mark where
  | ran (i : Nat)
  | returned (i : Nat)
  | persisted (i : Nat)
  | skipped (i : Nat)
  | failed
  | compensated (i : Nat)
  deriving DecidableEq

section

variable (steps : List WorkflowStep)

variable (row : WorkflowRow)

/-- The completed steps that are rebuilt from the row: all before its `current_step`. -/
def rebuild : List (Nat × Value) :=
  (List.range row.currentStep).filterMap fun i =>
    steps[i]?.map fun step => (i, readOutput row.stepOutputs step.name)

/-- The call has the lock and goes to the loop, on the row that it has read. -/
def enter : Call :=
  let completedSteps := rebuild steps row
  .executing
    { stepOutputs := row.stepOutputs
      completedSteps
      currentInput :=
        if row.currentStep = 0 then row.input
        else match completedSteps.getLast? with
          | some (_, output) => output
          | none => .undefined }
    (.loop row.currentStep)

/-- The head of the loop: the end, a step whose output is recorded, or a step to be tried. -/
def loopHead (l : Locals) (i : Nat) : Call :=
  match steps[i]? with
  | none => .executing l .finishing
  | some step =>
    let output := readOutput l.stepOutputs step.name
    if output.isUndefined then .executing l (if step.condition then .condition i else .marking i)
    else
      .executing { l with completedSteps := l.completedSteps ++ [(i, output)], currentInput := output } (.loop (i + 1))

/-- `stepOutputs[step.name] = value`. -/
def Locals.record (l : Locals) (i : Nat) (value : Value) : Locals :=
  match steps[i]? with
  | some step => { l with stepOutputs := l.stepOutputs.set step.name value }
  | none => l

/-- The UPDATE of `step_outputs` and `current_step` after step `i`. -/
def WorkflowRow.persist (l : Locals) (i : Nat) : WorkflowRow :=
  { row with stepOutputs := jsonOutputs l.stepOutputs, currentStep := i + 1 }

def timeoutMessage (step : WorkflowStep) (timeoutMs : Nat) : String :=
  "Step \"" ++ step.name ++ "\" timed out after " ++ toString timeoutMs ++ "ms"

/-- The timer of step `i`, when it has one. -/
def timeoutOf (i : Nat) : Option String :=
  match steps[i]? with
  | some step => match step.timeoutMs with
    | some (n + 1) => some (timeoutMessage step (n + 1))
    | _ => none
  | none => none

def hasCompensate (i : Nat) : Bool :=
  match steps[i]? with
  | some step => step.compensate
  | none => false

/-- A call that holds the lock goes on: the row after it, the call, and its marks. An answer that does
not fit the await changes nothing. -/
def execute (l : Locals) : Point → Answer → WorkflowRow × Call × List Mark
  | .loop i, _ => (row, loopHead steps l i, [])
  | .condition i, .condition true => (row, .executing l (.marking i), [])
  | .condition i, .condition false =>
    (row, .executing (l.record steps i (orNull l.currentInput)) (.skipping i (orNull l.currentInput)), [])
  | .condition _, .fails _ => (row, .executing l .releasing, [])
  | .skipping i passthrough, .ok =>
    (row.persist l i, .executing { l with currentInput := passthrough } (.loop (i + 1)), [.skipped i])
  | .skipping _ _, .fails _ => (row, .executing l .releasing, [])
  | .marking i, .ok => ({ row with status := .running, currentStep := i }, .executing l (.running i), [.ran i])
  | .marking _, .fails _ => (row, .executing l .releasing, [])
  | .running i, .returns output =>
    (row, .executing (l.record steps i output) (.persisting i output), [.returned i])
  | .running _, .fails error => (row, .executing l (.failing .failed error), [])
  | .running i, .timesOut => match timeoutOf steps i with
    | some error => (row, .executing l (.failing .timedOut error), [])
    | none => (row, .executing l (.running i), [])
  | .persisting i output, .ok =>
    (row.persist l i, .executing { l with completedSteps := l.completedSteps ++ [(i, output)], currentInput := output } (.loop (i + 1)),
      [.persisted i])
  | .persisting _ _, .fails error => (row, .executing l (.failing .failed error), [])
  | .failing status error, .ok =>
    ({ row with status, error := some error }, .executing l (.compensating l.completedSteps.reverse), [.failed])
  | .failing _ _, .fails _ => (row, .executing l .releasing, [])
  | .compensating [], _ => (row, .executing l .releasing, [])
  | .compensating ((i, _) :: rest), _ =>
    (row, .executing l (.compensating rest), if hasCompensate steps i then [.compensated i] else [])
  | .finishing, .ok => ({ row with status := .completed }, .executing l .releasing, [])
  | .finishing, .fails _ => (row, .executing l .releasing, [])
  | .releasing, _ => (row, .done, [])
  | p, _ => (row, .executing l p, [])

/-- The statuses at which `resume` returns at once. -/
def WorkflowStatus.stops : WorkflowStatus → Bool
  | .completed | .failed => true
  | _ => false

/-- A call goes on. The SELECT is before the lock; the row that it has read is the one that the call
works on. -/
def advance : Call → Answer → WorkflowRow × Call × List Mark
  | .reading, .ok => (row, if row.status.stops then .done else .locking row, [])
  | .reading, .fails _ => (row, .done, [])
  | .locking snapshot, .ok => (row, enter steps snapshot, [])
  | .locking _, .fails _ => (row, .done, [])
  | .executing l p, answer => execute steps row l p answer
  | call, _ => (row, call, [])

end

end StreetJS.Jobs
