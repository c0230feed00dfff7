/-
The runtime (`WorkflowRuntime.drive` of `workflow/src/runtime.ts` with the `Compensator` of
`workflow/src/compensator.ts`) as a machine: one step goes from one await point of a drive to the
next. A step saves at most one snapshot, which is then the run the drive works on.
-/
import StreetJS.Workflow.Context
import StreetJS.Lib.Runs
import Mathlib.Tactic

namespace StreetJS.Workflow

open StreetJS.Lib

variable {V : Type} [JsValue V]

/-! ## The state of a drive -/

/-- Where a drive stands between two steps. -/
inductive Phase (V : Type) where
  | entry
  | running
  | executing (command : Command V) (pending : Pending V)
  | rollingBack (targets : List (CommandRecord V))
  | invoking (target : CommandRecord V) (targets : List (CommandRecord V))
  | done (status : RunStatus)

/-- A drive of a run. `journal.current` is the journal's snapshot until the function has failed and
the compensator's from then on; `replies` is what the function has been handed. -/
structure Drive (V : Type) where
  journal : Journal V
  replies : List (Reply V) := []
  currentAttempt : Nat := 0
  compensations : List (CapturedCompensation V) := []
  phase : Phase V := .entry

def Drive.start (run : WorkflowRun V) : Drive V := { journal := { current := run } }

abbrev Drive.run (d : Drive V) : WorkflowRun V := d.journal.current

/-- What one step takes from outside: two readings of the clock and the effect of the thunk. -/
structure Tick (V : Type) where
  now : Int
  later : Int
  effect : Effect V

/-- A step at the instant 1 in which what runs outside the engine returns `result`. -/
def tick (result : V) : Tick V := { now := 1, later := 1, effect := Effect.always (.ok result) }

/-- A drive after a step, and the snapshot the step saved. -/
abbrev Stepped (V : Type) := Drive V × Option (WorkflowRun V)

/-- The drive goes on over a snapshot it has saved. -/
def Drive.save (d : Drive V) (run : WorkflowRun V) (phase : Phase V) : Stepped V :=
  ({ d with journal := { d.journal with current := run }, phase }, some run)

def Drive.handed (d : Drive V) (reply : Reply V) : Drive V :=
  { d with replies := d.replies ++ [reply], phase := .running }

/-! ## The compensator -/

/-- The instant a command counts as completed at. -/
def CommandRecord.completionTime (c : CommandRecord V) : Int := c.completedAt.getD c.seq

/-- `a` is rolled back before `b`: it completed later, or at the same time with a higher `seq`. -/
def rollsBackBefore (a b : CommandRecord V) : Bool :=
  decide (b.completionTime < a.completionTime ∨ b.completionTime = a.completionTime ∧ b.seq ≤ a.seq)

/-- The registration of a command: the first one captured under its `seq`. -/
def registration (compensations : List (CapturedCompensation V)) (seq : Nat) : Option (CapturedCompensation V) :=
  compensations.find? fun c => c.seq = seq

/-- The commands `compensate` rolls back, in its order. -/
def compensationTargets (run : WorkflowRun V) (compensations : List (CapturedCompensation V)) : List (CommandRecord V) :=
  (run.commands.filter fun c =>
    c.status = .completed ∧ c.compensated = false ∧ (registration compensations c.seq).isSome).insertionSort fun a b => rollsBackBefore a b

/-- `transition` of the compensator and of the engine. -/
def transition (run : WorkflowRun V) (to_ : RunStatus) (now : Int) : WorkflowRun V :=
  { run with status := to_, history := run.history ++ [.runStatus now run.status to_], updatedAt := now }

def appendHistory (run : WorkflowRun V) (event : HistoryEvent V) (later : Int) : WorkflowRun V :=
  { run with history := run.history ++ [event], updatedAt := later }

def markCompensated (run : WorkflowRun V) (seq : Nat) : WorkflowRun V :=
  { run with commands := run.commands.map fun c => if c.seq = seq then { c with compensated := true } else c }

/-- The audit event of an invoked rollback. -/
def rollbackEvent (c : CapturedCompensation V) (seq : Nat) (now : Int) : HistoryEvent V :=
  match c.rollback c.output with
  | .ok () => .compensationCompleted now seq
  | .error thrown => .compensationFailed now seq (serializeError thrown)

/-- The rollback of the next target is about to be invoked. -/
def Drive.startRollback (d : Drive V) (target : CommandRecord V) (targets : List (CommandRecord V)) (t : Tick V) : Stepped V :=
  d.save (appendHistory d.run (.compensationStarted t.now target.seq) t.later) (.invoking target targets)

/-- The rollback runs, and its outcome is recorded. -/
def Drive.invoke (d : Drive V) (target : CommandRecord V) (targets : List (CommandRecord V)) (t : Tick V) : Stepped V :=
  let event := match registration d.compensations target.seq with
    | some c => rollbackEvent c target.seq t.now
    | none => .compensationCompleted t.now target.seq
  d.save (appendHistory (markCompensated d.run target.seq) event t.later) (.rollingBack targets)

def Drive.compensated (d : Drive V) (t : Tick V) : Stepped V :=
  d.save (transition d.run .compensated t.now) (.done .compensated)

/-! ## The drive -/

/-- A run that enters in another status is committed as running first. -/
def Drive.enter (d : Drive V) (t : Tick V) : Stepped V :=
  if d.run.status ≠ .running then
    d.save (d.journal.commit
      { status := some .running, history := [.runStatus t.now d.run.status .running] } t.later).current .running
  else ({ d with phase := .running }, none)

def Drive.finalizeCompleted (d : Drive V) (output : V) (t : Tick V) : Stepped V :=
  d.save (d.journal.commit
    { status := some .completed
      output := if isUndefined output then none else some output
      history := [.runStatus t.now d.run.status .completed] } t.later).current (.done .completed)

def Drive.finalizeFailure (d : Drive V) (t : Tick V) : Stepped V :=
  match compensationTargets d.run d.compensations with
  | [] =>
    d.save (d.journal.commit
      { status := some .failed, history := [.runStatus t.now d.run.status .failed] } t.later).current (.done .failed)
  | targets => d.save (transition d.run .compensating t.now) (.rollingBack targets)

/-- The function takes its next action. -/
def Drive.act (fn : WorkflowFunction V) (d : Drive V) (t : Tick V) : Stepped V :=
  match fn d.run.input d.replies with
  | .getState key => (d.handed (.state (d.journal.readState key)), none)
  | .getAttempt => (d.handed (.attempt d.currentAttempt), none)
  | .command c =>
    match d.journal.issue c.spec t.now with
    | .replayed journal outcome => ({ d with journal }.handed (.settled outcome), none)
    | .live pending => ({ d with phase := .executing c pending }, none)
  | .returns output => d.finalizeCompleted output t
  -- the journal has persisted the wait already
  | .throws (.suspension _) => ({ d with phase := .done d.run.status }, none)
  | .throws _ => d.finalizeFailure t

/-- The thunk in flight returns or rejects. -/
def Drive.settle (d : Drive V) (command : Command V) (pending : Pending V) (t : Tick V) : Stepped V :=
  let x := command.execute t.effect { seq := pending.seq, now := pending.startedAt } d.run
  match x.outcome with
  | .error thrown => (d.handed (.settled (.error thrown)), none)
  | .ok outcome =>
    let (journal, reply) := d.journal.settle pending t.now outcome
    ({ d with
        journal
        currentAttempt := x.attempt.getD d.currentAttempt
        compensations := d.compensations ++ x.compensation.toList }.handed (.settled reply),
      some journal.current)

def Drive.step (fn : WorkflowFunction V) (d : Drive V) (t : Tick V) : Stepped V :=
  match d.phase with
  | .entry => d.enter t
  | .running => d.act fn t
  | .executing command pending => d.settle command pending t
  | .rollingBack [] => d.compensated t
  | .rollingBack (target :: targets) => d.startRollback target targets t
  | .invoking target targets => d.invoke target targets t
  | .done _ => (d, none)

/-- The drive after a step. -/
def Drive.next (fn : WorkflowFunction V) (d : Drive V) (t : Tick V) : Drive V := (d.step fn t).1

/-- The snapshot a step saves. -/
def Drive.saved (fn : WorkflowFunction V) (d : Drive V) (t : Tick V) : Option (WorkflowRun V) := (d.step fn t).2

/-- The command whose thunk a step calls. -/
def Drive.calls (fn : WorkflowFunction V) (d : Drive V) (t : Tick V) : Option (Command V) :=
  match (d.next fn t).phase, d.phase with
  | .executing command _, .running => some command
  | _, _ => none

/-- The rollback a step invokes, with its output. -/
def Drive.invokes (d : Drive V) : Option (CapturedCompensation V) :=
  match d.phase with
  | .invoking target _ => registration d.compensations target.seq
  | _ => none

/-- The run `WorkflowEngine.run` saves first. -/
def initialRun (runId definition : String) (input : V) (now : Int) : WorkflowRun V :=
  { runId, definition, status := .running, input, history := [.runStarted now input],
    createdAt := now, updatedAt := now }

/-! ## What a step keeps -/

/-- `b` is a later snapshot of the run `a` by the same writer: the identity, the input and the
buffered signals of the run are kept and its history is extended. -/
structure Keeps (a b : WorkflowRun V) : Prop where
  runId : b.runId = a.runId
  definition : b.definition = a.definition
  input : b.input = a.input
  pendingSignals : b.pendingSignals = a.pendingSignals
  history : a.history <+: b.history

theorem Keeps.refl (a : WorkflowRun V) : Keeps a a := ⟨rfl, rfl, rfl, rfl, List.prefix_refl _⟩

theorem Keeps.trans {a b c : WorkflowRun V} (h : Keeps a b) (h' : Keeps b c) : Keeps a c :=
  ⟨h'.runId.trans h.runId, h'.definition.trans h.definition, h'.input.trans h.input,
    h'.pendingSignals.trans h.pendingSignals, h.history.trans h'.history⟩

theorem commit_keeps (j : Journal V) (patch : RunPatch V) (now : Int) : Keeps j.current (j.commit patch now).current :=
  ⟨rfl, rfl, rfl, rfl, List.prefix_append _ _⟩

theorem transition_keeps (run : WorkflowRun V) (to_ : RunStatus) (now : Int) : Keeps run (transition run to_ now) :=
  ⟨rfl, rfl, rfl, rfl, List.prefix_append _ _⟩

theorem appendHistory_keeps (run : WorkflowRun V) (event : HistoryEvent V) (later : Int) : Keeps run (appendHistory run event later) :=
  ⟨rfl, rfl, rfl, rfl, List.prefix_append _ _⟩

theorem settle_keeps (j : Journal V) (p : Pending V) (settledAt : Int) (outcome : CommandOutcome V) :
    Keeps j.current (j.settle p settledAt outcome).1.current := by
  unfold Journal.settle
  cases outcome.settlement <;> exact ⟨rfl, rfl, rfl, rfl, List.prefix_append _ _⟩

theorem issue_replayed {j j' : Journal V} {spec : JournalCommandSpec V} {now : Int} {outcome : Except Thrown V}
    (h : j.issue spec now = .replayed j' outcome) :
    j' = { j with cursor := j.cursor + 1 } ∧ ∃ recorded, j.current.commands[j.cursor]? = some recorded ∧
      recorded.status ≠ .waiting ∧ outcome = replayOutcome j.current.runId j.cursor spec.kind recorded := by
  unfold Journal.issue at h
  split at h
  · rename_i recorded hr
    split at h
    · rename_i hw
      cases h
      exact ⟨rfl, recorded, hr, hw, rfl⟩
    · cases h
  · cases h

theorem step_saved (fn : WorkflowFunction V) (d : Drive V) (t : Tick V) :
    d.saved fn t = some (d.next fn t).run ∨ d.saved fn t = none ∧ (d.next fn t).run = d.run := by
  unfold Drive.saved Drive.next Drive.step
  split
  · unfold Drive.enter
    split
    · exact .inl rfl
    · exact .inr ⟨rfl, rfl⟩
  · unfold Drive.act
    split
    · exact .inr ⟨rfl, rfl⟩
    · exact .inr ⟨rfl, rfl⟩
    · split
      · rename_i h
        obtain ⟨rfl, -⟩ := issue_replayed h
        exact .inr ⟨rfl, rfl⟩
      · exact .inr ⟨rfl, rfl⟩
    · exact .inl rfl
    · exact .inr ⟨rfl, rfl⟩
    · unfold Drive.finalizeFailure
      split <;> exact .inl rfl
  · unfold Drive.settle
    simp only
    split
    · exact .inr ⟨rfl, rfl⟩
    · exact .inl rfl
  · exact .inl rfl
  · exact .inl rfl
  · exact .inl rfl
  · exact .inr ⟨rfl, rfl⟩

theorem step_keeps (fn : WorkflowFunction V) (d : Drive V) (t : Tick V) : Keeps d.run (d.next fn t).run := by
  unfold Drive.next Drive.step
  split
  · unfold Drive.enter
    split
    · exact commit_keeps _ _ _
    · exact Keeps.refl _
  · unfold Drive.act
    split
    · exact Keeps.refl _
    · exact Keeps.refl _
    · split
      · rename_i h
        obtain ⟨rfl, -⟩ := issue_replayed h
        exact Keeps.refl _
      · exact Keeps.refl _
    · exact commit_keeps _ _ _
    · exact Keeps.refl _
    · unfold Drive.finalizeFailure
      split
      · exact commit_keeps _ _ _
      · exact transition_keeps _ _ _
  · unfold Drive.settle
    simp only
    split
    · exact Keeps.refl _
    · exact settle_keeps _ _ _ _
  · exact transition_keeps _ _ _
  · exact appendHistory_keeps _ _ _
  · exact ⟨rfl, rfl, rfl, rfl, List.prefix_append _ _⟩
  · exact Keeps.refl _

end StreetJS.Workflow
