/-
The engine facade (`workflow/src/engine.ts`) as seen by one run: the operations that reach the run
one after the other, each with the whole of the drive it starts. A list of ticks that is too short
for the drive leaves it where the process stopped or an activity hung.
-/
import StreetJS.Workflow.Runtime

namespace StreetJS.Workflow

open StreetJS.Lib

variable {V : Type} [JsValue V]

/-- A drive of `run` over the given ticks. -/
def Drive.exec (fn : WorkflowFunction V) (run : WorkflowRun V) (ticks : List (Tick V)) : Drive V :=
  Lib.run (Drive.next fn) (Drive.start run) ticks

/-- The run in the store, and the waits the coordinator has resumed (`resumed`). -/
structure Engine (V : Type) where
  run : WorkflowRun V
  resumed : List Nat := []

/-- A run as `WorkflowEngine.run` saves it first. -/
def Engine.launch (runId definition : String) (input : V) (now : Int) : Engine V :=
  { run := initialRun runId definition input now }

/-- The operations on a run. `reopen` is a new process over the same store that registers the run's
definition. -/
inductive Op (V : Type) where
  | resume (ticks : List (Tick V))
  | pause (now : Int)
  | cancel (now : Int)
  | signal (name : String) (payload : V) (now : Int) (ticks : List (Tick V))
  | resumeDueTimers (now : Int) (ticks : List (Tick V))
  | reopen (autoResume : Bool) (ticks : List (Tick V))

/-- The ticks of the drive that an operation may start. -/
def Op.ticks : Op V → List (Tick V)
  | .resume ticks | .signal _ _ _ ticks | .resumeDueTimers _ ticks | .reopen _ ticks => ticks
  | .pause _ | .cancel _ => []

/-- The coordinator's `resume`: the first resume of a wait asks for a drive. -/
def Engine.resumeWait (s : Engine V) (seq : Nat) (ticks : List (Tick V)) : Engine V × Option (List (Tick V)) :=
  if seq ∈ s.resumed then (s, none) else ({ s with resumed := seq :: s.resumed }, some ticks)

/-- An operation up to its call of `driveExisting`, if it makes one. -/
def Engine.accept (s : Engine V) : Op V → Engine V × Option (List (Tick V))
  | .resume ticks => (s, if s.run.status.terminal then none else some ticks)
  | .pause now => (if s.run.status = .running then { s with run := transition s.run .paused now } else s, none)
  | .cancel now => (if s.run.status.terminal then s else { s with run := transition s.run .cancelled now }, none)
  | .signal name payload now ticks =>
    if s.run.status.terminal then (s, none)
    else
      let s := { s with run := bufferSignal s.run name payload now }
      match signalWait s.run name with
      | none => (s, none)
      | some wait => s.resumeWait wait.seq ticks
  | .resumeDueTimers now ticks =>
    if s.run.status = .waiting then
      match dueTimer s.run now with
      | none => (s, none)
      | some due => s.resumeWait due.seq ticks
    else (s, none)
  | .reopen autoResume ticks =>
    ({ s with resumed := [] }, if autoResume ∧ s.run.status.terminal = false then some ticks else none)

/-- `driveExisting` skips terminal and paused runs. -/
def driveExisting (run : WorkflowRun V) (ticks : List (Tick V)) : Option (WorkflowRun V × List (Tick V)) :=
  if run.status.terminal ∨ run.status = .paused then none else some (run, ticks)

/-- The drive an operation starts: its snapshot and its ticks. -/
def Engine.starts (s : Engine V) (op : Op V) : Option (WorkflowRun V × List (Tick V)) :=
  (s.accept op).2.bind (driveExisting (s.accept op).1.run)

def Engine.step (fn : WorkflowFunction V) (s : Engine V) (op : Op V) : Engine V :=
  match s.starts op with
  | some (run, ticks) => { (s.accept op).1 with run := (Drive.exec fn run ticks).run }
  | none => (s.accept op).1

theorem resumeWait_ticks {s : Engine V} {seq : Nat} {ticks ts : List (Tick V)} (h : (s.resumeWait seq ticks).2 = some ts) : ts = ticks := by
  unfold Engine.resumeWait at h
  split at h
  · cases h
  · exact (Option.some_inj.1 h).symm

theorem accept_ticks {s : Engine V} {op : Op V} {ts : List (Tick V)} (h : (s.accept op).2 = some ts) : ts = op.ticks := by
  cases op with
  | resume ticks =>
    simp only [Engine.accept] at h
    split at h
    · cases h
    · exact (Option.some_inj.1 h).symm
  | pause now => cases h
  | cancel now => cases h
  | signal name payload now ticks =>
    simp only [Engine.accept] at h
    split at h
    · cases h
    · split at h
      · cases h
      · exact resumeWait_ticks h
  | resumeDueTimers now ticks =>
    simp only [Engine.accept] at h
    split at h
    · split at h
      · cases h
      · exact resumeWait_ticks h
    · cases h
  | reopen autoResume ticks =>
    simp only [Engine.accept] at h
    split at h
    · exact (Option.some_inj.1 h).symm
    · cases h

theorem starts_run {s : Engine V} {op : Op V} {run : WorkflowRun V} {ticks : List (Tick V)} (h : s.starts op = some (run, ticks)) :
    run = (s.accept op).1.run ∧ (s.accept op).2 = some ticks ∧ run.status.terminal = false ∧ run.status ≠ .paused := by
  obtain ⟨ts, hts, h⟩ := Option.bind_eq_some_iff.1 h
  unfold driveExisting at h
  split at h
  · cases h
  · rename_i hs
    cases h
    rw [not_or] at hs
    exact ⟨rfl, hts, by simpa using hs.1, hs.2⟩

theorem exec_keeps (fn : WorkflowFunction V) (run : WorkflowRun V) (ticks : List (Tick V)) : Keeps run (Drive.exec fn run ticks).run :=
  run_invariant (Drive.next fn) (P := fun d => Keeps run d.run) (fun d t h => h.trans (step_keeps fn d t)) ticks (Keeps.refl run)

end StreetJS.Workflow
