/-
The operations on one run interleaved at their await points. Every operation loads its own copy of
the run's snapshot and later saves over the whole snapshot (`pause`, `cancel` and `driveExisting` of
`workflow/src/engine.ts`, `deliverSignal` of `workflow/src/coordinator.ts`, the saves of a drive);
`MemoryWorkflowStore.save` and `load` are atomic.
-/
import StreetJS.Workflow.Engine
import StreetJS.Workflow.Value

namespace StreetJS.Workflow

open StreetJS.Lib

variable {V : Type} [JsValue V]

/-! ## Operations in flight -/

/-- An operation in flight, with the copy of the snapshot it works on. -/
inductive Task (V : Type) where
  | drive (d : Drive V)
  | pause (loaded : WorkflowRun V)
  | cancel (loaded : WorkflowRun V)
  | signal (name : String) (payload : V) (loaded : WorkflowRun V)
  | ended

def Task.copy : Task V → Option (WorkflowRun V)
  | .drive d => some d.run
  | .pause loaded | .cancel loaded | .signal _ _ loaded => some loaded
  | .ended => none

/-- The operation up to its next await point, and the snapshot it has saved there. -/
def Task.step (fn : WorkflowFunction V) (t : Tick V) : Task V → Task V × Option (WorkflowRun V)
  | .drive d => (.drive (d.next fn t), d.saved fn t)
  | .pause loaded => (.ended, some (transition loaded .paused t.now))
  | .cancel loaded => (.ended, some (transition loaded .cancelled t.now))
  | .signal name payload loaded => (.ended, some (bufferSignal loaded name payload t.now))
  | .ended => (.ended, none)

/-- An operation in flight, and the number of snapshots there were when it last loaded or saved. -/
structure Writer (V : Type) where
  task : Task V
  seen : Nat

/-- The run in the store, the number of snapshots saved, and the operations in flight. -/
structure System (V : Type) where
  stored : WorkflowRun V
  saves : Nat := 0
  writers : List (Writer V) := []

/-- A call that loads the run, or a step of an operation in flight. Every drive of an existing run
(`resume`, a due timer, a delivered signal, an auto-resume) begins with the load of `driveExisting`. -/
inductive SystemEvent (V : Type) where
  | beginDrive
  | beginPause
  | beginCancel
  | beginSignal (name : String) (payload : V)
  | step (i : Nat) (t : Tick V)

def System.load (s : System V) (task : Task V) : System V := { s with writers := s.writers ++ [⟨task, s.saves⟩] }

/-- The system after a writer has moved to `task` and saved `saved`. -/
def System.moved (s : System V) (i seen : Nat) (task : Task V) (saved : Option (WorkflowRun V)) : System V :=
  match saved with
  | none => { s with writers := s.writers.set i ⟨task, seen⟩ }
  | some run => { stored := run, saves := s.saves + 1, writers := s.writers.set i ⟨task, s.saves + 1⟩ }

def System.step (fn : WorkflowFunction V) (s : System V) : SystemEvent V → System V
  | .beginDrive =>
    if s.stored.status.terminal ∨ s.stored.status = .paused then s else s.load (.drive (Drive.start s.stored))
  | .beginPause => if s.stored.status = .running then s.load (.pause s.stored) else s
  | .beginCancel => if s.stored.status.terminal then s else s.load (.cancel s.stored)
  | .beginSignal name payload => if s.stored.status.terminal then s else s.load (.signal name payload s.stored)
  | .step i t =>
    match s.writers[i]? with
    | none => s
    | some w => s.moved i w.seen (w.task.step fn t).1 (w.task.step fn t).2

/-- A run in the store with nothing in flight, or with the drive that `run` has launched on it. -/
def System.open (run : WorkflowRun V) (launched : Bool) : System V :=
  { stored := run, writers := if launched then [⟨.drive (Drive.start run), 0⟩] else [] }

/-- The system after the events `es`. -/
abbrev System.after (fn : WorkflowFunction V) (run : WorkflowRun V) (launched : Bool) (es : List (SystemEvent V)) : System V :=
  Lib.run (System.step fn) (System.open run launched) es

/-! ## What is observed -/

/-- The operation that takes a step. -/
def System.stepping (s : System V) : SystemEvent V → Option (Writer V)
  | .step i _ => s.writers[i]?
  | _ => none

/-- The step in which a cancellation persists its status. -/
def System.cancels (s : System V) (e : SystemEvent V) : Bool :=
  match s.stepping e with
  | some ⟨.cancel _, _⟩ => true
  | _ => false

/-- A signal whose delivery is persisted by a step. -/
def System.delivers (s : System V) : SystemEvent V → Option (RecordedSignal V)
  | .step i t =>
    match s.writers[i]? with
    | some ⟨.signal name payload _, _⟩ => some { name, payload, receivedAt := t.now }
    | _ => none
  | _ => none

def Command.runsActivity : Command V → Bool
  | .activity _ | .parallelAll _ | .parallelRace _ | .parallelMap _ => true
  | _ => false

/-- A command whose activities are started by a step. -/
def System.startsActivity (fn : WorkflowFunction V) (s : System V) : SystemEvent V → Option (Command V)
  | .step i t =>
    match s.writers[i]? with
    | some ⟨.drive d, _⟩ => (d.calls fn t).filter (·.runsActivity)
    | _ => none
  | _ => none

/-! ## Steps -/

theorem task_step (fn : WorkflowFunction V) (t : Tick V) (task : Task V) : ((task.step fn t).2 = none ∧ (task.step fn t).1.copy = task.copy) ∨
      ∃ c r, task.copy = some c ∧ (task.step fn t).2 = some r ∧ c.history <+: r.history ∧
        ((task.step fn t).1.copy = some r ∨ (task.step fn t).1.copy = none) := by
  cases task with
  | drive d =>
    rcases step_saved fn d t with h | ⟨h, hr⟩
    · exact .inr ⟨d.run, (d.next fn t).run, rfl, h, (step_keeps fn d t).history, .inl rfl⟩
    · exact .inl ⟨h, congrArg some hr⟩
  | pause loaded => exact .inr ⟨loaded, _, rfl, rfl, List.prefix_append _ _, .inr rfl⟩
  | cancel loaded => exact .inr ⟨loaded, _, rfl, rfl, List.prefix_append _ _, .inr rfl⟩
  | signal name payload loaded => exact .inr ⟨loaded, _, rfl, rfl, List.prefix_append _ _, .inr rfl⟩
  | ended => exact .inl ⟨rfl, rfl⟩

theorem step_begin (fn : WorkflowFunction V) (s : System V) (e : SystemEvent V) (he : s.stepping e = none) :
    s.step fn e = s ∨ s.stored.status.terminal = false ∧ ∃ task, task.copy = some s.stored ∧ s.step fn e = s.load task := by
  cases e with
  | beginDrive =>
    simp only [System.step]
    split
    · exact .inl rfl
    · rename_i h
      rw [not_or] at h
      exact .inr ⟨by simpa using h.1, _, rfl, rfl⟩
  | beginPause =>
    simp only [System.step]
    split
    · rename_i h
      exact .inr ⟨by rw [h]; rfl, _, rfl, rfl⟩
    · exact .inl rfl
  | beginCancel =>
    simp only [System.step]
    split
    · exact .inl rfl
    · rename_i h
      exact .inr ⟨by simpa using h, _, rfl, rfl⟩
  | beginSignal name payload =>
    simp only [System.step]
    split
    · exact .inl rfl
    · rename_i h
      exact .inr ⟨by simpa using h, _, rfl, rfl⟩
  | step i t =>
    have hi : s.writers[i]? = none := he
    simp only [System.step, hi]
    exact .inl trivial

theorem step_eq_moved (fn : WorkflowFunction V) {s : System V} {i : Nat} {t : Tick V} {w : Writer V} (hw : s.writers[i]? = some w) :
    s.step fn (.step i t) = s.moved i w.seen (w.task.step fn t).1 (w.task.step fn t).2 := by
  simp only [System.step, hw]

theorem mem_writers_moved {s : System V} {i seen : Nat} {task : Task V} {saved : Option (WorkflowRun V)}
    {w : Writer V} (hw : w ∈ (s.moved i seen task saved).writers) :
    w ∈ s.writers ∨ w = ⟨task, if saved.isSome then s.saves + 1 else seen⟩ := by
  cases saved with
  | none => exact List.mem_or_eq_of_mem_set hw
  | some run => exact List.mem_or_eq_of_mem_set hw

end StreetJS.Workflow
