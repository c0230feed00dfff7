/-
Pausing a run between drives (`pause`, `resume` and `driveExisting` of `workflow/src/engine.ts`):
no operation but `cancel` takes a run out of `paused`, since every path to a drive goes through
`driveExisting` and that skips paused runs.
-/
import StreetJS.Workflow.Engine
import StreetJS.Workflow.Value

namespace StreetJS.Workflow

open StreetJS.Lib

variable {V : Type} [JsValue V]

/-! ## A paused run -/

/-- What a command of a run has recorded. -/
def recordedResult (c : CommandRecord V) : CommandKind × CommandStatus × Option V × Option SerializedError :=
  (c.kind, c.status, c.result, c.error)

theorem starts_of_paused {s : Engine V} {op : Op V} (hs : s.run.status = .paused) (hc : ∀ now, op ≠ .cancel now) :
    s.starts op = none ∧ (s.accept op).1.run.status = .paused ∧
      (s.accept op).1.run.commands = s.run.commands ∧ (s.accept op).1.run.output = s.run.output := by
  have hstart : (s.accept op).1.run.status = .paused → s.starts op = none := by
    intro h
    unfold Engine.starts driveExisting
    cases (s.accept op).2 with
    | none => rfl
    | some ticks => simp [h]
  suffices h : (s.accept op).1.run.status = .paused ∧ (s.accept op).1.run.commands = s.run.commands ∧
      (s.accept op).1.run.output = s.run.output from ⟨hstart h.1, h⟩
  cases op with
  | resume ticks => exact ⟨hs, rfl, rfl⟩
  | pause now =>
    have hr : s.run.status ≠ .running := by rw [hs]; decide
    have he : s.accept (.pause now) = (s, none) := by simp only [Engine.accept, hr, if_false]
    rw [he]
    exact ⟨hs, rfl, rfl⟩
  | cancel now => exact absurd rfl (hc now)
  | signal name payload now ticks =>
    have ht : s.run.status.terminal = false := by rw [hs]; rfl
    have hw : signalWait (bufferSignal s.run name payload now) name = none := by
      unfold signalWait
      rw [if_neg (by rw [bufferSignal_status, hs]; decide)]
    simp only [Engine.accept, ht, Bool.false_eq_true, if_false, hw]
    exact ⟨hs, rfl, rfl⟩
  | resumeDueTimers now ticks =>
    have hw : s.run.status ≠ .waiting := by rw [hs]; decide
    have he : s.accept (.resumeDueTimers now ticks) = (s, none) := by simp only [Engine.accept, hw, if_false]
    rw [he]
    exact ⟨hs, rfl, rfl⟩
  | reopen autoResume ticks => exact ⟨hs, rfl, rfl⟩

/-- `b` is `a` as far as its function has taken it, and is paused. -/
structure StillPaused (a b : WorkflowRun V) : Prop where
  status : b.status = .paused
  commands : b.commands = a.commands
  output : b.output = a.output

theorem stillPaused_step (fn : WorkflowFunction V) {a : WorkflowRun V} {s : Engine V} {op : Op V}
    (hs : StillPaused a s.run) (hc : ∀ now, op ≠ .cancel now) : StillPaused a (s.step fn op).run := by
  obtain ⟨hn, h1, h2, h3⟩ := starts_of_paused hs.status hc
  unfold Engine.step
  rw [hn]
  exact ⟨h1, h2.trans hs.commands, h3.trans hs.output⟩

theorem stillPaused_run (fn : WorkflowFunction V) {a : WorkflowRun V} :
    ∀ (ops : List (Op V)) {s : Engine V}, StillPaused a s.run → (∀ now, .cancel now ∉ ops) →
      StillPaused a (Lib.run (Engine.step fn) s ops).run ∧ observe (Engine.step fn) Engine.starts s ops = []
  | [], _, hs, _ => ⟨hs, rfl⟩
  | op :: ops, s, hs, hc => by
    have hop : ∀ now, op ≠ .cancel now := fun now h => hc now (h ▸ List.mem_cons_self)
    obtain ⟨h1, h2⟩ := stillPaused_run fn ops (stillPaused_step fn hs hop) (fun now h => hc now (List.mem_cons_of_mem _ h))
    refine ⟨h1, ?_⟩
    unfold observe
    rw [h2, (starts_of_paused hs.status hop).1]
    rfl

theorem pause_stillPaused (fn : WorkflowFunction V) (s : Engine V) (now : Int) (hs : s.run.status = .running) :
    StillPaused s.run (s.step fn (.pause now)).run := by
  unfold Engine.step
  simp only [Engine.accept, hs, if_true]
  exact ⟨rfl, rfl, rfl⟩

/-! ## Transparency -/

/-- A pause at `now` before the operations `ops` makes no difference: a resume among them drives the
function again, and where the run never paused ends, the paused one ends in the same status with
the same output and command results. -/
structure PauseTransparent (fn : WorkflowFunction V) (s : Engine V) (now : Int) (ops : List (Op V)) : Prop where
  driven : (∃ ticks, .resume ticks ∈ ops) → observe (Engine.step fn) Engine.starts (s.step fn (.pause now)) ops ≠ []
  ending : (Lib.run (Engine.step fn) s ops).run.status.terminal = true → let never := (Lib.run (Engine.step fn) s ops).run
    let paused := (Lib.run (Engine.step fn) (s.step fn (.pause now)) ops).run
    paused.status = never.status ∧ paused.output = never.output ∧ paused.commands.map recordedResult = never.commands.map recordedResult

/-- A pause is never transparent: from then on the run stays paused with the commands and the output
it had, whatever is done short of cancelling it, and no resume drives it. -/
theorem pause_not_transparent (fn : WorkflowFunction V) (s : Engine V) (now : Int) (ops : List (Op V))
    (hs : s.run.status = .running) (hr : ∃ ticks, .resume ticks ∈ ops) (hc : ∀ at_, .cancel at_ ∉ ops) :
    StillPaused s.run (Lib.run (Engine.step fn) (s.step fn (.pause now)) ops).run ∧ ¬ PauseTransparent fn s now ops := by
  obtain ⟨h1, h2⟩ := stillPaused_run fn ops (pause_stillPaused fn s now hs) hc
  exact ⟨h1, fun h => h.driven hr h2⟩

/-! ## A run that is paused and resumed -/

/-- A run whose process stopped before its function issued a command. -/
def stoppedRun : Engine Value := { run := initialRun "run-1" "one" .null 0 }

def resumeTicks : List (Tick Value) := List.replicate 4 (tick (.num 7))

theorem pause_not_transparent_stoppedRun : StillPaused stoppedRun.run
      (Lib.run (Engine.step oneActivity) (stoppedRun.step oneActivity (.pause 1)) [.resume resumeTicks]).run ∧
      ¬ PauseTransparent oneActivity stoppedRun 1 [.resume resumeTicks] :=
  pause_not_transparent oneActivity stoppedRun 1 [.resume resumeTicks] rfl ⟨_, List.mem_cons_self⟩
    (fun at_ h => by cases h with | tail _ h => cases h)

/-- Never paused, the run completes on the resume with output 7; paused before, it stays paused. -/
theorem stoppedRun_pause_counterexample : (Lib.run (Engine.step oneActivity) stoppedRun [.resume resumeTicks]).run.status = .completed ∧
      (Lib.run (Engine.step oneActivity) stoppedRun [.resume resumeTicks]).run.output = some (.num 7) ∧
      (Lib.run (Engine.step oneActivity) (stoppedRun.step oneActivity (.pause 1)) [.resume resumeTicks]).run.status = .paused ∧
      ¬ PauseTransparent oneActivity stoppedRun 1 [.resume resumeTicks] := by
  refine ⟨rfl, rfl, rfl, fun h => ?_⟩
  have h1 := (h.ending rfl).1
  cases h1

end StreetJS.Workflow
