/-
Sequential workflow functions: one `ctx.activity`, `ctx.parallel`, `ctx.state.set`, `ctx.storage` or
`ctx.queue.dispatch` command at a time and no compensation. What such a command reports depends on
its effect alone, so an uninterrupted drive follows one path of replies, whatever the clock reads.
-/
import StreetJS.Workflow.Runtime

namespace StreetJS.Workflow

open StreetJS.Lib

variable {V : Type} [JsValue V]

/-! ## What a command reports -/

/-- The part of an outcome that does not carry instants. -/
structure Report (V : Type) where
  settlement : Settlement V
  attempts : Option Nat
  statePatch : OrderedMap String V
  current : Option Nat

omit [JsValue V] in
/-- What a settled command hands to the function. -/
def Settlement.handed : Settlement V → Except Thrown V
  | .completed result => .ok result
  | .failed error => .error (.error (deserializeError (some error)))
  | .waiting _ _ => .error (.other "waiting")

omit [JsValue V] in
def Executed.report (x : Executed V) : Except Thrown (Report V) :=
  x.outcome.map fun o =>
    { settlement := o.settlement, attempts := o.attempts, statePatch := o.statePatch, current := x.attempt }

/-- The report of a command that reads nothing of the run. -/
def Command.report (c : Command V) (effect : Effect V) : Except Thrown (Report V) :=
  (c.execute effect { seq := 0, now := 0 } (initialRun "" "" undefined 0)).report

def Command.rejects (c : Command V) (effect : Effect V) : Prop := ∃ thrown, c.report effect = .error thrown

/-- What a command hands to the function when its thunk is called. -/
def Command.handed (c : Command V) (effect : Effect V) : Except Thrown V :=
  match c.report effect with
  | .ok report => report.settlement.handed
  | .error thrown => .error thrown

/-! ## Sequential commands -/

omit [JsValue V] in
def Command.sequential : Command V → Bool
  | .activity options => options.compensate.isNone
  | .parallelAll _ | .parallelRace _ | .parallelMap _ | .stateSet _ _ | .queueDispatch _ _ => true
  | .storagePut _ _ | .storageGet _ | .storageDelete _ | .storageMove _ _ | .storageCopy _ _ => true
  | .sleep _ | .waitUntil _ | .cron _ | .interval _ | .publish _ _ | .waitFor _ _ | .broadcast _ _ => false

omit [JsValue V] in
theorem runParallelChildren_result (n : Nat) (attempts : Nat → Attempts V) (seq seq' : Nat) :
    (runParallelChildren n attempts seq).map (·.result) = (runParallelChildren n attempts seq').map (·.result) := by
  unfold runParallelChildren
  rw [List.map_map, List.map_map]
  refine List.map_congr_left fun i _ => ?_
  exact (run_seq seq seq' {} (attempts i)).1

/-- A sequential command reports the same whenever its thunk is called with the same effect; it
neither waits nor captures a compensation. -/
structure ReportsAlone (c : Command V) (effect : Effect V) (info : JournalExecuteInfo) (run : WorkflowRun V) : Prop where
  report : (c.execute effect info run).report = c.report effect
  compensation : (c.execute effect info run).compensation = none
  runStatus : ∀ o, (c.execute effect info run).outcome = .ok o → o.runStatus = none
  settles : ∀ o, (c.execute effect info run).outcome = .ok o → o.settlement.status ≠ .waiting

omit [JsValue V] in
theorem report_reports (outcome : CommandOutcome V) :
    (reports outcome).report = .ok ⟨outcome.settlement, outcome.attempts, outcome.statePatch, none⟩ := rfl

theorem reportsAlone_of_reports {c : Command V} {effect : Effect V} {info : JournalExecuteInfo} {run : WorkflowRun V}
    {outcome outcome' : CommandOutcome V} (h : c.execute effect info run = reports outcome)
    (h' : c.execute effect { seq := 0, now := 0 } (initialRun "" "" undefined 0) = reports outcome')
    (hs : outcome.settlement = outcome'.settlement) (ha : outcome.attempts = outcome'.attempts)
    (hp : outcome.statePatch = outcome'.statePatch) (hr : outcome.runStatus = none)
    (hw : outcome.settlement.status ≠ .waiting) : ReportsAlone c effect info run := by
  constructor
  · unfold Command.report
    rw [h, h', report_reports, report_reports, hs, ha, hp]
  · rw [h]; rfl
  · intro o ho
    rw [h] at ho
    cases ho
    exact hr
  · intro o ho
    rw [h] at ho
    cases ho
    exact hw

theorem reportsAlone_of_bridged {c : Command V} {effect : Effect V} {info : JournalExecuteInfo} {run : WorkflowRun V}
    {unwired : Thrown} {result : V → V}
    (h : ∀ info run, c.execute effect info run = bridged unwired result effect.bridge) :
    ReportsAlone c effect info run := by
  have hsame : c.execute effect info run = c.execute effect { seq := 0, now := 0 } (initialRun "" "" undefined 0) := by
    rw [h, h]
  cases hb : effect.bridge with
  | none =>
    rw [hb] at h
    exact ⟨by unfold Command.report; rw [hsame], by rw [h]; rfl, fun o ho => (by rw [h] at ho; cases ho),
      fun o ho => (by rw [h] at ho; cases ho)⟩
  | some call =>
    rw [hb] at h
    cases call with
    | error thrown =>
      exact ⟨by unfold Command.report; rw [hsame], by rw [h]; rfl, fun o ho => (by rw [h] at ho; cases ho),
        fun o ho => (by rw [h] at ho; cases ho)⟩
    | ok value => exact reportsAlone_of_reports (h _ _) (h _ _) rfl rfl rfl rfl fun hw => by cases hw

theorem reportsAlone_activity {options : ActivityOptions V} (hc : options.compensate = none) (effect : Effect V)
    (info : JournalExecuteInfo) (run : WorkflowRun V) : ReportsAlone (.activity options) effect info run := by
  obtain ⟨h1, h2⟩ := run_seq info.seq 0 options (effect.attempts 0)
  constructor
  · unfold Command.report Executed.report Command.execute executeActivity runActivity
    simp only [Except.map, h1, h2]
  · unfold Command.execute executeActivity runActivity
    simp only [hc, Option.map_none]
    split <;> rfl
  · intro o ho
    cases ho
    rfl
  · intro o ho
    cases ho
    simp only
    split <;> exact fun h => by cases h

theorem sequential_reportsAlone {c : Command V} (hc : c.sequential = true) (effect : Effect V)
    (info : JournalExecuteInfo) (run : WorkflowRun V) : ReportsAlone c effect info run := by
  cases c with
  | activity options => exact reportsAlone_activity (Option.isNone_iff_eq_none.1 hc) effect info run
  | parallelAll n =>
    refine reportsAlone_of_reports rfl rfl ?_ rfl rfl rfl (combineResults_settles _)
    exact congrArg combineResults (runParallelChildren_result n effect.attempts _ _)
  | parallelRace n =>
    have h := runParallelChildren_result n effect.attempts info.seq 0
    refine reportsAlone_of_reports rfl rfl ?_ ?_ ?_ (raceChildren_settles _ _).2 (raceChildren_settles _ _).1
    · rw [h]
    · rw [h]
    · rw [h]
  | parallelMap mapped =>
    cases mapped with
    | ok n =>
      refine reportsAlone_of_reports rfl rfl ?_ rfl rfl rfl (combineResults_settles _)
      exact congrArg combineResults (runParallelChildren_result n effect.attempts _ _)
    | error thrown => exact ⟨rfl, rfl, nofun, nofun⟩
  | stateSet key value => exact reportsAlone_of_reports rfl rfl rfl rfl rfl rfl fun h => by cases h
  | queueDispatch job payload => exact reportsAlone_of_bridged fun _ _ => rfl
  | storagePut key content => exact reportsAlone_of_bridged fun _ _ => rfl
  | storageGet key => exact reportsAlone_of_bridged fun _ _ => rfl
  | storageDelete key => exact reportsAlone_of_bridged fun _ _ => rfl
  | storageMove from_ to_ => exact reportsAlone_of_bridged fun _ _ => rfl
  | storageCopy from_ to_ => exact reportsAlone_of_bridged fun _ _ => rfl
  | sleep durationMs => cases hc
  | waitUntil atEpochMs => cases hc
  | cron expression => cases hc
  | interval durationMs => cases hc
  | publish event payload => cases hc
  | waitFor event parse => cases hc
  | broadcast channel payload => cases hc

end StreetJS.Workflow
