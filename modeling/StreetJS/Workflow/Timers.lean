/-
Timer waits under re-drives: the thunk of `ctx.sleep`, `ctx.interval` and `ctx.cron` computes its
expiry from the clock again whenever a drive comes to the waiting record, so a re-drive parks the run
anew, `now + d` or one cron time later, and never finds the wait expired.
-/
import StreetJS.Workflow.Redrive
import StreetJS.Workflow.Value

namespace StreetJS.Workflow

open StreetJS.Lib List

variable {V : Type} [JsValue V]

/-! ## Relative timers -/

omit [JsValue V] in
/-- The expiry that `ctx.sleep`, `ctx.interval` and `ctx.cron` compute from a reading of the clock. -/
def Command.expiresAt : Command V → Int → Option Int
  | .sleep durationMs, now | .interval durationMs, now => some (now + durationMs)
  | .cron expression, now => (computeNextCronTime expression now).toOption
  | _, _ => none

omit [JsValue V] in
/-- A timer that parked at `parkedAt` until `expiry` is given the same expiry again at `now`: a cron
timer until it is due, a duration only while the clock has not moved. -/
def Command.keepsExpiry (c : Command V) (parkedAt expiry now : Int) : Prop :=
  match c with
  | .cron _ => now < expiry
  | _ => now = parkedAt

omit [JsValue V] in
theorem expiresAt_cron (expression : String) (now : Int) :
    (Command.cron expression : Command V).expiresAt now = (computeNextCronTime expression now).toOption := rfl

section Relative

variable {c : Command V} {parkedAt expiry now : Int}

theorem execute_timer (info : JournalExecuteInfo) (h : c.expiresAt info.now = some expiry) (effect : Effect V)
    (run : WorkflowRun V) : c.execute effect info run = reports (timerOutcome info.seq info.now expiry) := by
  cases c with
  | sleep durationMs => cases h; rfl
  | interval durationMs => cases h; rfl
  | cron expression =>
    rw [expiresAt_cron] at h
    cases hc : computeNextCronTime expression info.now with
    | error message => rw [hc] at h; cases h
    | ok t =>
      rw [hc] at h
      cases h
      simp only [Command.execute, hc]
  | _ => cases h

omit [JsValue V] in
theorem expiresAt_future (h : c.expiresAt parkedAt = some expiry) (hlt : parkedAt < expiry) (now : Int) :
    ∃ e, c.expiresAt now = some e ∧ now < e := by
  cases c with
  | sleep durationMs => cases h; exact ⟨now + durationMs, rfl, by omega⟩
  | interval durationMs => cases h; exact ⟨now + durationMs, rfl, by omega⟩
  | cron expression =>
    rw [expiresAt_cron] at h ⊢
    cases hc : computeNextCronTime expression now with
    | error message =>
      rw [computeNextCronTime_error hc parkedAt] at h
      cases h
    | ok t => exact ⟨t, rfl, lt_computeNextCronTime hc⟩
  | _ => cases h

omit [JsValue V] in
theorem keepsExpiry_iff (h : c.expiresAt parkedAt = some expiry) (hlt : parkedAt < expiry) (hle : parkedAt ≤ now) :
    c.keepsExpiry parkedAt expiry now ↔ now < expiry ∧ c.expiresAt now = some expiry := by
  have hduration : ∀ d : Int, parkedAt + d = expiry → (now = parkedAt ↔ now < expiry ∧ some (now + d) = some expiry) := by
    intro d hd
    rw [Option.some_inj]
    constructor
    · rintro rfl
      exact ⟨hlt, hd⟩
    · rintro ⟨-, hn⟩
      omega
  cases c with
  | sleep durationMs => exact hduration durationMs (Option.some_inj.1 h)
  | interval durationMs => exact hduration durationMs (Option.some_inj.1 h)
  | cron expression =>
    rw [expiresAt_cron] at h ⊢
    cases hc : computeNextCronTime expression parkedAt with
    | error message => rw [hc] at h; cases h
    | ok t =>
      rw [hc] at h
      cases h
      refine ⟨fun hn => ⟨hn, ?_⟩, And.left⟩
      rw [computeNextCronTime_stable hc hle hn]
      rfl
  | _ => cases h

end Relative

/-! ## Parked runs -/

/-- A run that is parked on the timer `c`: a drive over it replays the records `before`, issues `c` at
the waiting record behind them, and the function lets the suspension through. -/
structure Parked (fn : WorkflowFunction V) (c : Command V) (before : List (CommandRecord V))
    (replies : List (Reply V)) (expiry : Int) (run : WorkflowRun V) : Prop where
  replays : Replays fn run replies before.length
  issues : fn run.input replies = .command c
  suspends : ∀ u, fn run.input (replies ++ [.settled (.error (.suspension u))]) = .throws (.suspension u)
  waits : ∃ wait, run.commands = before ++ [wait] ∧ wait.status = .waiting ∧ wait.timerExpiresAt = some expiry

/-- A run that a drive is about to park on `c`, or that is parked already. -/
structure Arrives (fn : WorkflowFunction V) (c : Command V) (before : List (CommandRecord V))
    (replies : List (Reply V)) (run : WorkflowRun V) : Prop where
  replays : Replays fn run replies before.length
  issues : fn run.input replies = .command c
  suspends : ∀ u, fn run.input (replies ++ [.settled (.error (.suspension u))]) = .throws (.suspension u)
  frontier : run.commands = before ∨ ∃ wait, run.commands = before ++ [wait] ∧ wait.status = .waiting

section Parking

variable {fn : WorkflowFunction V} {c : Command V} {before : List (CommandRecord V)} {replies : List (Reply V)}
  {expiry : Int} {run : WorkflowRun V}

theorem Parked.arrives (h : Parked fn c before replies expiry run) : Arrives fn c before replies run := by
  obtain ⟨wait, hc, hw, -⟩ := h.waits
  exact ⟨h.replays, h.issues, h.suspends, .inr ⟨wait, hc, hw⟩⟩

theorem Parked.preservedExpiry (h : Parked fn c before replies expiry run) : preservedExpiry run = some expiry := by
  obtain ⟨wait, hc, hw, he⟩ := h.waits
  unfold Workflow.preservedExpiry
  rw [activeWait_concat hc hw]
  exact he

theorem Parked.of_sameJournal {run' : WorkflowRun V} (h : Parked fn c before replies expiry run)
    (hs : SameJournal run run') : Parked fn c before replies expiry run' :=
  ⟨h.replays.of_sameJournal hs, hs.input ▸ h.issues, fun u => hs.input ▸ h.suspends u, hs.commands ▸ h.waits⟩

theorem run_suspended {d : Drive V} {u : WorkflowSuspension} (hphase : d.phase = .running)
    (hthrows : fn d.run.input d.replies = .throws (.suspension u)) (ts : List (Tick V)) :
    (Lib.run (Drive.next fn) d ts).run = d.run ∧ (Lib.run (Drive.next fn) d ts).replies = d.replies := by
  have hinv := run_invariant (Drive.next fn)
    (P := fun d' => d'.run = d.run ∧ d'.replies = d.replies ∧ (d'.phase = .running ∨ ∃ status, d'.phase = .done status))
    (fun d' t h => by
      obtain ⟨hrun, hreplies, hphase' | ⟨status, hphase'⟩⟩ := h
      · have hact : d'.next fn t = { d' with phase := .done d'.run.status } := by
          unfold Drive.next Drive.step
          rw [hphase']
          unfold Drive.act
          rw [hrun, hreplies, hthrows]
        rw [hact]
        exact ⟨hrun, hreplies, .inr ⟨_, rfl⟩⟩
      · have hstay : d'.next fn t = d' := by
          unfold Drive.next Drive.step
          rw [hphase']
        rw [hstay]
        exact ⟨hrun, hreplies, .inr ⟨status, hphase'⟩⟩) ts ⟨rfl, rfl, .inl hphase⟩
  exact ⟨hinv.1, hinv.2.1⟩

omit [JsValue V] in
/-- The reading at which a drive evaluates the command behind its first `n` replies, where it comes to
save the outcome. -/
def evaluatedAt (n : Nat) (ts : List (Tick V)) : Option Int :=
  match ts.drop (n + 1) with
  | issue :: _ :: _ => some issue.now
  | _ => none

omit [JsValue V] in
theorem evaluatedAt_eq_some {n : Nat} {ts : List (Tick V)} {now : Int} (h : evaluatedAt n ts = some now) :
    ∃ entry replayed issue settle rest, ts = entry :: (replayed ++ issue :: settle :: rest) ∧ replayed.length = n ∧ issue.now = now := by
  unfold evaluatedAt at h
  split at h
  · rename_i issue settle rest hd
    cases ts with
    | nil => cases hd
    | cons entry ts =>
      rw [drop_succ_cons] at hd
      have hlen : n < ts.length := by
        by_contra hge
        rw [drop_eq_nil_of_le (by omega)] at hd
        cases hd
      refine ⟨entry, ts.take n, issue, settle, rest, ?_, length_take_of_le (by omega), Option.some_inj.1 h⟩
      rw [← hd, take_append_drop]
  · cases h

omit [JsValue V] in
theorem evaluatedAt_eq_none {n : Nat} {ts : List (Tick V)} (h : evaluatedAt n ts = none) : ts.length ≤ n + 2 := by
  unfold evaluatedAt at h
  have hlen := length_drop (i := n + 1) (l := ts)
  split at h
  · cases h
  · rename_i hne
    match hd : ts.drop (n + 1) with
    | [] => rw [hd, length_nil] at hlen; omega
    | [_] => rw [hd, length_singleton] at hlen; omega
    | issue :: settle :: rest => exact absurd hd (hne issue settle rest)

theorem exec_parks (h : Arrives fn c before replies run) {ts : List (Tick V)} {now : Int}
    (hts : evaluatedAt replies.length ts = some now) (he : c.expiresAt now = some expiry) (hlt : now < expiry) :
    Parked fn c before replies expiry (Drive.exec fn run ts).run ∧
      ∃ u, (Drive.exec fn run ts).replies = replies ++ [.settled (.error (.suspension u))] := by
  obtain ⟨entry, replayed, issue, settle, rest, rfl, hlen, rfl⟩ := evaluatedAt_eq_some hts
  have hs := entered_sameJournal run entry
  rw [← cons_append, exec_append, exec_replays h.replays entry hlen, run_cons, run_cons]
  -- the record at the frontier is missing or waiting: the thunk is called
  obtain ⟨pending, hissue, hspec, hindex, hnow, hrecorded⟩ : ∃ pending : Pending V,
      (replaying run entry replies before.length).journal.issue c.spec issue.now = .live pending ∧
        pending.spec = c.spec ∧ pending.index = before.length ∧ pending.startedAt = issue.now ∧
        (run.commands = before ∧ pending.recorded = none ∨ ∃ wait, run.commands = before ++ [wait] ∧ pending.recorded = some wait) := by
    unfold Journal.issue replaying
    simp only [hs.commands]
    rcases h.frontier with hf | ⟨wait, hf, hw⟩
    · have hg : run.commands[before.length]? = none := by rw [hf]; simp
      simp only [hg]
      exact ⟨_, rfl, rfl, rfl, rfl, .inl ⟨hf, rfl⟩⟩
    · have hg : run.commands[before.length]? = some wait := by rw [hf]; simp
      simp only [hg]
      rw [if_neg (by rw [hw]; simp)]
      exact ⟨_, rfl, rfl, rfl, rfl, .inr ⟨wait, hf, rfl⟩⟩
  rw [next_replaying h.issues hissue]
  generalize hd : Drive.next fn { replaying run entry replies before.length with phase := .executing c pending } settle = d
  have hsettle : d = (Drive.settle { replaying run entry replies before.length with phase := .executing c pending }
      c pending settle).1 := hd.symm
  -- the timer is not due, so the outcome is a wait
  unfold Drive.settle at hsettle
  rw [execute_timer { seq := pending.seq, now := pending.startedAt } (by rw [hnow]; exact he)] at hsettle
  have houtcome : timerOutcome (V := V) pending.seq pending.startedAt expiry =
      { settlement := .waiting none (some expiry), runStatus := some .waiting,
        history := [.timerSet pending.startedAt pending.seq expiry] } := by
    unfold timerOutcome
    rw [if_neg (by rw [hnow]; omega)]
  simp only [reports, houtcome] at hsettle
  have hreplies : d.replies = replies ++ [.settled (.error (.suspension
      { seq := pending.seq, kind := pending.spec.kind, waitingFor := none, timerExpiresAt := some expiry }))] := by
    rw [hsettle]; rfl
  have hphase : d.phase = .running := by rw [hsettle]; rfl
  have hinput : d.run.input = run.input := by rw [hsettle]; exact hs.input
  have hthrows : fn d.run.input d.replies = .throws (.suspension
      { seq := pending.seq, kind := pending.spec.kind, waitingFor := none, timerExpiresAt := some expiry }) := by
    rw [hinput, hreplies, h.suspends]
  obtain ⟨hrun, hrep⟩ := run_suspended hphase hthrows rest
  refine ⟨?_, _, hrep.trans hreplies⟩
  rw [hrun]
  have hcommands : ∃ wait, d.run.commands = before ++ [wait] ∧ wait.status = .waiting ∧ wait.timerExpiresAt = some expiry := by
    rw [hsettle]
    refine ⟨buildRecord pending.spec pending.seq pending.startedAt settle.now
      { settlement := .waiting none (some expiry), runStatus := some .waiting,
        history := [.timerSet pending.startedAt pending.seq expiry] } pending.recorded, ?_, rfl, rfl⟩
    show (if pending.recorded.isSome then (entered run entry).commands.set pending.index _
      else (entered run entry).commands ++ [_]) = _
    rw [hs.commands, hindex]
    rcases hrecorded with ⟨hf, hr⟩ | ⟨wait, hf, hr⟩
    · rw [hr, hf]; rfl
    · rw [hr, hf]
      simp
  have hid : d.run.runId = run.runId := by rw [hsettle]; exact hs.runId
  have hstate : d.run.state = run.state := by rw [hsettle]; exact hs.state
  have hbefore : ∀ i < before.length, d.run.commands[i]? = run.commands[i]? := by
    obtain ⟨wait, hw, -⟩ := hcommands
    intro i hi
    rw [hw, getElem?_append_left hi]
    rcases h.frontier with hf | ⟨wait', hf, -⟩
    · rw [hf]
    · rw [hf, getElem?_append_left hi]
  exact ⟨h.replays.congr hid hinput hstate hbefore, hinput ▸ h.issues, fun u => hinput ▸ h.suspends u, hcommands⟩

theorem exec_sameJournal (h : Arrives fn c before replies run) {ts : List (Tick V)}
    (hts : evaluatedAt replies.length ts = none) : SameJournal run (Drive.exec fn run ts).run := by
  by_cases hle : ts.length ≤ replies.length + 1
  · exact exec_sameJournal_of_short h.replays hle
  · have hge := evaluatedAt_eq_none hts
    obtain ⟨us, t, rfl⟩ : ∃ us t, ts = us ++ [t] := by
      rcases eq_nil_or_concat' ts with rfl | ⟨us, t, rfl⟩
      · exact absurd (Nat.zero_le _) hle
      · exact ⟨us, t, rfl⟩
    rw [length_append, length_singleton] at hle hge
    have hus := exec_sameJournal_of_short h.replays (by omega : us.length ≤ replies.length + 1)
    cases us with
    | nil => simp at hle
    | cons entry us =>
      rw [length_cons] at hle hge
      rw [exec_concat]
      rw [exec_replays h.replays entry (by omega)] at hus ⊢
      rcases step_saved fn (replaying run entry replies before.length) t with hsaved | ⟨-, hrun⟩
      · -- issuing a command saves nothing
        exfalso
        unfold Drive.saved at hsaved
        have hact : ((replaying run entry replies before.length).step fn t).2 = none := by
          show ((replaying run entry replies before.length).act fn t).2 = none
          unfold Drive.act
          rw [show (replaying run entry replies before.length).run.input = run.input from
            (entered_sameJournal run entry).input,
            show (replaying run entry replies before.length).replies = replies from rfl, h.issues]
          simp only
          split <;> rfl
        rw [hact] at hsaved
        cases hsaved
      · rw [hrun]
        exact hus

end Parking

/-! ## Schedules of re-drives -/

/-- A re-drive that evaluates the timer at or after `expiry` completes it, and one that evaluates it
before the expiry that is recorded leaves that as it is. -/
structure TimerServed (fn : WorkflowFunction V) (n : Nat) (expiry : Int) (r : WorkflowRun V × List (Tick V)) : Prop where
  completes : ∀ now, evaluatedAt n r.2 = some now → expiry ≤ now → (Drive.exec fn r.1 r.2).replies[n]? = some (.settled (.ok undefined))
  preserves : ∀ now e, evaluatedAt n r.2 = some now → preservedExpiry r.1 = some e → now < e →
    preservedExpiry (Drive.exec fn r.1 r.2).run = some e

/-- The timer that is issued behind `n` replies and recorded with `expiry` completes under a schedule. -/
def TimerCompletes (fn : WorkflowFunction V) (n : Nat) (expiry : Int) (s : Engine V) (ops : List (Op V)) : Prop :=
  ∀ r ∈ redrives fn s ops, TimerServed fn n expiry r

/-- Every re-drive evaluates the timer at a reading that gives it the same expiry again. -/
def NeverDue (fn : WorkflowFunction V) (c : Command V) (n : Nat) (parkedAt expiry : Int) (s : Engine V) (ops : List (Op V)) : Prop :=
  ∀ r ∈ redrives fn s ops, ∀ now, evaluatedAt n r.2 = some now → c.keepsExpiry parkedAt expiry now

omit [JsValue V] in
theorem mem_of_evaluatedAt {n : Nat} {ts : List (Tick V)} {now : Int} (h : evaluatedAt n ts = some now) : ∃ t ∈ ts, t.now = now := by
  obtain ⟨entry, replayed, issue, settle, rest, rfl, -, hnow⟩ := evaluatedAt_eq_some h
  exact ⟨issue, by simp, hnow⟩

section Schedules

variable {fn : WorkflowFunction V} {c : Command V} {before : List (CommandRecord V)} {replies : List (Reply V)}
  {parkedAt expiry : Int}

theorem timerServed_iff {run : WorkflowRun V} {ts : List (Tick V)} (h : Parked fn c before replies expiry run)
    (he : c.expiresAt parkedAt = some expiry) (hlt : parkedAt < expiry) (hlater : ∀ t ∈ ts, parkedAt ≤ t.now) :
    TimerServed fn replies.length expiry (run, ts) ↔ ∀ now, evaluatedAt replies.length ts = some now → c.keepsExpiry parkedAt expiry now := by
  constructor
  · intro hserved now hnow
    obtain ⟨t, ht, rfl⟩ := mem_of_evaluatedAt hnow
    obtain ⟨e, he', hlt'⟩ := expiresAt_future he hlt t.now
    obtain ⟨hparked, u, hreplies⟩ := exec_parks h.arrives hnow he' hlt'
    rw [keepsExpiry_iff he hlt (hlater t ht)]
    by_cases hdue : expiry ≤ t.now
    · -- the re-drive parks the run again instead of completing the timer
      have hdone := hserved.completes t.now hnow hdue
      rw [show (Drive.exec fn (run, ts).1 (run, ts).2).replies = _ from hreplies] at hdone
      simp at hdone
    · have hkept := hserved.preserves t.now expiry hnow h.preservedExpiry (by omega)
      rw [show Workflow.preservedExpiry (Drive.exec fn (run, ts).1 (run, ts).2).run = _ from hparked.preservedExpiry] at hkept
      exact ⟨by omega, hkept ▸ he'⟩
  · intro hkeeps
    constructor
    · intro now hnow hdue
      obtain ⟨t, ht, rfl⟩ := mem_of_evaluatedAt hnow
      have hk := (keepsExpiry_iff he hlt (hlater t ht)).1 (hkeeps _ hnow)
      omega
    · intro now e hnow hrec hunexpired
      obtain ⟨t, ht, rfl⟩ := mem_of_evaluatedAt hnow
      obtain ⟨hn, hk⟩ := (keepsExpiry_iff he hlt (hlater t ht)).1 (hkeeps _ hnow)
      rw [show Workflow.preservedExpiry run = _ from h.preservedExpiry] at hrec
      rw [← hrec]
      exact (exec_parks h.arrives hnow hk hn).1.preservedExpiry

theorem parked_step {s : Engine V} {op : Op V} (h : Parked fn c before replies expiry s.run)
    (he : c.expiresAt parkedAt = some expiry) (hlt : parkedAt < expiry) (hlater : ∀ t ∈ op.ticks, parkedAt ≤ t.now)
    (hkeeps : ∀ r, s.starts op = some r → ∀ now, evaluatedAt replies.length r.2 = some now →
      c.keepsExpiry parkedAt expiry now) : Parked fn c before replies expiry (s.step fn op).run := by
  have haccepted := h.of_sameJournal (accept_sameJournal s op)
  unfold Engine.step
  cases hs : s.starts op with
  | none => exact haccepted
  | some r =>
    obtain ⟨run, ts⟩ := r
    obtain ⟨rfl, hts, -⟩ := starts_run hs
    cases hnow : evaluatedAt replies.length ts with
    | none => exact haccepted.of_sameJournal (exec_sameJournal haccepted.arrives hnow)
    | some now =>
      obtain ⟨t, ht, rfl⟩ := mem_of_evaluatedAt hnow
      rw [accept_ticks hts] at ht
      obtain ⟨hn, hk⟩ := (keepsExpiry_iff he hlt (hlater t ht)).1 (hkeeps _ hs _ hnow)
      exact (exec_parks haccepted.arrives hnow hk hn).1

end Schedules

/-! ## A sleep that is driven again when it is due -/

/-- `await ctx.sleep(1000)`, and no more. -/
def sleeper : WorkflowFunction Value
  | _, [] => .command (.sleep 1000)
  | _, [.settled (.error thrown)] => .throws thrown
  | _, _ => .returns .undefined

/-- Four steps at the instant `now`. -/
def ticksAt (now : Int) : List (Tick Value) :=
  List.replicate 4 { now, later := now, effect := Effect.always (.ok .undefined) }

/-- The sleeper parked at the instant 0. -/
def sleeping : Engine Value := { run := (Drive.exec sleeper (initialRun "run-1" "sleeper" .null 0) (ticksAt 0)).run }

theorem sleeping_parked : Parked sleeper (.sleep 1000) [] [] 1000 sleeping.run :=
  (exec_parks (⟨.start, rfl, fun _ => rfl, .inl rfl⟩ : Arrives sleeper (.sleep 1000) [] [] (initialRun "run-1" "sleeper" Value.null 0))
    (rfl : evaluatedAt 0 (ticksAt 0) = some 0) rfl (by decide)).1

end StreetJS.Workflow
