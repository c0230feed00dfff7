/-
A drive of a sequential function seen position by position: a position is the number of replies the
function has been handed. `Point.advance` says what the next position is, without the steps in
between, the instants and the audit events; a drive of the runtime follows these points.
-/
import StreetJS.Workflow.Sequential

namespace StreetJS.Workflow

open StreetJS.Lib List

variable {V : Type} [JsValue V]

/-! ## Scenarios -/

/-- A workflow function that issues sequential commands only; it may also read. -/
structure SequentialFunction (V : Type) where
  next : WorkflowFunction V
  sequential : ∀ input replies c, next input replies = .command c → c.sequential = true

/-- A function, the run it is launched on, and what happens outside at each of its positions. -/
structure Scenario (V : Type) where
  fn : SequentialFunction V
  input : V
  runId : String
  definition : String
  createdAt : Int
  effects : Nat → Effect V

def Scenario.launched (s : Scenario V) : WorkflowRun V := initialRun s.runId s.definition s.input s.createdAt

/-- A step of a drive at two readings of the clock. -/
def Scenario.step (s : Scenario V) (d : Drive V) (t : Int × Int) : Drive V :=
  d.next s.fn.next { now := t.1, later := t.2, effect := s.effects d.replies.length }

/-- A drive over a snapshot. -/
def Scenario.drive (s : Scenario V) (run : WorkflowRun V) (ts : List (Int × Int)) : Drive V :=
  Lib.run s.step (Drive.start run) ts

/-- The position at which a step calls a thunk. -/
def Scenario.called (s : Scenario V) (d : Drive V) (t : Int × Int) : Option Nat :=
  (d.calls s.fn.next { now := t.1, later := t.2, effect := s.effects d.replies.length }).map fun _ => d.replies.length

/-- The position whose outcome a step records. -/
def Scenario.recorded (s : Scenario V) (d : Drive V) (t : Int × Int) : Option Nat :=
  match d.phase with
  | .executing _ _ =>
    (d.saved s.fn.next { now := t.1, later := t.2, effect := s.effects d.replies.length }).map fun _ => d.replies.length
  | _ => none

/-- The positions at which a drive calls a thunk. -/
def Scenario.calls (s : Scenario V) (run : WorkflowRun V) (ts : List (Int × Int)) : List Nat :=
  observe s.step s.called (Drive.start run) ts

/-- The positions whose outcomes a drive records. -/
def Scenario.records (s : Scenario V) (run : WorkflowRun V) (ts : List (Int × Int)) : List Nat :=
  observe s.step s.recorded (Drive.start run) ts

/-! ## Points -/

omit [JsValue V] in
/-- A record without its instants. -/
def CommandRecord.untimed (c : CommandRecord V) : CommandRecord V := { c with startedAt := none, completedAt := none }

/-- The record that a report is written as. -/
def Report.record (r : Report V) (c : Command V) (seq : Nat) : CommandRecord V :=
  (buildRecord c.spec seq 0 0 { settlement := r.settlement, attempts := r.attempts } none).untimed

/-- A drive between two positions. -/
structure Point (V : Type) where
  replies : List (Reply V)
  cursor : Nat
  commands : List (CommandRecord V)
  state : OrderedMap String V
  attempt : Nat

omit [JsValue V] in
def Point.start (run : WorkflowRun V) : Point V :=
  { replies := [], cursor := 0, commands := run.commands.map (·.untimed), state := run.state, attempt := 0 }

omit [JsValue V] in
def Point.hand (p : Point V) (reply : Reply V) : Point V := { p with replies := p.replies ++ [reply] }

/-- A command at a point: it is replayed, rejects, or is recorded. -/
def Point.issue (runId : String) (effect : Effect V) (c : Command V) (p : Point V) : Point V :=
  match p.commands[p.cursor]? with
  | some recorded =>
    { p with
      replies := p.replies ++ [.settled (replayOutcome runId p.cursor c.kind recorded)]
      cursor := p.cursor + 1 }
  | none =>
    match c.report effect with
    | .error thrown => p.hand (.settled (.error thrown))
    | .ok report =>
      { replies := p.replies ++ [.settled report.settlement.handed]
        cursor := p.cursor + 1
        commands := p.commands ++ [report.record c p.commands.length]
        state := mergeState p.state report.statePatch
        attempt := report.current.getD p.attempt }

/-- The next position; `none` when the function ends here. -/
def Scenario.advance (s : Scenario V) (p : Point V) : Option (Point V) :=
  match s.fn.next s.input p.replies with
  | .command c => some (p.issue s.runId (s.effects p.replies.length) c)
  | .getState key => some (p.hand (.state (readKey p.state key)))
  | .getAttempt => some (p.hand (.attempt p.attempt))
  | .returns _ | .throws _ => none

/-- The points of a drive over `run`; from the end of the function on they stay. -/
def Scenario.point (s : Scenario V) (run : WorkflowRun V) : Nat → Point V
  | 0 => Point.start run
  | n + 1 => (s.advance (s.point run n)).getD (s.point run n)

/-- A point whose journal is settled up to its cursor. -/
structure Point.Settled (p : Point V) : Prop where
  cursor_le : p.cursor ≤ p.commands.length
  settled : ∀ r ∈ p.commands, r.status ≠ .waiting

/-! ## Records -/

omit [JsValue V] in
theorem untimed_status (c : CommandRecord V) : c.untimed.status = c.status := rfl

omit [JsValue V] in
omit [JsValue V] in
theorem buildRecord_untimed (spec : JournalCommandSpec V) (seq : Nat) (a b a' b' : Int) {o o' : CommandOutcome V}
    (hs : o.settlement = o'.settlement) (ha : o.attempts = o'.attempts) (hw : o.settlement.status ≠ .waiting) :
    (buildRecord spec seq a b o none).untimed = (buildRecord spec seq a' b' o' none).untimed := by
  unfold buildRecord
  simp only
  rw [← hs, ← ha]
  cases hset : o.settlement with
  | completed result => rfl
  | failed error => rfl
  | waiting waitingFor timerExpiresAt => rw [hset] at hw; exact absurd rfl hw

omit [JsValue V] in
theorem replayOutcome_untimed (runId : String) (i : Nat) (kind : CommandKind) (c : CommandRecord V) :
    replayOutcome runId i kind c.untimed = replayOutcome runId i kind c := rfl

theorem replayOutcome_record (runId : String) (i seq : Nat) (c : Command V) {r : Report V} (hw : r.settlement.status ≠ .waiting) :
    replayOutcome runId i c.kind (r.record c seq) = r.settlement.handed := by
  unfold Report.record
  rw [replayOutcome_untimed]
  unfold replayOutcome buildRecord Command.spec
  cases hset : r.settlement with
  | completed result => simp [Settlement.handed, Settlement.status]
  | failed error => simp [Settlement.handed, Settlement.status]
  | waiting waitingFor timerExpiresAt => rw [hset] at hw; exact absurd rfl hw

variable {c : Command V} {effect : Effect V}

theorem report_settles (hc : c.sequential = true) {r : Report V} (h : c.report effect = .ok r) : r.settlement.status ≠ .waiting := by
  have hs := (sequential_reportsAlone hc effect { seq := 0, now := 0 } (initialRun "" "" undefined 0)).settles
  unfold Command.report Executed.report at h
  cases ho : (c.execute effect { seq := 0, now := 0 } (initialRun "" "" undefined 0)).outcome with
  | error thrown => rw [ho] at h; cases h
  | ok o =>
    rw [ho] at h
    cases h
    exact hs o ho

/-! ## The next point -/

variable {p : Point V}

theorem issue_of_recorded {recorded : CommandRecord V} (h : p.commands[p.cursor]? = some recorded)
    (runId : String) (effect : Effect V) (c : Command V) :
    p.issue runId effect c = { p with
      replies := p.replies ++ [.settled (replayOutcome runId p.cursor c.kind recorded)], cursor := p.cursor + 1 } := by
  unfold Point.issue
  rw [h]

theorem issue_of_rejects (h : p.commands[p.cursor]? = none) {runId : String}
    {thrown : Thrown} (hr : c.report effect = .error thrown) :
    p.issue runId effect c = p.hand (.settled (.error thrown)) := by
  unfold Point.issue
  rw [h, hr]

theorem issue_of_reports (h : p.commands[p.cursor]? = none) {runId : String} {r : Report V} (hr : c.report effect = .ok r) :
    p.issue runId effect c =
      { replies := p.replies ++ [.settled r.settlement.handed], cursor := p.cursor + 1
        commands := p.commands ++ [r.record c p.commands.length], state := mergeState p.state r.statePatch
        attempt := r.current.getD p.attempt } := by
  unfold Point.issue
  rw [h, hr]

theorem issue_replies (p : Point V) (runId : String) (effect : Effect V) (c : Command V) :
    ∃ reply, (p.issue runId effect c).replies = p.replies ++ [reply] := by
  unfold Point.issue
  split
  · exact ⟨_, rfl⟩
  · split <;> exact ⟨_, rfl⟩

variable {s : Scenario V}

theorem advance_replies {p' : Point V} (h : s.advance p = some p') : ∃ reply, p'.replies = p.replies ++ [reply] := by
  unfold Scenario.advance at h
  split at h
  · cases h; exact issue_replies _ _ _ _
  · cases h; exact ⟨_, rfl⟩
  · cases h; exact ⟨_, rfl⟩
  · cases h
  · cases h

theorem advance_none_of_replies {p' : Point V} (h : p'.replies = p.replies) (ha : s.advance p = none) : s.advance p' = none := by
  unfold Scenario.advance at ha ⊢
  rw [h]
  cases hact : s.fn.next s.input p.replies with
  | command c => rw [hact] at ha; cases ha
  | getState key => rw [hact] at ha; cases ha
  | getAttempt => rw [hact] at ha; cases ha
  | returns output => rfl
  | throws thrown => rfl

theorem issue_settled (hp : p.Settled) (hc : c.sequential = true) (runId : String)
    (effect : Effect V) : (p.issue runId effect c).Settled := by
  cases hg : p.commands[p.cursor]? with
  | some recorded =>
    rw [issue_of_recorded hg]
    exact ⟨(List.getElem?_eq_some_iff.1 hg).1, hp.settled⟩
  | none =>
    cases hr : c.report effect with
    | error thrown => rw [issue_of_rejects hg hr]; exact ⟨hp.cursor_le, hp.settled⟩
    | ok r =>
      rw [issue_of_reports hg hr]
      constructor
      · have := hp.cursor_le
        simp only [length_append, length_singleton]
        omega
      · intro r' hr'
        rcases mem_append.1 hr' with hr' | hr'
        · exact hp.settled r' hr'
        · rw [mem_singleton.1 hr']
          unfold Report.record
          rw [untimed_status, buildRecord_status]
          exact report_settles hc hr

theorem advance_settled {p' : Point V} (hp : p.Settled) (h : s.advance p = some p') : p'.Settled := by
  unfold Scenario.advance at h
  split at h
  · rename_i c hc
    cases h
    exact issue_settled hp (s.fn.sequential _ _ c hc) _ _
  · cases h; exact ⟨hp.cursor_le, hp.settled⟩
  · cases h; exact ⟨hp.cursor_le, hp.settled⟩
  · cases h
  · cases h

/-! ## A drive at a point -/

/-- A snapshot that is `p` up to instants. -/
structure Holds (s : Scenario V) (run : WorkflowRun V) (p : Point V) : Prop where
  runId : run.runId = s.runId
  input : run.input = s.input
  commands : run.commands.map (·.untimed) = p.commands
  nextSeq : run.nextSeq = p.commands.length
  state : run.state = p.state
  settled : p.Settled

/-- A drive whose function has been handed the replies of `p` over a snapshot that is `p`; nothing but
its end writes its output. -/
structure Tracks (s : Scenario V) (out : Option V) (d : Drive V) (p : Point V) : Prop where
  holds : Holds s d.run p
  replies : d.replies = p.replies
  cursor : d.journal.cursor = p.cursor
  attempt : d.currentAttempt = p.attempt
  compensations : d.compensations = []
  output : d.run.output = out

/-- How the function ends at a point: the drive's status and the run's output. -/
def Ends (out : Option V) : Action V → RunStatus → Option V → Prop
  | .returns output, status, out' =>
    status = .completed ∧ out' = ((if isUndefined output then none else some output).orElse fun _ => out)
  | .throws (.suspension _), status, out' => status = .running ∧ out' = out
  | .throws _, status, out' => status = .failed ∧ out' = out
  | _, _, _ => False

/-- Where a drive stands at a point. -/
inductive At (s : Scenario V) (out : Option V) (d : Drive V) (p : Point V) : Prop where
  | entry (tracks : Tracks s out d p) (phase : d.phase = .entry)
  | running (tracks : Tracks s out d p) (phase : d.phase = .running) (status : d.run.status = .running)
  | executing (c : Command V) (pending : Pending V) (tracks : Tracks s out d p) (phase : d.phase = .executing c pending)
      (status : d.run.status = .running) (issued : s.fn.next s.input p.replies = .command c)
      (live : p.commands[p.cursor]? = none) (begun : pending = d.journal.live c.spec none pending.startedAt)
  | done (status : RunStatus) (holds : Holds s d.run p) (phase : d.phase = .done status)
      (replies : d.replies = p.replies) (runStatus : d.run.status = status)
      (ends : Ends out (s.fn.next s.input p.replies) status d.run.output)

theorem At.replies {out : Option V} {d : Drive V} (h : At s out d p) : d.replies = p.replies := by
  cases h with
  | entry tr => exact tr.replies
  | running tr => exact tr.replies
  | executing c pending tr => exact tr.replies
  | done status holds phase hr => exact hr

theorem At.holds {s : Scenario V} {out : Option V} {d : Drive V} {p : Point V} (h : At s out d p) : Holds s d.run p := by
  cases h with
  | entry tr => exact tr.holds
  | running tr => exact tr.holds
  | executing c pending tr => exact tr.holds
  | done status holds => exact holds

section Steps

variable {s : Scenario V} {out : Option V} {d : Drive V} {p : Point V} (t : Int × Int)

theorem step_entry (tr : Tracks s out d p) (ph : d.phase = .entry) :
    Tracks s out (s.step d t) p ∧ (s.step d t).phase = .running ∧ (s.step d t).run.status = .running ∧ s.called d t = none := by
  have he : s.step d t = (d.enter { now := t.1, later := t.2, effect := s.effects d.replies.length }).1 := by
    unfold Scenario.step Drive.next Drive.step
    rw [ph]
  have hcall : s.called d t = none := by
    unfold Scenario.called Drive.calls
    rw [ph]
    split
    · rename_i h; cases h
    · rfl
  rw [he]
  unfold Drive.enter
  split
  · exact ⟨⟨⟨tr.holds.runId, tr.holds.input, tr.holds.commands, tr.holds.nextSeq, tr.holds.state, tr.holds.settled⟩,
      tr.replies, tr.cursor, tr.attempt, tr.compensations, tr.output⟩, rfl, rfl, hcall⟩
  · rename_i hs
    rw [not_not] at hs
    exact ⟨⟨tr.holds, tr.replies, tr.cursor, tr.attempt, tr.compensations, tr.output⟩, rfl, hs, hcall⟩

theorem Tracks.getElem? (tr : Tracks s out d p) :
    p.commands[p.cursor]? = (d.journal.current.commands[d.journal.cursor]?).map (·.untimed) := by
  rw [← tr.holds.commands, ← tr.cursor, getElem?_map]

theorem Tracks.handed (tr : Tracks s out d p) (reply : Reply V) {cursor : Nat} (hc : cursor ≤ p.commands.length) :
    Tracks s out ({ d with journal := { d.journal with cursor } }.handed reply)
      { p with replies := p.replies ++ [reply], cursor } :=
  ⟨⟨tr.holds.runId, tr.holds.input, tr.holds.commands, tr.holds.nextSeq, tr.holds.state, ⟨hc, tr.holds.settled.settled⟩⟩,
    congrArg (· ++ [reply]) tr.replies, rfl, tr.attempt, tr.compensations, tr.output⟩

theorem Tracks.hand (tr : Tracks s out d p) (reply : Reply V) : Tracks s out (d.handed reply) (p.hand reply) :=
  ⟨⟨tr.holds.runId, tr.holds.input, tr.holds.commands, tr.holds.nextSeq, tr.holds.state,
      ⟨tr.holds.settled.cursor_le, tr.holds.settled.settled⟩⟩,
    congrArg (· ++ [reply]) tr.replies, tr.cursor, tr.attempt, tr.compensations, tr.output⟩

theorem step_eq_act (ph : d.phase = .running) :
    s.step d t = (d.act s.fn.next { now := t.1, later := t.2, effect := s.effects d.replies.length }).1 := by
  unfold Scenario.step Drive.next Drive.step
  rw [ph]

theorem called_running (ph : d.phase = .running) : s.called d t = match (s.step d t).phase with
      | .executing _ _ => some d.replies.length
      | _ => none := by
  unfold Scenario.called Drive.calls Scenario.step
  rw [ph]
  split
  · rename_i h _; rw [h]; rfl
  · rename_i h
    split
    · rename_i h'; exact absurd rfl (h _ _ h')
    · rfl

theorem step_silent (tr : Tracks s out d p) (ph : d.phase = .running) (st : d.run.status = .running) {p' : Point V}
    (ha : s.advance p = some p')
    (hl : ∀ c, s.fn.next s.input p.replies = .command c → p.commands[p.cursor]? ≠ none) :
    At s out (s.step d t) p' ∧ (s.step d t).phase = .running ∧ s.called d t = none := by
  suffices h : ∃ d', s.step d t = d' ∧ Tracks s out d' p' ∧ d'.phase = .running ∧ d'.run.status = .running by
    obtain ⟨d', hd, tr', ph', st'⟩ := h
    refine ⟨hd ▸ .running tr' ph' st', hd ▸ ph', ?_⟩
    rw [called_running t ph, hd, ph']
  rw [step_eq_act t ph]
  have hfn : s.fn.next d.run.input d.replies = s.fn.next s.input p.replies := by rw [tr.holds.input, tr.replies]
  unfold Drive.act
  rw [hfn]
  unfold Scenario.advance at ha
  cases hact : s.fn.next s.input p.replies with
  | command c =>
    rw [hact] at ha
    cases ha
    cases hg : p.commands[p.cursor]? with
    | none => exact absurd hg (hl c hact)
    | some recorded =>
      have hg' := tr.getElem?
      rw [hg] at hg'
      obtain ⟨r, hr, hru⟩ := Option.map_eq_some_iff.1 hg'.symm
      have hw : r.status ≠ .waiting := by
        rw [← untimed_status, hru]
        exact tr.holds.settled.settled _ (mem_of_getElem? hg)
      have hissue : d.journal.issue c.spec t.1 = .replayed { d.journal with cursor := d.journal.cursor + 1 }
            (replayOutcome d.run.runId d.journal.cursor c.spec.kind r) := by
        unfold Journal.issue
        rw [hr]
        exact if_pos hw
      simp only [hissue]
      rw [issue_of_recorded hg]
      refine ⟨_, rfl, ?_, rfl, st⟩
      have hout : replayOutcome s.runId p.cursor c.kind recorded = replayOutcome d.run.runId d.journal.cursor c.spec.kind r := by
        rw [← hru, replayOutcome_untimed, tr.holds.runId, tr.cursor]; rfl
      have hlen : p.cursor + 1 ≤ p.commands.length := (List.getElem?_eq_some_iff.1 hg).1
      rw [hout, ← tr.cursor]
      exact tr.handed _ (tr.cursor ▸ hlen)
  | getState key =>
    rw [hact] at ha
    cases ha
    refine ⟨_, rfl, ?_, rfl, st⟩
    have hread : readKey p.state key = d.journal.readState key := by rw [← tr.holds.state]; rfl
    rw [hread]
    exact tr.hand _
  | getAttempt =>
    rw [hact] at ha
    cases ha
    refine ⟨_, rfl, ?_, rfl, st⟩
    rw [← tr.attempt]
    exact tr.hand _
  | returns output => rw [hact] at ha; cases ha
  | throws thrown => rw [hact] at ha; cases ha

theorem step_live (tr : Tracks s out d p) (ph : d.phase = .running) (st : d.run.status = .running) {c : Command V}
    (hc : s.fn.next s.input p.replies = .command c) (hl : p.commands[p.cursor]? = none) :
    (∃ pending, Tracks s out (s.step d t) p ∧ (s.step d t).phase = .executing c pending ∧
      (s.step d t).run.status = .running ∧ pending = (s.step d t).journal.live c.spec none pending.startedAt) ∧
      s.called d t = some p.replies.length := by
  have hg := tr.getElem?
  rw [hl] at hg
  have hissue : d.journal.issue c.spec t.1 = .live (d.journal.live c.spec none t.1) := by
    unfold Journal.issue
    rw [Option.map_eq_none_iff.1 hg.symm]
  have hstep : s.step d t = { d with phase := .executing c (d.journal.live c.spec none t.1) } := by
    rw [step_eq_act t ph]
    unfold Drive.act
    rw [tr.holds.input, tr.replies, hc]
    simp only [hissue]
  refine ⟨⟨_, ?_, by rw [hstep], by rw [hstep]; exact st, by rw [hstep]; rfl⟩, ?_⟩
  · rw [hstep]
    exact ⟨tr.holds, tr.replies, tr.cursor, tr.attempt, tr.compensations, tr.output⟩
  · rw [called_running t ph, hstep, tr.replies]

theorem step_executing (tr : Tracks s out d p) {c : Command V} {pending : Pending V}
    (ph : d.phase = .executing c pending) (st : d.run.status = .running)
    (hc : s.fn.next s.input p.replies = .command c) (hl : p.commands[p.cursor]? = none)
    (hp : pending = d.journal.live c.spec none pending.startedAt) :
    At s out (s.step d t) (p.issue s.runId (s.effects p.replies.length) c) ∧ (s.step d t).phase = .running ∧
      s.recorded d t = (match c.report (s.effects p.replies.length) with
        | .ok _ => some p.replies.length
        | .error _ => none) ∧ s.called d t = none := by
  have hseq := s.fn.sequential _ _ c hc
  generalize heff : s.effects p.replies.length = effect
  have hstep : s.step d t = (d.settle c pending { now := t.1, later := t.2, effect }).1 := by
    unfold Scenario.step Drive.next Drive.step
    rw [ph, tr.replies, heff]
  have hsaved : d.saved s.fn.next { now := t.1, later := t.2, effect := s.effects d.replies.length } =
      (d.settle c pending { now := t.1, later := t.2, effect }).2 := by
    unfold Drive.saved Drive.step
    rw [ph, tr.replies, heff]
  have hcalled : s.called d t = none := by
    unfold Scenario.called Drive.calls
    rw [ph]
    split
    · rename_i h; cases h
    · rfl
  have hrec : s.recorded d t = ((d.settle c pending { now := t.1, later := t.2, effect }).2).map fun _ => p.replies.length := by
    unfold Scenario.recorded
    rw [ph]
    simp only
    rw [hsaved, tr.replies]
  obtain ⟨hrep, hcomp, hstat, hset⟩ := sequential_reportsAlone hseq effect { seq := pending.seq, now := pending.startedAt } d.run
  rw [hstep, hrec]
  unfold Drive.settle
  simp only
  unfold Executed.report at hrep
  generalize hx : c.execute effect { seq := pending.seq, now := pending.startedAt } d.run = x at hrep hcomp hstat hset
  cases ho : x.outcome with
  | error thrown =>
    rw [ho] at hrep
    have hr : c.report effect = .error thrown := hrep.symm
    rw [hr, issue_of_rejects hl hr]
    exact ⟨.running (tr.hand _) rfl st, rfl, rfl, hcalled⟩
  | ok o =>
    rw [ho] at hrep
    have hr : c.report effect = .ok ⟨o.settlement, o.attempts, o.statePatch, x.attempt⟩ := hrep.symm
    rw [hr, issue_of_reports hl hr]
    have hw := hset o ho
    have hpseq : pending.seq = p.commands.length := by rw [hp]; exact tr.holds.nextSeq
    have hprec : pending.recorded = none := by rw [hp]; rfl
    have hpidx : pending.index = p.cursor := by rw [hp]; exact tr.cursor
    have hpspec : pending.spec = c.spec := by rw [hp]; rfl
    have hsettle : d.journal.settle pending t.1 o =
        ({ current := { d.run with
              status := .running
              commands := d.run.commands ++ [buildRecord c.spec p.commands.length pending.startedAt t.1 o none]
              nextSeq := p.commands.length + 1
              state := mergeState p.state o.statePatch
              history := d.run.history ++ o.history
              updatedAt := t.1 }
           cursor := p.cursor + 1 }, o.settlement.handed) := by
      unfold Journal.settle
      rw [hprec, hpidx, hpseq, hpspec, hstat o ho, tr.holds.nextSeq, tr.holds.state]
      cases hs : o.settlement with
      | completed result => simp [Settlement.handed, st]
      | failed error => simp [Settlement.handed, st]
      | waiting waitingFor timerExpiresAt => rw [hs] at hw; exact absurd rfl hw
    simp only [hsettle, hcomp, Option.toList_none, append_nil]
    have hpoint := issue_settled tr.holds.settled hseq s.runId effect
    rw [issue_of_reports hl hr] at hpoint
    refine ⟨.running ⟨⟨tr.holds.runId, tr.holds.input, ?_, ?_, rfl, hpoint⟩, congrArg (· ++ [_]) tr.replies, rfl, ?_,
      tr.compensations, tr.output⟩ rfl rfl, rfl, rfl, hcalled⟩
    · show List.map _ (d.run.commands ++ [_]) = _
      rw [map_append, tr.holds.commands, map_singleton]
      exact congrArg (fun r => p.commands ++ [r]) (buildRecord_untimed c.spec p.commands.length pending.startedAt t.1 0 0 rfl rfl hw)
    · show p.commands.length + 1 = _
      rw [length_append, length_singleton]
    · show x.attempt.getD d.currentAttempt = _
      rw [tr.attempt]

theorem step_ended (tr : Tracks s out d p) (ph : d.phase = .running) (st : d.run.status = .running) (ha : s.advance p = none) :
    At s out (s.step d t) p ∧ (∃ status, (s.step d t).phase = .done status) ∧ s.called d t = none := by
  suffices h : ∃ d' status, s.step d t = d' ∧ Holds s d'.run p ∧ d'.phase = .done status ∧ d'.replies = d.replies ∧
      d'.run.status = status ∧ Ends out (s.fn.next s.input p.replies) status d'.run.output by
    obtain ⟨d', status, hd, hh, ph', hr, hs, he⟩ := h
    refine ⟨hd ▸ .done status hh ph' (hr.trans tr.replies) hs he, ⟨status, hd ▸ ph'⟩, ?_⟩
    rw [called_running t ph, hd, ph']
  have hh : ∀ run : WorkflowRun V, run.runId = d.run.runId → run.input = d.run.input → run.commands = d.run.commands →
      run.nextSeq = d.run.nextSeq → run.state = d.run.state → Holds s run p := fun run h1 h2 h3 h4 h5 =>
    ⟨h1.trans tr.holds.runId, h2.trans tr.holds.input, by rw [h3]; exact tr.holds.commands, h4.trans tr.holds.nextSeq,
      h5.trans tr.holds.state, tr.holds.settled⟩
  rw [step_eq_act t ph]
  have hfn : s.fn.next d.run.input d.replies = s.fn.next s.input p.replies := by rw [tr.holds.input, tr.replies]
  unfold Drive.act
  rw [hfn]
  unfold Scenario.advance at ha
  have hfail : ∀ thrown, (∀ u, thrown ≠ .suspension u) → ∃ d' status,
      (d.finalizeFailure { now := t.1, later := t.2, effect := s.effects d.replies.length }).1 = d' ∧
        Holds s d'.run p ∧ d'.phase = .done status ∧ d'.replies = d.replies ∧ d'.run.status = status ∧
        Ends out (.throws thrown) status d'.run.output := by
    intro thrown hne
    have hnone : compensationTargets d.run d.compensations = [] := by
      unfold compensationTargets registration
      rw [tr.compensations]
      simp
    unfold Drive.finalizeFailure
    rw [hnone]
    refine ⟨_, .failed, rfl, hh _ rfl rfl rfl rfl rfl, rfl, rfl, rfl, ?_⟩
    cases thrown with
    | suspension u => exact absurd rfl (hne u)
    | error e => exact ⟨rfl, tr.output⟩
    | other text => exact ⟨rfl, tr.output⟩
  cases hact : s.fn.next s.input p.replies with
  | command c => rw [hact] at ha; cases ha
  | getState key => rw [hact] at ha; cases ha
  | getAttempt => rw [hact] at ha; cases ha
  | returns output =>
    exact ⟨_, .completed, rfl, hh _ rfl rfl rfl rfl rfl, rfl, rfl, rfl, rfl, by rw [← tr.output]; rfl⟩
  | throws thrown =>
    cases thrown with
    | suspension u => exact ⟨_, .running, rfl, tr.holds, by rw [← st], rfl, st, rfl, tr.output⟩
    | error e => exact hfail (.error e) fun u h => by cases h
    | other text => exact hfail (.other text) fun u h => by cases h

end Steps

end StreetJS.Workflow
