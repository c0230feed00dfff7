/-
Replay fidelity: a drive over a snapshot that an earlier drive has left behind, against the drive
that was not interrupted. `Journal.process` records the outcome a thunk reports, but nothing when the
thunk rejects, so the positions of the function and the records of the journal stay in step exactly
until a command rejects and a later one is recorded.
-/
import StreetJS.Workflow.Trajectory
import StreetJS.Workflow.Value

namespace StreetJS.Workflow

open StreetJS.Lib List

variable {V : Type} [JsValue V]

/-! ## The uninterrupted drive -/

/-- A scenario whose function branches on nothing but what its commands return. -/
structure CommandScenario (V : Type) extends Scenario V where
  noReads : ∀ replies, (∀ key, fn.next input replies ≠ .getState key) ∧ fn.next input replies ≠ .getAttempt

/-- The uninterrupted drive, position by position. -/
abbrev Scenario.original (s : Scenario V) (n : Nat) : Point V := s.point s.launched n

/-- The thunk of the command at position `n` rejects. -/
def Scenario.RejectsAt (s : Scenario V) (n : Nat) : Prop :=
  ∃ c, LiveAt s s.launched n c ∧ ∃ thrown, c.report (s.effects n) = .error thrown

/-- The outcome of the command at position `n` is recorded. -/
def Scenario.RecordsAt (s : Scenario V) (n : Nat) : Prop :=
  ∃ c, LiveAt s s.launched n c ∧ ∃ r, c.report (s.effects n) = .ok r

/-- Once a thunk has rejected, no later command is recorded. -/
def Scenario.NothingRecordedAfterRejection (s : Scenario V) : Prop :=
  ∀ p q, p < q → s.RejectsAt p → ¬ s.RecordsAt q

section Original

variable {s : Scenario V} {n : Nat}

/-- The journal of the uninterrupted drive is never ahead of its function. -/
theorem original_cursor (s : Scenario V) : ∀ n, (s.original n).cursor = (s.original n).commands.length
  | 0 => rfl
  | n + 1 => by
    have ih := original_cursor s n
    show (s.point s.launched (n + 1)).cursor = (s.point s.launched (n + 1)).commands.length
    cases ha : s.advance (s.original n) with
    | none => rw [point_ended ha]; exact ih
    | some p =>
      rw [point_succ ha]
      have hg : (s.original n).commands[(s.original n).cursor]? = none := by rw [ih]; simp
      unfold Scenario.advance at ha
      split at ha
      · rename_i c hc
        cases ha
        cases hr : c.report (s.effects (s.original n).replies.length) with
        | error thrown => rw [issue_of_rejects hg hr]; exact ih
        | ok r => rw [issue_of_reports hg hr]; simp [ih]
      · cases ha; exact ih
      · cases ha; exact ih
      · cases ha
      · cases ha

theorem original_live (s : Scenario V) (n : Nat) : (s.original n).commands[(s.original n).cursor]? = none := by
  rw [original_cursor]; simp

/-- A position of the uninterrupted drive: what its command reports is what it hands over, and is the
next record, unless the command rejects. -/
theorem original_succ {c : Command V} (hl : LiveAt s s.launched n c) : (∃ thrown, c.report (s.effects n) = .error thrown ∧
        s.original (n + 1) = (s.original n).hand (.settled (.error thrown))) ∨
      ∃ r, c.report (s.effects n) = .ok r ∧ (s.original (n + 1)).replies = (s.original n).replies ++ [.settled r.settlement.handed] ∧
        (s.original (n + 1)).commands = (s.original n).commands ++ [r.record c (s.original n).commands.length] ∧
        (s.original (n + 1)).state = mergeState (s.original n).state r.statePatch ∧
        (s.original (n + 1)).attempt = r.current.getD (s.original n).attempt := by
  have hp : s.original (n + 1) = (s.original n).issue s.runId (s.effects n) c := point_succ hl.advance
  cases hr : c.report (s.effects n) with
  | error thrown => exact .inl ⟨thrown, rfl, hp.trans (issue_of_rejects hl.live hr)⟩
  | ok r =>
    rw [hp, issue_of_reports hl.live hr]
    exact .inr ⟨r, rfl, rfl, rfl, rfl, rfl⟩

theorem recordsAt_of_grows (h : (s.original n).commands.length < (s.original (n + 1)).commands.length) : s.RecordsAt n := by
  cases ha : s.advance (s.original n) with
  | none =>
    rw [show s.original (n + 1) = s.original n from point_ended ha] at h
    exact absurd h (lt_irrefl _)
  | some p =>
    have hreach := reaches_of_advance ha
    rw [show s.original (n + 1) = p from point_succ ha] at h
    unfold Scenario.advance at ha
    split at ha
    · rename_i c hc
      have hl : LiveAt s s.launched n c := ⟨hreach, hc, original_live s n⟩
      rcases original_succ hl with ⟨thrown, hr, hp⟩ | ⟨r, hr, -⟩
      · cases ha
        rw [show (s.original n).replies.length = n from hreach, issue_of_rejects (original_live s n) hr] at h
        exact absurd h (lt_irrefl _)
      · exact ⟨c, hl, r, hr⟩
    · cases ha; exact absurd h (lt_irrefl _)
    · cases ha; exact absurd h (lt_irrefl _)
    · cases ha
    · cases ha

theorem original_length_succ_le (s : Scenario V) (n : Nat) : (s.original (n + 1)).commands.length ≤ (s.original n).commands.length + 1 := by
  by_cases h : (s.original n).commands.length < (s.original (n + 1)).commands.length
  · obtain ⟨c, hl, r, hr⟩ := recordsAt_of_grows h
    rcases original_succ hl with ⟨thrown, hr', -⟩ | ⟨r', -, -, hc, -⟩
    · rw [hr] at hr'; cases hr'
    · rw [hc, length_append, length_singleton]
  · omega

theorem exists_recordsAt {m : Nat} (h : n ≤ m) (hlt : (s.original n).commands.length < (s.original m).commands.length) :
    ∃ q, n ≤ q ∧ q < m ∧ s.RecordsAt q := by
  obtain ⟨k, rfl⟩ := Nat.exists_eq_add_of_le h
  clear h
  induction k with
  | zero => exact absurd hlt (lt_irrefl _)
  | succ k ih =>
    by_cases hk : (s.original n).commands.length < (s.original (n + k)).commands.length
    · obtain ⟨q, h1, h2, h3⟩ := ih hk
      exact ⟨q, h1, by omega, h3⟩
    · have hlt' : (s.original n).commands.length < (s.original (n + k + 1)).commands.length := hlt
      exact ⟨n + k, Nat.le_add_right n k, by omega, recordsAt_of_grows (by omega)⟩

/-- The journal holds at most one record for each position. -/
theorem original_length_le (s : Scenario V) : ∀ n, (s.original n).commands.length ≤ n
  | 0 => Nat.le_refl 0
  | n + 1 => by
    have ih := original_length_le s n
    have hle := original_length_succ_le s n
    omega

/-- A rejection leaves the journal behind the function. -/
theorem original_length_lt {p : Nat} (hp : s.RejectsAt p) (h : p < n) : (s.original n).commands.length < n := by
  obtain ⟨k, rfl⟩ := Nat.exists_eq_add_of_le h
  clear h
  induction k with
  | zero =>
    obtain ⟨c, hl, thrown, hr⟩ := hp
    rcases original_succ hl with ⟨thrown', -, he⟩ | ⟨r, hr', -⟩
    · rw [he]
      exact Nat.lt_succ_of_le (original_length_le s p)
    · rw [hr] at hr'; cases hr'
  | succ k ih =>
    have hk : (s.original (p + 1 + k)).commands.length < p + 1 + k := ih
    have := original_length_succ_le s (p + 1 + k)
    show (s.original (p + 1 + k + 1)).commands.length < p + 1 + k + 1
    omega

end Original

/-! ## The resumed drive -/

section Resumed

variable {s : CommandScenario V}

theorem command_of_advance {p p' : Point V} (h : s.toScenario.advance p = some p') :
    ∃ c, s.fn.next s.input p.replies = .command c ∧ p' = p.issue s.runId (s.effects p.replies.length) c := by
  unfold Scenario.advance at h
  split at h
  · rename_i c hc
    cases h
    exact ⟨c, hc, rfl⟩
  · rename_i key hk; exact absurd hk ((s.noReads p.replies).1 key)
  · rename_i hk; exact absurd hk (s.noReads p.replies).2
  · cases h
  · cases h

/-- What a drive over the snapshot of position `m` shares with the uninterrupted drive at position
`n`: everything the function sees, and the longer of the two journals. -/
structure Resumed (s : CommandScenario V) (run : WorkflowRun V) (m n : Nat) : Prop where
  replies : (s.point run n).replies = (s.original n).replies
  cursor : (s.point run n).cursor = (s.original n).cursor
  passed : (s.original n).commands <+: (s.point run n).commands
  kept : (s.original m).commands <+: (s.point run n).commands
  longer : (s.point run n).commands = (s.original n).commands ∨ (s.point run n).commands = (s.original m).commands

/-- While nothing is recorded after a rejection, a resumed drive hands the function what the
uninterrupted one did. -/
theorem resumed_point (hn : s.NothingRecordedAfterRejection) {run : WorkflowRun V} {m : Nat}
    (hrun : Holds s.toScenario run (s.original m)) : ∀ n, Resumed s run m n
  | 0 => ⟨rfl, rfl, List.nil_prefix, by rw [← hrun.commands]; exact prefix_refl _, .inr hrun.commands⟩
  | n + 1 => by
    have ih := resumed_point hn hrun n
    cases ha : s.toScenario.advance (s.original n) with
    | none =>
      have ha' : s.toScenario.advance (s.point run n) = none := advance_none_of_replies ih.replies ha
      have h1 : s.original (n + 1) = s.original n := point_ended ha
      have h2 : s.point run (n + 1) = s.point run n := point_ended ha'
      exact ⟨by rw [h1, h2]; exact ih.replies, by rw [h1, h2]; exact ih.cursor, by rw [h1, h2]; exact ih.passed,
        by rw [h2]; exact ih.kept, by rw [h1, h2]; exact ih.longer⟩
    | some p =>
      obtain ⟨c, hc, -⟩ := command_of_advance ha
      have hreach : (s.original n).replies.length = n := reaches_of_advance ha
      have hl : LiveAt s.toScenario s.launched n c := ⟨hreach, hc, original_live _ n⟩
      have hpoint : s.point run (n + 1) = (s.point run n).issue s.runId (s.effects n) c := by
        refine point_succ ?_
        unfold Scenario.advance
        rw [ih.replies, hc]
        simp only [hreach]
      have hlen := ih.passed.length_le
      have hcur : (s.point run n).cursor = (s.original n).commands.length := ih.cursor.trans (original_cursor _ n)
      cases hg : (s.point run n).commands[(s.point run n).cursor]? with
      | none =>
        -- the journal is used up: the command runs live, as it did originally
        have heq : (s.point run n).commands = (s.original n).commands := by
          have hge := getElem?_eq_none_iff.1 hg
          exact (ih.passed.eq_of_length (by omega)).symm
        rcases original_succ hl with ⟨thrown, hr, ho⟩ | ⟨r, hr, ho1, ho2, -⟩
        · rw [issue_of_rejects hg hr] at hpoint
          refine ⟨?_, ?_, ?_, ?_, ?_⟩ <;> rw [hpoint]
          · rw [ho]; exact congrArg (· ++ [_]) ih.replies
          · rw [ho]; exact ih.cursor
          · rw [ho]; exact ih.passed
          · exact ih.kept
          · rw [ho]; exact ih.longer
        · rw [issue_of_reports hg hr] at hpoint
          have hcmd : (s.point run (n + 1)).commands = (s.original (n + 1)).commands := by
            rw [hpoint, ho2, heq]
          refine ⟨?_, ?_, ?_, ?_, .inl hcmd⟩
          · rw [hpoint, ho1, ih.replies]
          · rw [original_cursor, ← hcmd, hpoint]
            simp only [length_append, length_singleton]
            rw [heq, hcur]
          · rw [hcmd]
          · rw [hcmd, ho2, ← heq]
            exact ih.kept.trans (prefix_append _ _)
      | some recorded =>
        -- there is a record: it was written by this position, for a later one has been recorded
        have hlt : (s.original n).commands.length < (s.point run n).commands.length :=
          hcur ▸ (List.getElem?_eq_some_iff.1 hg).1
        have hm : (s.point run n).commands = (s.original m).commands := by
          rcases ih.longer with h | h
          · rw [h] at hlt; exact absurd hlt (lt_irrefl _)
          · exact h
        rw [hm] at hlt hg
        have hnm : n < m := by
          by_contra hge
          have hle : (s.original m).commands.length ≤ (s.original n).commands.length :=
            (point_commands_initial (s := s.toScenario) (not_lt.1 hge)).length_le
          omega
        rcases original_succ hl with ⟨thrown, hr, ho⟩ | ⟨r, hr, ho1, ho2, -⟩
        · have hsame : (s.original (n + 1)).commands.length < (s.original m).commands.length := by rw [ho]; exact hlt
          obtain ⟨q, hq, -, hrec⟩ := exists_recordsAt hnm hsame
          exact absurd hrec (hn n q hq ⟨c, hl, thrown, hr⟩)
        · have hpre : (s.original (n + 1)).commands <+: (s.original m).commands :=
            point_commands_initial (s := s.toScenario) hnm
          have hrec : recorded = r.record c (s.original n).commands.length := by
            rw [ho2] at hpre
            obtain ⟨rest, hrest⟩ := hpre
            rw [← hrest, hcur, append_assoc, getElem?_append_right le_rfl] at hg
            simpa using hg.symm
          have hout : replayOutcome s.runId (s.point run n).cursor c.kind recorded = r.settlement.handed := by
            rw [hrec]
            exact replayOutcome_record _ _ _ c (report_settles (s.fn.sequential _ _ c hc) hr)
          rw [issue_of_recorded (hm ▸ hg), hout] at hpoint
          refine ⟨?_, ?_, ?_, ?_, .inr ?_⟩
          · rw [hpoint, ho1, ih.replies]
          · rw [hpoint, original_cursor, ho2, length_append, length_singleton]
            rw [hcur]
          · rw [hpoint]; show _ <+: (s.point run n).commands; rw [hm]; exact hpre
          · rw [hpoint]; exact ih.kept
          · rw [hpoint]; exact hm

/-- A drive replays the records it began with one by one, and calls every thunk from there on. -/
theorem resumed_cursor {run : WorkflowRun V} (hrun : (Point.start run).Settled) : ∀ {n : Nat}, s.reaches run n →
    ((s.point run n).cursor = n ∧ (s.point run n).commands.length = run.commands.length) ∨
      (s.point run n).cursor = (s.point run n).commands.length
  | 0, _ => .inl ⟨rfl, length_map ..⟩
  | n + 1, hn => by
    obtain ⟨hn', hsome⟩ := reaches_of_succ hn
    obtain ⟨p, ha⟩ := Option.ne_none_iff_exists'.1 hsome
    obtain ⟨c, -, hp⟩ := command_of_advance ha
    have hle := (point_settled (s := s.toScenario) hrun n).cursor_le
    rw [point_succ ha, hp]
    cases hg : (s.point run n).commands[(s.point run n).cursor]? with
    | some recorded =>
      rw [issue_of_recorded hg]
      have hlt := (of_getElem?_eq_some hg)
      rcases resumed_cursor hrun hn' with ⟨h1, h2⟩ | h
      · exact .inl ⟨congrArg (· + 1) h1, h2⟩
      · omega
    | none =>
      have hge := getElem?_eq_none_iff.1 hg
      refine .inr ?_
      unfold Point.issue
      rw [hg]
      cases c.report (s.effects (s.point run n).replies.length) with
      | error thrown => exact le_antisymm hle hge
      | ok r =>
        simp only [length_append, length_singleton]
        omega

theorem resumed_live {run : WorkflowRun V} (hrun : (Point.start run).Settled) {n : Nat} (hn : s.reaches run (n + 1))
    (hlen : run.commands.length ≤ n) : ∃ c, LiveAt s.toScenario run n c := by
  obtain ⟨hn', hsome⟩ := reaches_of_succ hn
  obtain ⟨p, ha⟩ := Option.ne_none_iff_exists'.1 hsome
  obtain ⟨c, hc, -⟩ := command_of_advance ha
  refine ⟨c, hn', hc, getElem?_eq_none_iff.2 ?_⟩
  rcases resumed_cursor hrun hn' with ⟨h1, h2⟩ | h
  · omega
  · exact le_of_eq h.symm

end Resumed

/-! ## Fidelity -/

omit [JsValue V] in
/-- Two thrown values are the same to the eye: their names and messages agree. -/
def SameThrown (a b : Thrown) : Prop :=
  (serializeError a).name = (serializeError b).name ∧ (serializeError a).message = (serializeError b).message

/-- Two replies agree: the same value, or thrown values with the same name and message. -/
def SameReply : Reply V → Reply V → Prop
  | .settled (.error a), .settled (.error b) => SameThrown a b
  | a, b => a = b

theorem SameReply.refl : ∀ a : Reply V, SameReply a a
  | .settled (.error _) => ⟨rfl, rfl⟩
  | .settled (.ok _) => rfl
  | .state _ => rfl
  | .attempt _ => rfl

/-- What the store holds when the uninterrupted drive has come as far as the readings `ts`. -/
abbrev Scenario.crashed (s : Scenario V) (ts : List (Int × Int)) : WorkflowRun V := (s.drive s.launched ts).run

/-- A crash after the readings `ts` of an uninterrupted drive over `ts ++ us` makes no difference:
a drive over the snapshot that is left calls no thunk whose outcome is in it, hands the function the
same replies, and ends with the same records, output and status. -/
structure Faithful (s : Scenario V) (ts us : List (Int × Int)) : Prop where
  noRecall : ∀ vs, ∀ q ∈ s.calls (s.crashed ts) vs, q ∉ s.records s.launched ts
  sameReplies : ∃ n, ∀ vs : List (Int × Int), n ≤ vs.length → List.Forall₂ SameReply
      ((s.drive (s.crashed ts) vs).replies.take (s.drive s.launched (ts ++ us)).replies.length)
      (s.drive s.launched (ts ++ us)).replies
  sameEnd : ∀ status, (s.drive s.launched (ts ++ us)).phase = .done status → ∃ n, ∀ vs : List (Int × Int), n ≤ vs.length →
      (s.drive (s.crashed ts) vs).phase = .done status ∧ (s.drive (s.crashed ts) vs).run.status = (s.drive s.launched (ts ++ us)).run.status ∧
        (s.drive (s.crashed ts) vs).run.output = (s.drive s.launched (ts ++ us)).run.output ∧
        (s.drive (s.crashed ts) vs).run.commands.map (·.untimed) = (s.drive s.launched (ts ++ us)).run.commands.map (·.untimed)

theorem ends_unique {a : Action V} {status status' : RunStatus} {out out' : Option V} (h : Ends none a status out)
    (ho : out' = none ∨ out' = out) {out'' : Option V} (h' : Ends out' a status' out'') :
    status' = status ∧ out'' = out := by
  cases a with
  | command c => exact h.elim
  | getState key => exact h.elim
  | getAttempt => exact h.elim
  | returns output =>
    obtain ⟨rfl, h⟩ := h
    obtain ⟨rfl, h'⟩ := h'
    refine ⟨rfl, ?_⟩
    rw [h', h]
    rcases ho with rfl | rfl
    · rfl
    · rw [h]; split <;> rfl
  | throws thrown =>
    have hout : ∀ {x y : Option V}, x = none → y = out' → out = x → y = out := by
      rintro x y rfl rfl rfl
      rcases ho with rfl | rfl <;> rfl
    cases thrown with
    | suspension u => exact ⟨h'.1.trans h.1.symm, hout rfl h'.2 h.2⟩
    | error e => exact ⟨h'.1.trans h.1.symm, hout rfl h'.2 h.2⟩
    | other text => exact ⟨h'.1.trans h.1.symm, hout rfl h'.2 h.2⟩

theorem follows_output {s : Scenario V} {ts : List (Int × Int)} {n : Nat} (h : Follows s s.launched ts n) : (s.crashed ts).output = none ∨
      ∃ status, Ends none (s.fn.next s.input (s.original n).replies) status (s.crashed ts).output := by
  cases h.at_ with
  | entry tr => exact .inl tr.output
  | running tr => exact .inl tr.output
  | executing c pending tr => exact .inl tr.output
  | done status hh ph hr hs he => exact .inr ⟨status, he⟩

section Fidelity

variable {s : CommandScenario V}

theorem faithful_of_nothingRecordedAfterRejection (hn : s.NothingRecordedAfterRejection) (ts us : List (Int × Int)) :
    Faithful s.toScenario ts us := by
  obtain ⟨m, hm⟩ := follows_drive (holds_launched s.toScenario) ts
  obtain ⟨m', hm'⟩ := follows_drive (holds_launched s.toScenario) (ts ++ us)
  have hholds : Holds s.toScenario (s.crashed ts) (s.original m) := hm.at_.holds
  have hres := resumed_point hn hholds
  have hreaches : ∀ {n}, s.reaches s.launched n → s.reaches (s.crashed ts) n := fun h => by
    unfold Scenario.reaches at h ⊢
    rw [(hres _).replies]
    exact h
  have hlen : (s.original m').replies.length = m' := hm'.reaches
  constructor
  · -- a thunk that is called again is past the snapshot's records
    intro vs q hq hrec
    obtain ⟨k, hk⟩ := follows_drive hholds.again vs
    obtain ⟨c, hl⟩ := hk.calls_live q hq
    obtain ⟨hqm, c', hl', r, hr⟩ := (hm.records_iff q).1 hrec
    rcases original_succ hl' with ⟨thrown, hr', -⟩ | ⟨r', -, -, hc, -⟩
    · rw [hr] at hr'; cases hr'
    · have h1 : (s.original (q + 1)).commands.length ≤ (s.original m).commands.length :=
        (point_commands_initial (s := s.toScenario) hqm).length_le
      have h2 := (hres q).kept.length_le
      have h3 := getElem?_eq_none_iff.1 hl.live
      rw [(hres q).cursor, original_cursor] at h3
      rw [hc, length_append, length_singleton] at h1
      omega
  · refine ⟨2 * m' + 1, fun vs hvs => ?_⟩
    obtain ⟨k, hk⟩ := follows_drive hholds.again vs
    have hle := hk.length_ge (hreaches hm'.reaches) hvs
    have htake : (s.drive (s.crashed ts) vs).replies.take (s.drive s.launched (ts ++ us)).replies.length =
        (s.drive s.launched (ts ++ us)).replies := by
      rw [hm'.at_.replies, hk.at_.replies, hlen]
      have hpre : (s.toScenario.point (s.crashed ts) _).replies <+: (s.toScenario.point (s.crashed ts) _).replies :=
        point_replies_prefix hle
      rw [(hres m').replies] at hpre
      obtain ⟨rest, hrest⟩ := hpre
      rw [← hrest, take_append_of_le_length (le_of_eq hlen.symm), take_of_length_le (le_of_eq hlen)]
    rw [htake]
    exact List.forall₂_same.2 fun a _ => SameReply.refl a
  · intro status hstatus
    have hends : Ends none (s.fn.next s.input (s.original m').replies) status
        (s.drive s.launched (ts ++ us)).run.output ∧ (s.drive s.launched (ts ++ us)).run.status = status := by
      cases hm'.at_ with
      | entry tr ph => rw [hstatus] at ph; cases ph
      | running tr ph => rw [hstatus] at ph; cases ph
      | executing c pending tr ph => rw [hstatus] at ph; cases ph
      | done status' hh ph hr hs he =>
        rw [hstatus] at ph
        cases ph
        exact ⟨he, hs⟩
    have hend : s.toScenario.advance (s.original m') = none := by
      have := hends.1
      unfold Ends at this
      unfold Scenario.advance
      split at this <;> rename_i hact
      · rw [hact]
      · rw [hact]
      · rw [hact]
      · exact this.elim
    refine ⟨2 * m' + 2, fun vs hvs => ?_⟩
    obtain ⟨k, hk⟩ := follows_drive hholds.again vs
    obtain ⟨rfl, hdone⟩ := hk.done (hreaches hm'.reaches) (advance_none_of_replies (hres m').replies hend) hvs
    -- the journals of both ends are the same
    have hmk : m ≤ k := by
      by_contra hlt
      exact (reaches_of_succ (reaches_of_le hm.reaches (by omega : k + 1 ≤ m))).2 hend
    have hcommands : (s.point (s.crashed ts) k).commands = (s.original k).commands := by
      rcases (hres k).longer with h | h
      · exact h
      · have hpre : (s.toScenario.point s.launched m).commands <+: (s.toScenario.point s.launched k).commands :=
          point_commands_initial hmk
        have h1 := hpre.length_le
        have h2 := (hres k).passed.length_le
        rw [h] at h2
        exact ((hres k).passed.eq_of_length (by rw [h]; exact le_antisymm h2 h1)).symm
    have hout : (s.crashed ts).output = none ∨ (s.crashed ts).output = (s.drive s.launched (ts ++ us)).run.output := by
      rcases follows_output hm with h | ⟨status', h⟩
      · exact .inl h
      · have hend' : s.toScenario.advance (s.original m) = none := by
          unfold Ends at h
          unfold Scenario.advance
          split at h <;> rename_i hact
          · rw [hact]
          · rw [hact]
          · rw [hact]
          · exact h.elim
        have hkm : k ≤ m := by
          by_contra hlt
          exact (reaches_of_succ (reaches_of_le hm'.reaches (by omega : m + 1 ≤ k))).2 hend'
        obtain rfl := le_antisymm hkm hmk
        exact .inr (ends_unique hends.1 (.inl rfl) h).2
    cases hk.at_ with
    | entry tr ph => obtain ⟨status', hd⟩ := hdone; rw [hd] at ph; cases ph
    | running tr ph => obtain ⟨status', hd⟩ := hdone; rw [hd] at ph; cases ph
    | executing c pending tr ph => obtain ⟨status', hd⟩ := hdone; rw [hd] at ph; cases ph
    | done status' hh ph hr hs he =>
      rw [(hres k).replies] at he
      obtain ⟨rfl, ho⟩ := ends_unique hends.1 hout he
      exact ⟨ph, hs.trans hends.2.symm, ho, by rw [hh.commands, hm'.at_.holds.commands, hcommands]⟩

/-- A record after a rejection is replayed to the wrong command: the drive over a snapshot with it
calls the thunk of the recorded command again, or stops short. -/
theorem nothingRecordedAfterRejection_of_faithful (h : ∀ ts us, Faithful s.toScenario ts us) :
    s.NothingRecordedAfterRejection := by
  intro p q hpq hp hq
  obtain ⟨c, hl, r, hr⟩ := hq
  have hreach : s.reaches s.launched (q + 1) := reaches_succ hl.reaches hl.advance
  obtain ⟨ts, hts⟩ := exists_follows (holds_launched s.toScenario) hreach
  have hholds : Holds s.toScenario (s.crashed ts) (s.original (q + 1)) := hts.at_.holds
  have hlen : (s.crashed ts).commands.length ≤ q := by
    have h1 := congrArg List.length hholds.commands
    have h2 := original_length_lt hp (by omega : p < q + 1)
    rw [length_map] at h1
    omega
  obtain ⟨n, hn⟩ := (h ts []).sameReplies
  obtain ⟨k, hk⟩ := follows_drive hholds.again (List.replicate n (0, 0))
  have hfull : (s.drive s.launched (ts ++ [])).replies.length = q + 1 := by
    rw [append_nil, hts.at_.replies]; exact hreach
  have hge : q + 1 ≤ k := by
    have h1 := (hn (List.replicate n (0, 0)) (by rw [length_replicate])).length_eq
    rw [hfull, hk.at_.replies, length_take] at h1
    have h2 : (s.point (s.crashed ts) k).replies.length = k := hk.reaches
    omega
  obtain ⟨c', hl'⟩ := resumed_live hholds.again.settled (reaches_of_le hk.reaches hge) hlen
  exact (h ts []).noRecall _ q (hk.calls_all q c' hl' (.inl (by omega))) ((hts.records_iff q).2 ⟨Nat.lt_succ_self q, c, hl, r, hr⟩)

end Fidelity

/-! ## A rejected command that the function survives -/

/-- `try { await ctx.storage.put(…) } catch {}; return await ctx.activity(fn)`. -/
def putThenActivity : WorkflowFunction Value
  | _, [] => .command (.storagePut "report" (.str "draft"))
  | _, [_] => .command (.activity {})
  | _, [_, .settled (.ok result)] => .returns result
  | _, [_, .settled (.error thrown)] => .throws thrown
  | _, _ => .throws (.other "unexpected reply")

section

variable (input : Value) (replies : List (Reply Value))
include input replies

theorem putThenActivity_cases : (∃ c, putThenActivity input replies = .command c ∧ c.sequential = true) ∨
      (∃ output, putThenActivity input replies = .returns output) ∨
      ∃ thrown, putThenActivity input replies = .throws thrown := by
  unfold putThenActivity
  split
  · exact .inl ⟨_, rfl, rfl⟩
  · exact .inl ⟨_, rfl, rfl⟩
  · exact .inr (.inl ⟨_, rfl⟩)
  · exact .inr (.inr ⟨_, rfl⟩)
  · exact .inr (.inr ⟨_, rfl⟩)

theorem putThenActivity_sequential (c : Command Value) (hc : putThenActivity input replies = .command c) : c.sequential = true := by
  rcases putThenActivity_cases input replies with ⟨c', h, hs⟩ | ⟨_, h⟩ | ⟨_, h⟩ <;> rw [h] at hc <;> cases hc
  exact hs

theorem putThenActivity_noReads : (∀ key, putThenActivity input replies ≠ .getState key) ∧ putThenActivity input replies ≠ .getAttempt := by
  rcases putThenActivity_cases input replies with ⟨_, h, _⟩ | ⟨_, h⟩ | ⟨_, h⟩ <;> rw [h] <;> exact ⟨nofun, nofun⟩

end

/-- The storage bridge rejects the put, the activity returns 7. -/
def diskFull : CommandScenario Value where
  fn := { next := putThenActivity, sequential := putThenActivity_sequential }
  input := .null
  runId := "run-1"
  definition := "report"
  createdAt := 0
  effects
    | 0 => Effect.always (.error (.error { name := "Error", message := "disk full" }))
    | _ => Effect.always (.ok (.num 7))
  noReads := putThenActivity_noReads .null

end StreetJS.Workflow
