/-
Local reads under replay: `ctx.state.get` is served from the snapshot that was loaded, which is the
state after every recorded command, and `ctx.metadata.attempt` starts from 0 in every drive and is
written by live activities only. A read that is replayed returns what it returned originally exactly
when nothing recorded after it changes its key, or when no activity has run before it.
-/
import StreetJS.Workflow.Replay

namespace StreetJS.Workflow

open StreetJS.Lib List

variable {V : Type} [JsValue V]

/-! ## Stable reads -/

omit [JsValue V] in
def Action.isRead : Action V → Bool
  | .getState _ | .getAttempt => true
  | _ => false

/-- Every read made while the journal replays, after a crash at any point, is handed what the function
was handed at that position of the original drive. -/
def Scenario.ReadsReplayed (s : Scenario V) : Prop :=
  ∀ ts vs t, (s.drive (s.crashed ts) vs).phase = .running → (s.drive (s.crashed ts) vs).journal.replaying = true →
    (s.fn.next s.input (s.drive (s.crashed ts) vs).replies).isRead = true →
      (s.step (s.drive (s.crashed ts) vs) t).replies[(s.drive (s.crashed ts) vs).replies.length]? =
        (s.drive s.launched ts).replies[(s.drive (s.crashed ts) vs).replies.length]?

/-- No command that is recorded after a read of `ctx.state` changes the value of its key, and
`ctx.metadata.attempt` is 0 where it is read before a recorded command. -/
structure Scenario.ReadsSettled (s : Scenario V) : Prop where
  state : ∀ i q key, i < q → s.reaches s.launched i → s.fn.next s.input (s.original i).replies = .getState key →
    s.RecordsAt q → readKey (s.original (q + 1)).state key = readKey (s.original i).state key
  attempt : ∀ i q, i < q → s.reaches s.launched i → s.fn.next s.input (s.original i).replies = .getAttempt →
    s.RecordsAt q → (s.original i).attempt = 0

/-! ## The last record -/

section

variable {s : Scenario V} {n m : Nat}

theorem original_succ_state (h : (s.original (n + 1)).commands.length = (s.original n).commands.length) :
    (s.original (n + 1)).state = (s.original n).state := by
  cases ha : s.advance (s.original n) with
  | none => rw [show s.original (n + 1) = s.original n from point_ended ha]
  | some p =>
    have hp : s.original (n + 1) = p := point_succ ha
    have hreach := reaches_of_advance ha
    rw [hp] at h ⊢
    unfold Scenario.advance at ha
    split at ha
    · rename_i c hc
      have hl : LiveAt s s.launched n c := ⟨hreach, hc, original_live s n⟩
      rcases original_succ hl with ⟨thrown, -, ho⟩ | ⟨r, -, -, hcmd, -⟩
      · rw [← hp, ho]; rfl
      · rw [← hp, hcmd, length_append, length_singleton] at h
        omega
    · cases ha; rfl
    · cases ha; rfl
    · cases ha
    · cases ha

theorem exists_last_recordsAt (h : n ≤ m) (hlt : (s.original n).commands.length < (s.original m).commands.length) :
    ∃ q, n ≤ q ∧ q < m ∧ s.RecordsAt q ∧ (s.original (q + 1)).state = (s.original m).state := by
  obtain ⟨k, rfl⟩ := Nat.exists_eq_add_of_le h
  clear h
  induction k with
  | zero => exact absurd hlt (lt_irrefl _)
  | succ k ih =>
    by_cases hk : (s.original (n + k)).commands.length < (s.original (n + k + 1)).commands.length
    · exact ⟨n + k, Nat.le_add_right n k, by omega, recordsAt_of_grows hk, rfl⟩
    · have hle : (s.original (n + k)).commands.length ≤ (s.original (n + k + 1)).commands.length :=
        (point_commands_initial (s := s) (Nat.le_succ _)).length_le
      have heq : (s.original (n + k + 1)).commands.length = (s.original (n + k)).commands.length := by omega
      have hlt' : (s.original n).commands.length < (s.original (n + k + 1)).commands.length := hlt
      obtain ⟨q, h1, h2, h3, h4⟩ := ih (by omega)
      exact ⟨q, h1, by omega, h3, h4.trans (original_succ_state heq).symm⟩

theorem lt_of_shorter (hlt : (s.original n).commands.length < (s.original m).commands.length) : n < m := by
  by_contra hge
  have hle : (s.original m).commands.length ≤ (s.original n).commands.length :=
    (point_commands_initial (s := s) (not_lt.1 hge)).length_le
  omega

end

/-! ## The replaying part of a drive -/

section Replaying

variable {s : Scenario V} {run : WorkflowRun V} {m : Nat}

/-- A drive over the snapshot of position `m` that is still replaying at position `n`. -/
structure Replaying (s : Scenario V) (run : WorkflowRun V) (m n : Nat) : Prop where
  replies : (s.point run n).replies = (s.original n).replies
  cursor : (s.point run n).cursor = (s.original n).commands.length
  commands : (s.point run n).commands = (s.original m).commands
  state : (s.point run n).state = (s.original m).state
  attempt : (s.point run n).attempt = 0

theorem replaying_zero (hrun : Holds s run (s.original m)) : Replaying s run m 0 :=
  ⟨rfl, rfl, hrun.commands, hrun.state, rfl⟩

theorem replaying_succ (hn : s.NothingRecordedAfterRejection) {n : Nat} (h : Replaying s run m n)
    (hlt : (s.original n).commands.length < (s.original m).commands.length)
    (hread : (s.fn.next s.input (s.original n).replies).isRead = true →
      (s.point run (n + 1)).replies = (s.original (n + 1)).replies) : Replaying s run m (n + 1) := by
  have hnm := lt_of_shorter hlt
  cases ha : s.advance (s.original n) with
  | none =>
    have hstay : ∀ k, s.original (n + k) = s.original n := by
      intro k
      induction k with
      | zero => rfl
      | succ k ih =>
        have ha' : s.advance (s.original (n + k)) = none := by rw [ih]; exact ha
        rw [show s.original (n + (k + 1)) = s.original (n + k) from point_ended ha', ih]
    obtain ⟨k, rfl⟩ := Nat.exists_eq_add_of_le (le_of_lt hnm)
    rw [hstay] at hlt
    exact absurd hlt (lt_irrefl _)
  | some p =>
    have hreach : (s.original n).replies.length = n := reaches_of_advance ha
    have hp : s.original (n + 1) = p := point_succ ha
    unfold Scenario.advance at ha
    cases hact : s.fn.next s.input (s.original n).replies with
    | command c =>
      have hadv : s.advance (s.point run n) = some ((s.point run n).issue s.runId (s.effects n) c) := by
        unfold Scenario.advance
        rw [h.replies, hact]
        simp only [hreach]
      have hl : LiveAt s s.launched n c := ⟨hreach, hact, original_live s n⟩
      rcases original_succ hl with ⟨thrown, hr, ho⟩ | ⟨r, hr, ho1, ho2, -⟩
      · have hsame : (s.original (n + 1)).commands.length < (s.original m).commands.length := by rw [ho]; exact hlt
        obtain ⟨q, hq, -, hrec⟩ := exists_recordsAt hnm hsame
        exact absurd hrec (hn n q hq ⟨c, hl, thrown, hr⟩)
      · have hpre : (s.original (n + 1)).commands <+: (s.original m).commands := point_commands_initial (s := s) hnm
        have hg : (s.point run n).commands[(s.point run n).cursor]? = some (r.record c (s.original n).commands.length) := by
          rw [ho2] at hpre
          obtain ⟨rest, hrest⟩ := hpre
          rw [h.commands, h.cursor, ← hrest, append_assoc, getElem?_append_right le_rfl]
          simp
        have hout := replayOutcome_record s.runId (s.point run n).cursor (s.original n).commands.length c
          (report_settles (s.fn.sequential _ _ c hact) hr)
        rw [issue_of_recorded hg, hout] at hadv
        refine ⟨?_, ?_, ?_, ?_, ?_⟩ <;> rw [point_succ hadv]
        · rw [ho1, h.replies]
        · rw [ho2, length_append, length_singleton, h.cursor]
        · exact h.commands
        · exact h.state
        · exact h.attempt
    | getState key =>
      have hadv : s.advance (s.point run n) = some ((s.point run n).hand (.state (readKey (s.point run n).state key))) := by
        unfold Scenario.advance
        rw [h.replies, hact]
      rw [hact] at ha
      cases ha
      refine ⟨hread (by rw [hact]; rfl), ?_, ?_, ?_, ?_⟩ <;> rw [point_succ hadv]
      · rw [hp]; exact h.cursor
      · exact h.commands
      · exact h.state
      · exact h.attempt
    | getAttempt =>
      have hadv : s.advance (s.point run n) = some ((s.point run n).hand (.attempt (s.point run n).attempt)) := by
        unfold Scenario.advance
        rw [h.replies, hact]
      rw [hact] at ha
      cases ha
      refine ⟨hread (by rw [hact]; rfl), ?_, ?_, ?_, ?_⟩ <;> rw [point_succ hadv]
      · rw [hp]; exact h.cursor
      · exact h.commands
      · exact h.state
      · exact h.attempt
    | returns output => rw [hact] at ha; cases ha
    | throws thrown => rw [hact] at ha; cases ha

theorem read_agrees {n : Nat} (h : Replaying s run m n) (hstate : ∀ key, s.fn.next s.input (s.original n).replies = .getState key →
      readKey (s.original m).state key = readKey (s.original n).state key)
    (hattempt : s.fn.next s.input (s.original n).replies = .getAttempt → (s.original n).attempt = 0)
    (hread : (s.fn.next s.input (s.original n).replies).isRead = true) :
    (s.point run (n + 1)).replies = (s.original (n + 1)).replies := by
  have hadv : ∀ {p p'}, s.advance (s.point run n) = some p → s.advance (s.original n) = some p' →
      p.replies = p'.replies → (s.point run (n + 1)).replies = (s.original (n + 1)).replies := by
    intro p p' h1 h2 h3
    rw [point_succ h1, show s.original (n + 1) = p' from point_succ h2, h3]
  unfold Scenario.advance at hadv
  rw [h.replies] at hadv
  cases hact : s.fn.next s.input (s.original n).replies with
  | getState key =>
    rw [hact] at hadv
    refine hadv rfl rfl ?_
    show (s.point run n).replies ++ _ = (s.original n).replies ++ _
    rw [h.replies, h.state, hstate key hact]
  | getAttempt =>
    rw [hact] at hadv
    refine hadv rfl rfl ?_
    show (s.point run n).replies ++ _ = (s.original n).replies ++ _
    rw [h.replies, h.attempt, hattempt hact]
  | command c => rw [hact] at hread; cases hread
  | returns output => rw [hact] at hread; cases hread
  | throws thrown => rw [hact] at hread; cases hread

theorem used_up {n k : Nat} (h : n ≤ k) (hn : (s.point run n).cursor = (s.point run n).commands.length) :
    (s.point run k).cursor = (s.point run k).commands.length := by
  obtain ⟨j, rfl⟩ := Nat.exists_eq_add_of_le h
  clear h
  induction j with
  | zero => exact hn
  | succ j ih =>
    show (s.point run (n + j + 1)).cursor = (s.point run (n + j + 1)).commands.length
    cases ha : s.advance (s.point run (n + j)) with
    | none => rw [point_ended ha]; exact ih
    | some p =>
      rw [point_succ ha]
      have hg : (s.point run (n + j)).commands[(s.point run (n + j)).cursor]? = none := by rw [ih]; simp
      unfold Scenario.advance at ha
      split at ha
      · rename_i c hc
        cases ha
        cases hr : c.report (s.effects (s.point run (n + j)).replies.length) with
        | error thrown => rw [issue_of_rejects hg hr]; exact ih
        | ok r => rw [issue_of_reports hg hr]; simp [ih]
      · cases ha; exact ih
      · cases ha; exact ih
      · cases ha
      · cases ha

theorem not_recordsAt_read {n : Nat} (hread : (s.fn.next s.input (s.original n).replies).isRead = true) : ¬ s.RecordsAt n := by
  rintro ⟨c, hl, -⟩
  have hc : s.fn.next s.input (s.original n).replies = .command c := hl.issued
  rw [hc] at hread
  cases hread

theorem Scenario.ReadsSettled.agrees (hs : s.ReadsSettled) {n : Nat} (h : Replaying s run m n)
    (hreach : s.reaches s.launched n) (hlt : (s.original n).commands.length < (s.original m).commands.length)
    (hread : (s.fn.next s.input (s.original n).replies).isRead = true) :
    (s.point run (n + 1)).replies = (s.original (n + 1)).replies := by
  obtain ⟨q, hnq, -, hrec, hstate⟩ := exists_last_recordsAt (le_of_lt (lt_of_shorter hlt)) hlt
  have hne : n ≠ q := fun he => not_recordsAt_read hread (he ▸ hrec)
  have hnq : n < q := by omega
  refine read_agrees h (fun key hk => ?_) (fun hk => hs.attempt n q hnq hreach hk hrec) hread
  rw [← hstate]
  exact hs.state n q key hnq hreach hk hrec

theorem replaying_or_used_up (hn : s.NothingRecordedAfterRejection) (hs : s.ReadsSettled)
    (hrun : Holds s run (s.original m)) : ∀ n, s.reaches run n →
      Replaying s run m n ∨ (s.point run n).cursor = (s.point run n).commands.length
  | 0, _ => .inl (replaying_zero hrun)
  | n + 1, hreach => by
    obtain ⟨hreach', -⟩ := reaches_of_succ hreach
    rcases replaying_or_used_up hn hs hrun n hreach' with h | h
    · have horig : s.reaches s.launched n := by
        unfold Scenario.reaches at hreach' ⊢
        rw [← h.replies]
        exact hreach'
      by_cases hlt : (s.original n).commands.length < (s.original m).commands.length
      · exact .inl (replaying_succ hn h hlt (hs.agrees h horig hlt))
      · refine .inr (used_up (Nat.le_succ n) ?_)
        have hle := (point_settled (s := s) hrun.again.settled n).cursor_le
        rw [h.commands, h.cursor] at *
        omega
    · exact .inr (used_up (Nat.le_succ n) h)

theorem Follows.read {vs : List (Int × Int)} {k : Nat} (hk : Follows s run vs k) (ph : (s.drive run vs).phase = .running)
    (hread : (s.fn.next s.input (s.point run k).replies).isRead = true) (t : Int × Int) :
    (s.step (s.drive run vs) t).replies = (s.point run (k + 1)).replies := by
  cases hk.at_ with
  | entry tr ph' => rw [ph] at ph'; cases ph'
  | executing c pending tr ph' => rw [ph] at ph'; cases ph'
  | done status hh ph' => rw [ph] at ph'; cases ph'
  | running tr ph' st =>
    have hadv : ∃ p, s.advance (s.point run k) = some p := by
      unfold Scenario.advance
      split <;> rename_i hact <;> rw [hact] at hread
      · exact ⟨_, rfl⟩
      · exact ⟨_, rfl⟩
      · exact ⟨_, rfl⟩
      · cases hread
      · cases hread
    obtain ⟨p, ha⟩ := hadv
    have hno : ∀ c, s.fn.next s.input (s.point run k).replies = .command c → (s.point run k).commands[(s.point run k).cursor]? ≠ none := by
      intro c hc
      rw [hc] at hread
      cases hread
    rw [(step_silent t tr ph st ha hno).1.replies, point_succ ha]

theorem exists_running (hs : Holds s run (Point.start run)) {k : Nat} (hk : s.reaches run k)
    (hread : (s.fn.next s.input (s.point run k).replies).isRead = true) :
    ∃ vs, Follows s run vs k ∧ (s.drive run vs).phase = .running := by
  obtain ⟨vs, h⟩ := exists_follows hs hk
  cases h.at_ with
  | running tr ph => exact ⟨vs, h, ph⟩
  | entry tr ph =>
    -- one tick enters the function
    obtain ⟨tr', ph', st', hcall⟩ := step_entry (0, 0) tr ph
    have hrank : (s.drive run vs).rank = 0 := by unfold Drive.rank; rw [ph]
    refine ⟨vs ++ [(0, 0)], h.stay (.running tr' ph' st') (not_executing_of_phase ph)
      (not_executing_of_phase ph') hcall (.inl ?_), by rw [drive_concat]; exact ph'⟩
    rw [hrank, rank_of_running ph']
    exact Nat.succ_pos _
  | executing c pending tr ph st hc => rw [hc] at hread; cases hread
  | done status hh ph hr hst he =>
    unfold Ends at he
    split at he <;> rename_i hact
    · rw [hact] at hread; cases hread
    · rw [hact] at hread; cases hread
    · rw [hact] at hread; cases hread
    · exact he.elim

end Replaying

/-! ## Stability -/

section Stability

variable {s : Scenario V}

theorem replaying_at {run : WorkflowRun V} {vs : List (Int × Int)} {k : Nat} (hk : Follows s run vs k)
    (ph : (s.drive run vs).phase = .running) :
    (s.drive run vs).journal.replaying = decide ((s.point run k).cursor < (s.point run k).commands.length) := by
  have htr : Tracks s run.output (s.drive run vs) (s.point run k) := by
    cases hk.at_ with
    | running tr => exact tr
    | entry tr => exact tr
    | executing c pending tr => exact tr
    | done status hh ph' => rw [ph] at ph'; cases ph'
  unfold Journal.replaying
  rw [htr.cursor, ← htr.holds.commands, length_map]

theorem readsReplayed_of_settled (hn : s.NothingRecordedAfterRejection) (hs : s.ReadsSettled) : s.ReadsReplayed := by
  intro ts vs t ph hrep hread
  obtain ⟨m, hm⟩ := follows_drive (holds_launched s) ts
  have hholds : Holds s (s.crashed ts) (s.original m) := hm.at_.holds
  obtain ⟨k, hk⟩ := follows_drive hholds.again vs
  rw [replaying_at hk ph, decide_eq_true_eq] at hrep
  rw [hk.at_.replies] at hread ⊢
  have hlen : (s.point (s.crashed ts) k).replies.length = k := hk.reaches
  rw [hk.read ph hread t, hlen, hm.at_.replies]
  rcases replaying_or_used_up hn hs hholds k hk.reaches with h | h
  · have hlt : (s.original k).commands.length < (s.original m).commands.length := by
      rw [← h.cursor, ← h.commands]
      exact hrep
    have horig : s.reaches s.launched k := by
      unfold Scenario.reaches
      rw [← h.replies]
      exact hlen
    rw [h.replies] at hread
    rw [hs.agrees h horig hlt hread]
    -- the original drive has been handed that reply, for it has come to `m`
    have hpre : (s.original (k + 1)).replies <+: (s.original m).replies := point_replies_prefix (lt_of_shorter hlt)
    have hreach : (s.original (k + 1)).replies.length = k + 1 := reaches_of_le hm.reaches (lt_of_shorter hlt)
    obtain ⟨rest, hrest⟩ := hpre
    rw [← hrest, getElem?_append_left (by omega)]
  · omega

theorem replaying_of_readsReplayed (hn : s.NothingRecordedAfterRejection) (hr : s.ReadsReplayed)
    {ts : List (Int × Int)} {m : Nat} (hm : Follows s s.launched ts m) :
    ∀ n, (s.original n).commands.length < (s.original m).commands.length →
      Replaying s (s.crashed ts) m n ∧ ((s.fn.next s.input (s.original n).replies).isRead = true →
        (s.point (s.crashed ts) (n + 1)).replies = (s.original (n + 1)).replies) := by
  have hholds : Holds s (s.crashed ts) (s.original m) := hm.at_.holds
  -- a replayed read: some drive stands before it, and is handed what the original drive was
  have hread : ∀ n, (s.original n).commands.length < (s.original m).commands.length →
      Replaying s (s.crashed ts) m n → (s.fn.next s.input (s.original n).replies).isRead = true →
        (s.point (s.crashed ts) (n + 1)).replies = (s.original (n + 1)).replies := by
    intro n hlt h hread
    have horig : (s.original n).replies.length = n := reaches_of_le hm.reaches (le_of_lt (lt_of_shorter hlt))
    have hreach : s.reaches (s.crashed ts) n := by
      unfold Scenario.reaches
      rw [h.replies]
      exact horig
    rw [← h.replies] at hread
    obtain ⟨vs, hvs, ph⟩ := exists_running hholds.again hreach hread
    have hrep : (s.drive (s.crashed ts) vs).journal.replaying = true := by
      rw [replaying_at hvs ph, decide_eq_true_eq, h.cursor, h.commands]
      exact hlt
    have heq := hr ts vs (0, 0) ph hrep (by rw [hvs.at_.replies]; exact hread)
    rw [hvs.read ph hread, hvs.at_.replies, hm.at_.replies, h.replies, horig] at heq
    have hpre : (s.original (n + 1)).replies <+: (s.original m).replies := point_replies_prefix (lt_of_shorter hlt)
    have hlen : (s.original (n + 1)).replies.length = n + 1 := reaches_of_le hm.reaches (lt_of_shorter hlt)
    obtain ⟨rest, hrest⟩ := hpre
    rw [← hrest, getElem?_append_left (by omega)] at heq
    -- both are the replies before it and one more
    have hlen' : (s.point (s.crashed ts) (n + 1)).replies.length = n + 1 := by
      have hle := length_point_le s (s.crashed ts) (n + 1)
      by_contra hne
      rw [getElem?_eq_none_iff.2 (by omega), getElem?_eq_getElem (by omega)] at heq
      cases heq
    have hp1 : (s.point (s.crashed ts) n).replies <+: (s.point (s.crashed ts) (n + 1)).replies :=
      point_replies_prefix (Nat.le_succ n)
    have hp2 : (s.original n).replies <+: (s.original (n + 1)).replies := point_replies_prefix (Nat.le_succ n)
    obtain ⟨a, ha⟩ := hp1
    obtain ⟨b, hb⟩ := hp2
    rw [h.replies] at ha
    have hla := congrArg List.length ha
    have hlb := congrArg List.length hb
    rw [length_append] at hla hlb
    obtain ⟨x, rfl⟩ := length_eq_one_iff.1 (by omega : a.length = 1)
    obtain ⟨y, rfl⟩ := length_eq_one_iff.1 (by omega : b.length = 1)
    rw [← ha, ← hb] at heq ⊢
    rw [getElem?_append_right (by omega), getElem?_append_right (by omega), horig] at heq
    simpa using heq
  intro n
  induction n with
  | zero => exact fun hlt => ⟨replaying_zero hholds, hread 0 hlt (replaying_zero hholds)⟩
  | succ n ih =>
    intro hlt
    have hle : (s.original n).commands.length ≤ (s.original (n + 1)).commands.length :=
      (point_commands_initial (s := s) (Nat.le_succ n)).length_le
    obtain ⟨h, hrd⟩ := ih (by omega)
    have hnext := replaying_succ hn h (by omega) hrd
    exact ⟨hnext, hread (n + 1) hlt hnext⟩

theorem readsSettled_of_replayed (hn : s.NothingRecordedAfterRejection) (hr : s.ReadsReplayed) : s.ReadsSettled := by
  have hmain : ∀ i q, i < q → s.RecordsAt q → (s.fn.next s.input (s.original i).replies).isRead = true →
      ∃ run, Replaying s run (q + 1) i ∧ (s.point run (i + 1)).replies = (s.original (i + 1)).replies := by
    intro i q hiq hq hread
    obtain ⟨c, hl, r, hrep⟩ := hq
    obtain ⟨ts, hts⟩ := exists_follows (holds_launched s) (reaches_succ hl.reaches hl.advance)
    have hle : (s.original i).commands.length ≤ (s.original q).commands.length :=
      (point_commands_initial (s := s) (le_of_lt hiq)).length_le
    have hlt : (s.original i).commands.length < (s.original (q + 1)).commands.length := by
      rcases original_succ hl with ⟨thrown, hr', -⟩ | ⟨r', -, -, hc, -⟩
      · rw [hrep] at hr'; cases hr'
      · rw [hc, length_append, length_singleton]
        omega
    obtain ⟨h, hrd⟩ := replaying_of_readsReplayed hn hr hts i hlt
    exact ⟨s.crashed ts, h, hrd hread⟩
  constructor
  · intro i q key hiq hreach hk hq
    obtain ⟨run, h, hrd⟩ := hmain i q hiq hq (by rw [hk]; rfl)
    have h1 : s.advance (s.point run i) = some ((s.point run i).hand (.state (readKey (s.point run i).state key))) := by
      unfold Scenario.advance
      rw [h.replies, hk]
    have h2 : s.advance (s.original i) = some ((s.original i).hand (.state (readKey (s.original i).state key))) := by
      unfold Scenario.advance
      rw [hk]
    rw [point_succ h1, show s.original (i + 1) = _ from point_succ h2] at hrd
    unfold Point.hand at hrd
    simp only [h.replies, h.state, append_cancel_left_eq, List.cons.injEq, Reply.state.injEq, and_true] at hrd
    exact hrd
  · intro i q hiq hreach hk hq
    obtain ⟨run, h, hrd⟩ := hmain i q hiq hq (by rw [hk]; rfl)
    have h1 : s.advance (s.point run i) = some ((s.point run i).hand (.attempt (s.point run i).attempt)) := by
      unfold Scenario.advance
      rw [h.replies, hk]
    have h2 : s.advance (s.original i) = some ((s.original i).hand (.attempt (s.original i).attempt)) := by
      unfold Scenario.advance
      rw [hk]
    rw [point_succ h1, show s.original (i + 1) = _ from point_succ h2] at hrd
    unfold Point.hand at hrd
    simp only [h.replies, h.attempt, append_cancel_left_eq, List.cons.injEq, Reply.attempt.injEq, and_true] at hrd
    exact hrd.symm

end Stability

/-! ## A read before its write -/

/-- `if (ctx.state.get("seeded") === undefined) await ctx.state.set("seeded", true)`, and no more. -/
def seedOnce : WorkflowFunction Value
  | _, [] => .getState "seeded"
  | _, [.state .undefined] => .command (.stateSet "seeded" (.bool true))
  | _, _ => .returns .undefined

theorem seedOnce_command {input : Value} {replies : List (Reply Value)} {c : Command Value}
    (hc : seedOnce input replies = .command c) : c = .stateSet "seeded" (.bool true) := by
  unfold seedOnce at hc
  split at hc <;> cases hc
  rfl

def seeding : Scenario Value where
  fn := { next := seedOnce, sequential := fun _ _ c hc => by rw [seedOnce_command hc]; rfl }
  input := .null
  runId := "run-1"
  definition := "seed"
  createdAt := 0
  effects _ := Effect.always (.ok .undefined)

theorem seeding_nothingRecordedAfterRejection : seeding.NothingRecordedAfterRejection := by
  rintro p q - ⟨c, hl, thrown, hr⟩
  rw [seedOnce_command hl.issued] at hr
  cases hr

end StreetJS.Workflow
