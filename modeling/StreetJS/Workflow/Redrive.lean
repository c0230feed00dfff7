/-
A drive over a snapshot with recorded commands: the replies the function is handed while the journal
replays, and where the drive stands after every number of ticks up to the first command that is not
replayed.
-/
import StreetJS.Workflow.Engine

namespace StreetJS.Workflow

open StreetJS.Lib List

variable {V : Type} [JsValue V]

/-! ## Replays -/

/-- Driven over `run`, the function is handed `replies` and has issued the first `cursor` commands,
all of them replayed from settled records. -/
inductive Replays (fn : WorkflowFunction V) (run : WorkflowRun V) : List (Reply V) → Nat → Prop
  | start : Replays fn run [] 0
  | command {replies cursor} (prior : Replays fn run replies cursor) {c : Command V} {recorded : CommandRecord V}
      (issued : fn run.input replies = .command c) (found : run.commands[cursor]? = some recorded)
      (settled : recorded.status ≠ .waiting) :
      Replays fn run (replies ++ [.settled (replayOutcome run.runId cursor c.kind recorded)]) (cursor + 1)
  | getState {replies cursor} (prior : Replays fn run replies cursor) {key : String} (issued : fn run.input replies = .getState key) :
      Replays fn run (replies ++ [.state (readKey run.state key)]) cursor
  | getAttempt {replies cursor} (prior : Replays fn run replies cursor) (issued : fn run.input replies = .getAttempt) :
      Replays fn run (replies ++ [.attempt 0]) cursor

/-- Two snapshots that a drive replays alike. -/
structure SameJournal (a b : WorkflowRun V) : Prop where
  runId : b.runId = a.runId
  input : b.input = a.input
  commands : b.commands = a.commands
  nextSeq : b.nextSeq = a.nextSeq
  state : b.state = a.state

omit [JsValue V] in
theorem SameJournal.refl (a : WorkflowRun V) : SameJournal a a := ⟨rfl, rfl, rfl, rfl, rfl⟩

section

variable {fn : WorkflowFunction V} {run : WorkflowRun V} {replies : List (Reply V)} {cursor : Nat}

/-- What is replayed depends on the records that are replayed, and on the run's identity, input and
state. -/
theorem Replays.congr {run' : WorkflowRun V} (h : Replays fn run replies cursor) (hid : run'.runId = run.runId)
    (hin : run'.input = run.input) (hst : run'.state = run.state)
    (hc : ∀ i < cursor, run'.commands[i]? = run.commands[i]?) : Replays fn run' replies cursor := by
  induction h with
  | start => exact .start
  | @command replies cursor prior c recorded issued found settled ih =>
    rw [← hid]
    exact .command (ih fun i hi => hc i (Nat.lt_succ_of_lt hi)) (hin ▸ issued) ((hc cursor (Nat.lt_succ_self cursor)).trans found) settled
  | getState prior issued ih =>
    rw [← hst]
    exact .getState (ih hc) (hin ▸ issued)
  | getAttempt prior issued ih => exact .getAttempt (ih hc) (hin ▸ issued)

theorem Replays.of_sameJournal {run' : WorkflowRun V} (h : Replays fn run replies cursor)
    (hs : SameJournal run run') : Replays fn run' replies cursor :=
  h.congr hs.runId hs.input hs.state fun i _ => by rw [hs.commands]

omit [JsValue V] in
theorem take_concat {α : Type} (l : List α) (a : α) (k : Nat) : (l ++ [a]).take k = l.take k ∨ (l ++ [a]).take k = l ++ [a] := by
  by_cases hk : k ≤ l.length
  · exact .inl (take_append_of_le_length hk)
  · exact .inr (take_of_length_le (by rw [length_append, length_singleton]; omega))

theorem Replays.take (h : Replays fn run replies cursor) (k : Nat) : ∃ i, Replays fn run (replies.take k) i := by
  induction h with
  | start => exact ⟨0, by rw [take_nil]; exact .start⟩
  | command prior issued found settled ih =>
    rcases take_concat _ _ k with h | h <;> rw [h]
    · exact ih
    · exact ⟨_, .command prior issued found settled⟩
  | getState prior issued ih =>
    rcases take_concat _ _ k with h | h <;> rw [h]
    · exact ih
    · exact ⟨_, .getState prior issued⟩
  | getAttempt prior issued ih =>
    rcases take_concat _ _ k with h | h <;> rw [h]
    · exact ih
    · exact ⟨_, .getAttempt prior issued⟩

end

/-! ## A drive that replays -/

/-- The snapshot a drive enters with: `run` itself, or `run` committed as running. -/
def entered (run : WorkflowRun V) (t : Tick V) : WorkflowRun V := ((Drive.start run).enter t).1.run

theorem exec_concat (fn : WorkflowFunction V) (run : WorkflowRun V) (ts : List (Tick V)) (t : Tick V) :
    Drive.exec fn run (ts ++ [t]) = (Drive.exec fn run ts).next fn t :=
  run_concat _ _ _ _

theorem exec_append (fn : WorkflowFunction V) (run : WorkflowRun V) (ts us : List (Tick V)) :
    Drive.exec fn run (ts ++ us) = Lib.run (Drive.next fn) (Drive.exec fn run ts) us :=
  run_append _ _ _ _

theorem entered_sameJournal (run : WorkflowRun V) (t : Tick V) : SameJournal run (entered run t) := by
  unfold entered Drive.enter
  split <;> exact ⟨rfl, rfl, rfl, rfl, rfl⟩

theorem entered_pendingSignals (run : WorkflowRun V) (t : Tick V) : (entered run t).pendingSignals = run.pendingSignals := by
  unfold entered Drive.enter
  split <;> rfl

theorem exec_singleton (fn : WorkflowFunction V) (run : WorkflowRun V) (t : Tick V) :
    Drive.exec fn run [t] = { journal := { current := entered run t }, phase := .running } := by
  show ((Drive.start run).enter t).1 = _
  unfold entered Drive.enter
  split <;> rfl

/-- Where a drive stands while it replays. -/
def replaying (run : WorkflowRun V) (t : Tick V) (replies : List (Reply V)) (cursor : Nat) : Drive V :=
  { journal := { current := entered run t, cursor }, replies, phase := .running }

section

variable {fn : WorkflowFunction V} {run : WorkflowRun V} {replies : List (Reply V)} {cursor : Nat}

omit [JsValue V] in
theorem exists_concat {α β : Type} {xs : List α} {l : List β} {b : β} (h : xs.length = (l ++ [b]).length) :
    ∃ ys x, xs = ys ++ [x] ∧ ys.length = l.length := by
  rw [length_append, length_singleton] at h
  rcases eq_nil_or_concat' xs with rfl | ⟨ys, x, rfl⟩
  · cases h
  · rw [length_append, length_singleton] at h
    exact ⟨ys, x, rfl, Nat.succ.inj h⟩

theorem asks {action : Action V} (issued : fn run.input replies = action) (t : Tick V) :
    fn (replaying run t replies cursor).run.input (replaying run t replies cursor).replies = action := by
  rw [show (replaying run t replies cursor).run.input = run.input from (entered_sameJournal run t).input]
  exact issued

theorem exec_replays (h : Replays fn run replies cursor) (t : Tick V) : ∀ {ts : List (Tick V)}, ts.length = replies.length →
      Drive.exec fn run (t :: ts) = replaying run t replies cursor := by
  induction h with
  | start =>
    intro ts hts
    rw [length_eq_zero_iff.1 hts]
    exact exec_singleton fn run t
  | @command replies cursor prior c recorded issued found settled ih =>
    intro ts hts
    obtain ⟨ts', t', rfl, hlen⟩ := exists_concat hts
    have hs := entered_sameJournal run t
    rw [← cons_append, exec_concat, ih hlen]
    have hissue : (replaying run t replies cursor).journal.issue c.spec t'.now =
        .replayed { current := entered run t, cursor := cursor + 1 } (replayOutcome run.runId cursor c.kind recorded) := by
      unfold Journal.issue replaying
      simp only [hs.commands, found]
      rw [if_pos settled, hs.runId]
      rfl
    show ((replaying run t replies cursor).act fn t').1 = _
    unfold Drive.act
    rw [asks issued]
    simp only [hissue]
    rfl
  | @getState replies cursor prior key issued ih =>
    intro ts hts
    obtain ⟨ts', t', rfl, hlen⟩ := exists_concat hts
    have hs := entered_sameJournal run t
    rw [← cons_append, exec_concat, ih hlen]
    show ((replaying run t replies cursor).act fn t').1 = _
    unfold Drive.act
    rw [asks issued]
    simp only
    rw [show (replaying run t replies cursor).journal.readState key = readKey run.state key by
      rw [← hs.state]; rfl]
    rfl
  | @getAttempt replies cursor prior issued ih =>
    intro ts hts
    obtain ⟨ts', t', rfl, hlen⟩ := exists_concat hts
    rw [← cons_append, exec_concat, ih hlen]
    show ((replaying run t replies cursor).act fn t').1 = _
    unfold Drive.act
    rw [asks issued]
    rfl

theorem next_replaying {c : Command V} {pending : Pending V} {entry t : Tick V} (issued : fn run.input replies = .command c)
    (hissue : (replaying run entry replies cursor).journal.issue c.spec t.now = .live pending) :
    (replaying run entry replies cursor).next fn t =
      { replaying run entry replies cursor with phase := .executing c pending } := by
  show ((replaying run entry replies cursor).act fn t).1 = _
  unfold Drive.act
  rw [asks issued]
  simp only [hissue]

theorem exec_sameJournal_of_short (h : Replays fn run replies cursor) {ts : List (Tick V)}
    (hts : ts.length ≤ replies.length + 1) : SameJournal run (Drive.exec fn run ts).run := by
  cases ts with
  | nil => exact SameJournal.refl run
  | cons t ts =>
    obtain ⟨i, hi⟩ := h.take ts.length
    rw [length_cons] at hts
    rw [exec_replays hi t (by rw [length_take]; omega)]
    exact entered_sameJournal run t

end

/-! ## Operations on a run that is driven again -/

omit [JsValue V] in
theorem resumeWait_run (s : Engine V) (seq : Nat) (ticks : List (Tick V)) : (s.resumeWait seq ticks).1.run = s.run := by
  unfold Engine.resumeWait
  split <;> rfl

omit [JsValue V] in
theorem accept_sameJournal (s : Engine V) (op : Op V) : SameJournal s.run (s.accept op).1.run := by
  cases op with
  | resume ticks => exact SameJournal.refl _
  | pause now => simp only [Engine.accept]; split <;> exact ⟨rfl, rfl, rfl, rfl, rfl⟩
  | cancel now => simp only [Engine.accept]; split <;> exact ⟨rfl, rfl, rfl, rfl, rfl⟩
  | signal name payload now ticks =>
    simp only [Engine.accept]
    split
    · exact SameJournal.refl _
    · split
      · exact ⟨rfl, rfl, rfl, rfl, rfl⟩
      · rw [resumeWait_run]
        exact ⟨rfl, rfl, rfl, rfl, rfl⟩
  | resumeDueTimers now ticks =>
    simp only [Engine.accept]
    split
    · split
      · exact SameJournal.refl _
      · rw [resumeWait_run]
        exact SameJournal.refl _
    · exact SameJournal.refl _
  | reopen autoResume ticks => exact SameJournal.refl _

/-- The drives that a list of operations starts: the snapshot and the ticks of each. -/
def redrives (fn : WorkflowFunction V) (s : Engine V) (ops : List (Op V)) : List (WorkflowRun V × List (Tick V)) :=
  observe (Engine.step fn) Engine.starts s ops

theorem redrives_cons (fn : WorkflowFunction V) (s : Engine V) (op : Op V) (ops : List (Op V)) :
    redrives fn s (op :: ops) = (s.starts op).toList ++ redrives fn (s.step fn op) ops := rfl

theorem redrives_concat (fn : WorkflowFunction V) (s : Engine V) (ops : List (Op V)) (op : Op V) :
    redrives fn s (ops ++ [op]) = redrives fn s ops ++ ((Lib.run (Engine.step fn) s ops).starts op).toList :=
  observe_concat _ _ _ _ _

theorem forall_mem_redrives_cons {fn : WorkflowFunction V} {s : Engine V} {op : Op V} {ops : List (Op V)}
    {P : WorkflowRun V × List (Tick V) → Prop} :
    (∀ r ∈ redrives fn s (op :: ops), P r) ↔ (∀ r, s.starts op = some r → P r) ∧ ∀ r ∈ redrives fn (s.step fn op) ops, P r := by
  rw [redrives_cons, forall_mem_append]
  simp only [Option.mem_toList]

end StreetJS.Workflow
