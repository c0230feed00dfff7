/-
What a drive reads of the snapshot it starts from. Two snapshots that agree on it are driven alike:
the function is handed the same replies and the runs go through the same statuses, whatever the
function and the outside do.
-/
import StreetJS.Workflow.Records

namespace StreetJS.Workflow

open StreetJS.Lib List

variable {V : Type} [JsValue V]

/-! ## Views -/

/-- What is read of a record: no metadata, and the result of a completed command only. -/
def CommandRecord.view (r : CommandRecord V) : CommandRecord V :=
  { r with metadata := none, result := if r.status = .completed then r.result else none }

/-- Two snapshots that agree on everything a drive reads of them. -/
structure SameView (a b : WorkflowRun V) : Prop where
  runId : b.runId = a.runId
  input : b.input = a.input
  status : b.status = a.status
  nextSeq : b.nextSeq = a.nextSeq
  commands : b.commands.map CommandRecord.view = a.commands.map CommandRecord.view
  state : ∀ key, readKey b.state key = readKey a.state key
  payload : ∀ name, (findPending b.pendingSignals name).map (·.payload) = (findPending a.pendingSignals name).map (·.payload)

structure SamePending (p q : Pending V) : Prop where
  spec : q.spec = p.spec
  index : q.index = p.index
  recorded : q.recorded.map CommandRecord.view = p.recorded.map CommandRecord.view
  seq : q.seq = p.seq
  startedAt : q.startedAt = p.startedAt

inductive SamePhase : Phase V → Phase V → Prop
  | entry : SamePhase .entry .entry
  | running : SamePhase .running .running
  | executing (command : Command V) {p q : Pending V} (pending : SamePending p q) : SamePhase (.executing command p) (.executing command q)
  | rollingBack {ts us : List (CommandRecord V)} (targets : us.map CommandRecord.view = ts.map CommandRecord.view) :
    SamePhase (.rollingBack ts) (.rollingBack us)
  | invoking {t u : CommandRecord V} {ts us : List (CommandRecord V)} (target : u.view = t.view)
    (targets : us.map CommandRecord.view = ts.map CommandRecord.view) : SamePhase (.invoking t ts) (.invoking u us)
  | done (status : RunStatus) : SamePhase (.done status) (.done status)

/-- Two drives that go on alike. -/
structure SameDrive (d e : Drive V) : Prop where
  run : SameView d.run e.run
  cursor : e.journal.cursor = d.journal.cursor
  replies : e.replies = d.replies
  currentAttempt : e.currentAttempt = d.currentAttempt
  compensations : e.compensations = d.compensations
  phase : SamePhase d.phase e.phase

section

omit [JsValue V]

variable {r r' : CommandRecord V}

section

variable (h : r'.view = r.view)
include h

theorem view_kind : r'.kind = r.kind := congrArg (·.kind) h

theorem view_status : r'.status = r.status := congrArg (·.status) h

theorem view_seq : r'.seq = r.seq := congrArg (·.seq) h

theorem view_error : r'.error = r.error := congrArg (·.error) h

theorem view_result (hr : r.status = .completed) : r'.result = r.result := by
  have he := congrArg (·.result) h
  simp only [CommandRecord.view, view_status h, hr, if_true] at he
  exact he

theorem replayOutcome_view (runId : String) (index : Nat) (kind : CommandKind) :
    replayOutcome runId index kind r' = replayOutcome runId index kind r := by
  unfold replayOutcome
  rw [view_kind h, view_status h, view_seq h, view_error h]
  split
  · rfl
  · split
    · rename_i hs
      rw [view_result h hs]
    · rfl

end

theorem buildRecord_view {p p' : Option (CommandRecord V)}
    (h : p'.map CommandRecord.view = p.map CommandRecord.view) (spec : JournalCommandSpec V) (seq : Nat)
    (startedAt settledAt : Int) (outcome : CommandOutcome V) :
    (buildRecord spec seq startedAt settledAt outcome p').view = (buildRecord spec seq startedAt settledAt outcome p).view := by
  have hattempts : p'.map (·.attempts) = p.map (·.attempts) := by
    have := congrArg (Option.map (·.attempts)) h
    rwa [Option.map_map, Option.map_map] at this
  have hstarted : p'.bind (·.startedAt) = p.bind (·.startedAt) := by
    have := congrArg (Option.bind · (·.startedAt)) h
    rwa [Option.bind_map, Option.bind_map] at this
  unfold buildRecord
  cases outcome.settlement <;> simp only [CommandRecord.view, hattempts, hstarted]

end

/-! ## Snapshots -/

namespace SameView

variable {a b : WorkflowRun V}

theorem refl (a : WorkflowRun V) : SameView a a := ⟨rfl, rfl, rfl, rfl, rfl, fun _ => rfl, fun _ => rfl⟩

theorem stamped (h : SameView a b) (status : RunStatus) {output output' : Option V}
    {history history' : List (HistoryEvent V)} {updatedAt updatedAt' : Int} :
    SameView { a with status, output, history, updatedAt }
      { b with status, output := output', history := history', updatedAt := updatedAt' } :=
  ⟨h.runId, h.input, rfl, h.nextSeq, h.commands, h.state, h.payload⟩

theorem history (h : SameView a b) {history history' : List (HistoryEvent V)} {updatedAt updatedAt' : Int} :
    SameView { a with history, updatedAt } { b with history := history', updatedAt := updatedAt' } :=
  ⟨h.runId, h.input, h.status, h.nextSeq, h.commands, h.state, h.payload⟩

theorem record (h : SameView a b) (i : Nat) : (b.commands[i]?).map CommandRecord.view = (a.commands[i]?).map CommandRecord.view := by
  rw [← getElem?_map, ← getElem?_map, h.commands]

theorem readKey_merge {s s' : OrderedMap String V} (h : ∀ key, readKey s' key = readKey s key) :
    ∀ (patch : List (String × V)) (key : String), readKey (mergeState s' patch) key = readKey (mergeState s patch) key
  | [], key => h key
  | (k, v) :: patch, key => by
    have hset : ∀ key, readKey (s'.set k v) key = readKey (s.set k v) key := by
      intro key
      have h₁ := readKey_mergeState_single s' k key v
      have h₂ := readKey_mergeState_single s k key v
      show readKey (mergeState s' [(k, v)]) key = readKey (mergeState s [(k, v)]) key
      rw [h₁, h₂, h key]
    exact readKey_merge hset patch key

omit [JsValue V] in
theorem findPending_getD (signals signals' : List (RecordedSignal V)) (name : String)
    (h : (findPending signals' name).map (·.payload) = (findPending signals name).map (·.payload)) :
    findPending signals' name = none ∧ findPending signals name = none ∨
      ∃ s s', findPending signals' name = some s' ∧ findPending signals name = some s ∧ s'.payload = s.payload := by
  cases hs : findPending signals name with
  | none =>
    rw [hs] at h
    exact .inl ⟨Option.map_eq_none_iff.1 h, rfl⟩
  | some s =>
    rw [hs] at h
    obtain ⟨s', hs', hp⟩ := Option.map_eq_some_iff.1 h
    exact .inr ⟨s, s', hs', rfl, hp⟩

/-- A thunk reads nothing of the run but the payload it consumes. -/
theorem execute (h : SameView a b) (c : Command V) (effect : Effect V) (info : JournalExecuteInfo) :
    c.execute effect info b = c.execute effect info a := by
  cases c with
  | waitFor event parse =>
    show executeWaitFor event parse b = executeWaitFor event parse a
    unfold executeWaitFor
    rcases findPending_getD _ _ event (h.payload event) with ⟨hb, ha⟩ | ⟨s, s', hb, ha, hp⟩
    · rw [ha, hb]
    · simp only [ha, hb, hp]
  | parallelMap mapped => cases mapped <;> rfl
  | _ => rfl

theorem settle (h : SameView a b) {p q : Pending V} (hp : SamePending p q) (cursor : Nat) (settledAt : Int) (outcome : CommandOutcome V) :
    let x := Journal.settle { current := a, cursor } p settledAt outcome
    let y := Journal.settle { current := b, cursor } q settledAt outcome
    SameView x.1.current y.1.current ∧ y.1.cursor = x.1.cursor ∧ y.2 = x.2 := by
  have hsome : q.recorded.isSome = p.recorded.isSome := by
    have := congrArg Option.isSome hp.recorded
    rwa [Option.isSome_map, Option.isSome_map] at this
  have hrecord := buildRecord_view hp.recorded p.spec p.seq p.startedAt settledAt outcome
  unfold Journal.settle
  simp only [hp.spec, hp.index, hp.seq, hp.startedAt, hsome, h.status, h.nextSeq]
  cases outcome.settlement <;> refine ⟨⟨h.runId, h.input, rfl, rfl, ?_, readKey_merge h.state _, h.payload⟩, rfl, rfl⟩
  all_goals
    simp only
    split
    · rw [map_set, map_set, h.commands, hrecord]
    · rw [map_append, map_append, h.commands, map_singleton, map_singleton, hrecord]

theorem compensationTargets (h : SameView a b) (compensations : List (CapturedCompensation V)) :
    (compensationTargets b compensations).map CommandRecord.view = (Workflow.compensationTargets a compensations).map CommandRecord.view := by
  have hsort : ∀ l : List (CommandRecord V), (l.insertionSort fun x y => rollsBackBefore x y).map CommandRecord.view =
        (l.map CommandRecord.view).insertionSort fun x y => rollsBackBefore x y :=
    fun l => map_insertionSort _ _ _ _ fun _ _ _ _ => Iff.rfl
  have hfilter : ∀ l : List (CommandRecord V), (l.filter fun c => c.status = .completed ∧ c.compensated = false ∧
        (registration compensations c.seq).isSome).map CommandRecord.view =
        (l.map CommandRecord.view).filter fun c =>
          c.status = .completed ∧ c.compensated = false ∧ (registration compensations c.seq).isSome :=
    fun l => by rw [filter_map]; rfl
  unfold Workflow.compensationTargets
  rw [hsort, hsort, hfilter, hfilter, h.commands]

theorem markCompensated (h : SameView a b) (seq : Nat) : SameView (markCompensated a seq) (Workflow.markCompensated b seq) := by
  refine { h with commands := ?_ }
  have hmap : ∀ l : List (CommandRecord V),
      (l.map fun c => if c.seq = seq then { c with compensated := true } else c).map CommandRecord.view =
        (l.map CommandRecord.view).map fun c => if c.seq = seq then { c with compensated := true } else c := by
    intro l
    rw [map_map, map_map]
    refine map_congr_left fun c _ => ?_
    show CommandRecord.view (if c.seq = seq then { c with compensated := true } else c) =
      if c.seq = seq then { c.view with compensated := true } else c.view
    split <;> rfl
  show (b.commands.map _).map _ = (a.commands.map _).map _
  rw [hmap, hmap, h.commands]

end SameView

/-! ## Drives -/

namespace SameDrive

variable {d e : Drive V}

variable {a b : WorkflowRun V}

theorem start (h : SameView a b) : SameDrive (Drive.start a) (Drive.start b) :=
  ⟨h, rfl, rfl, rfl, rfl, .entry⟩

theorem save (h : SameDrive d e) (hr : SameView a b) {p q : Phase V} (hp : SamePhase p q) : SameDrive (d.save a p).1 (e.save b q).1 :=
  ⟨hr, h.cursor, h.replies, h.currentAttempt, h.compensations, hp⟩

theorem handed (h : SameDrive d e) (reply : Reply V) : SameDrive (d.handed reply) (e.handed reply) :=
  ⟨h.run, h.cursor, congrArg (· ++ [reply]) h.replies, h.currentAttempt, h.compensations, .running⟩

theorem recorded (h : SameDrive d e) {j k : Journal V} (hr : SameView j.current k.current) (hc : k.cursor = j.cursor)
    (x : Executed V) (reply : Reply V) :
    SameDrive ({ d with
          journal := j
          currentAttempt := x.attempt.getD d.currentAttempt
          compensations := d.compensations ++ x.compensation.toList }.handed reply)
      ({ e with
          journal := k
          currentAttempt := x.attempt.getD e.currentAttempt
          compensations := e.compensations ++ x.compensation.toList }.handed reply) :=
  ⟨hr, hc, congrArg (· ++ [reply]) h.replies, congrArg x.attempt.getD h.currentAttempt,
    congrArg (· ++ x.compensation.toList) h.compensations, .running⟩

theorem enter (h : SameDrive d e) (t : Tick V) : SameDrive (d.enter t).1 (e.enter t).1 := by
  unfold Drive.enter
  rw [h.run.status]
  split
  · exact h.save (h.run.stamped .running) .running
  · exact { h with phase := .running }

theorem finalizeFailure (h : SameDrive d e) (t : Tick V) : SameDrive (d.finalizeFailure t).1 (e.finalizeFailure t).1 := by
  have htargets := h.run.compensationTargets d.compensations
  unfold Drive.finalizeFailure
  rw [h.compensations]
  cases hd : Workflow.compensationTargets d.run d.compensations with
  | nil =>
    rw [hd, map_nil, map_eq_nil_iff] at htargets
    rw [htargets]
    exact h.save (h.run.stamped .failed) (.done .failed)
  | cons t ts =>
    rw [hd] at htargets
    cases he : Workflow.compensationTargets e.run d.compensations with
    | nil => rw [he] at htargets; cases htargets
    | cons u us =>
      rw [he] at htargets
      exact h.save (h.run.stamped .compensating) (.rollingBack htargets)

theorem issue (h : SameDrive d e) (c : Command V) (t : Tick V) :
    (∃ outcome, d.journal.issue c.spec t.now = .replayed { d.journal with cursor := d.journal.cursor + 1 } outcome ∧
        e.journal.issue c.spec t.now = .replayed { e.journal with cursor := e.journal.cursor + 1 } outcome) ∨
      ∃ p q, d.journal.issue c.spec t.now = .live p ∧ e.journal.issue c.spec t.now = .live q ∧ SamePending p q := by
  have hrecord := h.run.record d.journal.cursor
  unfold Journal.issue
  rw [h.cursor, h.run.runId]
  cases hd : d.run.commands[d.journal.cursor]? with
  | none =>
    rw [hd, Option.map_none, Option.map_eq_none_iff] at hrecord
    rw [hrecord]
    exact .inr ⟨_, _, rfl, rfl, rfl, h.cursor, rfl, h.run.nextSeq, rfl⟩
  | some r =>
    rw [hd] at hrecord
    obtain ⟨r', hr', hv⟩ := Option.map_eq_some_iff.1 hrecord
    rw [hr']
    simp only [view_status hv]
    split
    · exact .inl ⟨_, rfl, by rw [replayOutcome_view hv]⟩
    · exact .inr ⟨_, _, rfl, rfl, rfl, h.cursor, congrArg some hv, view_seq hv, rfl⟩

theorem act (h : SameDrive d e) (fn : WorkflowFunction V) (t : Tick V) : SameDrive (d.act fn t).1 (e.act fn t).1 := by
  have haction : fn e.run.input e.replies = fn d.run.input d.replies := by rw [h.run.input, h.replies]
  unfold Drive.act
  rw [haction]
  cases hf : fn d.run.input d.replies with
  | command c =>
    rcases h.issue c t with ⟨outcome, hd, he⟩ | ⟨p, q, hd, he, hp⟩
    · simp only [hd, he]
      exact handed (d := { d with journal := { d.journal with cursor := d.journal.cursor + 1 } })
        (e := { e with journal := { e.journal with cursor := e.journal.cursor + 1 } })
        ⟨h.run, congrArg (· + 1) h.cursor, h.replies, h.currentAttempt, h.compensations, h.phase⟩ _
    · simp only [hd, he]
      exact { h with phase := .executing c hp }
  | getState key =>
    simp only [Journal.readState, h.run.state key]
    exact h.handed _
  | getAttempt =>
    simp only [h.currentAttempt]
    exact h.handed _
  | returns output => exact h.save (h.run.stamped .completed) (.done .completed)
  | throws thrown =>
    cases thrown with
    | suspension s =>
      simp only [h.run.status]
      exact { h with phase := .done _ }
    | error _ => exact h.finalizeFailure t
    | other _ => exact h.finalizeFailure t

theorem settle (h : SameDrive d e) (c : Command V) {p q : Pending V} (hp : SamePending p q) (t : Tick V) :
    SameDrive (d.settle c p t).1 (e.settle c q t).1 := by
  have hx : c.execute t.effect { seq := q.seq, now := q.startedAt } e.run =
      c.execute t.effect { seq := p.seq, now := p.startedAt } d.run := by
    rw [hp.seq, hp.startedAt, h.run.execute]
  unfold Drive.settle
  rw [hx]
  cases ho : (c.execute t.effect { seq := p.seq, now := p.startedAt } d.run).outcome with
  | error thrown =>
    simp only [ho]
    exact h.handed _
  | ok outcome =>
    simp only [ho]
    have hs := h.run.settle hp d.journal.cursor t.now outcome
    obtain ⟨hview, hcursor, hreply⟩ := hs
    rw [show (e.journal.settle q t.now outcome).2 = (d.journal.settle p t.now outcome).2 from hreply]
    exact h.recorded hview hcursor _ _

/-- Drives that go on alike still do after a step. -/
theorem next (h : SameDrive d e) (fn : WorkflowFunction V) (t : Tick V) : SameDrive (d.next fn t) (e.next fn t) := by
  have hp := h.phase
  unfold Drive.next Drive.step
  cases hd : d.phase <;> rw [hd] at hp <;> cases he : e.phase <;> rw [he] at hp <;> cases hp
  case entry => exact h.enter t
  case running => exact h.act fn t
  case executing c p q hp => exact h.settle c hp t
  case rollingBack ts us hts =>
    cases ts with
    | nil =>
      rw [map_nil, map_eq_nil_iff] at hts
      rw [hts]
      exact h.save (h.run.stamped .compensated) (.done .compensated)
    | cons t' ts =>
      cases us with
      | nil => cases hts
      | cons u us =>
        rw [map_cons, map_cons, List.cons.injEq] at hts
        exact h.save h.run.history (.invoking hts.1 hts.2)
  case invoking t' ts u us ht hts =>
    simp only [Drive.invoke, view_seq ht, h.compensations]
    exact h.save (h.run.markCompensated t'.seq).history (.rollingBack hts)
  case done status => exact h

/-- Drives of snapshots that agree on what is read go alike. -/
theorem exec (h : SameView a b) (fn : WorkflowFunction V) (ts : List (Tick V)) : SameDrive (Drive.exec fn a ts) (Drive.exec fn b ts) := by
  induction ts using List.reverseRecOn with
  | nil => exact start h
  | append_singleton ts t ih =>
    unfold Drive.exec at ih ⊢
    rw [run_concat, run_concat]
    exact ih.next fn t

end SameDrive

/-! ## Behaviour -/

/-- What is seen of a drive: the next action of its function, what the function has been handed, and
the status of the run. -/
def Drive.behaviour (fn : WorkflowFunction V) (d : Drive V) : Action V × List (Reply V) × RunStatus :=
  (fn d.run.input d.replies, d.replies, d.run.status)

/-- No function and no outside tells two snapshots apart by driving them. -/
def SameBehaviour (a b : WorkflowRun V) : Prop :=
  ∀ (fn : WorkflowFunction V) (ts : List (Tick V)), (Drive.exec fn b ts).behaviour fn = (Drive.exec fn a ts).behaviour fn

theorem sameBehaviour_of_sameView {a b : WorkflowRun V} (h : SameView a b) : SameBehaviour a b := by
  intro fn ts
  have hd := SameDrive.exec h fn ts
  unfold Drive.behaviour
  rw [hd.run.input, hd.replies, hd.run.status]

/-- What is left of a record without the values in it. -/
def CommandRecord.shape (r : CommandRecord V) : CommandRecord V := { r with metadata := none, result := none }

/-- Two snapshots that differ in values only. -/
structure SameShape (a b : WorkflowRun V) : Prop where
  runId : b.runId = a.runId
  status : b.status = a.status
  nextSeq : b.nextSeq = a.nextSeq
  commands : b.commands.map CommandRecord.shape = a.commands.map CommandRecord.shape

/-- The first `n` records are there and have settled. -/
def SettledBefore (records : List (CommandRecord V)) (n : Nat) : Prop :=
  ∀ i < n, ∃ r : CommandRecord V, records[i]? = some r ∧ r.status ≠ .waiting

/-- The function that issues one command over and over. -/
def repeating (c : Command V) : WorkflowFunction V := fun _ _ => .command c

section

variable {a b : WorkflowRun V}

omit [JsValue V] in
theorem SameShape.symm (hs : SameShape a b) : SameShape b a :=
  ⟨hs.runId.symm, hs.status.symm, hs.nextSeq.symm, hs.commands.symm⟩

variable {r : CommandRecord V}

omit [JsValue V] in
theorem SameShape.record (hs : SameShape a b) {i : Nat} (hr : a.commands[i]? = some r) :
    ∃ r', b.commands[i]? = some r' ∧ r'.shape = r.shape := by
  have := congrArg (·[i]?) hs.commands
  simp only [getElem?_map, hr, Option.map_some] at this
  exact Option.map_eq_some_iff.1 this

theorem replays_repeating {run : WorkflowRun V} (c : Command V) : ∀ {n : Nat}, SettledBefore run.commands n →
      ∃ replies, replies.length = n ∧ Replays (repeating c) run replies n
  | 0, _ => ⟨[], rfl, .start⟩
  | n + 1, h => by
    obtain ⟨replies, hlen, hr⟩ := replays_repeating c fun i hi => h i (Nat.lt_succ_of_lt hi)
    obtain ⟨r, hfound, hsettled⟩ := h n (Nat.lt_succ_self n)
    exact ⟨_, by rw [length_append, hlen]; rfl, .command hr rfl hfound hsettled⟩

omit [JsValue V] in
theorem exists_frontier : ∀ records : List (CommandRecord V),
    ∃ n, SettledBefore records n ∧ ∀ r : CommandRecord V, records[n]? = some r → r.status = .waiting
  | [] => ⟨0, fun _ hi => absurd hi (Nat.not_lt_zero _), fun r hr => by cases hr⟩
  | r :: records => by
    by_cases hw : r.status = .waiting
    · refine ⟨0, fun _ hi => absurd hi (Nat.not_lt_zero _), fun r' hr => ?_⟩
      cases hr
      exact hw
    · obtain ⟨n, hsettled, hfront⟩ := exists_frontier records
      refine ⟨n + 1, fun i hi => ?_, hfront⟩
      cases i with
      | zero => exact ⟨r, rfl, hw⟩
      | succ i => exact hsettled i (Nat.lt_of_succ_lt_succ hi)

theorem input_of_sameBehaviour (h : SameBehaviour a b) : b.input = a.input := by
  have := congrArg Prod.fst (h (fun input _ => .returns input) [])
  exact Action.returns.inj this

theorem state_of_sameBehaviour (h : SameBehaviour a b) (key : String) : readKey b.state key = readKey a.state key := by
  have hread : ∀ run : WorkflowRun V, (Drive.exec (fun _ _ => .getState key) run [tick undefined, tick undefined]).replies =
      [.state (readKey run.state key)] :=
    fun run => congrArg Drive.replies (exec_replays (.getState .start rfl) (tick undefined) rfl)
  have := congrArg (·.2.1) (h (fun _ _ => .getState key) [tick undefined, tick undefined])
  simp only [Drive.behaviour, hread, List.cons.injEq, Reply.state.injEq, and_true] at this
  exact this

variable {r' : CommandRecord V}

theorem replayOutcome_of_sameBehaviour (h : SameBehaviour a b) (c : Command V) {i : Nat}
    (ha : SettledBefore a.commands i) (hb : SettledBefore b.commands i)
    (hr : a.commands[i]? = some r) (hr' : b.commands[i]? = some r') (hw : r.status ≠ .waiting)
    (hw' : r'.status ≠ .waiting) :
    replayOutcome b.runId i c.kind r' = replayOutcome a.runId i c.kind r := by
  obtain ⟨replies, hlen, hreplays⟩ := replays_repeating c ha
  obtain ⟨replies', hlen', hreplays'⟩ := replays_repeating c hb
  have hlen₁ : ∀ reply, (List.replicate (i + 1) (tick (V := V) undefined)).length = (replies ++ [reply]).length := by
    intro reply
    rw [length_replicate, length_append, hlen]
    rfl
  have hlen₁' : ∀ reply, (List.replicate (i + 1) (tick (V := V) undefined)).length = (replies' ++ [reply]).length := by
    intro reply
    rw [length_replicate, length_append, hlen']
    rfl
  have hexec := exec_replays (.command hreplays rfl hr hw) (tick undefined) (hlen₁ _)
  have hexec' := exec_replays (.command hreplays' rfl hr' hw') (tick undefined) (hlen₁' _)
  have := congrArg (·.2.1) (h (repeating c) (tick undefined :: List.replicate (i + 1) (tick undefined)))
  simp only [Drive.behaviour, hexec, hexec', replaying] at this
  have hlast := (append_inj this (hlen'.trans hlen.symm)).2
  exact Reply.settled.inj (singleton_inj.1 hlast)

theorem awaits_after_replay {run : WorkflowRun V} {name : String} {replies : List (Reply V)} {n : Nat}
    (h : Replays (repeating (.waitFor name none)) run replies n)
    (hn : ∀ r, run.commands[n]? = some r → r.status = .waiting) (t : Tick V) {ts : List (Tick V)}
    (hts : ts.length = replies.length) :
    ∃ outcome, (Drive.exec (repeating (.waitFor name none)) run (t :: ts ++ [t, t])).replies = replies ++ [.settled outcome] ∧
      ∀ v, outcome = .ok v ↔ (findPending run.pendingSignals name).map (·.payload) = some v := by
  have hs := entered_sameJournal run t
  obtain ⟨pending, hissue⟩ : ∃ pending, (replaying run t replies n).journal.issue
      (Command.waitFor name none : Command V).spec t.now = .live pending := by
    unfold Journal.issue replaying
    simp only [hs.commands]
    split
    · rename_i r hr
      rw [if_neg (not_not.2 (hn r hr))]
      exact ⟨_, rfl⟩
    · exact ⟨_, rfl⟩
  have hnext : (replaying run t replies n).next (repeating (.waitFor name none)) t =
      { replaying run t replies n with phase := .executing (.waitFor name none) pending } := next_replaying rfl hissue
  have hexec : Drive.exec (repeating (.waitFor name none)) run (t :: ts ++ [t, t]) =
      (({ replaying run t replies n with phase := .executing (.waitFor name none) pending } : Drive V).settle
        (.waitFor name none) pending t).1 := by
    rw [exec_append, exec_replays h t hts]
    show Drive.next _ (Drive.next _ (replaying run t replies n) t) t = _
    rw [hnext]
    rfl
  rw [hexec, ← entered_pendingSignals run t]
  have hexecute : ∀ info, (Command.waitFor name none : Command V).execute t.effect info (entered run t) =
      executeWaitFor name none (entered run t) := fun _ => rfl
  unfold executeWaitFor at hexecute
  unfold Drive.settle
  rw [show ({ replaying run t replies n with phase := .executing (.waitFor name none) pending } : Drive V).run =
    entered run t from rfl, hexecute]
  cases findPending (entered run t).pendingSignals name with
  | none =>
    refine ⟨_, rfl, fun v => ?_⟩
    simp [Journal.settle]
  | some signal =>
    refine ⟨_, rfl, fun v => ?_⟩
    simp [completedWith, Journal.settle]

theorem payload_of_sameBehaviour (h : SameBehaviour a b) {n : Nat} (ha : SettledBefore a.commands n)
    (hb : SettledBefore b.commands n) (hfront : ∀ r, a.commands[n]? = some r → r.status = .waiting)
    (hfront' : ∀ r, b.commands[n]? = some r → r.status = .waiting) (name : String) :
    (findPending b.pendingSignals name).map (·.payload) = (findPending a.pendingSignals name).map (·.payload) := by
  obtain ⟨replies, hlen, hreplays⟩ := replays_repeating (.waitFor name none) ha
  obtain ⟨replies', hlen', hreplays'⟩ := replays_repeating (.waitFor name none) hb
  have hlen₁ : (List.replicate n (tick (V := V) undefined)).length = replies.length := by
    rw [length_replicate, hlen]
  have hlen₁' : (List.replicate n (tick (V := V) undefined)).length = replies'.length := by
    rw [length_replicate, hlen']
  obtain ⟨outcome, hout, hpayload⟩ := awaits_after_replay hreplays hfront (tick undefined) hlen₁
  obtain ⟨outcome', hout', hpayload'⟩ := awaits_after_replay hreplays' hfront' (tick undefined) hlen₁'
  have := congrArg (·.2.1) (h (repeating (.waitFor name none))
    (tick undefined :: List.replicate n (tick undefined) ++ [tick undefined, tick undefined]))
  simp only [Drive.behaviour, hout, hout'] at this
  have hlast := Reply.settled.inj (singleton_inj.1 (append_inj this (hlen'.trans hlen.symm)).2)
  refine Option.ext fun v => ?_
  rw [← hpayload v, ← hpayload' v, hlast]

omit [JsValue V] in
theorem result_of_replayOutcome {runId : String} {i : Nat} (hs : r'.shape = r.shape)
    (hr : r.status = .completed) (h : replayOutcome runId i r.kind r' = replayOutcome runId i r.kind r) :
    r'.result = r.result := by
  have hkind : r'.kind = r.kind := congrArg (·.kind) hs
  have hstatus : r'.status = .completed := (congrArg (·.status) hs).trans hr
  unfold replayOutcome at h
  cases hx : r.result <;> cases hy : r'.result <;> simp_all

omit [JsValue V] in
theorem view_of_shape (hs : r'.shape = r.shape) (h : r.status = .completed → r'.result = r.result) : r'.view = r.view := by
  have hstatus : r'.status = r.status := congrArg (·.status) hs
  have hview : ∀ x : CommandRecord V, x.view = { x.shape with result := if x.status = .completed then x.result else none } :=
    fun _ => rfl
  rw [hview, hview, hs, hstatus]
  split
  · rename_i hc
    rw [h hc]
  · rfl

theorem sameView_of_sameBehaviour (hj : Journaled a) (hs : SameShape a b) (h : SameBehaviour a b) : SameView a b := by
  have hsettled : ∀ {n : Nat}, SettledBefore a.commands n → SettledBefore b.commands n := by
    intro n ha i hi
    obtain ⟨r, hr, hw⟩ := ha i hi
    obtain ⟨r', hr', hsh⟩ := hs.record hr
    exact ⟨r', hr', fun hw' => hw ((congrArg (·.status) hsh).symm.trans hw')⟩
  refine ⟨hs.runId, input_of_sameBehaviour h, hs.status, hs.nextSeq, ?_, state_of_sameBehaviour h, fun name => ?_⟩
  · refine ext_getElem? fun i => ?_
    rw [getElem?_map, getElem?_map]
    cases hr : a.commands[i]? with
    | none =>
      have hlen := congrArg List.length hs.commands
      rw [length_map, length_map] at hlen
      rw [getElem?_eq_none_iff] at hr
      rw [getElem?_eq_none_iff.2 (hlen.trans_le hr)]
    | some r =>
      obtain ⟨r', hr', hsh⟩ := hs.record hr
      rw [hr', Option.map_some, Option.map_some]
      have hstatus : r'.status = r.status := congrArg (·.status) hsh
      refine congrArg some (view_of_shape hsh fun hc => ?_)
      -- the records before a completed one have settled: only the last one may wait
      have ha : SettledBefore a.commands i := by
        intro j hji
        have hlt : i < a.commands.length := (List.getElem?_eq_some_iff.1 hr).1
        refine ⟨_, getElem?_eq_getElem (by omega), fun hw => ?_⟩
        have := hj.settled j _ (getElem?_eq_getElem (by omega)) hw
        omega
      obtain ⟨c, hk⟩ := hj.issued r (mem_of_getElem? hr)
      have hw : r.status ≠ .waiting := by rw [hc]; nofun
      have := replayOutcome_of_sameBehaviour h c ha (hsettled ha) hr hr' hw (hstatus ▸ hw)
      rw [hs.runId, hk] at this
      exact result_of_replayOutcome hsh hc this
  · obtain ⟨n, ha, hfront⟩ := exists_frontier a.commands
    refine payload_of_sameBehaviour h ha (hsettled ha) hfront (fun r' hr' => ?_) name
    obtain ⟨r, hr, hsh⟩ := hs.symm.record hr'
    exact (congrArg (·.status) hsh).symm.trans (hfront r hr)

theorem sameBehaviour_iff (hj : Journaled a) (hs : SameShape a b) : SameBehaviour a b ↔ SameView a b :=
  ⟨sameView_of_sameBehaviour hj hs, sameBehaviour_of_sameView⟩

end

end StreetJS.Workflow
