/-
The records of a run's snapshots: where a command in flight stands, which record its settlement writes,
and what holds of the records and the state of every snapshot that the engine saves.
-/
import StreetJS.Workflow.Redrive

namespace StreetJS.Workflow

open StreetJS.Lib List

variable {V : Type} [JsValue V]

/-! ## Sequence numbers -/

section Sequenced

omit [JsValue V]

/-- The sequence number of a record is its position. -/
structure Sequenced (run : WorkflowRun V) : Prop where
  seqs : ∀ (i : Nat) r, run.commands[i]? = some r → r.seq = i
  nextSeq : run.nextSeq = run.commands.length

/-- A pending command stands at the journal's cursor, over no record or a waiting one. -/
structure PendingAt (j : Journal V) (p : Pending V) : Prop where
  index : p.index = j.cursor
  seq : p.seq = j.cursor
  recorded : p.recorded = j.current.commands[j.cursor]?
  unsettled : ∀ r, j.current.commands[j.cursor]? = some r → r.status = .waiting

theorem issue_live {j : Journal V} (h : Sequenced j.current) (hc : j.cursor ≤ j.current.commands.length)
    {spec : JournalCommandSpec V} {now : Int} {p : Pending V} (hi : j.issue spec now = .live p) : PendingAt j p := by
  unfold Journal.issue at hi
  cases hg : j.current.commands[j.cursor]? with
  | none =>
    rw [hg] at hi
    cases hi
    have hlen := getElem?_eq_none_iff.1 hg
    refine ⟨rfl, ?_, hg.symm, fun r hr => by rw [hg] at hr; cases hr⟩
    show j.current.nextSeq = j.cursor
    rw [h.nextSeq]
    omega
  | some recorded =>
    rw [hg] at hi
    simp only at hi
    split at hi
    · cases hi
    · rename_i hw
      cases hi
      refine ⟨rfl, h.seqs _ _ hg, hg.symm, fun r hr => ?_⟩
      rw [hg] at hr
      cases hr
      exact not_not.1 hw

theorem settle_getElem? {j : Journal V} {p : Pending V} (hp : PendingAt j p) (hc : j.cursor ≤ j.current.commands.length)
    (now : Int) (outcome : CommandOutcome V) (i : Nat) :
    (j.settle p now outcome).1.current.commands[i]? = if i = j.cursor then some (buildRecord p.spec p.seq p.startedAt now outcome p.recorded)
      else j.current.commands[i]? := by
  have hcommands : (j.settle p now outcome).1.current.commands = if p.recorded.isSome then j.current.commands.set p.index
        (buildRecord p.spec p.seq p.startedAt now outcome p.recorded)
      else j.current.commands ++ [buildRecord p.spec p.seq p.startedAt now outcome p.recorded] := by
    unfold Journal.settle
    cases outcome.settlement <;> rfl
  rw [hcommands, hp.index, hp.recorded]
  cases hg : j.current.commands[j.cursor]? with
  | none =>
    have hlen : j.cursor = j.current.commands.length := le_antisymm hc (getElem?_eq_none_iff.1 hg)
    rw [if_neg (by simp)]
    by_cases hi : i = j.cursor
    · rw [if_pos hi, hi, hlen]
      simp
    · rw [if_neg hi]
      rcases Nat.lt_or_ge i j.current.commands.length with hlt | hge
      · rw [getElem?_append_left hlt]
      · rw [getElem?_eq_none_iff.2 (by rw [length_append, length_singleton]; omega), getElem?_eq_none_iff.2 hge]
  | some recorded =>
    have hlt := (of_getElem?_eq_some hg)
    simp only [Option.isSome_some, if_true]
    rw [getElem?_set]
    by_cases hi : i = j.cursor
    · rw [if_pos hi, if_pos hi.symm, if_pos hlt]
    · rw [if_neg hi, if_neg (Ne.symm hi)]

theorem settle_sequenced {j : Journal V} {p : Pending V} (h : Sequenced j.current) (hp : PendingAt j p)
    (hc : j.cursor ≤ j.current.commands.length) (now : Int) (outcome : CommandOutcome V) :
    Sequenced (j.settle p now outcome).1.current := by
  constructor
  · intro i r hr
    rw [settle_getElem? hp hc] at hr
    by_cases hi : i = j.cursor
    · rw [if_pos hi] at hr
      cases hr
      rw [hi, ← hp.seq]
      unfold buildRecord
      cases outcome.settlement <;> rfl
    · rw [if_neg hi] at hr
      exact h.seqs i r hr
  · have hlength : (j.settle p now outcome).1.current.commands.length =
        if p.recorded.isSome then j.current.commands.length else j.current.commands.length + 1 := by
      unfold Journal.settle
      cases outcome.settlement <;> simp only <;> split <;> simp
    have hnext : (j.settle p now outcome).1.current.nextSeq = if p.recorded.isSome then j.current.nextSeq else j.current.nextSeq + 1 := by
      unfold Journal.settle
      cases outcome.settlement <;> rfl
    rw [hlength, hnext, h.nextSeq]

theorem sequenced_of_sameJournal {a b : WorkflowRun V} (h : Sequenced a) (hs : SameJournal a b) : Sequenced b :=
  ⟨by rw [hs.commands]; exact h.seqs, by rw [hs.nextSeq, hs.commands]; exact h.nextSeq⟩

end Sequenced

/-! ## Journaled snapshots -/

/-- A snapshot whose records the journal has made: each under its position, of the kind of a command
that `ctx` has, and none but the last one waiting; a key is in the state at most once. -/
structure Journaled (run : WorkflowRun V) : Prop extends Sequenced run where
  issued : ∀ r ∈ run.commands, ∃ c : Command V, c.kind = r.kind
  settled : ∀ (i : Nat) r, run.commands[i]? = some r → r.status = .waiting → i + 1 = run.commands.length
  keys : (run.state.map Prod.fst).Nodup

/-- A drive over a journaled snapshot, which has passed settled records only. -/
structure JournaledDrive (d : Drive V) : Prop where
  run : Journaled d.run
  cursor : d.journal.cursor ≤ d.run.commands.length
  passed : ∀ i < d.journal.cursor, ∀ r, d.run.commands[i]? = some r → r.status ≠ .waiting
  pending : ∀ c p, d.phase = .executing c p → PendingAt d.journal p ∧ p.spec.kind = c.kind

/-- What the journal goes by in a record. -/
def CommandRecord.place (r : CommandRecord V) : Nat × CommandKind × CommandStatus := (r.seq, r.kind, r.status)

/-- Two snapshots with records of the same places and with the same state keys. -/
structure SamePlaces (a b : WorkflowRun V) : Prop where
  places : b.commands.map CommandRecord.place = a.commands.map CommandRecord.place
  nextSeq : b.nextSeq = a.nextSeq
  keys : (a.state.map Prod.fst).Nodup → (b.state.map Prod.fst).Nodup

section Places

omit [JsValue V]

variable {a b : WorkflowRun V}

theorem SamePlaces.refl (a : WorkflowRun V) : SamePlaces a a := ⟨rfl, rfl, id⟩

theorem SamePlaces.length (h : SamePlaces a b) : b.commands.length = a.commands.length := by
  have := congrArg List.length h.places
  rwa [length_map, length_map] at this

theorem SamePlaces.record (h : SamePlaces a b) {i : Nat} {r : CommandRecord V} (hr : b.commands[i]? = some r) :
    ∃ r', a.commands[i]? = some r' ∧ r'.place = r.place := by
  have := congrArg (·[i]?) h.places
  simp only [getElem?_map, hr, Option.map_some] at this
  exact Option.map_eq_some_iff.1 this.symm

theorem Journaled.congr (hj : Journaled a) (h : SamePlaces a b) : Journaled b := by
  refine ⟨⟨?_, ?_⟩, ?_, ?_, h.keys hj.keys⟩
  · intro i r hr
    obtain ⟨r', hr', hp⟩ := h.record hr
    rw [← hj.seqs i r' hr']
    exact (congrArg (·.1) hp).symm
  · rw [h.nextSeq, hj.nextSeq, h.length]
  · intro r hr
    obtain ⟨i, hi⟩ := mem_iff_getElem?.1 hr
    obtain ⟨r', hr', hp⟩ := h.record hi
    rw [← show r'.kind = r.kind from congrArg (·.2.1) hp]
    exact hj.issued r' (mem_of_getElem? hr')
  · intro i r hr hw
    obtain ⟨r', hr', hp⟩ := h.record hr
    rw [h.length]
    exact hj.settled i r' hr' ((congrArg (·.2.2) hp).trans hw)

theorem Journaled.of_sameJournal (hj : Journaled a) (h : SameJournal a b) : Journaled b :=
  hj.congr ⟨by rw [h.commands], h.nextSeq, by rw [h.state]; exact id⟩

theorem commit_samePlaces (j : Journal V) (patch : RunPatch V) (now : Int) :
    SamePlaces j.current (j.commit patch now).current := ⟨rfl, rfl, id⟩

theorem transition_samePlaces (run : WorkflowRun V) (to_ : RunStatus) (now : Int) : SamePlaces run (transition run to_ now) := ⟨rfl, rfl, id⟩

theorem appendHistory_samePlaces (h : SamePlaces a b) (event : HistoryEvent V) (later : Int) :
    SamePlaces a (appendHistory b event later) := { h with }

theorem markCompensated_samePlaces (run : WorkflowRun V) (seq : Nat) : SamePlaces run (markCompensated run seq) := by
  refine ⟨?_, rfl, id⟩
  unfold markCompensated
  rw [map_map]
  refine map_congr_left fun c _ => ?_
  simp only [Function.comp]
  split <;> rfl

theorem issue_live_kind {j : Journal V} {spec : JournalCommandSpec V} {now : Int} {p : Pending V}
    (hi : j.issue spec now = .live p) : p.spec.kind = spec.kind := by
  unfold Journal.issue at hi
  split at hi
  · split at hi
    · cases hi
    · cases hi
      rfl
  · cases hi
    rfl

theorem settle_cursor (j : Journal V) (p : Pending V) (now : Int) (outcome : CommandOutcome V) :
    (j.settle p now outcome).1.cursor = if outcome.settlement.status = .waiting then p.index else p.index + 1 := by
  unfold Journal.settle
  cases outcome.settlement <;> rfl

theorem buildRecord_place (spec : JournalCommandSpec V) (seq : Nat) (startedAt settledAt : Int)
    (outcome : CommandOutcome V) (previous : Option (CommandRecord V)) :
    (buildRecord spec seq startedAt settledAt outcome previous).place = (seq, spec.kind, outcome.settlement.status) := by
  unfold buildRecord
  cases outcome.settlement <;> rfl

theorem mergeState_keys {state : OrderedMap String V} (h : (state.map Prod.fst).Nodup) (patch : List (String × V)) :
    ((mergeState state patch).map Prod.fst).Nodup := by
  induction patch generalizing state with
  | nil => exact h
  | cons p patch ih => exact ih (OrderedMap.keys_set_nodup h p.1 p.2)

theorem settle_journaled {j : Journal V} {p : Pending V} (h : Journaled j.current) (hp : PendingAt j p)
    (hc : j.cursor ≤ j.current.commands.length)
    (hpassed : ∀ i < j.cursor, ∀ r, j.current.commands[i]? = some r → r.status ≠ .waiting)
    (hk : ∃ c : Command V, c.kind = p.spec.kind) (now : Int) (outcome : CommandOutcome V) :
    Journaled (j.settle p now outcome).1.current := by
  have hseq := settle_sequenced h.toSequenced hp hc now outcome
  have hget := settle_getElem? hp hc now outcome
  have hplace := buildRecord_place p.spec p.seq p.startedAt now outcome p.recorded
  refine ⟨hseq, ?_, ?_, ?_⟩
  · intro r hr
    obtain ⟨i, hi⟩ := mem_iff_getElem?.1 hr
    rw [hget] at hi
    split at hi
    · cases hi
      obtain ⟨c, hc⟩ := hk
      exact ⟨c, hc.trans (congrArg (·.2.1) hplace).symm⟩
    · exact h.issued r (mem_of_getElem? hi)
  · -- a record that waits at the cursor is the last one, and the one before it has settled
    intro i r hr hw
    have hlength : ∀ k, (j.settle p now outcome).1.current.commands.length ≤ k ↔ k ≠ j.cursor ∧ j.current.commands.length ≤ k := by
      intro k
      rw [← getElem?_eq_none_iff, hget, ← getElem?_eq_none_iff]
      split <;> simp_all
    have hlast : i + 1 = j.cursor + 1 ∧ j.current.commands.length ≤ j.cursor + 1 := by
      rw [hget] at hr
      split at hr
      · rename_i hi
        refine ⟨by rw [hi], ?_⟩
        cases hat : j.current.commands[j.cursor]? with
        | none => exact Nat.le_succ_of_le (getElem?_eq_none_iff.1 hat)
        | some r' => exact le_of_eq (h.settled _ r' hat (hp.unsettled r' hat)).symm
      · rename_i hi
        have hlt := (of_getElem?_eq_some hr)
        have hge : ¬ i < j.cursor := fun hlt => hpassed i hlt r hr hw
        have hat := getElem?_eq_getElem (l := j.current.commands) (i := j.cursor) (by omega)
        have := h.settled _ _ hat (hp.unsettled _ hat)
        omega
    have h1 := hlength (j.cursor + 1)
    have h2 := hlength j.cursor
    omega
  · have hstate : (j.settle p now outcome).1.current.state = mergeState j.current.state outcome.statePatch := by
      unfold Journal.settle
      cases outcome.settlement <;> rfl
    rw [hstate]
    exact mergeState_keys h.keys _

end Places

/-! ## Drives -/

namespace JournaledDrive

variable {d : Drive V}

omit [JsValue V] in
theorem start {run : WorkflowRun V} (h : Journaled run) : JournaledDrive (Drive.start run) :=
  ⟨h, Nat.zero_le _, fun _ hi => absurd hi (Nat.not_lt_zero _), fun _ _ hp => by cases hp⟩

omit [JsValue V] in
theorem save (h : JournaledDrive d) {run : WorkflowRun V} (hr : SamePlaces d.run run) {phase : Phase V}
    (hp : ∀ c p, phase ≠ .executing c p) : JournaledDrive (d.save run phase).1 := by
  refine ⟨h.run.congr hr, ?_, ?_, fun c p hc => absurd hc (hp c p)⟩
  · show d.journal.cursor ≤ run.commands.length
    rw [hr.length]
    exact h.cursor
  · intro i hi r hr'
    obtain ⟨r', hr', hplace⟩ := hr.record hr'
    rw [← show r'.status = r.status from congrArg (·.2.2) hplace]
    exact h.passed i hi r' hr'

omit [JsValue V] in
theorem handed (h : JournaledDrive d) (reply : Reply V) : JournaledDrive (d.handed reply) :=
  ⟨h.run, h.cursor, h.passed, fun _ _ hp => by cases hp⟩

theorem finalizeFailure (h : JournaledDrive d) (t : Tick V) : JournaledDrive (d.finalizeFailure t).1 := by
  unfold Drive.finalizeFailure
  split
  · exact h.save (commit_samePlaces _ _ _) (by rintro _ _ ⟨⟩)
  · exact h.save (transition_samePlaces _ _ _) (by rintro _ _ ⟨⟩)

theorem act (h : JournaledDrive d) (fn : WorkflowFunction V) (t : Tick V) (hd : d.phase = .running) : JournaledDrive (d.act fn t).1 := by
  unfold Drive.act
  cases fn d.run.input d.replies with
  | getState key => exact h.handed _
  | getAttempt => exact h.handed _
  | returns output => exact h.save (commit_samePlaces _ _ _) (by rintro _ _ ⟨⟩)
  | command c =>
    simp only
    split
    · rename_i hi
      obtain ⟨rfl, r, hr, hs, -⟩ := issue_replayed hi
      have hlt : d.journal.cursor < d.run.commands.length := (List.getElem?_eq_some_iff.1 hr).1
      refine handed (d := { d with journal := { d.journal with cursor := d.journal.cursor + 1 } }) ⟨h.run, hlt, ?_, fun c p hp => ?_⟩ _
      · intro i hi r' hr'
        rcases Nat.lt_succ_iff_lt_or_eq.1 hi with hi | rfl
        · exact h.passed i hi r' hr'
        · cases hr.symm.trans hr'
          exact hs
      · rw [hd] at hp
        cases hp
    · rename_i hi
      refine ⟨h.run, h.cursor, h.passed, fun c' p hp => ?_⟩
      cases hp
      exact ⟨issue_live h.run.toSequenced h.cursor hi, issue_live_kind hi⟩
  | throws thrown =>
    cases thrown with
    | suspension s => exact ⟨h.run, h.cursor, h.passed, fun _ _ hp => by cases hp⟩
    | error _ => exact h.finalizeFailure t
    | other _ => exact h.finalizeFailure t

theorem settle (h : JournaledDrive d) {c : Command V} {p : Pending V} (hd : d.phase = .executing c p) (t : Tick V) :
    JournaledDrive (d.settle c p t).1 := by
  obtain ⟨hp, hk⟩ := h.pending c p hd
  unfold Drive.settle
  cases ho : (c.execute t.effect { seq := p.seq, now := p.startedAt } d.run).outcome with
  | error thrown =>
    simp only [ho]
    exact h.handed _
  | ok outcome =>
    simp only [ho]
    have hsaved := settle_journaled h.run hp h.cursor h.passed ⟨c, hk.symm⟩ t.now outcome
    have hget := settle_getElem? hp h.cursor t.now outcome
    have hcursor := settle_cursor d.journal p t.now outcome
    have hat := hget d.journal.cursor
    rw [if_pos rfl] at hat
    have hlt : d.journal.cursor < (d.journal.settle p t.now outcome).1.current.commands.length :=
      (List.getElem?_eq_some_iff.1 hat).1
    rw [hp.index] at hcursor
    refine ⟨hsaved, ?_, ?_, fun c' p' hp' => by cases hp'⟩
    · show (d.journal.settle p t.now outcome).1.cursor ≤ (d.journal.settle p t.now outcome).1.current.commands.length
      rw [hcursor]
      split <;> omega
    · intro i hi r hr
      replace hi : i < (d.journal.settle p t.now outcome).1.cursor := hi
      replace hr : (d.journal.settle p t.now outcome).1.current.commands[i]? = some r := hr
      rw [hcursor] at hi
      rw [hget] at hr
      split at hr
      · rename_i hic
        cases hr
        rw [buildRecord_status]
        split at hi
        · omega
        · assumption
      · rename_i hic
        refine h.passed i ?_ r hr
        split at hi <;> omega

theorem next (h : JournaledDrive d) (fn : WorkflowFunction V) (t : Tick V) : JournaledDrive (d.next fn t) := by
  unfold Drive.next Drive.step
  cases hd : d.phase with
  | entry =>
    simp only [Drive.enter]
    split
    · exact h.save (commit_samePlaces _ _ _) (by rintro _ _ ⟨⟩)
    · exact ⟨h.run, h.cursor, h.passed, fun _ _ hp => by cases hp⟩
  | running => exact h.act fn t hd
  | executing c p => exact h.settle hd t
  | rollingBack targets =>
    cases targets with
    | nil => exact h.save (transition_samePlaces _ _ _) (by rintro _ _ ⟨⟩)
    | cons target targets => exact h.save (appendHistory_samePlaces (SamePlaces.refl _) _ _) (by rintro _ _ ⟨⟩)
  | invoking target targets =>
    exact h.save (appendHistory_samePlaces (markCompensated_samePlaces d.run target.seq) _ _) (by rintro _ _ ⟨⟩)
  | done status => exact h

theorem exec {run : WorkflowRun V} (h : Journaled run) (fn : WorkflowFunction V) (ts : List (Tick V)) :
    JournaledDrive (Drive.exec fn run ts) :=
  run_invariant (Drive.next fn) (fun _ t hd => hd.next fn t) ts (start h)

end JournaledDrive

end StreetJS.Workflow
