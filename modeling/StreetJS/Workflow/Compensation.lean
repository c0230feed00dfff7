/-
What one drive of a failing workflow rolls back (`Compensator.compensate` over the compensations that
the drive has captured). The rollbacks it invokes are those of the compensable activities that have
completed in this very drive, ordered by the instants and the sequence numbers of their records.
-/
import StreetJS.Workflow.Records

namespace StreetJS.Workflow

open StreetJS.Lib List

variable {V : Type} [JsValue V]

/-! ## Completions -/

/-- A compensable activity that has completed: the rollback its call declared with its recorded
output, and the instant of its record. -/
structure Completion (V : Type) where
  compensation : CapturedCompensation V
  completedAt : Int

abbrev Completion.seq (c : Completion V) : Nat := c.compensation.seq

/-- The compensable activity whose completion a step records. -/
def Drive.completes (d : Drive V) (t : Tick V) : Option (Completion V) :=
  match d.phase with
  | .executing (.activity options) pending =>
    match options.compensate, (ActivityExecutor.run pending.seq options (t.effect.attempts 0)).result with
    | some rollback, .ok output =>
      some { compensation := { seq := pending.seq, rollback, output }, completedAt := t.now }
    | _, _ => none
  | _ => none

/-- The compensable activities that complete in a drive. -/
def Drive.completions (fn : WorkflowFunction V) (run : WorkflowRun V) (ts : List (Tick V)) : List (Completion V) :=
  observe (Drive.next fn) Drive.completes (Drive.start run) ts

/-- The rollbacks a drive invokes. -/
def Drive.invoked (fn : WorkflowFunction V) (run : WorkflowRun V) (ts : List (Tick V)) : List (CapturedCompensation V) :=
  observe (Drive.next fn) (fun d _ => d.invokes) (Drive.start run) ts

/-! ## The order of rollbacks -/

section Order

omit [JsValue V]

def Completion.before (a b : Completion V) : Prop :=
  b.completedAt < a.completedAt ∨ b.completedAt = a.completedAt ∧ b.seq ≤ a.seq

instance (a b : Completion V) : Decidable (a.before b) :=
  inferInstanceAs (Decidable (b.completedAt < a.completedAt ∨ b.completedAt = a.completedAt ∧ b.seq ≤ a.seq))

/-- The order in which completions are rolled back: the latest first, by instant and sequence number. -/
def rollbackOrder (cs : List (Completion V)) : List (Completion V) := cs.insertionSort Completion.before

instance : Std.Total (Completion.before (V := V)) := ⟨fun a b => by unfold Completion.before; omega⟩

instance : IsTrans (Completion V) Completion.before := ⟨fun a b c => by unfold Completion.before; omega⟩

theorem mem_rollbackOrder {cs : List (Completion V)} {c : Completion V} : c ∈ rollbackOrder cs ↔ c ∈ cs :=
  mem_insertionSort _

/-- The sequence numbers of a list of completions increase. -/
abbrev Increasing (cs : List (Completion V)) : Prop := (cs.map (·.seq)).Pairwise (· < ·)

theorem Increasing.seq_inj {cs : List (Completion V)} (h : Increasing cs) {a b : Completion V} (ha : a ∈ cs)
    (hb : b ∈ cs) (he : a.seq = b.seq) : a = b :=
  inj_on_of_nodup_map (h.imp fun hlt => Nat.ne_of_lt hlt) ha hb he

/-- Completions are rolled back in the reverse of the order they completed in exactly when their
instants do not decrease. -/
theorem rollbackOrder_eq_reverse_iff {cs : List (Completion V)} (h : Increasing cs) :
    rollbackOrder cs = cs.reverse ↔ cs.Pairwise fun a b => a.completedAt ≤ b.completedAt := by
  constructor
  · intro heq
    have hsorted : cs.reverse.Pairwise Completion.before := by
      rw [← heq]
      exact pairwise_insertionSort _ _
    rw [pairwise_reverse] at hsorted
    refine hsorted.imp fun hab => ?_
    unfold Completion.before at hab
    omega
  · intro hle
    have hsorted : cs.reverse.Pairwise Completion.before := by
      rw [pairwise_reverse]
      refine (hle.and (pairwise_map.1 h)).imp fun hab => ?_
      unfold Completion.before
      omega
    refine List.Perm.eq_of_pairwise (fun a b ha hb (hab : Completion.before a b) (hba : Completion.before b a) => ?_)
      (pairwise_insertionSort _ _) hsorted ((perm_insertionSort _ _).trans (reverse_perm cs).symm)
    refine h.seq_inj (mem_rollbackOrder.1 ha) (mem_reverse.1 hb) ?_
    unfold Completion.before at hab hba
    omega

end Order

/-! ## Registered compensations -/

/-- The compensations a drive has captured belong to the completions `cs`, whose records its journal
has passed. -/
structure Registered (cs : List (Completion V)) (d : Drive V) : Prop where
  sequenced : Sequenced d.run
  cursor : d.journal.cursor ≤ d.run.commands.length
  captured : d.compensations = cs.map (·.compensation)
  increasing : Increasing cs
  recorded : ∀ c ∈ cs, c.seq < d.journal.cursor ∧ ∃ r, d.run.commands[c.seq]? = some r ∧ r.status = .completed ∧
    r.compensated = false ∧ r.completedAt = some c.completedAt

section Targets

variable {cs : List (Completion V)} {d : Drive V}

omit [JsValue V] in
theorem registration_of_mem (h : Increasing cs) {c : Completion V} (hc : c ∈ cs) :
    registration (cs.map (·.compensation)) c.seq = some c.compensation := by
  unfold registration
  cases hf : (cs.map (·.compensation)).find? fun x => x.seq = c.seq with
  | none =>
    have := find?_eq_none.1 hf c.compensation (mem_map_of_mem hc)
    simp at this
  | some x =>
    obtain ⟨c', hc', rfl⟩ := mem_map.1 (mem_of_find?_eq_some hf)
    have hseq : c'.seq = c.seq := by simpa using find?_some hf
    rw [h.seq_inj hc' hc hseq]

omit [JsValue V] in
theorem registration_isSome {seq : Nat} (h : (registration (cs.map (·.compensation)) seq).isSome) : ∃ c ∈ cs, c.seq = seq := by
  obtain ⟨x, hx⟩ := Option.isSome_iff_exists.1 h
  obtain ⟨c, hc, rfl⟩ := mem_map.1 (mem_of_find?_eq_some hx)
  exact ⟨c, hc, by simpa using find?_some hx⟩

/-- What the order of rollbacks looks at. -/
abbrev RollbackKey := Int × Nat

omit [JsValue V] in
def CommandRecord.rollbackKey (c : CommandRecord V) : RollbackKey := (c.completionTime, c.seq)

omit [JsValue V] in
def Completion.rollbackKey (c : Completion V) : RollbackKey := (c.completedAt, c.seq)

omit [JsValue V] in
/-- The records that can be rolled back are those of the completions. -/
theorem compensable_keys (h : Registered cs d) : (d.run.commands.filter fun c => c.status = .completed ∧ c.compensated = false ∧
      (registration d.compensations c.seq).isSome).map (·.rollbackKey) = cs.map (·.rollbackKey) := by
  have hpairs : d.run.commands.Pairwise fun a b => a.seq < b.seq := by
    rw [pairwise_iff_getElem]
    intro i j hi hj hij
    rw [h.sequenced.seqs i _ (getElem?_eq_getElem hi), h.sequenced.seqs j _ (getElem?_eq_getElem hj)]
    exact hij
  refine List.Pairwise.eq_of_mem_iff (r := fun a b : RollbackKey => a.2 < b.2) ?_ ?_ ?_
  · rw [pairwise_map]
    exact hpairs.filter _
  · rw [pairwise_map]
    exact pairwise_map.1 h.increasing
  · intro key
    rw [mem_map, mem_map]
    constructor
    · rintro ⟨r, hr, rfl⟩
      obtain ⟨hmem, hr⟩ := mem_filter.1 hr
      obtain ⟨-, -, hreg⟩ := of_decide_eq_true hr
      rw [h.captured] at hreg
      obtain ⟨c, hc, hseq⟩ := registration_isSome hreg
      obtain ⟨-, r', hr', -, -, hat⟩ := h.recorded c hc
      obtain ⟨i, hi⟩ := mem_iff_getElem?.1 hmem
      -- the record of `c` is the one at its position
      have hri := h.sequenced.seqs i r hi
      rw [hseq, hri, hi] at hr'
      cases hr'
      refine ⟨c, hc, ?_⟩
      unfold Completion.rollbackKey CommandRecord.rollbackKey CommandRecord.completionTime
      rw [hat, hseq]
      rfl
    · rintro ⟨c, hc, rfl⟩
      obtain ⟨-, r, hr, hst, hco, hat⟩ := h.recorded c hc
      have hseq := h.sequenced.seqs c.seq r hr
      refine ⟨r, mem_filter.2 ⟨mem_of_getElem? hr, decide_eq_true ⟨hst, hco, ?_⟩⟩, ?_⟩
      · rw [h.captured, hseq, registration_of_mem h.increasing hc]
        rfl
      · unfold Completion.rollbackKey CommandRecord.rollbackKey CommandRecord.completionTime
        rw [hat, hseq]
        rfl

omit [JsValue V] in
theorem targets_keys (h : Registered cs d) :
    (compensationTargets d.run d.compensations).map (·.rollbackKey) = (rollbackOrder cs).map (·.rollbackKey) := by
  have hsorted : (rollbackOrder cs).map (·.rollbackKey) = (cs.map (·.rollbackKey)).insertionSort
      fun a b : RollbackKey => b.1 < a.1 ∨ b.1 = a.1 ∧ b.2 ≤ a.2 :=
    map_insertionSort _ _ _ _ fun a _ b _ => Iff.rfl
  rw [hsorted, ← compensable_keys h]
  exact map_insertionSort _ _ _ _ fun a _ b _ => by
    unfold rollsBackBefore
    rw [decide_eq_true_eq]
    rfl

omit [JsValue V] in
theorem targets_eq_nil_iff (h : Registered cs d) : compensationTargets d.run d.compensations = [] ↔ cs = [] := by
  have hlen := congrArg List.length (targets_keys h)
  rw [length_map, length_map, show (rollbackOrder cs).length = cs.length from length_insertionSort _ _] at hlen
  rw [← length_eq_zero_iff, hlen, length_eq_zero_iff]

omit [JsValue V] in
theorem targets_rollbacks (h : Registered cs d) :
    (compensationTargets d.run d.compensations).filterMap (fun r => registration d.compensations r.seq) =
      (rollbackOrder cs).map (·.compensation) := by
  have hseqs : (compensationTargets d.run d.compensations).map (·.seq) = (rollbackOrder cs).map (·.seq) := by
    have := congrArg (List.map Prod.snd) (targets_keys h)
    rwa [map_map, map_map] at this
  have hlookup : ∀ l : List (Completion V), (∀ c ∈ l, c ∈ cs) →
      (l.map (·.seq)).filterMap (registration d.compensations) = l.map (·.compensation) := by
    intro l hl
    rw [h.captured]
    induction l with
    | nil => rfl
    | cons c l ih =>
      rw [map_cons, filterMap_cons_some (registration_of_mem h.increasing (hl c mem_cons_self)),
        ih fun c' hc' => hl c' (mem_cons_of_mem _ hc'), map_cons]
  rw [← hlookup _ fun c hc => mem_rollbackOrder.1 hc, ← hseqs, filterMap_map]
  rfl

end Targets

/-! ## What a thunk captures -/

/-- A thunk that captures nothing, and at most parks the run. -/
structure Plain (x : Executed V) : Prop where
  compensation : x.compensation = none
  runStatus : ∀ o, x.outcome = .ok o → o.runStatus = none ∨ o.runStatus = some .waiting

section Plain

omit [JsValue V]

theorem plain_reports {o : CommandOutcome V} (h : o.runStatus = none ∨ o.runStatus = some .waiting) : Plain (reports o) := by
  refine ⟨rfl, fun o' ho => ?_⟩
  cases ho
  exact h

theorem plain_rejects (thrown : Thrown) : Plain (V := V) (rejects thrown) := ⟨rfl, fun o ho => by cases ho⟩

theorem plain_bridged (unwired : Thrown) (result : V → V) (call : Option (Except Thrown V)) : Plain (bridged unwired result call) := by
  cases call with
  | none => exact plain_rejects unwired
  | some r =>
    cases r with
    | error thrown => exact plain_rejects thrown
    | ok value => exact plain_reports (.inl rfl)

theorem plain_waitFor (event : String) (parse : Option (V → Except Thrown V)) (run : WorkflowRun V) :
    Plain (executeWaitFor event parse run) := by
  unfold executeWaitFor
  split
  · split
    · exact plain_reports (.inl rfl)
    · split
      · exact plain_reports (.inl rfl)
      · exact plain_rejects _
  · exact plain_reports (.inr rfl)

end Plain

theorem plain_timer (seq : Nat) (now expiresAt : Int) : Plain (V := V) (reports (timerOutcome seq now expiresAt)) := by
  unfold timerOutcome
  split
  · exact plain_reports (.inl rfl)
  · exact plain_reports (.inr rfl)

/-- Only activities capture compensations. -/
theorem execute_plain {c : Command V} (hc : ∀ options, c ≠ .activity options) (effect : Effect V)
    (info : JournalExecuteInfo) (run : WorkflowRun V) : Plain (c.execute effect info run) := by
  cases c with
  | activity options => exact absurd rfl (hc options)
  | parallelAll n => exact plain_reports (.inl rfl)
  | parallelRace n => exact plain_reports (.inl ((raceChildren_settles _ _).2))
  | parallelMap mapped =>
    cases mapped with
    | ok n => exact plain_reports (.inl rfl)
    | error thrown => exact plain_rejects thrown
  | sleep durationMs => exact plain_timer _ _ _
  | waitUntil atEpochMs => exact plain_timer _ _ _
  | cron expression =>
    unfold Command.execute
    dsimp only
    split
    · exact plain_timer _ _ _
    · exact plain_rejects _
  | interval durationMs => exact plain_timer _ _ _
  | queueDispatch job payload => exact plain_bridged _ _ _
  | publish event payload =>
    unfold Command.execute
    dsimp only
    split
    · exact plain_rejects _
    · exact plain_reports (.inl rfl)
    · exact plain_reports (.inl rfl)
  | waitFor event parse => exact plain_waitFor event parse run
  | storagePut key content => exact plain_bridged _ _ _
  | storageGet key => exact plain_bridged _ _ _
  | storageDelete key => exact plain_bridged _ _ _
  | storageMove from_ to_ => exact plain_bridged _ _ _
  | storageCopy from_ to_ => exact plain_bridged _ _ _
  | broadcast channel payload =>
    unfold Command.execute
    dsimp only
    split
    · exact plain_rejects _
    · exact plain_reports (.inl rfl)
  | stateSet key value => exact plain_reports (.inl rfl)

theorem execute_runStatus {c : Command V} {effect : Effect V} {info : JournalExecuteInfo} {run : WorkflowRun V}
    {o : CommandOutcome V} (h : (c.execute effect info run).outcome = .ok o) :
    o.runStatus = none ∨ o.runStatus = some .waiting := by
  by_cases hc : ∃ options, c = .activity options
  · obtain ⟨options, rfl⟩ := hc
    cases h
    exact .inl rfl
  · exact (execute_plain (fun options he => hc ⟨options, he⟩) effect info run).runStatus o h

theorem execute_compensation {c : Command V} {effect : Effect V} {info : JournalExecuteInfo} {run : WorkflowRun V}
    {x : CapturedCompensation V} (h : (c.execute effect info run).compensation = some x) :
    x.seq = info.seq ∧ ∃ o, (c.execute effect info run).outcome = .ok o ∧ o.settlement = .completed x.output := by
  by_cases hc : ∃ options, c = .activity options
  · obtain ⟨options, rfl⟩ := hc
    unfold Command.execute executeActivity runActivity at h ⊢
    simp only at h ⊢
    split at h
    · rename_i output hout
      obtain ⟨rollback, -, rfl⟩ := Option.map_eq_some_iff.1 h
      exact ⟨rfl, _, rfl, by simp only [hout]⟩
    · cases h
  · rw [(execute_plain (fun options he => hc ⟨options, he⟩) effect info run).compensation] at h
    cases h

theorem completes_executing {d : Drive V} {c : Command V} {p : Pending V} (hp : d.phase = .executing c p) (t : Tick V) :
    d.completes t = (c.execute t.effect { seq := p.seq, now := p.startedAt } d.run).compensation.map
      fun x => { compensation := x, completedAt := t.now } := by
  by_cases hc : ∃ options, c = .activity options
  · obtain ⟨options, rfl⟩ := hc
    unfold Drive.completes Command.execute executeActivity runActivity
    rw [hp]
    simp only
    cases options.compensate with
    | none => cases (ActivityExecutor.run p.seq options (t.effect.attempts 0)).result <;> rfl
    | some rollback => cases (ActivityExecutor.run p.seq options (t.effect.attempts 0)).result <;> rfl
  · rw [(execute_plain (fun options he => hc ⟨options, he⟩) t.effect _ d.run).compensation]
    unfold Drive.completes
    rw [hp]
    split
    · rename_i options p' he
      cases he
      exact absurd ⟨options, rfl⟩ hc
    · rfl

/-! ## The stages of a drive -/

def RunStatus.isFailure (status : RunStatus) : Prop := status = .failed ∨ status = .compensated

/-- How far a drive has come that has recorded the completions `cs` and invoked the rollbacks
`invoked`. -/
inductive Stage (cs : List (Completion V)) (invoked : List (CapturedCompensation V)) (d : Drive V) : Prop
  | forward (registered : Registered cs d) (none : invoked = []) (status : ¬ d.run.status.isFailure)
      (phase : d.phase = .entry ∨ d.phase = .running ∨ ∃ c p, d.phase = .executing c p ∧ PendingAt d.journal p)
  | rollingBack (targets : List (CommandRecord V)) (phase : d.phase = .rollingBack targets) (increasing : Increasing cs)
      (nonempty : cs ≠ []) (rest : invoked ++ targets.filterMap (fun r => registration d.compensations r.seq) =
        (rollbackOrder cs).map (·.compensation)) (status : ¬ d.run.status.isFailure)
  | invoking (target : CommandRecord V) (targets : List (CommandRecord V)) (phase : d.phase = .invoking target targets)
      (increasing : Increasing cs) (nonempty : cs ≠ [])
      (rest : invoked ++ (target :: targets).filterMap (fun r => registration d.compensations r.seq) =
        (rollbackOrder cs).map (·.compensation)) (status : ¬ d.run.status.isFailure)
  | parked (ended : RunStatus) (phase : d.phase = .done ended) (none : invoked = []) (status : ¬ d.run.status.isFailure)
  | failed (phase : d.phase = .done .failed) (none : invoked = []) (nothing : cs = []) (status : d.run.status = .failed)
  | compensated (phase : d.phase = .done .compensated) (increasing : Increasing cs) (nonempty : cs ≠ [])
      (all : invoked = (rollbackOrder cs).map (·.compensation)) (status : d.run.status = .compensated)

section Stages

variable {fn : WorkflowFunction V} {cs : List (Completion V)} {invoked : List (CapturedCompensation V)} {d : Drive V}

section

variable (h : Registered cs d)
include h

omit [JsValue V] in
theorem Registered.of_journal {d' : Drive V} (hs : SameJournal d.run d'.run)
    (hc : d'.compensations = d.compensations) (hle : d.journal.cursor ≤ d'.journal.cursor)
    (hlen : d'.journal.cursor ≤ d.run.commands.length) : Registered cs d' := by
  refine ⟨sequenced_of_sameJournal h.sequenced hs, by rw [hs.commands]; exact hlen, hc.trans h.captured, h.increasing, ?_⟩
  intro c hmem
  obtain ⟨hlt, hrec⟩ := h.recorded c hmem
  exact ⟨lt_of_lt_of_le hlt hle, by rw [hs.commands]; exact hrec⟩

theorem registered_settle {p : Pending V} (hp : PendingAt d.journal p)
    {x : Executed V} {o : CommandOutcome V} (hx : ∀ y, x.compensation = some y → y.seq = p.seq ∧ o.settlement = .completed y.output)
    (t : Tick V) {d' : Drive V} (hjournal : d'.journal = (d.journal.settle p t.now o).1)
    (hcomp : d'.compensations = d.compensations ++ x.compensation.toList) :
    Registered (cs ++ (x.compensation.map fun y => { compensation := y, completedAt := t.now }).toList) d' := by
  have hrec : ∀ i, d'.run.commands[i]? = if i = d.journal.cursor
      then some (buildRecord p.spec p.seq p.startedAt t.now o p.recorded) else d.run.commands[i]? := by
    intro i
    unfold Drive.run
    rw [hjournal]
    exact settle_getElem? hp h.cursor t.now o i
  have hcursor : d'.journal.cursor = d.journal.cursor ∨ d'.journal.cursor = d.journal.cursor + 1 := by
    rw [hjournal, ← hp.index]
    unfold Journal.settle
    cases o.settlement with
    | completed result => exact .inr rfl
    | failed error => exact .inr rfl
    | waiting waitingFor timerExpiresAt => exact .inl rfl
  have hlen : d.journal.cursor < d'.run.commands.length := by
    have hsome := hrec d.journal.cursor
    rw [if_pos rfl] at hsome
    exact (List.getElem?_eq_some_iff.1 hsome).1
  have hold : ∀ c ∈ cs, c.seq < d'.journal.cursor ∧ ∃ r, d'.run.commands[c.seq]? = some r ∧ r.status = .completed ∧
      r.compensated = false ∧ r.completedAt = some c.completedAt := by
    intro c hc
    obtain ⟨hlt, r, hr, hst⟩ := h.recorded c hc
    exact ⟨by omega, r, by rw [hrec, if_neg (by omega)]; exact hr, hst⟩
  have hsequenced : Sequenced d'.run := by
    unfold Drive.run
    rw [hjournal]
    exact settle_sequenced h.sequenced hp h.cursor t.now o
  cases hy : x.compensation with
  | none =>
    rw [hy] at hcomp
    rw [Option.map_none, Option.toList_none, append_nil]
    refine ⟨hsequenced, by omega, ?_, h.increasing, hold⟩
    rw [hcomp, Option.toList_none, append_nil]
    exact h.captured
  | some y =>
    obtain ⟨hseq, hset⟩ := hx y hy
    rw [hy] at hcomp
    rw [hp.seq] at hseq
    have hnext : d'.journal.cursor = d.journal.cursor + 1 := by
      rw [hjournal, ← hp.index]
      unfold Journal.settle
      rw [hset]
    refine ⟨hsequenced, by omega, ?_, ?_, ?_⟩
    · rw [hcomp, h.captured, map_append]
      rfl
    · unfold Increasing
      rw [map_append, pairwise_append]
      refine ⟨h.increasing, pairwise_singleton _ _, ?_⟩
      intro a ha b hb
      obtain ⟨c, hc, rfl⟩ := mem_map.1 ha
      rw [mem_singleton.1 hb]
      show c.seq < y.seq
      rw [hseq]
      exact (h.recorded c hc).1
    · intro c hc
      rcases mem_append.1 hc with hc | hc
      · exact hold c hc
      · rw [mem_singleton.1 hc]
        show y.seq < _ ∧ ∃ r, d'.run.commands[y.seq]? = some r ∧ _
        rw [hseq]
        refine ⟨by omega, _, by rw [hrec, if_pos rfl], ?_⟩
        unfold buildRecord
        rw [hset]
        exact ⟨rfl, rfl, rfl⟩

theorem stage_finalizeFailure (t : Tick V) : Stage cs [] (d.finalizeFailure t).1 := by
  unfold Drive.finalizeFailure
  split
  · rename_i htargets
    exact .failed rfl rfl ((targets_eq_nil_iff h).1 htargets) rfl
  · rename_i htargets
    refine .rollingBack _ rfl h.increasing (fun hcs => htargets ((targets_eq_nil_iff h).2 hcs)) ?_ ?_
    · show [] ++ (compensationTargets d.run d.compensations).filterMap (fun r => registration d.compensations r.seq) = _
      exact targets_rollbacks h
    · rintro (hf | hf) <;> cases hf

theorem stage_act (hstatus : ¬ d.run.status.isFailure) (t : Tick V) : Stage cs [] (d.act fn t).1 := by
  unfold Drive.act
  split
  · exact .forward (h.of_journal (SameJournal.refl _) rfl le_rfl h.cursor) rfl hstatus (.inr (.inl rfl))
  · exact .forward (h.of_journal (SameJournal.refl _) rfl le_rfl h.cursor) rfl hstatus (.inr (.inl rfl))
  · rename_i c hc
    split
    · rename_i hissue
      obtain ⟨rfl, recorded, hr, -⟩ := issue_replayed hissue
      have hlt := (of_getElem?_eq_some hr)
      exact .forward (h.of_journal (SameJournal.refl _) rfl (Nat.le_succ _) hlt) rfl hstatus (.inr (.inl rfl))
    · rename_i pending hissue
      exact .forward (h.of_journal (SameJournal.refl _) rfl le_rfl h.cursor) rfl hstatus
        (.inr (.inr ⟨c, pending, rfl, issue_live h.sequenced h.cursor hissue⟩))
  · exact .parked .completed rfl rfl (by rintro (hf | hf) <;> cases hf)
  · exact .parked _ rfl rfl hstatus
  · exact stage_finalizeFailure h t

theorem stage_settle (hstatus : ¬ d.run.status.isFailure) {c : Command V} {p : Pending V}
    (hphase : d.phase = .executing c p) (hp : PendingAt d.journal p) (t : Tick V) :
    Stage (cs ++ (d.completes t).toList) [] (d.settle c p t).1 := by
  rw [completes_executing hphase]
  unfold Drive.settle
  simp only
  generalize hx : c.execute t.effect { seq := p.seq, now := p.startedAt } d.run = x
  have hcaptured : ∀ y, x.compensation = some y → y.seq = p.seq ∧ ∃ o, x.outcome = .ok o ∧ o.settlement = .completed y.output := by
    intro y hy
    rw [← hx] at hy ⊢
    exact execute_compensation hy
  cases ho : x.outcome with
  | error thrown =>
    have hnone : x.compensation = none := by
      cases hy : x.compensation with
      | none => rfl
      | some y =>
        obtain ⟨-, o, ho', -⟩ := hcaptured y hy
        rw [ho] at ho'
        cases ho'
    rw [hnone, Option.map_none, Option.toList_none, append_nil]
    exact .forward (h.of_journal (SameJournal.refl _) rfl le_rfl h.cursor) rfl hstatus (.inr (.inl rfl))
  | ok o =>
    refine .forward (registered_settle h hp (fun y hy => ?_) t rfl rfl) rfl ?_ (.inr (.inl rfl))
    · obtain ⟨hseq, o', ho', hset⟩ := hcaptured y hy
      rw [ho] at ho'
      cases ho'
      exact ⟨hseq, hset⟩
    · have hrun := execute_runStatus (c := c) (o := o) (by rw [hx]; exact ho)
      have hstat : (d.journal.settle p t.now o).1.current.status = o.runStatus.getD d.run.status := by
        unfold Journal.settle
        cases o.settlement <;> rfl
      show ¬ (d.journal.settle p t.now o).1.current.status.isFailure
      rw [hstat]
      rcases hrun with hr | hr <;> rw [hr]
      · exact hstatus
      · rintro (hf | hf) <;> cases hf

end

theorem stage_step (fn : WorkflowFunction V) (h : Stage cs invoked d) (t : Tick V) :
    Stage (cs ++ (d.completes t).toList) (invoked ++ d.invokes.toList) (d.next fn t) := by
  have hquiet : ∀ {phase : Phase V}, d.phase = phase → (∀ c p, phase ≠ .executing c p) → cs ++ (d.completes t).toList = cs := by
    rintro _ rfl hne
    unfold Drive.completes
    split
    · rename_i options pending hphase
      exact absurd hphase (hne _ _)
    · exact append_nil _
  have hstill : ∀ {phase : Phase V}, d.phase = phase → (∀ target targets, phase ≠ .invoking target targets) →
      invoked ++ d.invokes.toList = invoked := by
    rintro _ rfl hne
    unfold Drive.invokes
    split
    · rename_i target targets hphase
      exact absurd hphase (hne _ _)
    · exact append_nil _
  unfold Drive.next Drive.step
  cases h with
  | forward registered none status phase =>
    subst none
    rcases phase with hphase | hphase | ⟨c, p, hphase, hp⟩
    · rw [hquiet hphase (fun _ _ h => by cases h), hstill hphase (fun _ _ h => by cases h), hphase]
      show Stage cs [] (d.enter t).1
      unfold Drive.enter
      split
      · refine .forward (registered.of_journal ⟨rfl, rfl, rfl, rfl, rfl⟩ rfl le_rfl registered.cursor) rfl ?_ (.inr (.inl rfl))
        rintro (hf | hf) <;> cases hf
      · exact .forward (registered.of_journal (SameJournal.refl _) rfl le_rfl registered.cursor) rfl status (.inr (.inl rfl))
    · rw [hquiet hphase (fun _ _ h => by cases h), hstill hphase (fun _ _ h => by cases h), hphase]
      exact stage_act registered status t
    · rw [hstill hphase (fun _ _ h => by cases h), hphase]
      exact stage_settle registered status hphase hp t
  | rollingBack targets hphase increasing nonempty rest status =>
    rw [hquiet hphase (fun _ _ h => by cases h), hstill hphase (fun _ _ h => by cases h), hphase]
    cases targets with
    | nil => exact .compensated rfl increasing nonempty (by rw [filterMap_nil, append_nil] at rest; exact rest) rfl
    | cons target targets => exact .invoking target targets rfl increasing nonempty rest status
  | invoking target targets hphase increasing nonempty rest status =>
    have hinvokes : d.invokes = registration d.compensations target.seq := by
      unfold Drive.invokes
      rw [hphase]
    rw [hquiet hphase (fun _ _ h => by cases h), hinvokes, hphase]
    refine .rollingBack targets rfl increasing nonempty ?_ status
    rw [append_assoc, ← rest]
    congr 1
    rw [filterMap_cons]
    cases registration d.compensations target.seq <;> rfl
  | parked ended hphase none status =>
    rw [hquiet hphase (fun _ _ h => by cases h), hstill hphase (fun _ _ h => by cases h), hphase]
    exact .parked ended hphase none status
  | failed hphase none nothing status =>
    rw [hquiet hphase (fun _ _ h => by cases h), hstill hphase (fun _ _ h => by cases h), hphase]
    exact .failed hphase none nothing status
  | compensated hphase increasing nonempty all status =>
    rw [hquiet hphase (fun _ _ h => by cases h), hstill hphase (fun _ _ h => by cases h), hphase]
    exact .compensated hphase increasing nonempty all status

theorem stage_exec (fn : WorkflowFunction V) {run : WorkflowRun V} (hs : Sequenced run) (hf : ¬ run.status.isFailure)
    (ts : List (Tick V)) : Stage (Drive.completions fn run ts) (Drive.invoked fn run ts) (Drive.exec fn run ts) := by
  induction ts using List.reverseRec with
  | nil =>
    refine .forward ⟨hs, Nat.zero_le _, rfl, List.Pairwise.nil, fun c hc => absurd hc not_mem_nil⟩ rfl hf (.inl rfl)
  | append_singleton ts t ih =>
    have hstep := stage_step fn ih t
    unfold Drive.completions Drive.invoked at hstep ⊢
    rw [exec_concat, observe_concat, observe_concat]
    exact hstep

end Stages

/-! ## Completed positions -/

omit [JsValue V] in
/-- The command at position `i` is recorded completed. -/
def CompletedAt (run : WorkflowRun V) (i : Nat) : Prop := ∃ r, run.commands[i]? = some r ∧ r.status = .completed

omit [JsValue V] in
/-- A later snapshot of a run: sequence numbers stay positions, completed commands stay completed. -/
structure Grows (a b : WorkflowRun V) : Prop where
  sequenced : Sequenced b
  completed : ∀ i, CompletedAt a i → CompletedAt b i

section Positions

variable {fn : WorkflowFunction V} {cs : List (Completion V)} {invoked : List (CapturedCompensation V)} {d : Drive V}

omit [JsValue V] in
theorem grows_of_sameJournal {a b : WorkflowRun V} (h : Sequenced a) (hs : SameJournal a b) : Grows a b :=
  ⟨sequenced_of_sameJournal h hs, fun i hi => by
    unfold CompletedAt at hi ⊢
    rw [hs.commands]
    exact hi⟩

omit [JsValue V] in
theorem grows_markCompensated {run : WorkflowRun V} (h : Sequenced run) (seq : Nat) : Grows run (markCompensated run seq) := by
  have hget : ∀ i, (markCompensated run seq).commands[i]? =
      (run.commands[i]?).map fun c : CommandRecord V => if c.seq = seq then { c with compensated := true } else c :=
    fun i => getElem?_map ..
  refine ⟨⟨fun i r hr => ?_, ?_⟩, fun i hi => ?_⟩
  · rw [hget] at hr
    obtain ⟨r', hr', rfl⟩ := Option.map_eq_some_iff.1 hr
    have hseq := h.seqs i r' hr'
    split
    · exact hseq
    · exact hseq
  · show run.nextSeq = _
    rw [h.nextSeq]
    exact (length_map _).symm
  · obtain ⟨r, hr, hst⟩ := hi
    refine ⟨_, by rw [hget, hr]; rfl, ?_⟩
    simp only
    split
    · exact hst
    · exact hst

omit [JsValue V] in
theorem grows_settle {j : Journal V} {p : Pending V} (h : Sequenced j.current) (hp : PendingAt j p)
    (hc : j.cursor ≤ j.current.commands.length) (now : Int) (o : CommandOutcome V) :
    Grows j.current (j.settle p now o).1.current := by
  refine ⟨settle_sequenced h hp hc now o, fun i hi => ?_⟩
  obtain ⟨r, hr, hst⟩ := hi
  have hne : i ≠ j.cursor := by
    rintro rfl
    rw [hp.unsettled r hr] at hst
    cases hst
  exact ⟨r, by rw [settle_getElem? hp hc, if_neg hne]; exact hr, hst⟩

theorem act_sameJournal (fn : WorkflowFunction V) (d : Drive V) (t : Tick V) : SameJournal d.run (d.act fn t).1.run := by
  unfold Drive.act
  split
  · exact SameJournal.refl _
  · exact SameJournal.refl _
  · split
    · rename_i hissue
      obtain ⟨rfl, -⟩ := issue_replayed hissue
      exact SameJournal.refl _
    · exact SameJournal.refl _
  · exact ⟨rfl, rfl, rfl, rfl, rfl⟩
  · exact SameJournal.refl _
  · unfold Drive.finalizeFailure
    split <;> exact ⟨rfl, rfl, rfl, rfl, rfl⟩

theorem grows_step (fn : WorkflowFunction V) (h : Stage cs invoked d) (hs : Sequenced d.run) (t : Tick V) :
    Grows d.run (d.next fn t).run ∧ ∀ c ∈ d.completes t, ¬ CompletedAt d.run c.seq ∧ CompletedAt (d.next fn t).run c.seq := by
  by_cases hex : ∃ c p, d.phase = .executing c p
  · obtain ⟨c, p, hphase⟩ := hex
    cases h with
    | forward registered none status phase =>
      obtain ⟨c', p', hphase', hp⟩ : ∃ c p, d.phase = .executing c p ∧ PendingAt d.journal p := by
        rcases phase with h | h | h
        · rw [hphase] at h; cases h
        · rw [hphase] at h; cases h
        · exact h
      rw [hphase] at hphase'
      cases hphase'
      have hnext : d.next fn t = (d.settle c p t).1 := by
        unfold Drive.next Drive.step
        rw [hphase]
      rw [hnext, completes_executing hphase]
      have hstage := stage_settle registered status hphase hp t
      unfold Drive.settle at hstage ⊢
      simp only at hstage ⊢
      generalize hx : c.execute t.effect { seq := p.seq, now := p.startedAt } d.run = x at hstage ⊢
      cases ho : x.outcome with
      | error thrown =>
        refine ⟨grows_of_sameJournal hs (SameJournal.refl _), fun y hy => ?_⟩
        obtain ⟨z, hz, rfl⟩ := Option.map_eq_some_iff.1 hy
        rw [← hx] at hz
        obtain ⟨-, o, ho', -⟩ := execute_compensation hz
        rw [hx, ho] at ho'
        cases ho'
      | ok o =>
        refine ⟨grows_settle hs hp registered.cursor t.now o, fun y hy => ?_⟩
        obtain ⟨z, hz, rfl⟩ := Option.map_eq_some_iff.1 hy
        rw [← hx] at hz
        obtain ⟨hseq, o', ho', hset⟩ := execute_compensation hz
        rw [hx, ho] at ho'
        cases ho'
        have hpos : z.seq = d.journal.cursor := hseq.trans hp.seq
        show ¬ CompletedAt d.run z.seq ∧ CompletedAt (d.journal.settle p t.now o).1.current z.seq
        rw [hpos]
        constructor
        · rintro ⟨r, hr, hst⟩
          rw [hp.unsettled r hr] at hst
          cases hst
        · refine ⟨_, by rw [settle_getElem? hp registered.cursor, if_pos rfl], ?_⟩
          unfold buildRecord
          rw [hset]
          rfl
    | rollingBack targets hphase' => rw [hphase] at hphase'; cases hphase'
    | invoking target targets hphase' => rw [hphase] at hphase'; cases hphase'
    | parked ended hphase' => rw [hphase] at hphase'; cases hphase'
    | failed hphase' => rw [hphase] at hphase'; cases hphase'
    | compensated hphase' => rw [hphase] at hphase'; cases hphase'
  · constructor
    · unfold Drive.next Drive.step
      cases hphase : d.phase with
      | entry =>
        refine grows_of_sameJournal hs ?_
        show SameJournal d.run (d.enter t).1.run
        unfold Drive.enter
        split
        · exact ⟨rfl, rfl, rfl, rfl, rfl⟩
        · exact SameJournal.refl _
      | running => exact grows_of_sameJournal hs (act_sameJournal fn d t)
      | executing c p => exact absurd ⟨c, p, hphase⟩ hex
      | rollingBack targets =>
        cases targets with
        | nil => exact grows_of_sameJournal hs ⟨rfl, rfl, rfl, rfl, rfl⟩
        | cons target targets => exact grows_of_sameJournal hs ⟨rfl, rfl, rfl, rfl, rfl⟩
      | invoking target targets =>
        have hmark := grows_markCompensated hs target.seq
        exact ⟨sequenced_of_sameJournal hmark.sequenced ⟨rfl, rfl, rfl, rfl, rfl⟩, hmark.completed⟩
      | done status => exact grows_of_sameJournal hs (SameJournal.refl _)
    · intro c hc
      unfold Drive.completes at hc
      split at hc
      · rename_i options p hphase
        exact absurd ⟨_, _, hphase⟩ hex
      · cases hc

theorem grows_exec (fn : WorkflowFunction V) {run : WorkflowRun V} (hs : Sequenced run) (hf : ¬ run.status.isFailure) (ts : List (Tick V)) :
    Grows run (Drive.exec fn run ts).run ∧
      ∀ c ∈ Drive.completions fn run ts, ¬ CompletedAt run c.seq ∧ CompletedAt (Drive.exec fn run ts).run c.seq := by
  induction ts using List.reverseRec with
  | nil => exact ⟨⟨hs, fun i hi => hi⟩, fun c hc => absurd hc not_mem_nil⟩
  | append_singleton ts t ih =>
    obtain ⟨hgrows, hold⟩ := ih
    obtain ⟨hstep, hnew⟩ := grows_step fn (stage_exec fn hs hf ts) hgrows.sequenced t
    rw [exec_concat]
    refine ⟨⟨hstep.sequenced, fun i hi => hstep.completed i (hgrows.completed i hi)⟩, fun c hc => ?_⟩
    unfold Drive.completions at hc
    rw [observe_concat] at hc
    rcases mem_append.1 hc with hc | hc
    · obtain ⟨h1, h2⟩ := hold c hc
      exact ⟨h1, hstep.completed _ h2⟩
    · obtain ⟨h1, h2⟩ := hnew c (Option.mem_toList.1 hc)
      exact ⟨fun h => h1 (hgrows.completed _ h), h2⟩

end Positions

end StreetJS.Workflow
