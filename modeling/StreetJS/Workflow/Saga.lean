/-
Saga completeness over whole runs: a compensation is captured when its activity completes in a drive,
and is gone with that drive. A later drive replays the activity without registering anything, so when
the function fails there, the activities of earlier drives are not rolled back.
-/
import StreetJS.Workflow.Compensation
import StreetJS.Workflow.Value

namespace StreetJS.Workflow

open StreetJS.Lib List

variable {V : Type} [JsValue V]

/-! ## The saga of a run -/

/-- The compensable activities that have completed, in any drive, in the order of completion. -/
def completed (fn : WorkflowFunction V) (s : Engine V) (ops : List (Op V)) : List (Completion V) :=
  (redrives fn s ops).flatMap fun r => Drive.completions fn r.1 r.2

/-- The rollbacks that have been invoked, in any drive, in order. -/
def rolledBack (fn : WorkflowFunction V) (s : Engine V) (ops : List (Op V)) : List (CapturedCompensation V) :=
  (redrives fn s ops).flatMap fun r => Drive.invoked fn r.1 r.2

/-- The drive has stopped inside its rollback phase. -/
def Drive.inRollback (d : Drive V) : Prop :=
  (∃ targets, d.phase = .rollingBack targets) ∨ ∃ target targets, d.phase = .invoking target targets

/-- Every completed compensable activity is rolled back with its output, in reverse completion order
and, if no drive has stopped inside its rollback phase, exactly once. The run is compensated if and
only if there is such an activity. -/
structure SagaComplete (fn : WorkflowFunction V) (s : Engine V) (ops : List (Op V)) : Prop where
  reverse : ((completed fn s ops).reverse.map (·.compensation)).Sublist (rolledBack fn s ops)
  once : (∀ r ∈ redrives fn s ops, ¬ (Drive.exec fn r.1 r.2).inRollback) →
    rolledBack fn s ops = (completed fn s ops).reverse.map (·.compensation)
  status : (Lib.run (Engine.step fn) s ops).run.status = .compensated ↔ completed fn s ops ≠ []

/-- No compensable activity has completed before the last drive, and the instants of those that
completed in it do not decrease. -/
structure CompletesInLastDrive (fn : WorkflowFunction V) (s : Engine V) (ops : List (Op V)) : Prop where
  earlier : ∀ r ∈ (redrives fn s ops).dropLast, Drive.completions fn r.1 r.2 = []
  ordered : (completed fn s ops).Pairwise fun a b => a.completedAt ≤ b.completedAt

/-! ## The drives of a run -/

section Drives

variable {fn : WorkflowFunction V} {runId definition : String} {input : V} {createdAt : Int}

omit [JsValue V] in
theorem not_isFailure_of_not_terminal {status : RunStatus} (h : status.terminal = false) : ¬ status.isFailure := by
  rintro (rfl | rfl) <;> cases h

omit [JsValue V] in
theorem accept_status_of_isFailure {s : Engine V} {op : Op V} (h : (s.accept op).1.run.status.isFailure) :
    (s.accept op).1.run.status = s.run.status := by
  cases op with
  | resume ticks => rfl
  | pause now =>
    simp only [Engine.accept] at h ⊢
    split at h <;> rename_i hs
    · rcases h with h | h <;> cases h
    · rw [if_neg hs]
  | cancel now =>
    simp only [Engine.accept] at h ⊢
    split at h <;> rename_i hs
    · rw [if_pos hs]
    · rcases h with h | h <;> cases h
  | signal name payload now ticks =>
    simp only [Engine.accept]
    split
    · rfl
    · split
      · rfl
      · rw [resumeWait_run]; rfl
  | resumeDueTimers now ticks =>
    simp only [Engine.accept]
    split
    · split
      · rfl
      · rw [resumeWait_run]
    · rfl
  | reopen autoResume ticks => rfl

/-- What holds of a launched run after any operations: its drives are in a stage, and what has
completed in them is recorded completed. -/
structure Driven (fn : WorkflowFunction V) (s : Engine V) (ops : List (Op V)) : Prop where
  sequenced : Sequenced (Lib.run (Engine.step fn) s ops).run
  stages : ∀ r ∈ redrives fn s ops, Stage (Drive.completions fn r.1 r.2) (Drive.invoked fn r.1 r.2) (Drive.exec fn r.1 r.2)
  recorded : ∀ c ∈ completed fn s ops, CompletedAt (Lib.run (Engine.step fn) s ops).run c.seq

theorem driven (fn : WorkflowFunction V) {s₀ : Engine V} (hs : Sequenced s₀.run) (ops : List (Op V)) : Driven fn s₀ ops := by
  induction ops using List.reverseRec with
  | nil =>
    exact ⟨hs, fun r hr => absurd hr not_mem_nil, fun c hc => absurd hc not_mem_nil⟩
  | append_singleton ops op ih =>
    have hrun := run_concat (Engine.step fn) s₀ ops op
    have hdrives := redrives_concat fn s₀ ops op
    have hcompleted : completed fn s₀ (ops ++ [op]) = completed fn s₀ ops ++
          ((Lib.run (Engine.step fn) s₀ ops).starts op).toList.flatMap fun r => Drive.completions fn r.1 r.2 := by
      unfold completed
      rw [hdrives, flatMap_append]
    obtain ⟨hseq, hstages, hrecorded⟩ := ih
    generalize Lib.run (Engine.step fn) s₀ ops = s at *
    have haccept := grows_of_sameJournal hseq (accept_sameJournal s op)
    cases hstart : s.starts op with
    | none =>
      have hstep : s.step fn op = (s.accept op).1 := by
        unfold Engine.step
        rw [hstart]
      rw [hstart, Option.toList_none, append_nil] at hdrives
      rw [hstart, Option.toList_none, flatMap_nil, append_nil] at hcompleted
      refine ⟨?_, ?_, ?_⟩
      · rw [hrun, hstep]; exact haccept.sequenced
      · rw [hdrives]; exact hstages
      · rw [hcompleted, hrun, hstep]; exact fun c hc => haccept.completed _ (hrecorded c hc)
    | some r =>
      obtain ⟨run, ts⟩ := r
      obtain ⟨rfl, -, hterminal, -⟩ := starts_run hstart
      have hfail := not_isFailure_of_not_terminal hterminal
      obtain ⟨hgrows, hnew⟩ := grows_exec fn haccept.sequenced hfail ts
      have hstep : (s.step fn op).run = (Drive.exec fn (s.accept op).1.run ts).run := by
        unfold Engine.step
        rw [hstart]
      rw [hstart, Option.toList_some] at hdrives
      rw [hstart, Option.toList_some, flatMap_singleton] at hcompleted
      refine ⟨?_, ?_, ?_⟩
      · rw [hrun, hstep]; exact hgrows.sequenced
      · rw [hdrives]
        intro r hr
        rcases mem_append.1 hr with hr | hr
        · exact hstages r hr
        · rw [mem_singleton.1 hr]
          exact stage_exec fn haccept.sequenced hfail ts
      · rw [hcompleted, hrun, hstep]
        intro c hc
        rcases mem_append.1 hc with hc | hc
        · exact hgrows.completed _ (haccept.completed _ (hrecorded c hc))
        · exact (hnew c hc).2

/-- A run that has failed did so in its last drive, and what has completed there had not completed
before. -/
theorem last_drive (fn : WorkflowFunction V) {s₀ : Engine V} (hs : Sequenced s₀.run) (h₀ : ¬ s₀.run.status.isFailure) (ops : List (Op V))
    (hf : (Lib.run (Engine.step fn) s₀ ops).run.status.isFailure) :
    ∃ rs r, redrives fn s₀ ops = rs ++ [r] ∧ (Drive.exec fn r.1 r.2).run.status = (Lib.run (Engine.step fn) s₀ ops).run.status ∧
      ∀ c ∈ Drive.completions fn r.1 r.2, ∀ c' ∈ rs.flatMap fun r => Drive.completions fn r.1 r.2, c.seq ≠ c'.seq := by
  induction ops using List.reverseRec with
  | nil => exact absurd hf h₀
  | append_singleton ops op ih =>
    have hdrives := redrives_concat fn s₀ ops op
    have hrecorded := driven fn hs ops
    rw [run_concat] at hf ⊢
    obtain ⟨hseq, hstages, hrecorded⟩ := hrecorded
    generalize Lib.run (Engine.step fn) s₀ ops = s at *
    cases hstart : s.starts op with
    | none =>
      have hstep : s.step fn op = (s.accept op).1 := by
        unfold Engine.step
        rw [hstart]
      rw [hstart, Option.toList_none, append_nil] at hdrives
      rw [hstep] at hf ⊢
      have hsame := accept_status_of_isFailure hf
      rw [hsame] at hf ⊢
      rw [hdrives]
      exact ih hf
    | some r =>
      obtain ⟨run, ts⟩ := r
      obtain ⟨rfl, -, hterminal, -⟩ := starts_run hstart
      have hsame := accept_sameJournal s op
      obtain ⟨-, hnew⟩ := grows_exec fn (sequenced_of_sameJournal hseq hsame) (not_isFailure_of_not_terminal hterminal) ts
      rw [hstart, Option.toList_some] at hdrives
      refine ⟨_, _, hdrives, ?_, ?_⟩
      · unfold Engine.step
        rw [hstart]
      · intro c hc c' hc' he
        refine (hnew c hc).1 ?_
        rw [he]
        exact (grows_of_sameJournal hseq hsame).completed _ (hrecorded c' hc')

end Drives

/-! ## Completeness -/

section Completeness

omit [JsValue V]

theorem Increasing.eq_of_map_seq {cs a b : List (Completion V)} (h : Increasing cs) (ha : ∀ c ∈ a, c ∈ cs)
    (hb : ∀ c ∈ b, c ∈ cs) (he : a.map (·.seq) = b.map (·.seq)) : a = b := by
  refine ext_getElem (by simpa using congrArg List.length he) fun i hi hj => ?_
  refine h.seq_inj (ha _ (getElem_mem hi)) (hb _ (getElem_mem hj)) ?_
  have := congrArg (·[i]?) he
  simpa [getElem?_eq_getElem hi, getElem?_eq_getElem hj] using this

variable {cs : List (Completion V)} {invoked : List (CapturedCompensation V)} {d : Drive V}

theorem Stage.mem_invoked (h : Stage cs invoked d) {x : CapturedCompensation V} (hx : x ∈ invoked) : ∃ c ∈ cs, c.compensation = x := by
  have horder : ∀ rest, invoked ++ rest = (rollbackOrder cs).map (·.compensation) → ∃ c ∈ cs, c.compensation = x := by
    intro rest hrest
    have hmem : x ∈ (rollbackOrder cs).map (·.compensation) := by
      rw [← hrest]
      exact mem_append_left _ hx
    obtain ⟨c, hc, rfl⟩ := mem_map.1 hmem
    exact ⟨c, mem_rollbackOrder.1 hc, rfl⟩
  have hnil : invoked = [] → ∃ c ∈ cs, c.compensation = x := by
    rintro rfl
    exact absurd hx not_mem_nil
  cases h with
  | forward registered none => exact hnil none
  | rollingBack targets phase increasing nonempty rest => exact horder _ rest
  | invoking target targets phase increasing nonempty rest => exact horder _ rest
  | parked ended phase none => exact hnil none
  | failed phase none => exact hnil none
  | compensated phase increasing nonempty all => exact horder [] ((append_nil _).trans all)

theorem Stage.invoked_nil (h : Stage [] invoked d) : invoked = [] :=
  eq_nil_iff_forall_not_mem.2 fun x hx => by
    obtain ⟨c, hc, -⟩ := h.mem_invoked hx
    exact absurd hc not_mem_nil

theorem Stage.of_isFailure (h : Stage cs invoked d) (hf : d.run.status.isFailure) : cs = [] ∧ invoked = [] ∧ d.run.status = .failed ∨
      Increasing cs ∧ cs ≠ [] ∧ invoked = (rollbackOrder cs).map (·.compensation) ∧ d.run.status = .compensated := by
  cases h with
  | forward registered none status => exact absurd hf status
  | rollingBack targets phase increasing nonempty rest status => exact absurd hf status
  | invoking target targets phase increasing nonempty rest status => exact absurd hf status
  | parked ended phase none status => exact absurd hf status
  | failed phase none nothing status => exact .inl ⟨nothing, none, status⟩
  | compensated phase increasing nonempty all status => exact .inr ⟨increasing, nonempty, all, status⟩

end Completeness

/-- `await ctx.activity(book, { compensate: cancel }); await ctx.events.waitFor("go"); throw …`. -/
def bookThenFail : WorkflowFunction Value
  | _, [] => .command (.activity { compensate := some fun _ => .ok () })
  | _, [.settled (.ok _)] => .command (.waitFor "go" none)
  | _, [_, .settled (.error (.suspension u))] => .throws (.suspension u)
  | _, _ => .throws (.error { name := "Error", message := "declined" })

/-- The run parks behind the activity, and fails when it is resumed by a signal. -/
def resumedByGo : List (Op Value) :=
  [.resume (List.replicate 6 (tick (.num 7))), .signal "go" .null 5 (List.replicate 9 (tick (.num 7)))]

/-- `await ctx.activity(book, { compensate: cancel }); throw …`. -/
def bookAndFail : WorkflowFunction Value
  | _, [] => .command (.activity { compensate := some fun _ => .ok () })
  | _, _ => .throws (.error { name := "Error", message := "declined" })

end StreetJS.Workflow
