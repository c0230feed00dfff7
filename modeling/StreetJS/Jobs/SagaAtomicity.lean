/-
The saga of one workflow row: `start`, then any sequence of resumes, stops of the process and failing
statements. What has been compensated once the row is failed or timed out, and whether a step is run
after that.
-/
import StreetJS.Jobs.WorkflowEngine

namespace StreetJS.Jobs

open StreetJS.Lib StreetJS.Workflow List

/-! ## The life of a row -/

/-- The row, the call that works on it, the `current_step` of the row that this call took up, the runs that
have timed out and not settled yet, and all that has been done. -/
structure Saga where
  row : WorkflowRow
  call : Call := .reading
  entered : Nat := 0
  late : List Nat := []
  trace : List Mark := []

/-- The row is resumed, the call goes on, its process stops, or a run returns after its timeout. -/
inductive SagaEvent where
  | resume
  | advance (answer : Answer)
  | crash
  | lateReturn (i : Nat)

section

variable (steps : List WorkflowStep)

/-- `start` has inserted the row and resumes it. -/
def Saga.start (input : Value) : Saga := { row := { input } }

/-- The `current_step` that a call takes up with the lock. -/
def takenUp (entered : Nat) : Call → Answer → Nat
  | .locking snapshot, .ok => snapshot.currentStep
  | _, _ => entered

/-- The run that a timeout leaves behind. -/
def leftBehind : Call → Answer → List Nat
  | .executing _ (.running i), .timesOut => if (timeoutOf steps i).isSome then [i] else []
  | _, _ => []

def Saga.step (s : Saga) : SagaEvent → Saga
  | .resume =>
    match s.call with
    | .done => { s with call := .reading }
    | _ => s
  | .advance answer =>
    let r := Jobs.advance steps s.row s.call answer
    { row := r.1
      call := r.2.1
      entered := takenUp s.entered s.call answer
      late := s.late ++ leftBehind steps s.call answer
      trace := s.trace ++ r.2.2 }
  | .crash => { s with call := .done, late := [] }
  | .lateReturn i =>
    if i ∈ s.late then { s with late := s.late.erase i, trace := s.trace ++ [.returned i] } else s

/-! ## Atomicity -/

def WorkflowStatus.isFailed : WorkflowStatus → Bool
  | .failed | .timedOut => true
  | _ => false

/-- The steps whose `compensate` has been called, in order. -/
def compensations (trace : List Mark) : List Nat :=
  trace.filterMap fun
    | .compensated i => some i
    | _ => none

/-- The steps that there is something to undo of: their run has returned and they have a `compensate`. -/
def undoable (trace : List Mark) : List Nat :=
  (List.range steps.length).filter fun i => hasCompensate steps i && decide (.returned i ∈ trace)

/-- Once the row is failed or timed out no step is run; its compensations are called in reverse order; and
unless a call is still at them, each of them has been called. -/
structure Atomic (s : Saga) : Prop where
  stopped : s.trace.Pairwise fun earlier later => earlier = .failed → ∀ i, later ≠ .ran i
  reverse : s.row.status.isFailed = true → compensations s.trace <+: (undoable steps s.trace).reverse
  complete : s.row.status.isFailed = true → (∀ l rest, s.call ≠ .executing l (.compensating rest)) →
    compensations s.trace = (undoable steps s.trace).reverse

/-- The steps have names of their own, which no object inherits. -/
structure Named : Prop where
  nodup : (steps.map (·.name)).Nodup
  own : ∀ step ∈ steps, step.name ∉ objectPrototype

/-- A failure that can be undone: each step with a `compensate` that has returned is persisted, and the call
has not taken the row up behind a skipped one. -/
def Undoable (entered : Nat) (trace : List Mark) : Prop :=
  ∀ i, hasCompensate steps i = true → (.returned i ∈ trace → .persisted i ∈ trace) ∧ (i < entered → .skipped i ∉ trace)

/-- No timed out row is taken up, a failure is recorded when it can be undone, the process does not stop
before the last compensation, and no step to be undone returns after it. -/
def Orderly (s : Saga) : SagaEvent → Prop
  | .advance .ok =>
    match s.call with
    | .locking snapshot => snapshot.status ≠ .timedOut
    | .executing _ (.failing _ _) => Undoable steps s.entered s.trace
    | _ => True
  | .crash =>
    match s.call with
    | .executing _ (.compensating rest) => ∀ e ∈ rest, hasCompensate steps e.1 = false
    | _ => True
  | .lateReturn i => s.row.status.isFailed = true → hasCompensate steps i = true → .returned i ∈ s.trace
  | _ => True

end

/-! ## Marks -/

section

variable {steps : List WorkflowStep} {trace : List Mark} {mark : Mark}

theorem mem_concat_of_ne {m : Mark} (h : mark ≠ m) : m ∈ trace ++ [mark] ↔ m ∈ trace := by
  rw [mem_append, mem_singleton, or_iff_left fun heq => h heq.symm]

theorem unfailed_concat (hno : .failed ∉ trace) (hm : mark ≠ .failed) : .failed ∉ trace ++ [mark] := by
  rw [mem_concat_of_ne hm]
  exact hno

theorem compensations_concat_of_ne (h : ∀ i, mark ≠ .compensated i) : compensations (trace ++ [mark]) = compensations trace := by
  cases mark with
  | compensated i => exact absurd rfl (h i)
  | _ => simp [compensations]

theorem compensations_concat (i : Nat) : compensations (trace ++ [.compensated i]) = compensations trace ++ [i] := by
  simp [compensations]

theorem undoable_congr {trace' : List Mark} (h : ∀ i, hasCompensate steps i = true → (.returned i ∈ trace' ↔ .returned i ∈ trace)) :
    undoable steps trace' = undoable steps trace := by
  refine filter_congr fun i _ => ?_
  cases hc : hasCompensate steps i with
  | false => rfl
  | true => simp only [h i hc]

theorem undoable_concat_of_ne (h : ∀ i, mark ≠ .returned i) : undoable steps (trace ++ [mark]) = undoable steps trace :=
  undoable_congr fun i _ => mem_concat_of_ne (h i)

theorem stopped_concat (h : trace.Pairwise fun earlier later => earlier = .failed → ∀ i, later ≠ .ran i)
    (hm : .failed ∈ trace → ∀ i, mark ≠ .ran i) :
    (trace ++ [mark]).Pairwise fun earlier later => earlier = .failed → ∀ i, later ≠ .ran i := by
  refine pairwise_append.2 ⟨h, pairwise_singleton _ _, ?_⟩
  rintro a ha b hb rfl
  rw [mem_singleton] at hb
  subst hb
  exact hm ha

theorem filter_range_of_lt {c n : Nat} (hc : c ≤ n) {p : Nat → Bool} (hp : ∀ i, p i = true → i < c) :
    (List.range n).filter p = (List.range c).filter p := by
  obtain ⟨k, rfl⟩ := Nat.exists_eq_add_of_le hc
  have hnil : ((List.range k).map (c + ·)).filter p = [] := by
    refine filter_eq_nil_iff.2 fun i hi hpi => ?_
    obtain ⟨j, -, rfl⟩ := mem_map.1 hi
    exact absurd (hp _ hpi) (by omega)
  rw [range_add, filter_append, hnil, append_nil]

/-! ## Recorded outputs -/

/-- Only steps before `c` have an output. -/
def Recorded (steps : List WorkflowStep) (outputs : OrderedMap String Value) (c : Nat) : Prop :=
  ∀ e ∈ outputs, ∃ j < c, ∃ step, steps[j]? = some step ∧ step.name = e.1

theorem Recorded.mono {outputs : OrderedMap String Value} {c c' : Nat} (h : Recorded steps outputs c)
    (hle : c ≤ c') : Recorded steps outputs c' := by
  intro e he
  obtain ⟨j, hj, rest⟩ := h e he
  exact ⟨j, lt_of_lt_of_le hj hle, rest⟩

theorem Recorded.json {outputs : OrderedMap String Value} {c : Nat} (h : Recorded steps outputs c) :
    Recorded steps (jsonOutputs outputs) c := by
  intro e he
  obtain ⟨e', he', heq⟩ := mem_filterMap.1 he
  obtain ⟨image, -, rfl⟩ := Option.map_eq_some_iff.1 heq
  exact h e' he'

theorem Recorded.record {l : Locals} {i : Nat} (h : Recorded steps l.stepOutputs i) (value : Value) :
    Recorded steps (l.record steps i value).stepOutputs (i + 1) := by
  unfold Locals.record
  cases hs : steps[i]? with
  | none => exact h.mono (Nat.le_succ i)
  | some step =>
    intro e he
    rcases OrderedMap.mem_set he with he | rfl
    · exact h.mono (Nat.le_succ i) e he
    · exact ⟨i, Nat.lt_succ_self i, step, hs, rfl⟩

theorem Recorded.readOutput {outputs : OrderedMap String Value} {i : Nat} {step : WorkflowStep}
    (h : Recorded steps outputs i) (hn : Named steps) (hs : steps[i]? = some step) :
    readOutput outputs step.name = .undefined := by
  have hget : outputs.get step.name = none := by
    cases hg : outputs.get step.name with
    | none => rfl
    | some value =>
      obtain ⟨j, hj, step', hs', hname⟩ := h _ (OrderedMap.get_mem hg)
      have hi : i < (steps.map (·.name)).length := by
        rw [length_map]
        exact (List.getElem?_eq_some_iff.1 hs).1
      have heq : (steps.map (·.name))[i]? = (steps.map (·.name))[j]? := by
        rw [getElem?_map, getElem?_map, hs, hs']
        exact congrArg some hname.symm
      have hij := (getElem?_inj hi hn.nodup).1 heq
      omega
  rw [Jobs.readOutput, hget]
  exact if_neg (hn.own step (mem_of_getElem? hs))

end

/-! ## The invariant -/

/-- What the history says of the row: the steps before its `current_step` are those persisted and those
skipped, and no other output is recorded. -/
structure History (steps : List WorkflowStep) (row : WorkflowRow) (entered : Nat) (trace : List Mark) : Prop where
  persisted : ∀ i, .persisted i ∈ trace → .returned i ∈ trace ∧ i < row.currentStep
  skipped : ∀ i, .skipped i ∈ trace → .persisted i ∉ trace
  handled : ∀ i < row.currentStep, .persisted i ∈ trace ∨ .skipped i ∈ trace
  behind : ∀ i, .skipped i ∈ trace → i < row.currentStep
  bounded : row.currentStep ≤ steps.length
  recorded : Recorded steps row.stepOutputs row.currentStep
  entered : entered ≤ row.currentStep

/-- The steps that a call counts as completed: all that it found done, and those that it has persisted. -/
def counted (entered c : Nat) (trace : List Mark) : List Nat :=
  (List.range c).filter fun i => decide (i < entered) || decide (.persisted i ∈ trace)

/-- A call at step `i` of a row that is not failed. -/
structure AtStep (row : WorkflowRow) (entered : Nat) (trace : List Mark) (l : Locals) (i : Nat) : Prop where
  current : row.currentStep = i
  unfailed : .failed ∉ trace
  completed : l.completedSteps.map Prod.fst = counted entered i trace

/-- What is known of a call at each of its places. -/
def Placed (steps : List WorkflowStep) (row : WorkflowRow) (entered : Nat) (trace : List Mark) (l : Locals) : Point → Prop
  | .loop i => AtStep row entered trace l i ∧ Recorded steps l.stepOutputs i
  | .condition i | .marking i | .running i =>
    AtStep row entered trace l i ∧ Recorded steps l.stepOutputs i ∧ i < steps.length
  | .skipping i _ => AtStep row entered trace l i ∧ Recorded steps l.stepOutputs (i + 1) ∧ i < steps.length
  | .persisting i _ =>
    AtStep row entered trace l i ∧ Recorded steps l.stepOutputs (i + 1) ∧ i < steps.length ∧ .returned i ∈ trace
  | .failing status _ => AtStep row entered trace l row.currentStep ∧ status.isFailed = true
  | .compensating rest =>
    .failed ∈ trace ∧ compensations trace ++ (rest.map Prod.fst).filter (hasCompensate steps) = (undoable steps trace).reverse
  | .finishing => .failed ∉ trace
  | .releasing => True

/-- The row that a call has read is the row, and it does not stop there. -/
def Seated (steps : List WorkflowStep) (row : WorkflowRow) (entered : Nat) (trace : List Mark) : Call → Prop
  | .reading | .done => True
  | .locking snapshot => snapshot = row ∧ row.status.stops = false
  | .executing l p => Placed steps row entered trace l p

/-- The invariant of a row's life. -/
structure Kept (steps : List WorkflowStep) (row : WorkflowRow) (call : Call) (entered : Nat) (trace : List Mark) : Prop where
  history : History steps row entered trace
  stopped : trace.Pairwise fun earlier later => earlier = .failed → ∀ i, later ≠ .ran i
  status : row.status.isFailed = true ↔ .failed ∈ trace
  quiet : .failed ∉ trace → compensations trace = []
  seated : Seated steps row entered trace call
  settled : .failed ∈ trace → (∀ l rest, call ≠ .executing l (.compensating rest)) → compensations trace = (undoable steps trace).reverse

section

variable {steps : List WorkflowStep} {row : WorkflowRow} {call : Call} {entered : Nat} {trace : List Mark}

theorem History.mark {mark : Mark} (h : History steps row entered trace) (hp : ∀ i, mark ≠ .persisted i)
    (hs : ∀ i, mark ≠ .skipped i) : History steps row entered (trace ++ [mark]) where
  persisted i hi := by
    rw [mem_concat_of_ne (hp i)] at hi
    exact ⟨mem_append_left _ (h.persisted i hi).1, (h.persisted i hi).2⟩
  skipped i hi := by
    rw [mem_concat_of_ne (hs i)] at hi
    rw [mem_concat_of_ne (hp i)]
    exact h.skipped i hi
  handled i hi := by
    rw [mem_concat_of_ne (hp i), mem_concat_of_ne (hs i)]
    exact h.handled i hi
  behind i hi := by
    rw [mem_concat_of_ne (hs i)] at hi
    exact h.behind i hi
  bounded := h.bounded
  recorded := h.recorded
  entered := h.entered

section

variable (h : History steps row entered trace)
include h

theorem History.past {mark : Mark} {l : Locals} {i : Nat}
    (hi : row.currentStep = i) (hlt : i < steps.length) (hrec : Recorded steps l.stepOutputs (i + 1))
    (hm : mark = .persisted i ∧ .returned i ∈ trace ∨ mark = .skipped i) :
    History steps (row.persist l i) entered (trace ++ [mark]) := by
  have hnew : ∀ j, j < row.currentStep → j < i + 1 := fun j hj => by omega
  refine ⟨fun j hj => ?_, fun j hj hp => ?_, fun j hj => ?_, fun j hj => ?_, hlt, hrec.json, ?_⟩
  · simp only [mem_append, mem_singleton] at hj ⊢
    rcases hj with hj | hj
    · exact ⟨.inl (h.persisted j hj).1, hnew j (h.persisted j hj).2⟩
    · rcases hm with ⟨rfl, hret⟩ | rfl
      · cases hj
        exact ⟨.inl hret, Nat.lt_succ_self i⟩
      · cases hj
  · simp only [mem_append, mem_singleton] at hj hp
    rcases hj with hj | hj
    · rcases hp with hp | rfl
      · exact h.skipped j hj hp
      · rcases hm with ⟨heq, -⟩ | heq
        · cases heq
          exact absurd (h.behind _ hj) (by omega)
        · cases heq
    · rcases hp with hp | rfl
      · subst hj
        rcases hm with ⟨heq, -⟩ | heq
        · cases heq
        · cases heq
          exact absurd (h.persisted _ hp).2 (by omega)
      · cases hj
  · have hj' : j < i + 1 := hj
    simp only [mem_append, mem_singleton]
    rcases Nat.lt_succ_iff_lt_or_eq.1 hj' with hlt | rfl
    · rcases h.handled j (by omega) with hd | hd
      · exact .inl (.inl hd)
      · exact .inr (.inl hd)
    · rcases hm with ⟨rfl, -⟩ | rfl
      · exact .inl (.inr rfl)
      · exact .inr (.inr rfl)
  · simp only [mem_append, mem_singleton] at hj
    rcases hj with hj | hj
    · exact hnew j (h.behind j hj)
    · subst hj
      rcases hm with ⟨heq, -⟩ | heq
      · cases heq
      · cases heq
        exact Nat.lt_succ_self i
  · exact Nat.le_succ_of_le (hi ▸ h.entered)

theorem History.update {row' : WorkflowRow} (hstep : row'.currentStep = row.currentStep) (hout : row'.stepOutputs = row.stepOutputs) :
    History steps row' entered trace := by
  refine ⟨?_, h.skipped, ?_, ?_, ?_, ?_, ?_⟩
  · rw [hstep]
    exact h.persisted
  · rw [hstep]
    exact h.handled
  · rw [hstep]
    exact h.behind
  · rw [hstep]
    exact h.bounded
  · rw [hstep, hout]
    exact h.recorded
  · rw [hstep]
    exact h.entered

theorem counted_concat {i : Nat} {mark : Mark} (hi : row.currentStep = i) (hs : mark = .skipped i ∨ mark = .persisted i) :
    counted entered (i + 1) (trace ++ [mark]) = counted entered i trace ++ (if mark = .persisted i then [i] else []) := by
  have hent : ¬ i < entered := by have := h.entered; omega
  have hnot : .persisted i ∉ trace := fun hp => absurd (h.persisted i hp).2 (by omega)
  have hold : (List.range i).filter (fun j => decide (j < entered) || decide (.persisted j ∈ trace ++ [mark])) = counted entered i trace := by
    refine filter_congr fun j hj => ?_
    have hne : mark ≠ .persisted j := by
      rintro rfl
      rcases hs with hs | hs
      · cases hs
      · cases hs
        exact absurd (mem_range.1 hj) (lt_irrefl _)
    simp only [mem_concat_of_ne hne]
  rw [counted, range_succ, filter_append, hold]
  congr 1
  rcases hs with rfl | rfl
  · simp [hent, hnot]
  · simp [hent]

theorem undoable_eq_counted (hu : Undoable steps entered trace) :
    undoable steps trace = (counted entered row.currentStep trace).filter (hasCompensate steps) := by
  have hlt : ∀ i, (hasCompensate steps i && decide (.returned i ∈ trace)) = true → i < row.currentStep := by
    intro i hi
    simp only [Bool.and_eq_true, decide_eq_true_eq] at hi
    exact (h.persisted i ((hu i hi.1).1 hi.2)).2
  rw [undoable, filter_range_of_lt h.bounded hlt, counted, filter_filter]
  refine filter_congr fun i hi => ?_
  have hi' := mem_range.1 hi
  cases hc : hasCompensate steps i with
  | false => rfl
  | true =>
    rw [Bool.eq_iff_iff]
    simp only [Bool.true_and, Bool.and_eq_true, Bool.or_eq_true, decide_eq_true_eq]
    constructor
    · exact fun hr => .inr ((hu i hc).1 hr)
    · rintro (he | hp)
      · rcases h.handled i hi' with hp | hs
        · exact (h.persisted i hp).1
        · exact absurd hs ((hu i hc).2 he)
      · exact (h.persisted i hp).1

end

end

/-! ## One step of a call -/

section

variable {steps : List WorkflowStep} {row : WorkflowRow} {call : Call} {entered : Nat} {trace : List Mark}

variable {call' : Call}

theorem Kept.move (h : Kept steps row call entered trace) (hseated : Seated steps row entered trace call')
    (hsettled : .failed ∈ trace → (∀ l rest, call' ≠ .executing l (.compensating rest)) →
      compensations trace = (undoable steps trace).reverse) :
    Kept steps row call' entered trace :=
  ⟨h.history, h.stopped, h.status, h.quiet, hseated, hsettled⟩

/-- What the row, the call and the history are after a step of the call. -/
def Kept.After (steps : List WorkflowStep) (entered : Nat) (trace : List Mark) (r : WorkflowRow × Call × List Mark) :
    Prop :=
  Kept steps r.1 r.2.1 entered (trace ++ r.2.2)

section

variable (h : Kept steps row call entered trace)
include h

theorem Kept.after : Kept.After steps entered trace (row, call, []) := by
  rw [Kept.After, append_nil]
  exact h

theorem Kept.moveUnfailed (hno : .failed ∉ trace) (hseated : Seated steps row entered trace call') : Kept steps row call' entered trace :=
  h.move hseated fun hf => absurd hf hno

theorem Kept.markUnfailed {row' : WorkflowRow} {mark : Mark}
    (hno : .failed ∉ trace) (hfailed : mark ≠ .failed) (hcomp : ∀ i, mark ≠ .compensated i)
    (hstatus : row'.status.isFailed = false) (hhistory : History steps row' entered (trace ++ [mark]))
    (hseated : Seated steps row' entered (trace ++ [mark]) call') :
    Kept steps row' call' entered (trace ++ [mark]) := by
  have hno' := unfailed_concat hno hfailed
  refine ⟨hhistory, stopped_concat h.stopped fun hf => absurd hf hno, ?_, fun _ => ?_, hseated, fun hf => ?_⟩
  · rw [hstatus]
    exact ⟨nofun, fun hf => absurd hf hno'⟩
  · rw [compensations_concat_of_ne hcomp]
    exact h.quiet hno
  · exact absurd hf hno'

theorem Kept.unfailed_status (hno : .failed ∉ trace) : row.status.isFailed = false := by
  cases hs : row.status.isFailed with
  | false => rfl
  | true => exact absurd (h.status.1 hs) hno

end

theorem AtStep.mark {l : Locals} {i : Nat} {mark : Mark} (h : AtStep row entered trace l i) (hf : mark ≠ .failed)
    (hp : ∀ j, mark ≠ .persisted j) : AtStep row entered (trace ++ [mark]) l i where
  current := h.current
  unfailed := unfailed_concat h.unfailed hf
  completed := by
    rw [h.completed, counted, counted]
    refine filter_congr fun j _ => ?_
    simp only [mem_concat_of_ne (hp j)]

variable {l : Locals} {i : Nat}

theorem Kept.loop (hn : Named steps) (h : Kept steps row (.executing l (.loop i)) entered trace) :
    Kept steps row (loopHead steps l i) entered trace := by
  obtain ⟨hat, hrec⟩ := h.seated
  refine h.moveUnfailed hat.unfailed ?_
  unfold loopHead
  cases hs : steps[i]? with
  | none => exact hat.unfailed
  | some step =>
    have hlt := (of_getElem?_eq_some hs)
    simp only [hrec.readOutput hn hs, Value.isUndefined, if_true]
    cases step.condition with
    | true => exact ⟨hat, hrec, hlt⟩
    | false => exact ⟨hat, hrec, hlt⟩

theorem Kept.skipping {passthrough : Value} (h : Kept steps row (.executing l (.skipping i passthrough)) entered trace) :
    Kept steps (row.persist l i) (.executing { l with currentInput := passthrough } (.loop (i + 1))) entered (trace ++ [.skipped i]) := by
  obtain ⟨hat, hrec, hlt⟩ := h.seated
  refine h.markUnfailed hat.unfailed nofun nofun (h.unfailed_status hat.unfailed)
    (h.history.past hat.current hlt hrec (.inr rfl)) ⟨⟨rfl, unfailed_concat hat.unfailed nofun, ?_⟩, hrec⟩
  rw [counted_concat h.history hat.current (.inl rfl), if_neg (by rintro ⟨⟩), append_nil]
  exact hat.completed

theorem Kept.marking (h : Kept steps row (.executing l (.marking i)) entered trace) :
    Kept steps { row with status := .running, currentStep := i } (.executing l (.running i)) entered (trace ++ [.ran i]) := by
  obtain ⟨hat, hrec, hlt⟩ := h.seated
  have hhistory : History steps row entered (trace ++ [.ran i]) := h.history.mark nofun nofun
  have hat' : AtStep row entered (trace ++ [.ran i]) l i := hat.mark nofun nofun
  exact h.markUnfailed hat.unfailed nofun nofun rfl (hhistory.update hat.current.symm rfl) ⟨⟨rfl, hat'.unfailed, hat'.completed⟩, hrec, hlt⟩

theorem Kept.running (h : Kept steps row (.executing l (.running i)) entered trace) (output : Value) :
    Kept steps row (.executing (l.record steps i output) (.persisting i output)) entered (trace ++ [.returned i]) := by
  obtain ⟨hat, hrec, hlt⟩ := h.seated
  have hcompleted : (l.record steps i output).completedSteps = l.completedSteps := by
    unfold Locals.record
    cases steps[i]? <;> rfl
  have hat' : AtStep row entered (trace ++ [.returned i]) l i := hat.mark nofun nofun
  refine h.markUnfailed hat.unfailed nofun nofun (h.unfailed_status hat.unfailed) (h.history.mark nofun nofun)
    ⟨⟨hat'.current, hat'.unfailed, ?_⟩, hrec.record output, hlt, mem_append_right _ (mem_singleton.2 rfl)⟩
  rw [hcompleted]
  exact hat'.completed

theorem Kept.persisting {output : Value} (h : Kept steps row (.executing l (.persisting i output)) entered trace) :
    Kept steps (row.persist l i) (.executing { l with completedSteps := l.completedSteps ++ [(i, output)], currentInput := output }
        (.loop (i + 1))) entered (trace ++ [.persisted i]) := by
  obtain ⟨hat, hrec, hlt, hret⟩ := h.seated
  refine h.markUnfailed hat.unfailed nofun nofun (h.unfailed_status hat.unfailed)
    (h.history.past hat.current hlt hrec (.inl ⟨rfl, hret⟩)) ⟨⟨rfl, unfailed_concat hat.unfailed nofun, ?_⟩, hrec⟩
  rw [counted_concat h.history hat.current (.inr rfl), if_pos rfl, map_append, hat.completed]
  rfl

theorem Kept.failing {status : WorkflowStatus} {error : String}
    (h : Kept steps row (.executing l (.failing status error)) entered trace) (hu : Undoable steps entered trace) :
    Kept steps { row with status, error := some error }
      (.executing l (.compensating l.completedSteps.reverse)) entered (trace ++ [.failed]) := by
  obtain ⟨hat, hstatus⟩ := h.seated
  have hmem : .failed ∈ trace ++ [.failed] := mem_append_right _ (mem_singleton.2 rfl)
  have hhistory : History steps row entered (trace ++ [.failed]) := h.history.mark nofun nofun
  have hcomp : compensations (trace ++ [.failed]) = compensations trace := compensations_concat_of_ne nofun
  have hundo : undoable steps (trace ++ [.failed]) = undoable steps trace := undoable_concat_of_ne nofun
  refine ⟨hhistory.update rfl rfl, stopped_concat h.stopped fun _ => nofun, ⟨fun _ => hmem, fun _ => hstatus⟩,
    fun hno => absurd hmem hno, ⟨hmem, ?_⟩, fun _ hno => absurd rfl (hno _ _)⟩
  rw [hcomp, h.quiet hat.unfailed, hundo, undoable_eq_counted h.history hu, map_reverse, hat.completed, nil_append, filter_reverse]

theorem Kept.compensating {output : Value} {rest : List (Nat × Value)}
    (h : Kept steps row (.executing l (.compensating ((i, output) :: rest))) entered trace) :
    Kept steps row (.executing l (.compensating rest)) entered (trace ++ if hasCompensate steps i then [.compensated i] else []) := by
  obtain ⟨hfailed, hrest⟩ := h.seated
  cases hc : hasCompensate steps i with
  | false =>
    rw [if_neg (by decide), append_nil]
    refine h.move ⟨hfailed, ?_⟩ fun _ hno => absurd rfl (hno _ _)
    rw [← hrest, map_cons, filter_cons_of_neg (by rw [hc]; decide)]
  | true =>
    rw [if_pos rfl]
    have hmem : .failed ∈ trace ++ [.compensated i] := mem_append_left _ hfailed
    refine ⟨h.history.mark nofun nofun, stopped_concat h.stopped fun _ => nofun,
      ⟨fun _ => hmem, fun _ => h.status.2 hfailed⟩, fun hno => absurd hmem hno, ⟨hmem, ?_⟩,
      fun _ hno => absurd rfl (hno _ _)⟩
    have hundo : undoable steps (trace ++ [.compensated i]) = undoable steps trace := undoable_concat_of_ne nofun
    rw [compensations_concat, hundo, ← hrest, map_cons, filter_cons_of_pos hc, append_assoc, singleton_append]

/-- The compensations are over. -/
theorem Kept.compensated (h : Kept steps row (.executing l (.compensating [])) entered trace)
    (hseated : Seated steps row entered trace call') : Kept.After steps entered trace (row, call', []) := by
  obtain ⟨-, hrest⟩ := h.seated
  refine (h.move hseated fun _ _ => ?_).after
  rw [← hrest, map_nil, filter_nil, append_nil]

theorem Kept.finishing (h : Kept steps row (.executing l .finishing) entered trace) :
    Kept steps { row with status := .completed } (.executing l .releasing) entered trace := by
  have hno : .failed ∉ trace := h.seated
  exact ⟨h.history.update rfl rfl, h.stopped, ⟨fun hf => (by cases hf), fun hf => absurd hf hno⟩, h.quiet, trivial, fun hf => absurd hf hno⟩

end

/-! ## Runs -/

section

variable {steps : List WorkflowStep} {row : WorkflowRow} {call : Call} {entered : Nat} {trace : List Mark}

theorem Kept.goes (h : Kept steps row call entered trace) {call' : Call} (hno : .failed ∉ trace)
    (hseated : Seated steps row entered trace call') : Kept.After steps entered trace (row, call', []) :=
  (h.moveUnfailed hno hseated).after

theorem Kept.leaves (h : Kept steps row call entered trace) {call' : Call}
    (hcall : ∀ l rest, call ≠ .executing l (.compensating rest)) (hseated : Seated steps row entered trace call') :
    Kept.After steps entered trace (row, call', []) :=
  (h.move hseated fun hf _ => h.settled hf hcall).after

theorem Kept.execute (hn : Named steps) {l : Locals} {p : Point} (h : Kept steps row (.executing l p) entered trace) (answer : Answer)
    (hg : ∀ status error, p = .failing status error → answer = .ok → Undoable steps entered trace) :
    Kept.After steps entered trace (Jobs.execute steps row l p answer) := by
  cases p with
  | loop i => exact (h.loop hn).after
  | condition i =>
    obtain ⟨hat, hrec, hlt⟩ := h.seated
    cases answer with
    | condition b =>
      cases b with
      | true => exact h.goes hat.unfailed ⟨hat, hrec, hlt⟩
      | false =>
        have hcompleted : (l.record steps i (orNull l.currentInput)).completedSteps = l.completedSteps := by
          unfold Locals.record
          cases steps[i]? <;> rfl
        refine h.goes hat.unfailed ⟨⟨hat.current, hat.unfailed, ?_⟩, hrec.record _, hlt⟩
        rw [hcompleted]
        exact hat.completed
    | fails error => exact h.goes hat.unfailed trivial
    | _ => exact h.after
  | skipping i passthrough =>
    obtain ⟨hat, -⟩ := h.seated
    cases answer with
    | ok => exact h.skipping
    | fails error => exact h.goes hat.unfailed trivial
    | _ => exact h.after
  | marking i =>
    obtain ⟨hat, -⟩ := h.seated
    cases answer with
    | ok => exact h.marking
    | fails error => exact h.goes hat.unfailed trivial
    | _ => exact h.after
  | running i =>
    obtain ⟨hat, hrec, hlt⟩ := h.seated
    have hat' : AtStep row entered trace l row.currentStep := by rw [hat.current]; exact hat
    cases answer with
    | returns output => exact h.running output
    | fails error =>
      exact h.goes hat.unfailed ⟨hat', rfl⟩
    | timesOut =>
      unfold Jobs.execute
      dsimp only
      cases timeoutOf steps i with
      | some error =>
        exact h.goes hat.unfailed ⟨hat', rfl⟩
      | none => exact h.after
    | _ => exact h.after
  | persisting i output =>
    obtain ⟨hat, hrec, hlt⟩ := h.seated
    have hat' : AtStep row entered trace l row.currentStep := by rw [hat.current]; exact hat
    cases answer with
    | ok => exact h.persisting
    | fails error =>
      exact h.goes hat.unfailed ⟨hat', rfl⟩
    | _ => exact h.after
  | failing status error =>
    obtain ⟨hat, -⟩ := h.seated
    cases answer with
    | ok => exact h.failing (hg status error rfl rfl)
    | fails error => exact h.goes hat.unfailed trivial
    | _ => exact h.after
  | compensating rest =>
    cases rest with
    | nil => exact h.compensated trivial
    | cons e rest => exact h.compensating
  | finishing =>
    cases answer with
    | ok => exact h.finishing.after
    | fails error => exact h.goes h.seated trivial
    | _ => exact h.after
  | releasing => exact h.leaves (by simp) trivial

theorem Kept.locking {snapshot : WorkflowRow} (h : Kept steps row (.locking snapshot) entered trace) (hg : snapshot.status ≠ .timedOut) :
    Kept steps row (enter steps snapshot) snapshot.currentStep trace := by
  obtain ⟨rfl, hstops⟩ := h.seated
  have hno : .failed ∉ trace := by
    rw [← h.status]
    cases hs : snapshot.status with
    | timedOut => exact absurd hs hg
    | failed =>
      rw [hs] at hstops
      cases hstops
    | _ => nofun
  refine ⟨{ h.history with entered := le_rfl }, h.stopped, h.status, h.quiet, ⟨⟨rfl, hno, ?_⟩, h.history.recorded⟩, fun hf => absurd hf hno⟩
  have hall : counted snapshot.currentStep snapshot.currentStep trace = List.range snapshot.currentStep :=
    filter_eq_self.2 fun i hi => by simp [mem_range.1 hi]
  rw [hall, rebuild, map_filterMap]
  refine (filterMap_congr fun i hi => ?_).trans filterMap_some
  have hlt : i < steps.length := lt_of_lt_of_le (mem_range.1 hi) h.history.bounded
  rw [getElem?_eq_getElem hlt]
  rfl

theorem Kept.lateReturn (h : Kept steps row call entered trace) {i : Nat}
    (hg : row.status.isFailed = true → hasCompensate steps i = true → .returned i ∈ trace) :
    Kept steps row call entered (trace ++ [.returned i]) := by
  have hfailed : .failed ∈ trace ++ [.returned i] ↔ .failed ∈ trace := mem_concat_of_ne nofun
  have hcomp : compensations (trace ++ [.returned i]) = compensations trace := compensations_concat_of_ne nofun
  have hundo : .failed ∈ trace → undoable steps (trace ++ [.returned i]) = undoable steps trace := by
    refine fun hf => undoable_congr fun j hj => ?_
    by_cases hji : j = i
    · subst hji
      exact iff_of_true (mem_append_right _ (mem_singleton.2 rfl)) (hg (h.status.2 hf) hj)
    · exact mem_concat_of_ne fun heq => hji (by cases heq; rfl)
  refine ⟨h.history.mark nofun nofun, stopped_concat h.stopped fun _ => nofun, ?_, ?_, ?_, ?_⟩
  · rw [hfailed]
    exact h.status
  · rw [hfailed, hcomp]
    exact h.quiet
  · cases call with
    | reading => trivial
    | done => trivial
    | locking snapshot => exact h.seated
    | executing l p =>
      cases p with
      | loop i => exact ⟨h.seated.1.mark nofun nofun, h.seated.2⟩
      | condition i => exact ⟨h.seated.1.mark nofun nofun, h.seated.2⟩
      | skipping i passthrough => exact ⟨h.seated.1.mark nofun nofun, h.seated.2⟩
      | marking i => exact ⟨h.seated.1.mark nofun nofun, h.seated.2⟩
      | running i => exact ⟨h.seated.1.mark nofun nofun, h.seated.2⟩
      | persisting i output =>
        obtain ⟨hat, hrec, hlt, hret⟩ := h.seated
        exact ⟨hat.mark nofun nofun, hrec, hlt, mem_append_left _ hret⟩
      | failing status error => exact ⟨h.seated.1.mark nofun nofun, h.seated.2⟩
      | compensating rest =>
        obtain ⟨hf, hrest⟩ := h.seated
        refine ⟨hfailed.2 hf, ?_⟩
        rw [hcomp, hundo hf]
        exact hrest
      | finishing => exact unfailed_concat h.seated nofun
      | releasing => trivial
  · intro hf hno
    have hf' := hfailed.1 hf
    rw [hcomp, hundo hf']
    exact h.settled hf' hno

theorem Kept.crash (h : Kept steps row call entered trace)
    (hg : ∀ l rest, call = .executing l (.compensating rest) → ∀ e ∈ rest, hasCompensate steps e.1 = false) :
    Kept steps row .done entered trace := by
  refine h.move trivial fun hf _ => ?_
  by_cases hcall : ∃ l rest, call = .executing l (.compensating rest)
  · obtain ⟨l, rest, rfl⟩ := hcall
    obtain ⟨-, hrest⟩ := h.seated
    have hnil : (rest.map Prod.fst).filter (hasCompensate steps) = [] := by
      refine filter_eq_nil_iff.2 fun i hi hc => ?_
      obtain ⟨e, he, rfl⟩ := mem_map.1 hi
      rw [hg l rest rfl e he] at hc
      cases hc
    rw [← hrest, hnil, append_nil]
  · exact h.settled hf fun l rest heq => hcall ⟨l, rest, heq⟩

end

/-- The invariant of a saga. -/
def Saga.Kept (steps : List WorkflowStep) (s : Saga) : Prop := Jobs.Kept steps s.row s.call s.entered s.trace

theorem Saga.kept_start (steps : List WorkflowStep) (input : Value) : (Saga.start input).Kept steps where
  history :=
    { persisted := nofun
      skipped := nofun
      handled := nofun
      behind := nofun
      bounded := Nat.zero_le _
      recorded := nofun
      entered := Nat.le_refl 0 }
  stopped := List.Pairwise.nil
  status := ⟨nofun, nofun⟩
  quiet _ := rfl
  seated := trivial
  settled := nofun

section

variable {steps : List WorkflowStep} {s : Saga}

theorem Saga.Kept.advance (hn : Named steps) (h : s.Kept steps) {answer : Answer}
    (hg : Orderly steps s (.advance answer)) : (s.step steps (.advance answer)).Kept steps := by
  obtain ⟨row, call, entered, late, trace⟩ := s
  have h : Jobs.Kept steps row call entered trace := h
  cases call with
  | reading =>
    cases answer with
    | ok =>
      have hseated : Seated steps row entered trace (if row.status.stops then .done else .locking row) := by
        cases hs : row.status.stops with
        | true => trivial
        | false => exact ⟨rfl, hs⟩
      exact h.leaves nofun hseated
    | fails error => exact h.leaves nofun trivial
    | _ => exact h.after
  | locking snapshot =>
    cases answer with
    | ok => exact (h.locking hg).after
    | fails error => exact h.leaves nofun trivial
    | _ => exact h.after
  | executing l p =>
    refine h.execute hn answer ?_
    rintro status error rfl rfl
    exact hg
  | done => exact h.after

theorem Saga.Kept.step (hn : Named steps) (h : s.Kept steps) {e : SagaEvent} (hg : Orderly steps s e) : (s.step steps e).Kept steps := by
  cases e with
  | resume =>
    obtain ⟨row, call, entered, late, trace⟩ := s
    cases call with
    | done => exact h.move trivial fun hf _ => h.settled hf nofun
    | _ => exact h
  | advance answer => exact h.advance hn hg
  | crash =>
    refine Jobs.Kept.crash h fun l rest hcall e he => ?_
    simp only [Orderly, hcall] at hg
    exact hg e he
  | lateReturn i =>
    simp only [Saga.step]
    split
    · exact Jobs.Kept.lateReturn h hg
    · exact h

theorem Saga.Kept.atomic (h : s.Kept steps) : Atomic steps s := by
  have hcomplete : s.row.status.isFailed = true → (∀ l rest, s.call ≠ .executing l (.compensating rest)) →
      compensations s.trace = (undoable steps s.trace).reverse := fun hf => h.settled (h.status.1 hf)
  refine ⟨h.stopped, fun hf => ?_, hcomplete⟩
  by_cases hcall : ∃ l rest, s.call = .executing l (.compensating rest)
  · obtain ⟨l, rest, heq⟩ := hcall
    have hseated : Seated steps s.row s.entered s.trace s.call := h.seated
    rw [heq] at hseated
    exact ⟨_, hseated.2⟩
  · exact (hcomplete hf fun l rest heq => hcall ⟨l, rest, heq⟩) ▸ prefix_rfl

end

/-- A row's whole life, over every definition with names of its own and every order of resumes, stops and
failing statements in which timed out rows are left alone, failures are recorded when they can be undone and
compensations are not cut short: after a failure no step is run, and exactly the steps with a `compensate`
that have returned are compensated, once each and in reverse order. -/
theorem atomic_of_orderly (steps : List WorkflowStep) (hn : Named steps) (input : Value) (es : List SagaEvent)
    (hg : Guarded (Saga.step steps) (Orderly steps) (Saga.start input) es) :
    Atomic steps (run (Saga.step steps) (Saga.start input) es) :=
  (run_invariant_of_guarded (P := Saga.Kept steps) (Saga.step steps) (fun _ _ h hg => h.step hn hg) es hg
    (Saga.kept_start steps input)).atomic

/-- Two steps of which the second fails: the first is compensated. -/
def declined : List SagaEvent :=
  [.advance .ok, .advance .ok, .advance .ok, .advance .ok, .advance (.returns (.num 7)), .advance .ok,
    .advance .ok, .advance .ok, .advance (.fails "card declined"), .advance .ok,
    .advance .ok, .advance .ok, .advance .ok, .resume, .advance .ok]

/-- A reservation is given back when the charge is declined. -/
theorem atomic_of_orderly_declined : Atomic [{ name := "reserve" }, { name := "charge" }]
      (run (Saga.step [{ name := "reserve" }, { name := "charge" }]) (Saga.start .null) declined) := by
  refine atomic_of_orderly [{ name := "reserve" }, { name := "charge" }] ⟨by decide, by decide⟩ .null declined
    ⟨trivial, (nofun : WorkflowStatus.pending ≠ .timedOut), trivial, trivial, trivial, trivial, trivial, trivial,
      trivial, ?_, trivial, trivial, trivial, trivial, trivial, trivial⟩
  show Undoable _ 0 [.ran 0, .returned 0, .persisted 0, .ran 1]
  refine fun i _ => ⟨fun hi => ?_, nofun⟩
  simp only [mem_cons, reduceCtorEq, Mark.returned.injEq, not_mem_nil, or_false, false_or] at hi
  subst hi
  decide

/-- A step times out; the row is resumed. -/
def resumedTimeout : List SagaEvent :=
  [.advance .ok, .advance .ok, .advance .ok, .advance .ok, .advance .timesOut, .advance .ok, .advance .ok,
    .advance .ok, .resume, .advance .ok, .advance .ok, .advance .ok, .advance .ok]

/-- The first step is skipped, the process stops, and after the resume the second fails. -/
def resumedSkip : List SagaEvent :=
  [.advance .ok, .advance .ok, .advance .ok, .advance (.condition false), .advance .ok, .crash, .resume,
    .advance .ok, .advance .ok, .advance .ok, .advance .ok, .advance (.fails "card declined"), .advance .ok,
    .advance .ok, .advance .ok]

/-- A run returns and the UPDATE that follows it fails. -/
def unpersisted : List SagaEvent :=
  [.advance .ok, .advance .ok, .advance .ok, .advance .ok, .advance (.returns (.num 7)),
    .advance (.fails "connection reset"), .advance .ok, .advance .ok]

/-- A timed out row runs its step again; a skipped step is compensated; a step that has returned is not. -/
theorem broken_saga_counterexample :
    (run (Saga.step [{ name := "charge", timeoutMs := some 50 }]) (Saga.start .null) resumedTimeout).trace = [.ran 0, .failed, .ran 0] ∧
      (run (Saga.step [{ name := "reserve", condition := true }, { name := "charge" }]) (Saga.start .null)
        resumedSkip).trace = [.skipped 0, .ran 1, .failed, .compensated 0] ∧
      (run (Saga.step [{ name := "charge" }]) (Saga.start .null) unpersisted).trace = [.ran 0, .returned 0, .failed] ∧
      ¬ Atomic [{ name := "charge", timeoutMs := some 50 }]
        (run (Saga.step [{ name := "charge", timeoutMs := some 50 }]) (Saga.start .null) resumedTimeout) ∧
      ¬ Atomic [{ name := "reserve", condition := true }, { name := "charge" }]
        (run (Saga.step [{ name := "reserve", condition := true }, { name := "charge" }]) (Saga.start .null) resumedSkip) ∧
      ¬ Atomic [{ name := "charge" }] (run (Saga.step [{ name := "charge" }]) (Saga.start .null) unpersisted) := by
  refine ⟨rfl, rfl, rfl, fun h => ?_, fun h => ?_, fun h => ?_⟩
  · have hlast := (pairwise_append.1 (show ([.ran 0, .failed] ++ [.ran 0] : List Mark).Pairwise _ from
      h.stopped)).2.2
    exact hlast .failed (by decide) (.ran 0) (by decide) rfl 0 rfl
  · exact absurd (h.complete rfl nofun) (by decide)
  · exact absurd (h.complete rfl nofun) (by decide)

end StreetJS.Jobs
