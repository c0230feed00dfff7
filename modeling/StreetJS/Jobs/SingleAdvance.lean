/-
Concurrent calls of `resume` on one workflow row, under a lock that excludes: whether a step that one
call has persisted is run again by another.
-/
import StreetJS.Jobs.WorkflowEngine

namespace StreetJS.Jobs

open StreetJS.Lib List

/-! ## Calls that share a row -/

/-- The row, the call that has the lock, the calls, and what they have done. -/
structure Calls where
  row : WorkflowRow
  lock : Option Nat := none
  call : Nat → Call := fun _ => .reading
  trace : List (Nat × Mark) := []

/-- A call goes on, or its process stops and its session gives the lock back. -/
inductive CallEvent where
  | advance (c : Nat) (answer : Answer)
  | crash (c : Nat)

namespace Calls

variable (steps : List WorkflowStep)

/-- Call `c` goes on, on the row. -/
def goOn (s : Calls) (c : Nat) (answer : Answer) : Calls :=
  let r := Jobs.advance steps s.row (s.call c) answer
  { s with
    row := r.1
    call := Function.update s.call c r.2.1
    trace := s.trace ++ r.2.2.map fun mark => (c, mark) }

/-- The lock is given to one call at a time; a release that fails leaves it taken. -/
def step (s : Calls) : CallEvent → Calls
  | .advance c answer =>
    match s.call c, answer with
    | .locking _, .ok => if s.lock = none then { s.goOn steps c .ok with lock := some c } else s
    | .executing _ .releasing, .ok => { s.goOn steps c .ok with lock := none }
    | _, _ => s.goOn steps c answer
  | .crash c =>
    { s with call := Function.update s.call c .done, lock := if s.lock = some c then none else s.lock }

end Calls

/-- No call runs a step that another has persisted before. -/
def SingleAdvance (trace : List (Nat × Mark)) : Prop :=
  trace.Pairwise fun earlier later => ∀ i, earlier.2 = .persisted i → later.2 = .ran i → earlier.1 = later.1

/-- A call that takes the lock has read the row at its present step. -/
def Fresh (s : Calls) : CallEvent → Prop
  | .advance c .ok =>
    match s.call c with
    | .locking snapshot => s.lock = none → s.row.currentStep ≤ snapshot.currentStep
    | _ => True
  | _ => True

/-! ## What one step of the call with the lock does -/

/-- The step that a call in the critical section is at. -/
def Point.index : Point → Option Nat
  | .loop i | .condition i | .skipping i _ | .marking i | .running i | .persisting i _ => some i
  | _ => none

/-- The step of the call is not before the row's. -/
def Current (row : WorkflowRow) (p : Point) : Prop := ∀ i, p.index = some i → row.currentStep ≤ i

/-- From a current place the row does not go back, what is persisted is behind it, what is run is not,
and the place stays current. -/
structure Advances (row : WorkflowRow) (r : WorkflowRow × Call × List Mark) : Prop where
  le : row.currentStep ≤ r.1.currentStep
  persisted : ∀ i, .persisted i ∈ r.2.2 → i < r.1.currentStep
  ran : ∀ i, .ran i ∈ r.2.2 → row.currentStep ≤ i
  current : ∀ l p, r.2.1 = .executing l p → Current r.1 p

section

variable {steps : List WorkflowStep} {row : WorkflowRow}

theorem current_none {p : Point} (h : p.index = none) : Current row p := by
  intro i hi
  rw [h] at hi
  cases hi

theorem current_of {p : Point} {i : Nat} (h : p.index = some i) (hle : row.currentStep ≤ i) : Current row p := by
  intro j hj
  rw [h] at hj
  cases hj
  exact hle

theorem Advances.still {call : Call} {marks : List Mark} (hp : ∀ i, .persisted i ∉ marks)
    (hr : ∀ i, .ran i ∉ marks) (hcall : ∀ l p, call = .executing l p → Current row p) :
    Advances row (row, call, marks) :=
  ⟨le_rfl, fun i h => absurd h (hp i), fun i h => absurd h (hr i), hcall⟩

theorem Advances.quiet {l : Locals} {p : Point} (hp : Current row p) : Advances row (row, .executing l p, []) := by
  refine Advances.still (fun i h => by cases h) (fun i h => by cases h) ?_
  rintro l' p' ⟨⟩
  exact hp

theorem loopHead_current {l l' : Locals} {i : Nat} {p : Point} (hle : row.currentStep ≤ i)
    (h : loopHead steps l i = .executing l' p) : Current row p := by
  unfold loopHead at h
  split at h
  · cases h
    exact current_none rfl
  · simp only at h
    split at h
    · split at h
      · cases h
        exact current_of rfl hle
      · cases h
        exact current_of rfl hle
    · cases h
      exact current_of rfl (Nat.le_succ_of_le hle)

theorem execute_advances (steps : List WorkflowStep) (l : Locals) {p : Point} (hp : Current row p) (answer : Answer) :
    Advances row (execute steps row l p answer) := by
  cases p with
  | loop i =>
    refine Advances.still (fun i h => by cases h) (fun i h => by cases h) fun l' p' h => ?_
    exact loopHead_current (hp i rfl) h
  | condition i =>
    have hle := hp i rfl
    cases answer with
    | condition b => cases b <;> exact Advances.quiet (current_of rfl hle)
    | fails error => exact Advances.quiet (current_none rfl)
    | _ => exact Advances.quiet hp
  | skipping i passthrough =>
    have hle := hp i rfl
    cases answer with
    | ok =>
      refine ⟨Nat.le_succ_of_le hle, fun j h => ?_, fun j h => ?_, ?_⟩
      · simp only [execute, mem_singleton] at h
        cases h
      · simp only [execute, mem_singleton] at h
        cases h
      · rintro l' p' ⟨⟩
        exact current_of rfl le_rfl
    | fails error => exact Advances.quiet (current_none rfl)
    | _ => exact Advances.quiet hp
  | marking i =>
    have hle := hp i rfl
    cases answer with
    | ok =>
      refine ⟨hle, fun j h => ?_, fun j h => ?_, ?_⟩
      · simp only [execute, mem_singleton] at h
        cases h
      · simp only [execute, mem_singleton] at h
        cases h
        exact hle
      · rintro l' p' ⟨⟩
        exact current_of rfl le_rfl
    | fails error => exact Advances.quiet (current_none rfl)
    | _ => exact Advances.quiet hp
  | running i =>
    have hle := hp i rfl
    cases answer with
    | returns output =>
      refine Advances.still (fun j h => ?_) (fun j h => ?_) ?_
      · cases mem_singleton.1 h
      · cases mem_singleton.1 h
      · rintro l' p' ⟨⟩
        exact current_of rfl hle
    | fails error => exact Advances.quiet (current_none rfl)
    | timesOut =>
      unfold execute
      dsimp only
      cases timeoutOf steps i with
      | some error => exact Advances.quiet (current_none rfl)
      | none => exact Advances.quiet hp
    | _ => exact Advances.quiet hp
  | persisting i output =>
    have hle := hp i rfl
    cases answer with
    | ok =>
      refine ⟨Nat.le_succ_of_le hle, fun j h => ?_, fun j h => ?_, ?_⟩
      · simp only [execute, mem_singleton] at h
        cases h
        exact Nat.lt_succ_self _
      · simp only [execute, mem_singleton] at h
        cases h
      · rintro l' p' ⟨⟩
        exact current_of rfl le_rfl
    | fails error => exact Advances.quiet (current_none rfl)
    | _ => exact Advances.quiet hp
  | failing status error =>
    cases answer with
    | ok =>
      refine ⟨le_rfl, fun j h => ?_, fun j h => ?_, ?_⟩
      · simp only [execute, mem_singleton] at h
        cases h
      · simp only [execute, mem_singleton] at h
        cases h
      · rintro l' p' ⟨⟩
        exact current_none rfl
    | fails error => exact Advances.quiet (current_none rfl)
    | _ => exact Advances.quiet hp
  | compensating rest =>
    cases rest with
    | nil => exact Advances.quiet (current_none rfl)
    | cons e rest =>
      obtain ⟨i, output⟩ := e
      refine Advances.still (fun j h => ?_) (fun j h => ?_) ?_
      · split at h
        · cases mem_singleton.1 h
        · cases h
      · split at h
        · cases mem_singleton.1 h
        · cases h
      · rintro l' p' ⟨⟩
        exact current_none rfl
  | finishing =>
    cases answer with
    | ok =>
      refine ⟨le_rfl, fun j h => (by cases h), fun j h => (by cases h), ?_⟩
      rintro l' p' ⟨⟩
      exact current_none rfl
    | fails error => exact Advances.quiet (current_none rfl)
    | _ => exact Advances.quiet hp
  | releasing => exact Advances.still (fun i h => by cases h) (fun i h => by cases h) (by simp)

theorem advance_before (steps : List WorkflowStep) (row : WorkflowRow) {call : Call} (answer : Answer) (hcall : ∀ l p, call ≠ .executing l p) :
    (advance steps row call answer).1 = row ∧ (advance steps row call answer).2.2 = [] := by
  cases call with
  | reading => cases answer <;> exact ⟨rfl, rfl⟩
  | locking snapshot => cases answer <;> exact ⟨rfl, rfl⟩
  | executing l p => exact absurd rfl (hcall l p)
  | done => exact ⟨rfl, rfl⟩

theorem advance_begins {call : Call} {answer : Answer} {l : Locals} {p : Point}
    (hcall : ∀ l p, call ≠ .executing l p) (h : (advance steps row call answer).2.1 = .executing l p) :
    ∃ snapshot, call = .locking snapshot ∧ answer = .ok ∧ p = .loop snapshot.currentStep := by
  cases call with
  | reading =>
    cases answer with
    | ok =>
      simp only [advance] at h
      split at h <;> cases h
    | _ => cases h
  | locking snapshot =>
    cases answer with
    | ok =>
      cases h
      exact ⟨snapshot, rfl, rfl, rfl⟩
    | _ => cases h
  | executing l p => exact absurd rfl (hcall l p)
  | done => cases h

end


/-! ## All calls -/

/-- The call in the critical section has the lock and a current place, what is persisted is behind the
row's step, and no step was run after another call persisted it. -/
structure Single (s : Calls) : Prop where
  holds : ∀ c l p, s.call c = .executing l p → s.lock = some c
  current : ∀ c l p, s.call c = .executing l p → Current s.row p
  persisted : ∀ c i, (c, .persisted i) ∈ s.trace → i < s.row.currentStep
  single : SingleAdvance s.trace

section

variable {steps : List WorkflowStep} {s : Calls}

theorem SingleAdvance.append {trace : List (Nat × Mark)} {c : Nat} {marks : List Mark} (h : SingleAdvance trace)
    (hran : ∀ c' i, (c', .persisted i) ∈ trace → .ran i ∉ marks) :
    SingleAdvance (trace ++ marks.map fun mark => (c, mark)) := by
  refine pairwise_append.2 ⟨h, ?_, ?_⟩
  · refine pairwise_of_forall_mem_list fun a ha b hb i _ _ => ?_
    obtain ⟨_, _, rfl⟩ := mem_map.1 ha
    obtain ⟨_, _, rfl⟩ := mem_map.1 hb
    rfl
  · rintro ⟨c', mark⟩ ha b hb i hp hr
    obtain ⟨mark', hm, rfl⟩ := mem_map.1 hb
    cases hp
    cases hr
    exact absurd hm (hran c' i ha)

theorem Single.goOn_executing {c : Nat} {answer : Answer} {l : Locals} {p : Point} (h : Single s)
    (hcall : s.call c = .executing l p) (lock : Option Nat)
    (hlock : ∀ l' p', (execute steps s.row l p answer).2.1 = .executing l' p' → lock = some c) :
    Single { s.goOn steps c answer with lock } := by
  have ha := execute_advances steps l (h.current c l p hcall) answer
  have heq : advance steps s.row (s.call c) answer = execute steps s.row l p answer := by rw [hcall]; rfl
  -- every other call is outside the critical section
  have hother : ∀ c', c' ≠ c → ∀ l' p', s.call c' ≠ .executing l' p' := by
    intro c' hne l' p' hc'
    have h₁ := h.holds c' l' p' hc'
    rw [h.holds c l p hcall] at h₁
    exact hne (Option.some.inj h₁).symm
  have hself : ∀ c' l' p', (s.goOn steps c answer).call c' = .executing l' p' →
      c' = c ∧ (execute steps s.row l p answer).2.1 = .executing l' p' := by
    intro c' l' p' hc'
    simp only [Calls.goOn, heq] at hc'
    by_cases hne : c' = c
    · subst hne
      rw [Function.update_self] at hc'
      exact ⟨rfl, hc'⟩
    · rw [Function.update_of_ne hne] at hc'
      exact absurd hc' (hother c' hne l' p')
  refine ⟨?_, ?_, ?_, ?_⟩
  · intro c' l' p' hc'
    obtain ⟨rfl, hc⟩ := hself c' l' p' hc'
    exact hlock l' p' hc
  · intro c' l' p' hc'
    obtain ⟨rfl, hc⟩ := hself c' l' p' hc'
    show Current (advance steps s.row (s.call c') answer).1 p'
    rw [heq]
    exact ha.current l' p' hc
  · intro c' i hi
    simp only [Calls.goOn, heq, mem_append, mem_map] at hi ⊢
    rcases hi with hi | ⟨mark, hm, hi⟩
    · exact lt_of_lt_of_le (h.persisted c' i hi) ha.le
    · cases hi
      exact ha.persisted i hm
  · simp only [Calls.goOn, heq]
    refine h.single.append fun c' i hi hr => ?_
    exact absurd (h.persisted c' i hi) (not_lt.2 (ha.ran i hr))

theorem Single.goOn_outside {c : Nat} {answer : Answer} (h : Single s) (hcall : ∀ l p, s.call c ≠ .executing l p)
    (hout : ∀ l p, (advance steps s.row (s.call c) answer).2.1 ≠ .executing l p) :
    Single (s.goOn steps c answer) := by
  obtain ⟨hrow, hmarks⟩ := advance_before steps s.row answer hcall
  have hcalls : ∀ c' l p, (s.goOn steps c answer).call c' = .executing l p → s.call c' = .executing l p := by
    intro c' l p hc'
    simp only [Calls.goOn] at hc'
    by_cases hne : c' = c
    · subst hne
      rw [Function.update_self] at hc'
      exact absurd hc' (hout l p)
    · rwa [Function.update_of_ne hne] at hc'
  have hrow' : (s.goOn steps c answer).row = s.row := hrow
  have htrace : (s.goOn steps c answer).trace = s.trace := by
    simp only [Calls.goOn, hmarks, map_nil, append_nil]
  refine ⟨fun c' l p hc' => h.holds c' l p (hcalls c' l p hc'), fun c' l p hc' => ?_, fun c' i hi => ?_, ?_⟩
  · rw [hrow']
    exact h.current c' l p (hcalls c' l p hc')
  · rw [hrow']
    rw [htrace] at hi
    exact h.persisted c' i hi
  · rw [htrace]
    exact h.single

theorem Single.take {c : Nat} {snapshot : WorkflowRow} (h : Single s) (hcall : s.call c = .locking snapshot)
    (hfree : s.lock = none) (hfresh : s.row.currentStep ≤ snapshot.currentStep) :
    Single { s.goOn steps c .ok with lock := some c } := by
  have hnone : ∀ c' l p, s.call c' ≠ .executing l p := by
    intro c' l p hc'
    have := h.holds c' l p hc'
    rw [hfree] at this
    cases this
  have heq : advance steps s.row (s.call c) .ok = (s.row, enter steps snapshot, []) := by rw [hcall]; rfl
  have hself : ∀ c' l p, (s.goOn steps c .ok).call c' = .executing l p → c' = c ∧ p = .loop snapshot.currentStep := by
    intro c' l p hc'
    simp only [Calls.goOn, heq] at hc'
    by_cases hne : c' = c
    · subst hne
      rw [Function.update_self] at hc'
      cases hc'
      exact ⟨rfl, rfl⟩
    · rw [Function.update_of_ne hne] at hc'
      exact absurd hc' (hnone c' l p)
  have hrow : (s.goOn steps c .ok).row = s.row := by simp only [Calls.goOn, heq]
  have htrace : (s.goOn steps c .ok).trace = s.trace := by
    simp only [Calls.goOn, heq, map_nil, append_nil]
  refine ⟨?_, ?_, ?_, ?_⟩
  · intro c' l p hc'
    obtain ⟨rfl, -⟩ := hself c' l p hc'
    rfl
  · intro c' l p hc'
    obtain ⟨-, rfl⟩ := hself c' l p hc'
    rw [hrow]
    exact current_of rfl hfresh
  · intro c' i hi
    rw [hrow]
    exact h.persisted c' i (htrace ▸ hi)
  · rw [htrace]
    exact h.single

/-- A process that stops gives the lock back. -/
theorem Single.crash (h : Single s) (c : Nat) : Single (s.step steps (.crash c)) := by
  have hcalls : ∀ c' l p, Function.update s.call c .done c' = .executing l p → c' ≠ c ∧ s.call c' = .executing l p := by
    intro c' l p hc'
    by_cases hne : c' = c
    · subst hne
      rw [Function.update_self] at hc'
      cases hc'
    · rw [Function.update_of_ne hne] at hc'
      exact ⟨hne, hc'⟩
  refine ⟨?_, fun c' l p hc' => h.current c' l p (hcalls c' l p hc').2, h.persisted, h.single⟩
  intro c' l p hc'
  obtain ⟨hne, hc⟩ := hcalls c' l p hc'
  have hlock := h.holds c' l p hc
  show (if s.lock = some c then none else s.lock) = some c'
  rw [if_neg]
  · exact hlock
  · rw [hlock]
    exact fun heq => hne (Option.some.inj heq)

theorem Single.step (h : Single s) {e : CallEvent} (hg : Fresh s e) : Single (s.step steps e) := by
  cases e with
  | crash c => exact h.crash c
  | advance c answer =>
    cases hcall : s.call c with
    | executing l p =>
      have hlock := h.holds c l p hcall
      have hstays : s.step steps (.advance c answer) = { s.goOn steps c answer with lock := s.lock } ∨
          p = .releasing ∧ s.step steps (.advance c answer) = { s.goOn steps c answer with lock := none } := by
        simp only [Calls.step, hcall]
        cases p <;> cases answer <;> first | exact .inl rfl | exact .inr ⟨rfl, rfl⟩
      rcases hstays with heq | ⟨rfl, heq⟩
      · rw [heq]
        exact h.goOn_executing hcall _ fun _ _ _ => hlock
      · rw [heq]
        exact h.goOn_executing hcall _ nofun
    | locking snapshot =>
      cases answer with
      | ok =>
        simp only [Fresh, hcall] at hg
        simp only [Calls.step, hcall]
        by_cases hfree : s.lock = none
        · rw [if_pos hfree]
          exact h.take hcall hfree (hg hfree)
        · rw [if_neg hfree]
          exact h
      | _ =>
        simp only [Calls.step, hcall]
        refine h.goOn_outside (by rw [hcall]; exact nofun) ?_
        rw [hcall]
        exact nofun
    | reading | done =>
      simp only [Calls.step, hcall]
      have hno : ∀ l p, s.call c ≠ .executing l p := by
        rw [hcall]
        exact nofun
      refine h.goOn_outside hno fun l p hp => ?_
      obtain ⟨snapshot, hl, -, -⟩ := advance_begins hno hp
      rw [hcall] at hl
      cases hl

end

/-- In every run of concurrent calls on one row: where each call that takes the lock has read the row at
the step it then has, no call runs a step that another has persisted. -/
theorem single_of_fresh (steps : List WorkflowStep) (row : WorkflowRow) (es : List CallEvent)
    (hg : Guarded (Calls.step steps) Fresh { row } es) :
    SingleAdvance (run (Calls.step steps) { row } es).trace :=
  (run_invariant_of_guarded (P := Single) (Calls.step steps) (fun _ _ h hg => h.step hg) es hg
    ⟨nofun, nofun, nofun, List.Pairwise.nil⟩).single


/-- The answers that one call of a workflow of one step gets when nothing fails, up to its `persist`. -/
def firstStep (c : Nat) : List CallEvent :=
  [.advance c .ok, .advance c .ok, .advance c .ok, .advance c .ok, .advance c (.returns (.num 7)), .advance c .ok]

/-- A call stops after its first step; another reads the row then and runs the second. -/
theorem single_of_fresh_taken_over : SingleAdvance (run (Calls.step [{ name := "reserve" }, { name := "charge" }]) { row := {} }
      (firstStep 0 ++ [CallEvent.crash 0] ++ firstStep 1)).trace :=
  single_of_fresh [{ name := "reserve" }, { name := "charge" }] {} (firstStep 0 ++ [CallEvent.crash 0] ++ firstStep 1)
    ⟨trivial, fun _ => Nat.le_refl 0, trivial, trivial, trivial, trivial, trivial, trivial,
      fun _ => Nat.le_refl 1, trivial, trivial, trivial, trivial, trivial⟩

/-- Call 1 reads the row; call 0 does the whole workflow and gives the lock back; call 1 goes on from the
row that it read. -/
def staleRead : List CallEvent :=
  [.advance 1 .ok] ++ firstStep 0 ++ [.advance 0 .ok, .advance 0 .ok, .advance 0 .ok] ++ [.advance 1 .ok, .advance 1 .ok, .advance 1 .ok]

/-- Call 1 runs the step that call 0 has persisted, in a workflow that is completed. -/
theorem stale_read_counterexample : (run (Calls.step [{ name := "charge" }]) { row := {} } staleRead).trace =
        [(0, .ran 0), (0, .returned 0), (0, .persisted 0), (1, .ran 0)] ∧
      ¬ SingleAdvance (run (Calls.step [{ name := "charge" }]) { row := {} } staleRead).trace := by
  have htrace : (run (Calls.step [{ name := "charge" }]) { row := {} } staleRead).trace =
      [(0, .ran 0), (0, .returned 0), (0, .persisted 0), (1, .ran 0)] := by rfl
  refine ⟨htrace, fun h => ?_⟩
  have hlast := (pairwise_append.1 (show ([(0, .ran 0), (0, .returned 0), (0, .persisted 0)] ++ [(1, .ran 0)] :
    List (Nat × Mark)).Pairwise _ from h)).2.2
  exact absurd (hlast (0, .persisted 0) (by decide) (1, .ran 0) (by decide) 0 rfl rfl) (by decide)

end StreetJS.Jobs
