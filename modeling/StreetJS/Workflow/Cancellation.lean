/-
Cancellation under interleaving. `cancel` saves the status `cancelled` and aborts the signals of the
activities in flight; it does not reach the copies other operations have loaded, so the status stays
only when no other operation is left to save when it is persisted.
-/
import StreetJS.Workflow.Interleave

namespace StreetJS.Workflow

open StreetJS.Lib

variable {V : Type} [JsValue V]

/-! ## The guard -/

/-- An operation whose remaining steps leave a cancelled run alone: a drive that has ended, another
cancellation, or an operation that is over. -/
def Task.quiet : Task V → Bool
  | .drive d => match d.phase with
    | .done _ => true
    | _ => false
  | .cancel _ | .ended => true
  | .pause _ | .signal _ _ _ => false

/-- A cancellation is persisted when no drive, pause or signal delivery of the run is in flight. -/
def CancelsAlone (s : System V) (e : SystemEvent V) : Prop :=
  s.cancels e = true → ∀ w ∈ s.writers, w.task.quiet = true

/-- The run is cancelled and nothing in flight will change that. -/
structure Cancelled (s : System V) : Prop where
  status : s.stored.status = .cancelled
  quiet : ∀ w ∈ s.writers, w.task.quiet = true

/-! ## Quiet operations -/

variable (fn : WorkflowFunction V)

theorem drive_done {d : Drive V} (t : Tick V) (h : (Task.drive d).quiet = true) : d.step fn t = (d, none) := by
  unfold Task.quiet at h
  simp only at h
  split at h
  · rename_i status hp
    unfold Drive.step
    rw [hp]
  · cases h

theorem quiet_step (t : Tick V) {task : Task V} (h : task.quiet = true) :
    (task.step fn t).1.quiet = true ∧ ∀ r, (task.step fn t).2 = some r → r.status = .cancelled := by
  cases task with
  | drive d =>
    have hd := drive_done fn t h
    refine ⟨?_, fun r hr => ?_⟩
    · show (Task.drive (d.step fn t).1).quiet = true
      rw [hd]; exact h
    · have : (d.step fn t).2 = some r := hr
      rw [hd] at this
      cases this
  | pause loaded => cases h
  | cancel loaded =>
    refine ⟨rfl, fun r hr => ?_⟩
    cases hr
    rfl
  | signal name payload loaded => cases h
  | ended => exact ⟨rfl, fun r hr => by cases hr⟩

theorem quiet_calls (t : Tick V) {d : Drive V} (h : (Task.drive d).quiet = true) : d.calls fn t = none := by
  unfold Task.quiet at h
  simp only at h
  split at h
  · rename_i status hp
    unfold Drive.calls
    rw [hp]
    split
    · rename_i hx; cases hx
    · rfl
  · cases h

/-! ## A cancelled run -/

theorem cancelled_moved (t : Tick V) {s : System V} {i : Nat} {w : Writer V}
    (hi : s.writers[i]? = some w) (hq : ∀ w ∈ s.writers, w.task.quiet = true)
    (hs : s.stored.status = .cancelled ∨ (w.task.step fn t).2.isSome) : Cancelled (s.step fn (.step i t)) := by
  obtain ⟨h1, h2⟩ := quiet_step fn t (hq w (List.mem_of_getElem? hi))
  rw [step_eq_moved fn hi]
  have hq' : ∀ w' ∈ (s.moved i w.seen (w.task.step fn t).1 (w.task.step fn t).2).writers, w'.task.quiet = true := by
    intro w' hw'
    rcases mem_writers_moved hw' with hw' | rfl
    · exact hq w' hw'
    · exact h1
  refine ⟨?_, hq'⟩
  unfold System.moved
  split
  · rename_i hn
    rw [hn] at hs
    rcases hs with hs | hs
    · exact hs
    · cases hs
  · rename_i run hr
    exact h2 run hr

theorem cancelled_step (s : System V) (e : SystemEvent V) (hs : Cancelled s) : Cancelled (s.step fn e) := by
  cases he : s.stepping e with
  | none =>
    rcases step_begin fn s e he with h | ⟨ht, -⟩
    · rw [h]; exact hs
    · rw [hs.status] at ht
      cases ht
  | some w =>
    cases e with
    | step i t => exact cancelled_moved fn t he hs.quiet (.inl hs.status)
    | beginDrive => cases he
    | beginPause => cases he
    | beginCancel => cases he
    | beginSignal name payload => cases he

theorem cancelled_startsActivity (s : System V) (e : SystemEvent V) (hs : Cancelled s) : s.startsActivity fn e = none := by
  cases e with
  | step i t =>
    unfold System.startsActivity
    simp only
    split
    · rename_i d seen hi
      rw [quiet_calls fn t (hs.quiet _ (List.mem_of_getElem? hi))]
      rfl
    · rfl
  | _ => rfl

theorem cancelled_observe (fn : WorkflowFunction V) : ∀ (es : List (SystemEvent V)) (s : System V), Cancelled s →
      observe (System.step fn) (System.startsActivity fn) s es = []
  | [], _, _ => rfl
  | e :: es, s, hs => by
    rw [observe, cancelled_startsActivity fn s e hs, cancelled_observe fn es _ (cancelled_step fn s e hs)]
    rfl

theorem cancelled_of_cancels (s : System V) (e : SystemEvent V)
    (hc : s.cancels e = true) (hg : CancelsAlone s e) : Cancelled (s.step fn e) := by
  have hq := hg hc
  unfold System.cancels at hc
  split at hc
  · rename_i loaded seen he
    cases e with
    | step i t => exact cancelled_moved fn t he hq (.inr rfl)
    | beginDrive => cases he
    | beginPause => cases he
    | beginCancel => cases he
    | beginSignal name payload => cases he
  · cases hc

/-! ## Absorption -/

/-- From the point of a run where a cancellation has been persisted on, every snapshot in the store is
cancelled and no activity is started. -/
def CancelAbsorbing (run : WorkflowRun V) (launched : Bool) (es : List (SystemEvent V)) : Prop :=
  ∀ es₁ e es₂ es₃, es = es₁ ++ (e :: es₂ ++ es₃) → (System.after fn run launched es₁).cancels e = true →
    (System.after fn run launched (es₁ ++ e :: es₂)).stored.status = .cancelled ∧
      observe (System.step fn) (System.startsActivity fn) (System.after fn run launched (es₁ ++ [e])) es₂ = []

/-- Where every cancellation is persisted with no other operation in flight, it is absorbing. -/
theorem cancel_absorbing_of_alone (run : WorkflowRun V) (launched : Bool)
    (es : List (SystemEvent V)) (hg : Guarded (System.step fn) CancelsAlone (System.open run launched) es) :
    CancelAbsorbing fn run launched es := by
  intro es₁ e es₂ es₃ he hc
  subst he
  have hg₁ : CancelsAlone (System.after fn run launched es₁) e := ((guarded_append (System.step fn) _ es₁ _).1 hg).2.1
  have h1 : Cancelled (System.after fn run launched (es₁ ++ [e])) := by
    rw [System.after, run_concat]
    exact cancelled_of_cancels fn _ e hc hg₁
  refine ⟨?_, cancelled_observe fn es₂ _ h1⟩
  have h2 : Cancelled (Lib.run (System.step fn) (System.after fn run launched (es₁ ++ [e])) es₂) :=
    run_invariant (System.step fn) (cancelled_step fn) es₂ h1
  rw [System.after, ← run_append, List.append_assoc, List.singleton_append] at h2
  exact h2.status

/-- A run that is cancelled once its drive has ended. -/
theorem cancel_absorbing_idle : CancelAbsorbing oneActivity (initialRun "run-1" "one" .null 0 : WorkflowRun Value) false
      [.beginCancel, .step 0 (tick .null), .beginDrive, .beginSignal "approved" .null] :=
  cancel_absorbing_of_alone _ _ _ _ ⟨nofun, fun _ w hw => by rw [List.mem_singleton.1 hw]; rfl, nofun, nofun, trivial⟩

/-- Cancelled while its activity is in flight, the run ends completed. -/
theorem cancel_in_flight_counterexample : ¬ CancelAbsorbing oneActivity (initialRun "run-1" "one" .null 0 : WorkflowRun Value) true
      [.step 0 (tick (.num 7)), .step 0 (tick (.num 7)), .beginCancel, .step 1 (tick (.num 7)),
        .step 0 (tick (.num 7)), .step 0 (tick (.num 7))] := by
  intro h
  have h1 := (h [.step 0 (tick (.num 7)), .step 0 (tick (.num 7)), .beginCancel] (.step 1 (tick (.num 7)))
    [.step 0 (tick (.num 7)), .step 0 (tick (.num 7))] [] rfl rfl).1
  have h2 : RunStatus.completed = .cancelled := h1
  cases h2

end StreetJS.Workflow
