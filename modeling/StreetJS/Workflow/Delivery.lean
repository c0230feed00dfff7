/-
Delivered signals and audit events under interleaving. Two operations in flight on one run replace
the whole snapshot from copies of their own, so a save over a snapshot its writer has not seen loses
what is new in it. When every save is made over the latest snapshot nothing is lost.
-/
import StreetJS.Workflow.Interleave

namespace StreetJS.Workflow

open StreetJS.Lib List

variable {V : Type} [JsValue V]

/-! ## The guard -/

/-- A step that saves is made by an operation that has loaded or saved the latest snapshot itself:
no other operation has saved in between. -/
def SavesOverLatest (fn : WorkflowFunction V) (s : System V) : SystemEvent V → Prop
  | .step i t => ∀ w, s.writers[i]? = some w → (w.task.step fn t).2.isSome → w.seen = s.saves
  | _ => True

/-- An operation that has seen the latest snapshot works on a copy of it. -/
structure CopiesLatest (s : System V) : Prop where
  seen_le : ∀ w ∈ s.writers, w.seen ≤ s.saves
  copy_eq : ∀ w ∈ s.writers, w.seen = s.saves → ∀ c, w.task.copy = some c → c = s.stored

theorem copiesLatest_open (run : WorkflowRun V) (launched : Bool) : CopiesLatest (System.open run launched) := by
  cases launched with
  | false => exact ⟨fun w hw => absurd hw not_mem_nil, fun w hw => absurd hw not_mem_nil⟩
  | true =>
    constructor
    · intro w hw
      cases mem_singleton.1 hw
      exact Nat.le_refl 0
    · intro w hw _ c hc
      cases mem_singleton.1 hw
      cases hc
      rfl

theorem copiesLatest_load {s : System V} {task : Task V} (hs : CopiesLatest s) (hc : task.copy = some s.stored) :
    CopiesLatest (s.load task) := by
  constructor
  · intro w hw
    rcases mem_append.1 hw with hw | hw
    · exact hs.seen_le w hw
    · cases mem_singleton.1 hw
      exact le_rfl
  · intro w hw hseen c hcopy
    rcases mem_append.1 hw with hw | hw
    · exact hs.copy_eq w hw hseen c hcopy
    · cases mem_singleton.1 hw
      rw [hc] at hcopy
      cases hcopy
      rfl

theorem copiesLatest_step (fn : WorkflowFunction V) (s : System V) (e : SystemEvent V) (hs : CopiesLatest s) :
    CopiesLatest (s.step fn e) := by
  cases he : s.stepping e with
  | none =>
    rcases step_begin fn s e he with h | ⟨_, task, hc, h⟩
    · rw [h]; exact hs
    · rw [h]; exact copiesLatest_load hs hc
  | some w =>
    cases e with
    | step i t =>
      have hi : s.writers[i]? = some w := he
      have hw : w ∈ s.writers := mem_of_getElem? hi
      rw [step_eq_moved fn hi]
      rcases task_step fn t w.task with ⟨hsaved, hcopy⟩ | ⟨c, r, -, hsaved, -, hcopy⟩
      · rw [hsaved]
        constructor
        · intro w' hw'
          rcases mem_writers_moved hw' with hw' | rfl
          · exact hs.seen_le w' hw'
          · exact hs.seen_le w hw
        · intro w' hw' hseen c hc
          rcases mem_writers_moved hw' with hw' | rfl
          · exact hs.copy_eq w' hw' hseen c hc
          · exact hs.copy_eq w hw hseen c (hcopy ▸ hc)
      · rw [hsaved]
        constructor
        · intro w' hw'
          rcases mem_writers_moved hw' with hw' | rfl
          · exact Nat.le_succ_of_le (hs.seen_le w' hw')
          · exact le_rfl
        · intro w' hw' hseen c' hc
          rcases mem_writers_moved hw' with hw' | rfl
          · have := hs.seen_le w' hw'
            have : w'.seen = s.saves + 1 := hseen
            omega
          · rcases hcopy with hcopy | hcopy
            · rw [show (Task.step fn t w.task).1.copy = some c' from hc] at hcopy
              cases hcopy
              rfl
            · rw [show (Task.step fn t w.task).1.copy = some c' from hc] at hcopy
              cases hcopy
    | beginDrive => cases he
    | beginPause => cases he
    | beginCancel => cases he
    | beginSignal name payload => cases he

/-! ## Nothing is lost -/

theorem task_signals (fn : WorkflowFunction V) (t : Tick V) (task : Task V) (c r : WorkflowRun V)
    (hc : task.copy = some c) (hr : (task.step fn t).2 = some r) :
    r.pendingSignals = c.pendingSignals ++ match task with
      | .signal name payload _ => [{ name, payload, receivedAt := t.now }]
      | _ => [] := by
  cases task with
  | drive d =>
    cases hc
    rcases step_saved fn d t with h | ⟨h, -⟩
    · have : some r = some (d.next fn t).run := hr.symm.trans h
      cases this
      rw [(step_keeps fn d t).pendingSignals]
      simp
    · exact absurd (hr.symm.trans h) (by simp)
  | pause loaded => cases hc; cases hr; simp [transition]
  | cancel loaded => cases hc; cases hr; simp [transition]
  | signal name payload loaded => cases hc; cases hr; rfl
  | ended => cases hc

theorem step_keepsSignals (fn : WorkflowFunction V) (s : System V) (e : SystemEvent V) (hs : CopiesLatest s) (hg : SavesOverLatest fn s e) :
    s.stored.history <+: (s.step fn e).stored.history ∧
      (s.step fn e).stored.pendingSignals = s.stored.pendingSignals ++ (s.delivers e).toList := by
  cases he : s.stepping e with
  | none =>
    have hd : s.delivers e = none := by
      cases e with
      | step i t =>
        have hi : s.writers[i]? = none := he
        simp only [System.delivers, hi]
      | _ => rfl
    rw [hd, Option.toList_none, append_nil]
    rcases step_begin fn s e he with h | ⟨_, task, _, h⟩
    · rw [h]; exact ⟨prefix_refl _, rfl⟩
    · rw [h]; exact ⟨prefix_refl _, rfl⟩
  | some w =>
    cases e with
    | step i t =>
      have hi : s.writers[i]? = some w := he
      rw [step_eq_moved fn hi]
      rcases task_step fn t w.task with ⟨hsaved, -⟩ | ⟨c, r, hc, hsaved, hh, -⟩
      · have hd : s.delivers (.step i t) = none := by
          obtain ⟨task, seen⟩ := w
          simp only [System.delivers, hi]
          cases task with
          | signal name payload loaded => cases hsaved
          | _ => rfl
        rw [hsaved, hd]
        exact ⟨prefix_refl _, by simp [System.moved]⟩
      · have hseen : w.seen = s.saves := hg w hi (by rw [hsaved]; rfl)
        have hcs : c = s.stored := hs.copy_eq w (mem_of_getElem? hi) hseen c hc
        have hsig := task_signals fn t w.task c r hc hsaved
        subst hcs
        rw [hsaved]
        refine ⟨hh, ?_⟩
        show r.pendingSignals = _
        rw [hsig]
        obtain ⟨task, seen⟩ := w
        simp only [System.delivers, hi]
        cases task <;> rfl
    | beginDrive => cases he
    | beginPause => cases he
    | beginCancel => cases he
    | beginSignal name payload => cases he

theorem run_keepsSignals (fn : WorkflowFunction V) : ∀ (es : List (SystemEvent V)) (s : System V), CopiesLatest s →
      Guarded (System.step fn) (SavesOverLatest fn) s es →
      s.stored.history <+: (Lib.run (System.step fn) s es).stored.history ∧ (Lib.run (System.step fn) s es).stored.pendingSignals =
          s.stored.pendingSignals ++ observe (System.step fn) System.delivers s es
  | [], s, _, _ => ⟨prefix_refl _, by simp [observe]⟩
  | e :: es, s, hs, hg => by
    obtain ⟨h1, h2⟩ := step_keepsSignals fn s e hs hg.1
    obtain ⟨h3, h4⟩ := run_keepsSignals fn es (s.step fn e) (copiesLatest_step fn s e hs) hg.2
    refine ⟨h1.trans h3, ?_⟩
    rw [run_cons, h4, h2, observe, append_assoc]

/-- In the store at every point of a run: the signals are those it began with and every signal
delivered since, in order, and from any earlier point on the history has only been extended. -/
def NothingLost (fn : WorkflowFunction V) (run : WorkflowRun V) (launched : Bool) (es : List (SystemEvent V)) : Prop :=
  ∀ es₁ es₂, es = es₁ ++ es₂ → (System.after fn run launched es₁).stored.pendingSignals =
        run.pendingSignals ++ observe (System.step fn) System.delivers (System.open run launched) es₁ ∧
      (System.after fn run launched es₁).stored.history <+: (System.after fn run launched es).stored.history

end StreetJS.Workflow
