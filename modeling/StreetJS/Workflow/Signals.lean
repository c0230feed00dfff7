/-
The consumption of delivered signals: a completed `ctx.events.waitFor` takes the first signal of its
name that is not marked consumed, and marks none, so that all the waits of one name are given the
first delivery of that name. `tryConsumePending`, which marks what it takes, is called by nothing.
-/
import StreetJS.Workflow.Redrive
import StreetJS.Workflow.Value

namespace StreetJS.Workflow

open StreetJS.Lib List

variable {V : Type} [JsValue V]

/-! ## Deliveries and waits -/

/-- The event name and the payload that a step completes a `waitFor` with. -/
def Drive.takes (d : Drive V) : Option (String × V) :=
  match d.phase with
  | .executing (.waitFor event parse) _ =>
    match (executeWaitFor event parse d.run).outcome with
    | .ok { settlement := .completed _, .. } => (findPending d.run.pendingSignals event).map fun s => (event, s.payload)
    | _ => none
  | _ => none

/-- The payloads that a drive completes its waits with, in order. -/
def Drive.taken (fn : WorkflowFunction V) (run : WorkflowRun V) (ts : List (Tick V)) : List (String × V) :=
  observe (Drive.next fn) (fun d _ => d.takes) (Drive.start run) ts

omit [JsValue V] in
/-- The entries of one name. -/
def ofName (name : String) (entries : List (String × V)) : List V :=
  (entries.filter fun e => e.1 = name).map (·.2)

/-- The payloads that the waits for `name` have been completed with. -/
def taken (fn : WorkflowFunction V) (s : Engine V) (ops : List (Op V)) (name : String) : List V :=
  ofName name ((redrives fn s ops).flatMap fun r => Drive.taken fn r.1 r.2)

omit [JsValue V] in
/-- The signal that an operation delivers to a run that is not terminal. -/
def Engine.delivers (s : Engine V) : Op V → Option (RecordedSignal V)
  | .signal name payload now _ => if s.run.status.terminal then none else some { name, payload, receivedAt := now }
  | _ => none

/-- The signals delivered by a list of operations. -/
def deliveries (fn : WorkflowFunction V) (s : Engine V) (ops : List (Op V)) : List (RecordedSignal V) :=
  observe (Engine.step fn) Engine.delivers s ops

/-- The payloads delivered under `name`. -/
def delivered (fn : WorkflowFunction V) (s : Engine V) (ops : List (Op V)) (name : String) : List V :=
  ofName name ((deliveries fn s ops).map fun signal => (signal.name, signal.payload))

/-- Every delivery is consumed at most once: the waits for a name are given the payloads of different
deliveries of it, in the order of delivery. -/
def ConsumedOnce (fn : WorkflowFunction V) (s : Engine V) (ops : List (Op V)) (name : String) : Prop :=
  (taken fn s ops name).Sublist (delivered fn s ops name)

/-! ## Buffered signals -/

section Buffered

omit [JsValue V]

theorem ofName_append (name : String) (a b : List (String × V)) : ofName name (a ++ b) = ofName name a ++ ofName name b := by
  unfold ofName
  rw [filter_append, map_append]

theorem mem_ofName {name : String} {entries : List (String × V)} {payload : V} :
    payload ∈ ofName name entries ↔ (name, payload) ∈ entries := by
  unfold ofName
  rw [mem_map]
  constructor
  · rintro ⟨⟨n, p⟩, h, rfl⟩
    rw [mem_filter] at h
    obtain ⟨hmem, hn⟩ := h
    rw [← of_decide_eq_true hn]
    exact hmem
  · intro h
    exact ⟨(name, payload), mem_filter.2 ⟨h, decide_eq_true rfl⟩, rfl⟩

theorem delivers_accept (s : Engine V) (op : Op V) : (s.accept op).1.run.pendingSignals = s.run.pendingSignals ++ (s.delivers op).toList := by
  have hnone : s.delivers op = none → (s.accept op).1.run.pendingSignals = s.run.pendingSignals →
      (s.accept op).1.run.pendingSignals = s.run.pendingSignals ++ (s.delivers op).toList := by
    intro hd h
    rw [hd, h, Option.toList_none, append_nil]
  cases op with
  | resume ticks => exact hnone rfl rfl
  | pause now => exact hnone rfl (by simp only [Engine.accept]; split <;> rfl)
  | cancel now => exact hnone rfl (by simp only [Engine.accept]; split <;> rfl)
  | signal name payload now ticks =>
    simp only [Engine.accept, Engine.delivers]
    split
    · rw [Option.toList_none, append_nil]
    · split
      · rfl
      · rw [resumeWait_run]; rfl
  | resumeDueTimers now ticks =>
    refine hnone rfl ?_
    simp only [Engine.accept]
    split
    · split
      · rfl
      · rw [resumeWait_run]
    · rfl
  | reopen autoResume ticks => exact hnone rfl rfl

theorem findPending_payload {signals : List (RecordedSignal V)} (h : ∀ x ∈ signals, x.consumed = false) (name : String) :
    (findPending signals name).map (·.payload) = (ofName name (signals.map fun signal => (signal.name, signal.payload))).head? := by
  induction signals with
  | nil => rfl
  | cons signal rest ih =>
    have hs := h signal mem_cons_self
    have hrest := ih fun x hx => h x (mem_cons_of_mem _ hx)
    unfold findPending ofName at *
    by_cases hn : signal.name = name
    · simp [hn, hs]
    · simp [hn] at hrest ⊢
      exact hrest

end Buffered

/-! ## The waits of a run -/

section Waits

variable {fn : WorkflowFunction V}

/-- The snapshot holds every delivery, none of them marked consumed. -/
structure Buffers (signals : List (RecordedSignal V)) (run : WorkflowRun V) : Prop where
  pending : run.pendingSignals = signals
  unconsumed : ∀ x ∈ signals, x.consumed = false

theorem buffers_step (fn : WorkflowFunction V) {signals : List (RecordedSignal V)} {s : Engine V} (op : Op V) (h : Buffers signals s.run) :
    Buffers (signals ++ (s.delivers op).toList) (s.accept op).1.run ∧ Buffers (signals ++ (s.delivers op).toList) (s.step fn op).run := by
  have hun : ∀ x ∈ signals ++ (s.delivers op).toList, x.consumed = false := by
    intro x hx
    rcases mem_append.1 hx with hx | hx
    · exact h.unconsumed x hx
    · have hd := Option.mem_toList.1 hx
      cases op with
      | signal name payload now ticks =>
        simp only [Engine.delivers] at hd
        split at hd
        · cases hd
        · cases hd; rfl
      | _ => cases hd
  have haccept : (s.accept op).1.run.pendingSignals = signals ++ (s.delivers op).toList := by
    rw [delivers_accept, h.pending]
  refine ⟨⟨haccept, hun⟩, ⟨?_, hun⟩⟩
  unfold Engine.step
  cases hs : s.starts op with
  | none => exact haccept
  | some r =>
    obtain ⟨run, ts⟩ := r
    obtain ⟨rfl, -⟩ := starts_run hs
    exact (exec_keeps fn _ ts).pendingSignals.trans haccept

theorem takes_first {d : Drive V} {signals : List (RecordedSignal V)} (h : Buffers signals d.run)
    {event : String} {payload : V} (ht : d.takes = some (event, payload)) :
    (ofName event (signals.map fun signal => (signal.name, signal.payload))).head? = some payload := by
  unfold Drive.takes at ht
  split at ht
  · split at ht
    · obtain ⟨signal, hsignal, heq⟩ := Option.map_eq_some_iff.1 ht
      cases heq
      rw [← findPending_payload h.unconsumed, ← h.pending, hsignal]
      rfl
    · cases ht
  · cases ht

theorem drive_taken_first {signals : List (RecordedSignal V)} {run : WorkflowRun V} (h : Buffers signals run)
    {ts : List (Tick V)} {event : String} {payload : V} (hmem : (event, payload) ∈ Drive.taken fn run ts) :
    (ofName event (signals.map fun signal => (signal.name, signal.payload))).head? = some payload := by
  obtain ⟨before, t, after, -, ht⟩ := mem_observe _ hmem
  exact takes_first ⟨(exec_keeps fn run before).pendingSignals.trans h.pending, h.unconsumed⟩ ht

theorem taken_first {name : String} {payload : V} :
    ∀ (ops : List (Op V)) {s : Engine V} {signals : List (RecordedSignal V)}, Buffers signals s.run → payload ∈ taken fn s ops name →
        (ofName name ((signals ++ deliveries fn s ops).map fun signal => (signal.name, signal.payload))).head? = some payload
  | [], _, _, _, h => by cases h
  | op :: ops, s, signals, hb, h => by
    obtain ⟨haccept, hstep⟩ := buffers_step fn op hb
    have hdeliver : signals ++ deliveries fn s (op :: ops) = signals ++ (s.delivers op).toList ++ deliveries fn (s.step fn op) ops := by
      rw [append_assoc]; rfl
    rw [hdeliver]
    unfold taken at h
    rw [redrives_cons, flatMap_append, ofName_append, mem_append] at h
    rcases h with h | h
    · -- completed by the drive of the first operation: the deliveries after it are no longer first
      rw [mem_ofName, mem_flatMap] at h
      obtain ⟨⟨run, ts⟩, hr, hmem⟩ := h
      obtain ⟨rfl, -⟩ := starts_run (Option.mem_toList.1 hr)
      have hfirst := drive_taken_first haccept hmem
      rw [map_append, ofName_append]
      cases hl : ofName name ((signals ++ (s.delivers op).toList).map fun signal => (signal.name, signal.payload)) with
      | nil => rw [hl] at hfirst; cases hfirst
      | cons x xs =>
        rw [hl] at hfirst
        exact hfirst
    · exact taken_first ops hstep h

theorem taken_eq_replicate {s₀ : Engine V} (hempty : Buffers [] s₀.run) (ops : List (Op V)) (name : String) {payload : V}
    (h : payload ∈ taken fn s₀ ops name) : (delivered fn s₀ ops name).head? = some payload ∧
      taken fn s₀ ops name = List.replicate (taken fn s₀ ops name).length payload := by
  have hfirst : ∀ p ∈ taken fn s₀ ops name, (delivered fn s₀ ops name).head? = some p :=
    fun p hp => taken_first ops hempty hp
  refine ⟨hfirst payload h, eq_replicate_of_mem fun p hp => ?_⟩
  have hp := hfirst p hp
  rw [hfirst payload h] at hp
  exact (Option.some_inj.1 hp).symm

/-- The deliveries of a name that carry the payload of the first one. -/
def repeats [DecidableEq V] (payloads : List V) : Nat :=
  match payloads with
  | [] => 0
  | first :: _ => payloads.count first

end Waits

/-! ## The consumption of the coordinator -/

section Coordinator

omit [JsValue V]

theorem markConsumed_unconsumed (name : String) (signals : List (RecordedSignal V)) :
    (findPending signals name).toList ++ (markConsumed name signals).filter (fun x => x.name = name ∧ x.consumed = false) =
      signals.filter fun x => x.name = name ∧ x.consumed = false := by
  induction signals with
  | nil => rfl
  | cons signal rest ih =>
    unfold findPending at *
    rw [markConsumed]
    by_cases h : signal.name = name ∧ signal.consumed = false
    · simp [h]
    · rw [if_neg h, find?_cons_of_neg (by simpa using h), filter_cons_of_neg (by simpa using h), filter_cons_of_neg (by simpa using h)]
      exact ih

/-- `tryConsumePending` takes the first unconsumed signal of its name and leaves the others: called
again and again it hands over every delivery once, in order. -/
theorem tryConsumePending_takes {run run' : WorkflowRun V} {name : String} {now : Int} {payload : V}
    (h : tryConsumePending run name now = some (payload, run')) :
    ∃ signal, signal.payload = payload ∧ run.pendingSignals.filter (fun x => x.name = name ∧ x.consumed = false) =
        signal :: run'.pendingSignals.filter (fun x => x.name = name ∧ x.consumed = false) := by
  obtain ⟨signal, hsignal, heq⟩ := Option.map_eq_some_iff.1 h
  cases heq
  refine ⟨signal, rfl, ?_⟩
  rw [← markConsumed_unconsumed, hsignal]
  rfl

end Coordinator

/-! ## Two waits and one delivery -/

/-- `[await ctx.events.waitFor("go"), await ctx.events.waitFor("go")]`. -/
def waitTwice : WorkflowFunction Value
  | _, [] | _, [.settled (.ok _)] => .command (.waitFor "go" none)
  | _, [.settled (.ok a), .settled (.ok b)] => .returns (.arr [a, b])
  | _, [.settled (.error thrown)] | _, [_, .settled (.error thrown)] => .throws thrown
  | _, _ => .throws (.other "unexpected reply")

/-- The run parks on the first wait, then a signal is delivered. -/
def oneDelivery : List (Op Value) :=
  [.resume (List.replicate 4 (tick .undefined)), .signal "go" (.num 1) 5 (List.replicate 6 (tick .undefined))]

end StreetJS.Workflow
