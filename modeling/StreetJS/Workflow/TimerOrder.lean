/-
The timer checks of the coordinator (`workflow/src/coordinator.ts`: `resumeDueTimers`, `resume` and
the `resumed` tokens). A check scans the runs in the order of the store and resumes every wait that
is due and was not resumed before; the firings of one check come out in that order.
-/
import StreetJS.Lib.ListSet
import StreetJS.Workflow.Coordinator
import StreetJS.Workflow.Value
import Mathlib.Data.List.Nodup
import Mathlib.Data.List.Pairwise
import Mathlib.Data.List.Perm.Basic

namespace StreetJS.Workflow

variable {V : Type}

/-! ## The coordinator -/

/-- The runs of the store, in its order, and the tokens of the waits this process has resumed. -/
structure SignalTimerCoordinator (V : Type) where
  runs : List (WorkflowRun V)
  resumed : List String := []

namespace SignalTimerCoordinator

def token (runId : String) (seq : Nat) : String := runId ++ ":" ++ toString seq

def listIncomplete (c : SignalTimerCoordinator V) : List (WorkflowRun V) :=
  c.runs.filter fun run => run.status.terminal = false

/-- The injected `onResume`: what re-driving a run does to the runs of the store. -/
abbrev OnResume (V : Type) := Option (String → List (WorkflowRun V) → List (WorkflowRun V))

def resume (onResume : OnResume V) (c : SignalTimerCoordinator V) (runId : String) (seq : Nat) : Bool × SignalTimerCoordinator V :=
  if token runId seq ∈ c.resumed then (false, c)
  else
    let runs := match onResume with
      | none => c.runs
      | some redrive => redrive runId c.runs
    (true, { runs, resumed := c.resumed ++ [token runId seq] })

/-- The loop of `resumeDueTimers` over the candidates read from the store. -/
def scan (onResume : OnResume V) (now : Int) : List (WorkflowRun V) → SignalTimerCoordinator V → List TimerFiring × SignalTimerCoordinator V
  | [], c => ([], c)
  | run :: rest, c =>
    if run.status ≠ .waiting ∨ run.status.terminal = true then scan onResume now rest c
    else
      match dueTimer run now with
      | none => scan onResume now rest c
      | some due =>
        match resume onResume c due.runId due.seq with
        | (false, c') => scan onResume now rest c'
        | (true, c') =>
          let (fired, c'') := scan onResume now rest c'
          (due :: fired, c'')

def resumeDueTimers (onResume : OnResume V) (c : SignalTimerCoordinator V) (now : Int) :
    List TimerFiring × SignalTimerCoordinator V := scan onResume now c.listIncomplete c

/-- One call of `resumeDueTimers` at each reading of the clock, with the firings concatenated. -/
def checks (onResume : OnResume V) : List Int → SignalTimerCoordinator V → List TimerFiring
  | [], _ => []
  | now :: rest, c =>
    let (fired, c') := resumeDueTimers onResume c now
    fired ++ checks onResume rest c'

end SignalTimerCoordinator

open SignalTimerCoordinator List

/-! ## Timers and checks in the abstract -/

/-- The timer a run is parked on. -/
def timerOf (run : WorkflowRun V) : Option TimerFiring :=
  if run.status = .waiting then
    (activeWait run).bind fun wait => wait.timerExpiresAt.map fun expiresAt => ⟨run.runId, wait.seq, expiresAt⟩
  else none

/-- The timers that runs are parked on, in the order of the runs. -/
def timersOf (runs : List (WorkflowRun V)) : List TimerFiring := runs.filterMap timerOf

/-- What is fired when each reading fires, in order, whatever of the timers it is the first to reach. -/
def firings : List Int → List TimerFiring → List TimerFiring
  | [], _ => []
  | now :: rest, timers =>
    timers.filter (fun t => t.expiresAt ≤ now) ++ firings rest (timers.filter fun t => now < t.expiresAt)

/-- Wherever a timer stands before one that expires earlier, and is reached at all, some reading
reaches the earlier one alone. -/
def Separated (readings : List Int) (timers : List TimerFiring) : Prop :=
  timers.Pairwise fun f g => g.expiresAt < f.expiresAt → (∃ now ∈ readings, f.expiresAt ≤ now) →
    ∃ now ∈ readings, g.expiresAt ≤ now ∧ now < f.expiresAt

/-- The runs are a fixed set of parked timers: re-driving one may unpark it, and sets no new timer. -/
def SetsNoTimer (onResume : OnResume V) : Prop :=
  ∀ redrive ∈ onResume, ∀ runId runs, timersOf (redrive runId runs) = timersOf runs ∨
    timersOf (redrive runId runs) = (timersOf runs).filter fun t => t.runId ≠ runId

theorem mem_firings {t : TimerFiring} : ∀ {readings : List Int} {timers : List TimerFiring}, t ∈ firings readings timers → t ∈ timers
  | [], _, h => by simp [firings] at h
  | now :: rest, timers, h => by
    rcases mem_append.1 h with h | h
    · exact (mem_filter.1 h).1
    · exact (mem_filter.1 (mem_firings h)).1

theorem firings_perm : ∀ (readings : List Int) (timers : List TimerFiring),
    (firings readings timers).Perm (timers.filter fun t => ∃ now ∈ readings, t.expiresAt ≤ now)
  | [], timers => by simp [firings]
  | now :: rest, timers => by
    have ih := firings_perm rest (timers.filter fun t => now < t.expiresAt)
    have hsplit := filter_append_perm (fun t : TimerFiring => decide (t.expiresAt ≤ now))
      (timers.filter fun t => ∃ r ∈ now :: rest, t.expiresAt ≤ r)
    refine (List.Perm.append_left _ ih).trans (List.Perm.trans (List.Perm.of_eq ?_) hsplit)
    simp only [filter_filter]
    congr 1
    · apply filter_congr
      intro t _
      by_cases h : t.expiresAt ≤ now <;> simp [h]
    · apply filter_congr
      intro t _
      by_cases h : t.expiresAt ≤ now
      · simp [h]
      · simp [h, Int.not_le.1 h]

theorem separated_cons {now : Int} {rest : List Int} (hle : ∀ r ∈ rest, now ≤ r) (timers : List TimerFiring) :
    Separated (now :: rest) timers ↔ (timers.filter fun t => t.expiresAt ≤ now).Pairwise (fun f g => f.expiresAt ≤ g.expiresAt) ∧
      Separated rest (timers.filter fun t => now < t.expiresAt) := by
  unfold Separated
  rw [pairwise_filter, pairwise_filter, ← pairwise_and_iff]
  refine List.Pairwise.iff fun f g => ?_
  simp only [decide_eq_true_eq, mem_cons, exists_eq_or_imp]
  by_cases hf : f.expiresAt ≤ now
  · -- both are reached by this reading, and no reading lies below it
    constructor
    · intro h
      refine ⟨fun _ _ => ?_, fun hlt => absurd hf (Int.not_le.2 hlt)⟩
      by_contra hgf
      rcases h (Int.not_le.1 hgf) (Or.inl hf) with ⟨_, hlt⟩ | ⟨r, hr, _, hlt⟩
      · omega
      · have := hle r hr
        omega
    · rintro ⟨h, -⟩ hgf _
      have := h hf (by omega)
      omega
  · by_cases hg : g.expiresAt ≤ now
    · -- this reading separates them
      exact ⟨fun _ => ⟨fun h => absurd h hf, fun _ h => absurd hg (Int.not_le.2 h)⟩, fun _ _ _ => Or.inl ⟨hg, Int.not_le.1 hf⟩⟩
    · simp only [hf, hg, false_and, false_or, false_implies, true_and, Int.not_le.1 hf, Int.not_le.1 hg, true_implies]

/-- The firings are in the order of expiry exactly when no reading is the first to reach a timer
together with one that stands after it and expires earlier. -/
theorem firings_ordered_iff : ∀ (readings : List Int) (timers : List TimerFiring), readings.Pairwise (· ≤ ·) →
    ((firings readings timers).Pairwise (fun f g => f.expiresAt ≤ g.expiresAt) ↔ Separated readings timers)
  | [], timers, _ => by
    simp only [firings, List.Pairwise.nil, true_iff]
    exact pairwise_of_forall fun f g _ h => by simp at h
  | now :: rest, timers, h => by
    obtain ⟨hle, hrest⟩ := pairwise_cons.1 h
    rw [separated_cons hle, ← firings_ordered_iff rest _ hrest, firings, pairwise_append]
    refine and_congr_right fun _ => and_iff_left_of_imp fun _ f hf g hg => ?_
    have hf' : f.expiresAt ≤ now := by simpa using (mem_filter.1 hf).2
    have hg' : now < g.expiresAt := by simpa using (mem_filter.1 (mem_firings hg)).2
    omega

/-! ## The checks of the coordinator -/

theorem not_colon_mem_digits (seq : Nat) : ':' ∉ Nat.toDigits 10 seq := fun h =>
  absurd (Nat.isDigit_of_mem_toDigits (by decide) (by decide) h) (by decide)

theorem token_runId {runId runId' : String} {seq seq' : Nat} (h : token runId seq = token runId' seq') : runId = runId' := by
  have hchars : ∀ (id : String) (n : Nat), (token id n).toList = id.toList ++ ':' :: Nat.toDigits 10 n := fun id n => by
    rw [token, String.toList_append, String.toList_append, append_assoc]
    exact congrArg (fun digits => id.toList ++ ':' :: digits) String.toList_ofList
  have hsame := congrArg String.toList h
  rw [hchars, hchars] at hsame
  exact String.toList_inj.1 (Lib.append_cons_inj (not_colon_mem_digits seq) (not_colon_mem_digits seq') hsame).1

/-- The timers whose wait this process has not resumed. -/
def unresumed (c : SignalTimerCoordinator V) : List TimerFiring :=
  (timersOf c.runs).filter fun t => token t.runId t.seq ∉ c.resumed

theorem dueTimer_eq {run : WorkflowRun V} (h : run.status = .waiting) (now : Int) :
    dueTimer run now = (timerOf run).filter fun t => t.expiresAt ≤ now := by
  unfold dueTimer timerOf
  rw [if_pos h]
  cases activeWait run with
  | none => rfl
  | some wait => cases hw : wait.timerExpiresAt <;> simp [hw, Option.filter]

theorem timersOf_cons (run : WorkflowRun V) (rest : List (WorkflowRun V)) :
    timersOf (run :: rest) = (timerOf run).toList ++ timersOf rest := by
  unfold timersOf
  cases h : timerOf run <;> simp [h]

theorem timersOf_runIds : ∀ runs : List (WorkflowRun V), ((timersOf runs).map (·.runId)).Sublist (runs.map (·.runId))
  | [] => List.Sublist.refl _
  | run :: rest => by
    rw [timersOf_cons, map_cons]
    cases htimer : timerOf run with
    | none => exact (timersOf_runIds rest).cons _
    | some t =>
      have hid : t.runId = run.runId := by
        unfold timerOf at htimer
        split at htimer
        · obtain ⟨wait, -, hwait⟩ := Option.bind_eq_some_iff.1 htimer
          obtain ⟨expiresAt, -, rfl⟩ := Option.map_eq_some_iff.1 hwait
          rfl
        · cases htimer
      rw [Option.toList_some, singleton_append, map_cons, hid]
      exact (timersOf_runIds rest).cons_cons _

theorem timersOf_listIncomplete (c : SignalTimerCoordinator V) : timersOf c.listIncomplete = timersOf c.runs := by
  unfold timersOf listIncomplete
  rw [filterMap_filter]
  congr 1
  funext run
  by_cases hw : run.status = .waiting
  · simp [hw, RunStatus.terminal]
  · simp [timerOf, hw]

/-- The firing of a run at one check: its timer is due, and its wait was not resumed before. -/
def freshDue (now : Int) (c : SignalTimerCoordinator V) (run : WorkflowRun V) : Option TimerFiring :=
  (timerOf run).filter fun t => t.expiresAt ≤ now ∧ token t.runId t.seq ∉ c.resumed

section Checks

variable {onResume : OnResume V} {origin : List TimerFiring} {c : SignalTimerCoordinator V}

theorem resume_known {runId : String} {seq : Nat} (h : token runId seq ∈ c.resumed) : resume onResume c runId seq = (false, c) := if_pos h

theorem resume_new {runId : String} {seq : Nat} (h : token runId seq ∉ c.resumed) : (resume onResume c runId seq).1 = true ∧
      (resume onResume c runId seq).2.resumed = c.resumed ++ [token runId seq] := by
  unfold resume
  rw [if_neg h]
  exact ⟨rfl, rfl⟩

theorem scan_pass {now : Int} {run : WorkflowRun V} (rest : List (WorkflowRun V)) (h : freshDue now c run = none) :
    scan onResume now (run :: rest) c = scan onResume now rest c := by
  rw [scan]
  by_cases hw : run.status = .waiting
  · rw [if_neg (by simp [hw, RunStatus.terminal]), dueTimer_eq hw]
    unfold freshDue at h
    cases htimer : timerOf run with
    | none => rfl
    | some due =>
      rw [htimer] at h
      by_cases hdue : due.expiresAt ≤ now
      · have hres : token due.runId due.seq ∈ c.resumed := by
          by_contra hres
          simp [hdue, hres] at h
        rw [Option.filter, if_pos (by simpa using hdue)]
        simp only [resume_known hres]
      · rw [Option.filter, if_neg (by simpa using hdue)]
  · rw [if_pos (Or.inl hw)]

theorem scan_fire {now : Int} {run : WorkflowRun V} (rest : List (WorkflowRun V)) {due : TimerFiring} (h : freshDue now c run = some due) :
    scan onResume now (run :: rest) c = (due :: (scan onResume now rest (resume onResume c due.runId due.seq).2).1,
        (scan onResume now rest (resume onResume c due.runId due.seq).2).2) := by
  obtain ⟨htimer, hdue⟩ := Option.filter_eq_some_iff.1 h
  obtain ⟨hle, hres⟩ : due.expiresAt ≤ now ∧ token due.runId due.seq ∉ c.resumed := by simpa using hdue
  have hw : run.status = .waiting := by
    by_contra hw
    simp [timerOf, hw] at htimer
  have hpair : resume onResume c due.runId due.seq = (true, (resume onResume c due.runId due.seq).2) :=
    Prod.ext (resume_new hres).1 rfl
  rw [scan, if_neg (by simp [hw, RunStatus.terminal]), dueTimer_eq hw, htimer, Option.filter, if_pos (by simpa using hle)]
  simp only
  rw [hpair]

/-- The store parks on timers of the origin only, and on all of those not resumed yet. -/
structure ParkedOn (origin : List TimerFiring) (c : SignalTimerCoordinator V) : Prop where
  within : (timersOf c.runs).Sublist origin
  kept : unresumed c = origin.filter fun t => token t.runId t.seq ∉ c.resumed

theorem eq_of_runId (hd : (origin.map (·.runId)).Nodup) {t u : TimerFiring} (ht : t ∈ origin) (hu : u ∈ origin)
    (h : t.runId = u.runId) : t = u := inj_on_of_nodup_map hd ht hu h

theorem ParkedOn.resume (hset : SetsNoTimer onResume) (hd : (origin.map (·.runId)).Nodup) (h : ParkedOn origin c)
    {due : TimerFiring} (hdue : due ∈ origin) (hfresh : token due.runId due.seq ∉ c.resumed) :
    ParkedOn origin (resume onResume c due.runId due.seq).2 := by
  have hruns : timersOf (SignalTimerCoordinator.resume onResume c due.runId due.seq).2.runs = timersOf c.runs ∨
      timersOf (SignalTimerCoordinator.resume onResume c due.runId due.seq).2.runs =
        (timersOf c.runs).filter fun t => t.runId ≠ due.runId := by
    unfold SignalTimerCoordinator.resume
    rw [if_neg hfresh]
    cases onResume with
    | none => exact Or.inl rfl
    | some redrive => exact hset redrive rfl due.runId c.runs
  have hmark : ∀ timers : List TimerFiring, (timers.filter fun t => token t.runId t.seq ∉ c.resumed ++ [token due.runId due.seq]) =
        (timers.filter fun t => token t.runId t.seq ∉ c.resumed).filter
          fun t => token t.runId t.seq ≠ token due.runId due.seq := fun timers => by
    rw [filter_filter]
    exact filter_congr fun t _ => by simp [and_comm]
  constructor
  · rcases hruns with heq | heq <;> rw [heq]
    · exact h.within
    · exact filter_sublist.trans h.within
  · rw [unresumed, (resume_new hfresh).2, hmark origin, ← h.kept]
    rcases hruns with heq | heq <;> rw [heq, hmark]
    · rfl
    · -- what the re-drive unparked is the timer just marked
      simp only [unresumed, filter_filter]
      refine filter_congr fun t ht => ?_
      by_cases hid : t.runId = due.runId
      · rw [eq_of_runId hd (h.within.subset ht) hdue hid]
        simp
      · simp [hid]

theorem scan_spec (hset : SetsNoTimer onResume) (hd : (origin.map (·.runId)).Nodup) (now : Int) :
    ∀ (runs : List (WorkflowRun V)) {c : SignalTimerCoordinator V}, ParkedOn origin c → (timersOf runs).Sublist origin →
      (scan onResume now runs c).1 = (timersOf runs).filter (fun t => t.expiresAt ≤ now ∧ token t.runId t.seq ∉ c.resumed) ∧
        (scan onResume now runs c).2.resumed = c.resumed ++ (scan onResume now runs c).1.map (fun t => token t.runId t.seq) ∧
        ParkedOn origin (scan onResume now runs c).2
  | [], c, h, _ => ⟨rfl, by simp [scan], h⟩
  | run :: rest, c, h, hsub => by
    rw [timersOf_cons] at hsub ⊢
    have hrest : (timersOf rest).Sublist origin := (sublist_append_right _ _).trans hsub
    cases hfresh : freshDue now c run with
    | none =>
      obtain ⟨hfired, hmarked, hparked⟩ := scan_spec hset hd now rest h hrest
      rw [scan_pass rest hfresh, filter_append]
      have hnone : (timerOf run).toList.filter (fun t => decide (t.expiresAt ≤ now ∧ token t.runId t.seq ∉ c.resumed)) = [] := by
        unfold freshDue at hfresh
        cases htimer : timerOf run with
        | none => rfl
        | some due =>
          rw [htimer] at hfresh
          exact filter_eq_nil_iff.2 (by simpa using hfresh)
      rw [hnone]
      exact ⟨hfired, hmarked, hparked⟩
    | some due =>
      obtain ⟨htimer, hdue⟩ := Option.filter_eq_some_iff.1 hfresh
      obtain ⟨hle, hres⟩ : due.expiresAt ≤ now ∧ token due.runId due.seq ∉ c.resumed := by simpa using hdue
      rw [htimer, Option.toList_some, singleton_append] at hsub ⊢
      have hstep := h.resume hset hd (hsub.subset mem_cons_self) hres
      obtain ⟨hfired, hmarked, hparked⟩ := scan_spec hset hd now rest hstep hrest
      rw [(resume_new hres).2] at hfired hmarked
      -- no later timer has the token just marked
      have hlater : ∀ t ∈ timersOf rest, token t.runId t.seq ≠ token due.runId due.seq := fun t ht heq => by
        have hnodup := (hsub.map (·.runId)).nodup hd
        rw [map_cons, nodup_cons] at hnodup
        exact hnodup.1 (token_runId heq ▸ mem_map_of_mem ht)
      rw [scan_fire rest hfresh, filter_cons_of_pos (by simp [hle, hres])]
      refine ⟨?_, by rw [hmarked]; simp, hparked⟩
      rw [hfired]
      exact congrArg (due :: ·) (filter_congr fun t ht => by simp [hlater t ht])

theorem checks_eq (hset : SetsNoTimer onResume) (hd : (origin.map (·.runId)).Nodup) :
    ∀ (readings : List Int) {c : SignalTimerCoordinator V}, ParkedOn origin c → checks onResume readings c = firings readings (unresumed c)
  | [], _, _ => rfl
  | now :: rest, c, h => by
    have hlisted := timersOf_listIncomplete c
    obtain ⟨hfired, hmarked, hparked⟩ := scan_spec hset hd now c.listIncomplete h (hlisted ▸ h.within)
    have hnow : (scan onResume now c.listIncomplete c).1 = (unresumed c).filter fun t => t.expiresAt ≤ now := by
      rw [hfired, hlisted, unresumed, filter_filter]
      exact filter_congr fun t _ => by simp
    have hleft : unresumed (scan onResume now c.listIncomplete c).2 = (unresumed c).filter fun t => now < t.expiresAt := by
      rw [hparked.kept, h.kept, filter_filter, hmarked, hnow]
      refine filter_congr fun t ht => ?_
      by_cases hres : token t.runId t.seq ∈ c.resumed
      · simp [hres]
      · have hmem : t ∈ unresumed c := by
          rw [h.kept]
          exact mem_filter.2 ⟨ht, by simpa using hres⟩
        have hiff : token t.runId t.seq ∈ ((unresumed c).filter fun t => t.expiresAt ≤ now).map
            (fun t => token t.runId t.seq) ↔ t.expiresAt ≤ now := by
          constructor
          · intro hmap
            obtain ⟨u, hu, htok⟩ := mem_map.1 hmap
            obtain ⟨huc, hule⟩ := mem_filter.1 hu
            rw [h.kept] at huc
            rw [← eq_of_runId hd (mem_filter.1 huc).1 ht (token_runId htok)]
            simpa using hule
          · intro hle
            exact mem_map_of_mem (mem_filter.2 ⟨hmem, by simpa using hle⟩)
        simp only [mem_append, hres, false_or, hiff, not_false_eq_true, decide_true, Bool.and_true, Int.not_le]
    show (scan onResume now c.listIncomplete c).1 ++ checks onResume rest (scan onResume now c.listIncomplete c).2 = _
    rw [checks_eq hset hd rest hparked, hnow, hleft]
    rfl

end Checks

/-! ## The order of firing -/

/-- Over any runs parked on timers and any non-decreasing readings of the clock, every timer that
some reading reaches is fired once, and the firings are in the order of expiry exactly when no
reading is the first to reach a timer together with one that stands after it in the store and
expires earlier. -/
theorem timers_fire (onResume : OnResume V) (hset : SetsNoTimer onResume) (runs : List (WorkflowRun V))
    (hd : (runs.map (·.runId)).Nodup) (readings : List Int) (hmono : readings.Pairwise (· ≤ ·)) :
    (checks onResume readings ⟨runs, []⟩).Perm ((timersOf runs).filter fun t => ∃ now ∈ readings, t.expiresAt ≤ now) ∧
      ((checks onResume readings ⟨runs, []⟩).Pairwise (fun f g => f.expiresAt ≤ g.expiresAt) ↔ Separated readings (timersOf runs)) := by
  have hnodup : ((timersOf runs).map (·.runId)).Nodup := (timersOf_runIds runs).nodup hd
  have hall : unresumed (⟨runs, []⟩ : SignalTimerCoordinator V) = timersOf runs :=
    filter_eq_self.2 fun t _ => by simp
  have hparked : ParkedOn (timersOf runs) (⟨runs, []⟩ : SignalTimerCoordinator V) :=
    ⟨List.Sublist.refl _, hall.trans (filter_eq_self.2 fun t _ => by simp).symm⟩
  rw [checks_eq hset hnodup readings hparked, hall]
  exact ⟨firings_perm readings _, firings_ordered_iff readings _ hmono⟩

/-- A run parked on a sleep by `park` at time 0. -/
def parkedRun (runId : String) (expiresAt : Int) : WorkflowRun Value :=
  { runId, definition := "timer-order-spec", status := .waiting, input := .undefined,
    commands := [{ seq := 0, kind := .sleep, status := .waiting, attempts := 0, timerExpiresAt := some expiresAt }],
    nextSeq := 1, history := [.timerSet 0 0 expiresAt], createdAt := 0, updatedAt := 0 }

/-- A later timer parked first, and the clock stepping through both expiries. -/
theorem timers_fire_stepwise : (checks none [10, 20] ⟨[parkedRun "run-0" 20, parkedRun "run-1" 10], []⟩).Pairwise
      (fun f g => f.expiresAt ≤ g.expiresAt) :=
  (timers_fire none (fun _ h => by cases h) [parkedRun "run-0" 20, parkedRun "run-1" 10] (by decide) [10, 20]
    (by decide)).2.2 (by unfold Separated; decide)

/-- One reading of the clock past both expiries fires the later timer before the earlier one. -/
theorem late_check_counterexample : (checks none [30] ⟨[parkedRun "run-0" 20, parkedRun "run-1" 10], []⟩).map (·.expiresAt) = [20, 10] ∧
    ¬ (checks none [30] ⟨[parkedRun "run-0" 20, parkedRun "run-1" 10], []⟩).Pairwise (fun f g => f.expiresAt ≤ g.expiresAt) := by
  constructor <;> decide

end StreetJS.Workflow
