/-
Whether the executions of a job exclude each other, and whether one that has lost its lock overwrites
what another has written. Claims and outcomes name the row by its id only, so both rest on how the
statements fall.
-/
import StreetJS.Jobs.JobQueue

namespace StreetJS.Jobs

open StreetJS.Lib List

/-! ## The property and its conditions -/

/-- Two handlers are at one job only when a reaper has found its lock stale under one of them. -/
def Exclusive (s : JobTable) : Prop :=
  ∀ (x y : Nat) (e f : Execution), x ≠ y → s.executions[x]? = some e → s.executions[y]? = some f → e.jobId = f.jobId →
    e.phase = .handling → f.phase = .handling → e.stale = true ∨ f.stale = true

/-- A lock is written while no other execution of the job is under way but such as have been found stale. -/
def Unclaimed (s : JobTable) : JobEvent → Prop
  | .goOn x .ok _ => ∀ e : Execution, s.executions[x]? = some e → e.phase = .dispatching →
    ∀ (y : Nat) (f : Execution), y ≠ x → s.executions[y]? = some f → f.jobId = e.jobId → f.underWay = true → f.stale = true
  | _ => True

/-- A reaper finds no row stale of which an execution is under way. -/
def Heartbeaten (workers : Nat → JobQueue) (s : JobTable) : JobEvent → Prop
  | .reapStaleJobs w now => ∀ e ∈ s.executions, e.underWay = true → s.isStale (workers w) now e.jobId = false
  | _ => True

/-! ## Executions under way -/

/-- Of two executions of a job that are under way one has been found stale. -/
def Apart (s : JobTable) : Prop :=
  ∀ (x y : Nat) (e f : Execution), x ≠ y → s.executions[x]? = some e → s.executions[y]? = some f → e.jobId = f.jobId →
    e.underWay = true → f.underWay = true → e.stale = true ∨ f.stale = true

section

variable {workers : Nat → JobQueue} {s : JobTable}

theorem Apart.exclusive (h : Apart s) : Exclusive s := by
  intro x y e f hne he hf hjob hhe hhf
  refine h x y e f hne he hf hjob ?_ ?_
  · rw [Execution.underWay, hhe]
  · rw [Execution.underWay, hhf]

theorem Apart.of_forall {s' : JobTable} (h : Apart s) (hold : ∀ (x : Nat) (e' : Execution), s'.executions[x]? = some e' → e'.underWay = true →
      ∃ e, s.executions[x]? = some e ∧ e.jobId = e'.jobId ∧ e.underWay = true ∧ (e.stale = true → e'.stale = true)) :
    Apart s' := by
  intro x y e' f' hne he hf hjob hue huf
  obtain ⟨e, hxe, hje, hue, hse⟩ := hold x e' he hue
  obtain ⟨f, hyf, hjf, huf, hsf⟩ := hold y f' hf huf
  rcases h x y e f hne hxe hyf (by rw [hje, hjf, hjob]) hue huf with hs | hs
  · exact .inl (hse hs)
  · exact .inr (hsf hs)

theorem executions_move (x : Nat) (e : Execution) (phase : Phase) : (s.move x e phase).executions = s.executions.set x { e with phase } := rfl

theorem executions_goOn {x : Nat} {e : Execution} (hx : s.executions[x]? = some e) (reply : Reply) (now : Int) :
    (s.goOn workers x reply now).executions = s.executions.set x { e with phase := (workers e.worker).after e e.phase reply } := by
  unfold JobTable.goOn
  rw [hx]
  simp only [executions_move]
  split
  · rfl
  · rfl

/-- Where the executions of a step come from: one of before, with the same job, that was under way if this
one is, or the one that has just written its lock. -/
theorem goOn_execution {x : Nat} {e : Execution} (hx : s.executions[x]? = some e) {reply : Reply} {now : Int}
    {y : Nat} {f' : Execution} (hy : (s.goOn workers x reply now).executions[y]? = some f')
    (huf : f'.underWay = true) :
    (∃ f, s.executions[y]? = some f ∧ f.jobId = f'.jobId ∧ f.underWay = true ∧ f.stale = f'.stale) ∨
      y = x ∧ e.phase = .dispatching ∧ reply = .ok ∧ f'.jobId = e.jobId ∧ f'.stale = e.stale := by
  rw [executions_goOn hx, getElem?_set] at hy
  split at hy
  · rename_i hxy
    subst hxy
    split at hy
    · cases hy
      by_cases hd : e.phase = .dispatching ∧ reply = .ok
      · exact .inr ⟨rfl, hd.1, hd.2, rfl, rfl⟩
      · refine .inl ⟨e, hx, rfl, ?_, rfl⟩
        cases hphase : e.phase with
        | dispatching =>
          cases reply with
          | ok => exact absurd ⟨hphase, rfl⟩ hd
          | fails error =>
            rw [hphase] at huf
            exact absurd huf (by simp [JobQueue.after, Execution.underWay])
        | done =>
          rw [hphase] at huf
          exact absurd huf (by simp [JobQueue.after, Execution.underWay])
        | _ => rw [Execution.underWay, hphase]
    · cases hy
  · exact .inl ⟨f', hy, rfl, huf, rfl⟩

end

section

variable {workers : Nat → JobQueue} {s : JobTable}

theorem poll_execution {w : Nat} {now : Int} {y : Nat} {f : Execution}
    (hy : (s.poll workers w now).executions[y]? = some f) (huf : f.underWay = true) :
    s.executions[y]? = some f := by
  simp only [JobTable.poll, getElem?_append] at hy
  split at hy
  · exact hy
  · obtain ⟨_, _, rfl⟩ := mem_map.1 (mem_of_getElem? hy)
    cases huf

theorem crash_execution {w : Nat} {y : Nat} {f : Execution} (hy : (s.crash w).executions[y]? = some f)
    (huf : f.underWay = true) : s.executions[y]? = some f := by
  simp only [JobTable.crash, getElem?_map, Option.map_eq_some_iff] at hy
  obtain ⟨e, he, heq⟩ := hy
  split at heq
  · subst heq
    cases huf
  · rw [he, heq]

theorem reap_execution {w : Nat} {now : Int} {y : Nat} {f : Execution}
    (hy : (s.reapStaleJobs workers w now).executions[y]? = some f) (huf : f.underWay = true) :
    ∃ e, s.executions[y]? = some e ∧ e.jobId = f.jobId ∧ e.underWay = true ∧ f.stale = (e.stale || s.isStale (workers w) now e.jobId) := by
  simp only [JobTable.reapStaleJobs, getElem?_map, Option.map_eq_some_iff] at hy
  obtain ⟨e, he, rfl⟩ := hy
  have hue : e.underWay = true := huf
  refine ⟨e, he, rfl, hue, ?_⟩
  simp only [hue, Bool.true_and]

theorem heartbeat_executions (n : Nat) (now : Int) : (s.heartbeat workers n now).executions = s.executions := by
  unfold JobTable.heartbeat
  split <;> rfl

theorem beat_executions (w : Nat) : (s.beat w).executions = s.executions := by
  unfold JobTable.beat
  split <;> rfl

theorem Apart.goOn (h : Apart s) {x : Nat} {reply : Reply} {now : Int} (hg : Unclaimed s (.goOn x reply now)) :
    Apart (s.goOn workers x reply now) := by
  cases hx : s.executions[x]? with
  | none =>
    rw [JobTable.goOn, hx]
    exact h
  | some e =>
    intro y z f' g' hne hf hg' hjob huf hug
    rcases goOn_execution hx hf huf with ⟨f, hf₀, hjf, huf₀, hsf⟩ | ⟨rfl, hd, rfl, hjf, -⟩
    · rcases goOn_execution hx hg' hug with ⟨g, hg₀, hjg, hug₀, hsg⟩ | ⟨rfl, hd, rfl, hjg, -⟩
      · rcases h y z f g hne hf₀ hg₀ (by rw [hjf, hjg, hjob]) huf₀ hug₀ with hs | hs
        · exact .inl (hsf ▸ hs)
        · exact .inr (hsg ▸ hs)
      · exact .inl (hsf ▸ hg e hx hd y f hne hf₀ (by rw [hjf, hjob, hjg]) huf₀)
    · rcases goOn_execution hx hg' hug with ⟨g, hg₀, hjg, hug₀, hsg⟩ | ⟨rfl, -⟩
      · exact .inr (hsg ▸ hg e hx hd z g hne.symm hg₀ (by rw [hjg, ← hjob, hjf]) hug₀)
      · exact absurd rfl hne

theorem Apart.step (h : Apart s) {e : JobEvent} (hg : Unclaimed s e) : Apart (s.step workers e) := by
  cases e with
  | enqueue type payload runAt => exact h
  | poll w now =>
    refine h.of_forall fun x f hx huf => ⟨f, poll_execution hx huf, rfl, huf, id⟩
  | goOn x reply now => exact h.goOn hg
  | beat w =>
    refine h.of_forall fun x f hx huf => ⟨f, ?_, rfl, huf, id⟩
    rw [← beat_executions w]
    exact hx
  | heartbeat n now =>
    refine h.of_forall fun x f hx huf => ⟨f, ?_, rfl, huf, id⟩
    rw [← heartbeat_executions n now]
    exact hx
  | reapStaleJobs w now =>
    refine h.of_forall fun x f hx huf => ?_
    obtain ⟨e, he, hjob, hue, hstale⟩ := reap_execution hx huf
    refine ⟨e, he, hjob, hue, fun hs => ?_⟩
    rw [hstale, hs, Bool.true_or]
  | crash w => exact h.of_forall fun x f hx huf => ⟨f, crash_execution hx huf, rfl, huf, id⟩

end

/-! ## Executions that keep their lock -/

/-- The invariant of a table whose executions under way are never found stale: each is alone at its job,
and the last to have written its row. -/
structure Held (s : JobTable) : Prop where
  apart : Apart s
  unreaped : ∀ e ∈ s.executions, e.stale = false
  writer : ∀ (x : Nat) (e : Execution), s.executions[x]? = some e → e.underWay = true → s.jobs e.jobId = none ∨ s.writer e.jobId = some x
  known : ∀ e ∈ s.executions, e.jobId < s.nextId
  kept : s.overwritten = []

section

variable {workers : Nat → JobQueue} {s : JobTable}

variable {x : Nat} {e : Execution}

theorem Held.alone (h : Held s) {y : Nat} {f : Execution} (hx : s.executions[x]? = some e)
    (hy : s.executions[y]? = some f) (hjob : e.jobId = f.jobId) (hue : e.underWay = true)
    (huf : f.underWay = true) : x = y := by
  by_contra hne
  rcases h.apart x y e f hne hx hy hjob hue huf with hs | hs
  · rw [h.unreaped e (mem_of_getElem? hx)] at hs
    cases hs
  · rw [h.unreaped f (mem_of_getElem? hy)] at hs
    cases hs

theorem mem_select {q : JobQueue} {now : Int} {id : Nat} {row : JobRow} (h : (id, row) ∈ s.select q now) : id < s.nextId := by
  have h := mem_of_mem_take h
  rw [mem_insertionSort] at h
  obtain ⟨id', hid, heq⟩ := mem_filterMap.1 (mem_filter.1 h).1
  obtain ⟨row', -, heq⟩ := Option.map_eq_some_iff.1 heq
  cases heq
  exact mem_range.1 hid

theorem Held.of_forall {s' : JobTable} (h : Held s) (happart : Apart s')
    (hold : ∀ (x : Nat) (e' : Execution), s'.executions[x]? = some e' → e'.underWay = true →
      ∃ e, s.executions[x]? = some e ∧ e.jobId = e'.jobId ∧ e.underWay = true ∧
        (s.jobs e.jobId = none → s'.jobs e.jobId = none) ∧ s'.writer e.jobId = s.writer e.jobId)
    (hall : ∀ e ∈ s'.executions, e.stale = false ∧ e.jobId < s'.nextId) (hkept : s'.overwritten = s.overwritten) :
    Held s' := by
  refine ⟨happart, fun e he => (hall e he).1, fun x e' hx hu => ?_, fun e he => (hall e he).2, hkept.trans h.kept⟩
  obtain ⟨e, he, hjob, hue, hjobs, hwriter⟩ := hold x e' hx hu
  rw [← hjob]
  rcases h.writer x e he hue with hn | hw
  · exact .inl (hjobs hn)
  · exact .inr (hwriter.trans hw)

theorem write_jobs_of_ne (workers : Nat → JobQueue) (x : Nat) (now : Int) {id : Nat} (h : id ≠ e.jobId) :
    (s.write workers x e now).jobs id = s.jobs id ∧ (s.write workers x e now).writer id = s.writer id := by
  refine ⟨Function.update_of_ne h _ _, ?_⟩
  unfold JobTable.write
  dsimp only
  split
  · exact Function.update_of_ne h _ _
  · rfl

theorem write_own {now : Int} : (s.write workers x e now).jobs e.jobId = none ∨ (s.write workers x e now).writer e.jobId = some x := by
  unfold JobTable.write
  dsimp only
  cases hrow : s.jobs e.jobId with
  | none =>
    left
    rw [Function.update_self]
    cases e.phase <;> rfl
  | some row =>
    right
    rw [if_pos (by rfl), Function.update_self]

theorem overwrites_own (h : s.jobs e.jobId = none ∨ s.writer e.jobId = some x) : s.overwrites x e = [] := by
  unfold JobTable.overwrites
  rcases h with h | h
  · rw [h]
  · rw [h]
    cases s.jobs e.jobId with
    | none => rfl
    | some row => exact if_neg fun hn => hn.2 rfl

theorem overwrites_dispatching (h : e.phase = .dispatching) : s.overwrites x e = [] := by
  unfold JobTable.overwrites
  split
  · rw [h]
    exact if_neg fun hn => by cases hn.1
  · rfl

theorem Held.goOn (h : Held s) {reply : Reply} {now : Int} (hg : Unclaimed s (.goOn x reply now)) : Held (s.goOn workers x reply now) := by
  have happart : Apart (s.goOn workers x reply now) := h.apart.goOn hg
  cases hx : s.executions[x]? with
  | none =>
    rw [JobTable.goOn, hx]
    exact h
  | some e =>
    have hmem := mem_of_getElem? hx
    -- a write is the lock of a dispatch, or the outcome of an execution under way
    have hwrites : e.phase.writes reply = true → e.phase = .dispatching ∧ reply = .ok ∨ e.underWay = true := by
      intro hw
      cases reply with
      | fails error => cases hw
      | ok =>
        cases hphase : e.phase with
        | dispatching => exact .inl ⟨rfl, rfl⟩
        | handling =>
          rw [hphase] at hw
          cases hw
        | done =>
          rw [hphase] at hw
          cases hw
        | _ => exact .inr (by rw [Execution.underWay, hphase])
    have hgo : s.goOn workers x reply now = (if e.phase.writes reply then s.write workers x e now else s).move x e
        ((workers e.worker).after e e.phase reply) := by
      rw [JobTable.goOn, hx]
    have hall : ∀ f ∈ (s.goOn workers x reply now).executions, f.stale = false ∧ f.jobId < s.nextId := by
      intro f hf
      rw [executions_goOn hx] at hf
      rcases mem_or_eq_of_mem_set hf with hf | rfl
      · exact ⟨h.unreaped f hf, h.known f hf⟩
      · exact ⟨h.unreaped e hmem, h.known e hmem⟩
    have hnext : (s.goOn workers x reply now).nextId = s.nextId := by
      rw [hgo]
      split <;> rfl
    refine ⟨happart, fun f hf => (hall f hf).1, fun y f' hy huf => ?_, fun f hf => ?_, ?_⟩
    · have horigin := goOn_execution hx hy huf
      cases hw : e.phase.writes reply with
      | false =>
        rw [hgo, hw]
        rcases horigin with ⟨f, hf, hjob, huf₀, -⟩ | ⟨-, hd, rfl, -⟩
        · rw [← hjob]
          exact h.writer y f hf huf₀
        · rw [hd] at hw
          cases hw
      | true =>
        rw [hgo, hw, if_pos rfl]
        show (s.write workers x e now).jobs f'.jobId = none ∨ (s.write workers x e now).writer f'.jobId = some y
        rcases horigin with ⟨f, hf, hjob, huf₀, -⟩ | ⟨rfl, -, -, hjob, -⟩
        · by_cases hyx : y = x
          · subst hyx
            rw [hx] at hf
            cases hf
            rw [← hjob]
            exact write_own
          · have hne : f.jobId ≠ e.jobId := by
              intro hje
              rcases hwrites hw with ⟨hd, rfl⟩ | hue
              · have hs := hg e hx hd y f hyx hf hje huf₀
                rw [h.unreaped f (mem_of_getElem? hf)] at hs
                cases hs
              · exact hyx (h.alone hf hx hje huf₀ hue)
            obtain ⟨hj, hwr⟩ := write_jobs_of_ne workers x now hne
            rw [← hjob, hj, hwr]
            exact h.writer y f hf huf₀
        · rw [hjob]
          exact write_own
    · rw [hnext]
      exact (hall f hf).2
    · rw [hgo]
      cases hw : e.phase.writes reply with
      | false => exact h.kept
      | true =>
        show s.overwritten ++ s.overwrites x e = []
        rw [h.kept, nil_append]
        rcases hwrites hw with ⟨hd, -⟩ | hue
        · exact overwrites_dispatching hd
        · exact overwrites_own (h.writer x e hx hue)

theorem Held.step (h : Held s) {e : JobEvent} (hg : Unclaimed s e) (hb : Heartbeaten workers s e) : Held (s.step workers e) := by
  have happart : Apart (s.step workers e) := h.apart.step hg
  have hall : ∀ f ∈ s.executions, f.stale = false ∧ f.jobId < s.nextId :=
    fun f hf => ⟨h.unreaped f hf, h.known f hf⟩
  cases e with
  | enqueue type payload runAt =>
    refine h.of_forall happart (fun x f hx huf => ⟨f, hx, rfl, huf, fun hn => ?_, rfl⟩) (fun f hf => ?_) rfl
    · have hlt := h.known f (mem_of_getElem? hx)
      show Function.update s.jobs s.nextId _ f.jobId = none
      rw [Function.update_of_ne (by omega)]
      exact hn
    · exact ⟨h.unreaped f hf, Nat.lt_succ_of_lt (h.known f hf)⟩
  | poll w now =>
    refine h.of_forall happart (fun x f hx huf => ⟨f, poll_execution hx huf, rfl, huf, id, rfl⟩) (fun f hf => ?_) rfl
    rcases mem_append.1 hf with hf | hf
    · exact hall f hf
    · obtain ⟨⟨id, row⟩, hsel, rfl⟩ := mem_map.1 hf
      exact ⟨rfl, mem_select hsel⟩
  | goOn x reply now => exact h.goOn hg
  | beat w =>
    show Held (s.beat w)
    unfold JobTable.beat
    split
    · exact h
    · exact { h with }
  | heartbeat n now =>
    show Held (s.heartbeat workers n now)
    unfold JobTable.heartbeat
    split
    · exact h
    · refine h.of_forall h.apart (fun x f hx huf => ⟨f, hx, rfl, huf, fun hn => ?_, rfl⟩) hall rfl
      simp only [hn, Option.map_none]
  | reapStaleJobs w now =>
    have hfresh : ∀ f ∈ s.executions, f.underWay = true → s.isStale (workers w) now f.jobId = false := hb
    refine h.of_forall happart (fun x f' hx huf => ?_) (fun f' hf => ?_) rfl
    · obtain ⟨f, hf, hjob, huf₀, -⟩ := reap_execution hx huf
      have hno := hfresh f (mem_of_getElem? hf) huf₀
      refine ⟨f, hf, hjob, huf₀, fun hn => ?_, ?_⟩
      · show (if s.isStale (workers w) now f.jobId then _ else s.jobs f.jobId) = none
        rw [hno, if_neg (by decide)]
        exact hn
      · show (if s.isStale (workers w) now f.jobId then none else s.writer f.jobId) = _
        rw [hno, if_neg (by decide)]
    · obtain ⟨f, hmem, rfl⟩ := mem_map.1 hf
      refine ⟨?_, h.known f hmem⟩
      rw [h.unreaped f hmem, Bool.false_or]
      cases huf : f.underWay with
      | false => rfl
      | true => exact hfresh f hmem huf
  | crash w =>
    refine h.of_forall happart (fun x f hx huf => ⟨f, crash_execution hx huf, rfl, huf, id, rfl⟩) (fun f' hf => ?_) rfl
    obtain ⟨f, hmem, rfl⟩ := mem_map.1 hf
    split
    · exact hall f hmem
    · exact hall f hmem

end

/-! ## Runs -/

theorem unclaimed_of_resting {s : JobTable} {x : Nat} {reply : Reply} {now : Int}
    (h : ∀ f ∈ s.executions, f.underWay = false) : Unclaimed s (.goOn x reply now) := by
  cases reply with
  | fails error => trivial
  | ok =>
    intro e _ _ y f _ hf _ huf
    rw [h f (mem_of_getElem? hf)] at huf
    cases huf

theorem unclaimed_of_locked {s : JobTable} {x : Nat} {reply : Reply} {now : Int}
    (h : ∀ f ∈ s.executions, f.phase ≠ .dispatching) : Unclaimed s (.goOn x reply now) := by
  cases reply with
  | fails error => trivial
  | ok => exact fun e he hd => absurd hd (h e (mem_of_getElem? he))

/-- Two workers of one type, of which the second reaps at once. -/
def twoWorkers (w : Nat) : JobQueue :=
  { workerId := if w = 0 then "worker-0" else "worker-1"
    staleJobThresholdMs := 10
    handlers := ["mail"]
    retryPolicies := [("mail", { maxAttempts := 3, initialDelayMs := 5, backoffMultiplier := 2, maxDelayMs := 60 })] }

/-- A job fails at one worker and is done by the other. -/
def retriedJob : List JobEvent :=
  [.enqueue "mail" "{}" 0, .poll 0 1, .goOn 0 .ok 1, .goOn 0 (.fails "smtp down") 2, .beat 0, .heartbeat 0 2,
    .reapStaleJobs 1 3, .goOn 0 .ok 3, .poll 1 9, .goOn 1 .ok 9, .goOn 1 .ok 10, .goOn 1 .ok 11]

/-- Both workers select the job before either locks it. -/
def doubleClaim : List JobEvent :=
  [.enqueue "mail" "{}" 0, .poll 0 1, .poll 1 1, .goOn 0 .ok 1, .goOn 1 .ok 1]

/-- The first worker's job is found stale and taken by the second, which is at work when the first is done. -/
def lateDelete : List JobEvent :=
  [.enqueue "mail" "{}" 0, .poll 0 1, .goOn 0 .ok 1, .reapStaleJobs 1 20, .poll 1 21, .goOn 1 .ok 21, .goOn 0 .ok 22, .goOn 0 .ok 23]

end StreetJS.Jobs
