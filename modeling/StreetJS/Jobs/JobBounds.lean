/-
How many handlers of a worker run at once, and how often a job is started. A poll selects as many rows as
ever, whatever is at work, and the attempts of a row are counted only when a failure has been written: both
bounds rest on how the statements fall.
-/
import StreetJS.Jobs.JobExclusion

namespace StreetJS.Jobs

open StreetJS.Lib List

/-! ## A table and the starts of its jobs -/

/-- The attempts that a policy allows. -/
def JobQueue.maxAttempts (q : JobQueue) (type : String) : Nat :=
  ((q.retryPolicies.get type).map (·.maxAttempts)).getD 1

/-- A table with the executions whose handler was called, each as it was then. -/
structure JobStarts where
  table : JobTable := {}
  starts : List Execution := []

namespace JobStarts

variable (workers : Nat → JobQueue)

/-- The handler that a step calls, for a job that is not in the dead letter queue. -/
def started (s : JobStarts) : JobEvent → List Execution
  | .goOn x .ok _ =>
    match s.table.executions[x]? with
    | some e =>
      if e.phase = .dispatching ∧ (workers e.worker).execute e = .handling ∧ ∀ d ∈ s.table.deadLetters, d.jobId ≠ e.jobId then [e]
      else []
    | none => []
  | _ => []

def step (s : JobStarts) (e : JobEvent) : JobStarts :=
  { table := s.table.step workers e, starts := s.starts ++ s.started workers e }

end JobStarts

/-- The handlers of a worker that run. -/
def JobTable.handling (s : JobTable) (w : Nat) : Nat :=
  s.executions.countP fun e => e.worker = w ∧ e.phase = .handling

/-- The rows that a worker has selected whose handler has not come to its end. -/
def JobTable.active (s : JobTable) (w : Nat) : Nat :=
  s.executions.countP fun e => e.worker = w ∧ (e.phase = .dispatching ∨ e.phase = .handling)

/-- No worker runs more handlers than its `concurrency`, and no job is started more often than its policy
allows. -/
structure Bounded (workers : Nat → JobQueue) (s : JobStarts) : Prop where
  handling : ∀ w, s.table.handling w ≤ (workers w).concurrency
  starts : ∀ id type m, (∀ w, (workers w).maxAttempts type = m) → s.starts.countP (fun e => e.jobId = id ∧ e.type = type) ≤ m

/-- A poll selects no more rows than there are handlers free; a lock is written on the row that was selected,
with no other execution of the job under way; and a reaper finds no row stale whose handler was called in the
attempt that the row counts. -/
def InTurn (workers : Nat → JobQueue) (s : JobStarts) : JobEvent → Prop
  | .poll w now => s.table.active w + (s.table.select (workers w) now).length ≤ (workers w).concurrency
  | .goOn x .ok _ => ∀ e : Execution, s.table.executions[x]? = some e → e.phase = .dispatching →
    (∃ row, s.table.jobs e.jobId = some row ∧ row.status = .pending ∧ row.attemptCount = e.attempt) ∧
      ∀ (y : Nat) (f : Execution), y ≠ x → s.table.executions[y]? = some f → f.jobId = e.jobId → f.underWay = false
  | .reapStaleJobs w now => ∀ id row, s.table.jobs id = some row → s.table.isStale (workers w) now id = true →
    ∀ e ∈ s.starts, e.jobId = id → e.attempt ≠ row.attemptCount
  | _ => True

/-! ## The invariant -/

/-- What is known of the executions. -/
structure Traced (workers : Nat → JobQueue) (s : JobTable) : Prop where
  known : ∀ e ∈ s.executions, e.jobId < s.nextId
  rows : ∀ id row, s.jobs id = some row → id < s.nextId
  alone : ∀ (x y : Nat) (e f : Execution), s.executions[x]? = some e → s.executions[y]? = some f → e.jobId = f.jobId →
    e.underWay = true → f.underWay = true → x = y
  types : ∀ e ∈ s.executions, ∀ row, s.jobs e.jobId = some row → row.type = e.type
  attempt : ∀ e ∈ s.executions, e.underWay = true → ∀ row, s.jobs e.jobId = some row → row.attemptCount = e.attempt
  /-- What is retried has attempts left. -/
  retried : ∀ e ∈ s.executions, ∀ error, e.phase = .retrying error → e.attempt + 1 < (workers e.worker).maxAttempts e.type
  left : ∀ id row, s.jobs id = some row → ∀ m, (∀ w, (workers w).maxAttempts row.type = m) → row.attemptCount < m

/-- What is known of the starts. -/
structure Counted (workers : Nat → JobQueue) (s : JobStarts) : Prop where
  traced : Traced workers s.table
  active : ∀ w, s.table.active w ≤ (workers w).concurrency
  fresh : ∀ e ∈ s.starts, e.jobId < s.table.nextId
  /-- The attempts that were started are behind a row that is pending, and no further than any row. -/
  behind : ∀ e ∈ s.starts, ∀ row, s.table.jobs e.jobId = some row →
    e.attempt ≤ row.attemptCount ∧ (row.status = .pending → e.attempt < row.attemptCount)
  increasing : s.starts.Pairwise fun e f => e.jobId = f.jobId → e.attempt < f.attempt
  allowed : ∀ e ∈ s.starts, ∀ m, (∀ w, (workers w).maxAttempts e.type = m) → e.attempt < m

section

variable {workers : Nat → JobQueue} {s : JobStarts} {t : JobTable}

theorem handling_le_active (w : Nat) : t.handling w ≤ t.active w := by
  apply countP_mono_left
  intro e _ he
  have he : e.worker = w ∧ e.phase = .handling := of_decide_eq_true he
  exact decide_eq_true ⟨he.1, .inr he.2⟩

theorem length_le_of_increasing {l : List Execution} {m : Nat} (hlt : ∀ e ∈ l, e.attempt < m)
    (hinc : l.Pairwise fun e f => e.attempt < f.attempt) : l.length ≤ m := by
  have hnodup : (l.map (·.attempt)).Nodup := pairwise_map.2 (hinc.imp fun h => Nat.ne_of_lt h)
  have hsub : l.map (·.attempt) ⊆ List.range m := by
    intro a ha
    obtain ⟨e, he, rfl⟩ := mem_map.1 ha
    exact mem_range.2 (hlt e he)
  have hlength := (subperm_of_subset hnodup hsub).length_le
  rwa [length_map, length_range] at hlength

theorem Counted.bounded (h : Counted workers s) : Bounded workers s where
  handling w := le_trans (handling_le_active w) (h.active w)
  starts id type m hm := by
    rw [countP_eq_length_filter]
    apply length_le_of_increasing
    · intro e he
      obtain ⟨hmem, hof⟩ := mem_filter.1 he
      have hof : e.jobId = id ∧ e.type = type := of_decide_eq_true hof
      exact h.allowed e hmem m (hof.2 ▸ hm)
    · refine (h.increasing.filter _).imp_of_mem fun {e f} he hf hlt => hlt ?_
      have he : e.jobId = id ∧ e.type = type := of_decide_eq_true (mem_filter.1 he).2
      have hf : f.jobId = id ∧ f.type = type := of_decide_eq_true (mem_filter.1 hf).2
      exact he.1.trans hf.1.symm

/-! ## Steps that start nothing -/

/-- An execution is one of before, at most as far. -/
structure Execution.From (e e' : Execution) : Prop where
  worker : e'.worker = e.worker
  jobId : e'.jobId = e.jobId
  type : e'.type = e.type
  attempt : e'.attempt = e.attempt
  underWay : e'.underWay = true → e.underWay = true
  retrying : ∀ error, e'.phase = .retrying error → e.phase = .retrying error

theorem Traced.of_from {t' : JobTable} (h : Traced workers t) (hnext : t'.nextId = t.nextId)
    (hexecutions : ∀ (x : Nat) (e' : Execution), t'.executions[x]? = some e' → ∃ e, t.executions[x]? = some e ∧
    e.From e')
    (hrows : ∀ id row', t'.jobs id = some row' → ∃ row, t.jobs id = some row ∧ row'.type = row.type ∧ row'.attemptCount = row.attemptCount) :
    Traced workers t' := by
  have hmem : ∀ e' ∈ t'.executions, ∃ e ∈ t.executions, e.From e' := fun e' he' => by
    obtain ⟨x, hx⟩ := mem_iff_getElem?.1 he'
    obtain ⟨e, he, hfrom⟩ := hexecutions x e' hx
    exact ⟨e, mem_of_getElem? he, hfrom⟩
  constructor
  case known =>
    intro e' he'
    obtain ⟨e, he, hfrom⟩ := hmem e' he'
    rw [hnext, hfrom.jobId]
    exact h.known e he
  case rows =>
    intro id row' hrow'
    obtain ⟨row, hrow, -, -⟩ := hrows id row' hrow'
    rw [hnext]
    exact h.rows id row hrow
  case alone =>
    intro x y e' f' hx hy hjob hue huf
    obtain ⟨e, hxe, hfrome⟩ := hexecutions x e' hx
    obtain ⟨f, hyf, hfromf⟩ := hexecutions y f' hy
    rw [hfrome.jobId, hfromf.jobId] at hjob
    exact h.alone x y e f hxe hyf hjob (hfrome.underWay hue) (hfromf.underWay huf)
  case types =>
    intro e' he' row' hrow'
    obtain ⟨e, he, hfrom⟩ := hmem e' he'
    rw [hfrom.jobId] at hrow'
    obtain ⟨row, hrow, htype, -⟩ := hrows _ row' hrow'
    rw [htype, hfrom.type]
    exact h.types e he row hrow
  case attempt =>
    intro e' he' hue row' hrow'
    obtain ⟨e, he, hfrom⟩ := hmem e' he'
    rw [hfrom.jobId] at hrow'
    obtain ⟨row, hrow, -, hattempt⟩ := hrows _ row' hrow'
    rw [hattempt, hfrom.attempt]
    exact h.attempt e he (hfrom.underWay hue) row hrow
  case retried =>
    intro e' he' error hphase
    obtain ⟨e, he, hfrom⟩ := hmem e' he'
    rw [hfrom.attempt, hfrom.worker, hfrom.type]
    exact h.retried e he error (hfrom.retrying error hphase)
  case left =>
    intro id row' hrow' m hm
    obtain ⟨row, hrow, htype, hattempt⟩ := hrows id row' hrow'
    rw [htype] at hm
    rw [hattempt]
    exact h.left id row hrow m hm

/-! ## The steps of an execution -/

variable {e : Execution} {reply : Reply}

theorem retrying_of_after {q : JobQueue} {error : String}
    (h : q.after e e.phase reply = .retrying error) : e.attempt + 1 < q.maxAttempts e.type := by
  have hfail : ∀ error', q.handleFailure e error' = .retrying error → e.attempt + 1 < q.maxAttempts e.type := by
    intro error' h
    change (if q.maxAttempts e.type ≤ e.attempt + 1 then Phase.burying error' else .retrying error') = _ at h
    split at h
    · cases h
    · rename_i hleft
      exact Nat.lt_of_not_le hleft
  cases hphase : e.phase with
  | dispatching =>
    rw [hphase] at h
    cases reply with
    | ok =>
      change q.execute e = _ at h
      unfold JobQueue.execute at h
      split at h
      · cases h
      · exact hfail _ h
    | fails error' => cases h
  | handling =>
    rw [hphase] at h
    cases reply with
    | ok => cases h
    | fails error' => exact hfail _ h
  | deleting =>
    rw [hphase] at h
    cases reply with
    | ok => cases h
    | fails error' => exact hfail _ h
  | burying error' =>
    rw [hphase] at h
    cases reply with
    | ok => cases h
    | fails error'' => cases h
  | retrying error' =>
    rw [hphase] at h
    cases h
  | marking error' =>
    rw [hphase] at h
    cases h
  | done =>
    rw [hphase] at h
    cases h

theorem underWay_of_after {q : JobQueue} (h : ({ e with phase := q.after e e.phase reply } : Execution).underWay = true) :
    e.underWay = true ∨ e.phase = .dispatching ∧ reply = .ok := by
  cases hphase : e.phase with
  | dispatching =>
    cases reply with
    | ok => exact .inr ⟨rfl, rfl⟩
    | fails error =>
      rw [hphase] at h
      cases h
  | done =>
    rw [hphase] at h
    cases h
  | _ => exact .inl (by rw [Execution.underWay, hphase])

variable {x : Nat} {now : Int}

theorem goOn_from (hx : t.executions[x]? = some e) {y : Nat}
    {f' : Execution} (hy : (t.goOn workers x reply now).executions[y]? = some f') :
    (y ≠ x ∧ t.executions[y]? = some f') ∨ (y = x ∧ f' = { e with phase := (workers e.worker).after e e.phase reply }) := by
  rw [executions_goOn hx, getElem?_set] at hy
  split at hy
  · rename_i hxy
    subst hxy
    split at hy
    · exact .inr ⟨rfl, (Option.some.inj hy).symm⟩
    · cases hy
  · rename_i hxy
    exact .inl ⟨fun heq => hxy heq.symm, hy⟩

theorem goOn_nextId (x : Nat) (reply : Reply) (now : Int) : (t.goOn workers x reply now).nextId = t.nextId := by
  unfold JobTable.goOn
  split
  · rfl
  · split
    · rfl
    · rfl

/-- A row after an execution has gone on is one of before: of the same count, not pending but where it was
and no lock was written, or with the attempt counted of the execution that writes its retry. -/
theorem goOn_row (hx : t.executions[x]? = some e) {id : Nat}
    {row' : JobRow} (h : (t.goOn workers x reply now).jobs id = some row') :
    ∃ row, t.jobs id = some row ∧ row'.type = row.type ∧ (row'.attemptCount = row.attemptCount ∧
          (row'.status = .pending → row.status = .pending ∧ ¬(id = e.jobId ∧ e.phase = .dispatching ∧ reply = .ok)) ∨
        id = e.jobId ∧ (∃ error, e.phase = .retrying error) ∧ row'.attemptCount = e.attempt + 1) := by
  have hgo : (t.goOn workers x reply now).jobs = (if e.phase.writes reply then t.write workers x e now else t).jobs := by
    rw [JobTable.goOn, hx]
    rfl
  rw [hgo] at h
  by_cases hid : id = e.jobId
  · subst hid
    cases hw : e.phase.writes reply with
    | false =>
      rw [hw] at h
      refine ⟨row', h, rfl, .inl ⟨rfl, fun hp => ⟨hp, ?_⟩⟩⟩
      rintro ⟨-, hd, rfl⟩
      rw [hd] at hw
      cases hw
    | true =>
      rw [hw, if_pos rfl] at h
      change Function.update t.jobs e.jobId _ e.jobId = some row' at h
      rw [Function.update_self] at h
      cases reply with
      | fails error => cases hw
      | ok =>
        cases hphase : e.phase with
        | dispatching =>
          rw [hphase] at h
          obtain ⟨row, hrow, rfl⟩ := Option.map_eq_some_iff.1 h
          exact ⟨row, hrow, rfl, .inl ⟨rfl, fun hp => by cases hp⟩⟩
        | retrying error =>
          rw [hphase] at h
          obtain ⟨row, hrow, rfl⟩ := Option.map_eq_some_iff.1 h
          exact ⟨row, hrow, rfl, .inr ⟨rfl, ⟨error, rfl⟩, rfl⟩⟩
        | marking error =>
          rw [hphase] at h
          obtain ⟨row, hrow, rfl⟩ := Option.map_eq_some_iff.1 h
          exact ⟨row, hrow, rfl, .inl ⟨rfl, fun hp => by cases hp⟩⟩
        | deleting =>
          rw [hphase] at h
          cases h
        | burying error =>
          rw [hphase] at h
          cases h
        | handling =>
          rw [hphase] at hw
          cases hw
        | done =>
          rw [hphase] at hw
          cases hw
  · have hsame : t.jobs id = some row' := by
      split at h
      · rw [← (write_jobs_of_ne workers x now hid).1]
        exact h
      · exact h
    exact ⟨row', hsame, rfl, .inl ⟨rfl, fun hp => ⟨hp, fun hn => hid hn.1⟩⟩⟩

theorem Traced.goOn (h : Traced workers t) (hx : t.executions[x]? = some e) (hg : reply = .ok → e.phase = .dispatching →
      (∃ row, t.jobs e.jobId = some row ∧ row.status = .pending ∧ row.attemptCount = e.attempt) ∧
        ∀ (y : Nat) (f : Execution), y ≠ x → t.executions[y]? = some f → f.jobId = e.jobId → f.underWay = false) :
    Traced workers (t.goOn workers x reply now) := by
  have hmem := mem_of_getElem? hx
  -- an execution after the step has its place and its data of before
  have hfrom : ∀ f' ∈ (t.goOn workers x reply now).executions, ∃ f ∈ t.executions, f'.jobId = f.jobId ∧ f'.type = f.type := by
    intro f' hf'
    obtain ⟨y, hy⟩ := mem_iff_getElem?.1 hf'
    rcases goOn_from hx hy with ⟨-, hf⟩ | ⟨rfl, rfl⟩
    · exact ⟨f', mem_of_getElem? hf, rfl, rfl⟩
    · exact ⟨e, hmem, rfl, rfl⟩
  constructor
  case known =>
    intro f' hf'
    obtain ⟨f, hf, hjob, -⟩ := hfrom f' hf'
    rw [goOn_nextId, hjob]
    exact h.known f hf
  case rows =>
    intro id row' hrow'
    obtain ⟨row, hrow, -⟩ := goOn_row hx hrow'
    rw [goOn_nextId]
    exact h.rows id row hrow
  case alone =>
    intro y z f' g' hy hz hjob huf hug
    rcases goOn_from hx hy with ⟨hyx, hf⟩ | ⟨rfl, rfl⟩
    · rcases goOn_from hx hz with ⟨hzx, hg'⟩ | ⟨rfl, rfl⟩
      · exact h.alone y z f' g' hf hg' hjob huf hug
      · rcases underWay_of_after hug with hue | ⟨hd, rfl⟩
        · exact h.alone y z f' e hf hx hjob huf hue
        · rw [(hg rfl hd).2 y f' hyx hf hjob] at huf
          cases huf
    · rcases goOn_from hx hz with ⟨hzx, hg'⟩ | ⟨rfl, rfl⟩
      · rcases underWay_of_after huf with hue | ⟨hd, rfl⟩
        · exact h.alone y z e g' hx hg' hjob hue hug
        · rw [(hg rfl hd).2 z g' hzx hg' hjob.symm] at hug
          cases hug
      · rfl
  case types =>
    intro f' hf' row' hrow'
    obtain ⟨f, hf, hjob, htype⟩ := hfrom f' hf'
    obtain ⟨row, hrow, htype', -⟩ := goOn_row hx hrow'
    rw [htype, htype']
    rw [hjob] at hrow
    exact h.types f hf row hrow
  case attempt =>
    intro f' hf' huf row' hrow'
    obtain ⟨y, hy⟩ := mem_iff_getElem?.1 hf'
    obtain ⟨row, hrow, -, ⟨hcount, -⟩ | ⟨hid, ⟨error, hretry⟩, -⟩⟩ := goOn_row hx hrow'
    · rw [hcount]
      rcases goOn_from hx hy with ⟨-, hf⟩ | ⟨rfl, rfl⟩
      · exact h.attempt f' (mem_of_getElem? hf) huf row hrow
      · rcases underWay_of_after huf with hue | ⟨hd, rfl⟩
        · exact h.attempt e hmem hue row hrow
        · obtain ⟨⟨row₀, hrow₀, -, hattempt⟩, -⟩ := hg rfl hd
          cases hrow₀.symm.trans hrow
          exact hattempt
    · -- the execution that has written its retry was the only one under way, and is done
      have hue : e.underWay = true := by rw [Execution.underWay, hretry]
      rcases goOn_from hx hy with ⟨hyx, hf⟩ | ⟨rfl, rfl⟩
      · exact absurd (h.alone y x f' e hf hx hid huf hue) hyx
      · rw [hretry] at huf
        cases huf
  case retried =>
    intro f' hf' error hphase
    obtain ⟨y, hy⟩ := mem_iff_getElem?.1 hf'
    rcases goOn_from hx hy with ⟨-, hf⟩ | ⟨rfl, rfl⟩
    · exact h.retried f' (mem_of_getElem? hf) error hphase
    · exact retrying_of_after (q := workers e.worker) (e := e) hphase
  case left =>
    intro id row' hrow' m hm
    obtain ⟨row, hrow, htype, ⟨hcount, -⟩ | ⟨hid, ⟨error, hretry⟩, hcount⟩⟩ := goOn_row hx hrow'
    · rw [hcount]
      exact h.left id row hrow m (htype ▸ hm)
    · subst hid
      rw [htype, h.types e hmem row hrow] at hm
      rw [hcount, ← hm e.worker]
      exact h.retried e hmem error hretry

theorem countP_set_le {p : Execution → Bool} {l : List Execution} {e' : Execution} (hx : l[x]? = some e)
    (h : p e' = true → p e = true) : (l.set x e').countP p ≤ l.countP p := by
  obtain ⟨hlt, hget⟩ := List.getElem?_eq_some_iff.1 hx
  have hle : (if p l[x] then 1 else 0) ≤ l.countP p := boole_getElem_le_countP hlt
  rw [countP_set hlt, hget]
  rw [hget] at hle
  cases he' : p e' with
  | false =>
    rw [if_neg Bool.false_ne_true]
    omega
  | true =>
    rw [h he'] at hle ⊢
    omega

/-- A handler is at work only after the lock. -/
theorem active_goOn (hx : t.executions[x]? = some e) (reply : Reply) (now : Int) (w : Nat) :
    (t.goOn workers x reply now).active w ≤ t.active w := by
  unfold JobTable.active
  rw [executions_goOn hx]
  apply countP_set_le hx
  intro h
  obtain ⟨hw, hphase⟩ : e.worker = w ∧ ((workers e.worker).after e e.phase reply = .dispatching ∨
    (workers e.worker).after e e.phase reply = .handling) := of_decide_eq_true h
  refine decide_eq_true ⟨hw, ?_⟩
  have hfail : ∀ error, (workers e.worker).handleFailure e error = .burying error ∨
      (workers e.worker).handleFailure e error = .retrying error := by
    intro error
    change (if (workers e.worker).maxAttempts e.type ≤ e.attempt + 1 then Phase.burying error else .retrying error) = _ ∨
      (if (workers e.worker).maxAttempts e.type ≤ e.attempt + 1 then Phase.burying error else .retrying error) = _
    split
    · exact .inl rfl
    · exact .inr rfl
  cases hp : e.phase with
  | dispatching => exact .inl rfl
  | handling => exact .inr rfl
  | deleting =>
    rw [hp] at hphase
    cases reply with
    | ok => rcases hphase with hphase | hphase <;> cases hphase
    | fails error =>
      change (workers e.worker).handleFailure e error = _ ∨ (workers e.worker).handleFailure e error = _ at hphase
      rcases hfail error with hburying | hretrying
      · rw [hburying] at hphase
        rcases hphase with hphase | hphase <;> cases hphase
      · rw [hretrying] at hphase
        rcases hphase with hphase | hphase <;> cases hphase
  | burying error =>
    rw [hp] at hphase
    cases reply <;> rcases hphase with hphase | hphase <;> cases hphase
  | retrying error =>
    rw [hp] at hphase
    rcases hphase with hphase | hphase <;> cases hphase
  | marking error =>
    rw [hp] at hphase
    rcases hphase with hphase | hphase <;> cases hphase
  | done =>
    rw [hp] at hphase
    rcases hphase with hphase | hphase <;> cases hphase

theorem mem_started {f : Execution} (hx : s.table.executions[x]? = some e)
    (hf : f ∈ s.started workers (.goOn x reply now)) : f = e ∧ reply = .ok ∧ e.phase = .dispatching := by
  cases reply with
  | fails error => cases hf
  | ok =>
    simp only [JobStarts.started, hx] at hf
    split at hf
    · rename_i hstart
      exact ⟨mem_singleton.1 hf, rfl, hstart.1⟩
    · cases hf

theorem started_length (workers : Nat → JobQueue) (s : JobStarts) (x : Nat) (reply : Reply) (now : Int) :
    s.started workers (.goOn x reply now) = [] ∨ ∃ e, s.started workers (.goOn x reply now) = [e] := by
  cases reply with
  | fails error => exact .inl rfl
  | ok =>
    simp only [JobStarts.started]
    split
    · split
      · exact .inr ⟨_, rfl⟩
      · exact .inl rfl
    · exact .inl rfl

theorem Counted.goOn (h : Counted workers s) (hx : s.table.executions[x]? = some e) (hg : InTurn workers s (.goOn x reply now)) :
    Counted workers (s.step workers (.goOn x reply now)) := by
  have hlock : reply = .ok → e.phase = .dispatching →
      (∃ row, s.table.jobs e.jobId = some row ∧ row.status = .pending ∧ row.attemptCount = e.attempt) ∧
        ∀ (y : Nat) (f : Execution), y ≠ x → s.table.executions[y]? = some f → f.jobId = e.jobId → f.underWay = false := by
    rintro rfl hd
    exact hg e hx hd
  have hmem := mem_of_getElem? hx
  constructor
  case traced => exact h.traced.goOn hx hlock
  case active => exact fun w => le_trans (active_goOn hx reply now w) (h.active w)
  case fresh =>
    intro f hf
    show f.jobId < (s.table.goOn workers x reply now).nextId
    rw [goOn_nextId]
    rcases mem_append.1 hf with hf | hf
    · exact h.fresh f hf
    · rw [(mem_started hx hf).1]
      exact h.traced.known e hmem
  case behind =>
    intro f hf row' hrow'
    obtain ⟨row, hrow, -, hcount⟩ := goOn_row hx hrow'
    rcases mem_append.1 hf with hf | hf
    · obtain ⟨hle, hlt⟩ := h.behind f hf row hrow
      rcases hcount with ⟨hcount, hpending⟩ | ⟨hid, ⟨error, hretry⟩, hcount⟩
      · rw [hcount]
        exact ⟨hle, fun hp => hlt (hpending hp).1⟩
      · have hattempt := h.traced.attempt e hmem (by rw [Execution.underWay, hretry]) row (hid ▸ hrow)
        omega
    · -- the row is running
      obtain ⟨rfl, rfl, hd⟩ := mem_started hx hf
      obtain ⟨⟨row₀, hrow₀, -, hattempt⟩, -⟩ := hlock rfl hd
      cases hrow₀.symm.trans hrow
      rcases hcount with ⟨hcount, hpending⟩ | ⟨-, ⟨error, hretry⟩, -⟩
      · exact ⟨by omega, fun hp => absurd ⟨rfl, hd, rfl⟩ (hpending hp).2⟩
      · rw [hd] at hretry
        cases hretry
  case increasing =>
    refine pairwise_append.2 ⟨h.increasing, ?_, ?_⟩
    · rcases started_length workers s x reply now with hnone | ⟨e', hone⟩
      · rw [hnone]
        exact List.Pairwise.nil
      · rw [hone]
        exact pairwise_singleton _ _
    · -- what was started before is behind the row that is pending
      intro f hf g hgs hjob
      obtain ⟨rfl, rfl, hd⟩ := mem_started hx hgs
      obtain ⟨⟨row, hrow, hpending, hattempt⟩, -⟩ := hlock rfl hd
      rw [← hattempt]
      exact (h.behind f hf row (hjob ▸ hrow)).2 hpending
  case allowed =>
    intro f hf m hm
    rcases mem_append.1 hf with hf | hf
    · exact h.allowed f hf m hm
    · obtain ⟨rfl, rfl, hd⟩ := mem_started hx hf
      obtain ⟨⟨row, hrow, -, hattempt⟩, -⟩ := hlock rfl hd
      rw [← hattempt]
      exact h.traced.left f.jobId row hrow m (h.traced.types f hmem row hrow ▸ hm)

/-! ## The other steps -/

theorem Counted.of_from {s' : JobStarts} (h : Counted workers s) (hstarts : s'.starts = s.starts)
    (hnext : s'.table.nextId = s.table.nextId) (hactive : ∀ w, s'.table.active w ≤ s.table.active w)
    (hexecutions : ∀ (x : Nat) (e' : Execution), s'.table.executions[x]? = some e' → ∃ e, s.table.executions[x]? = some e ∧ e.From e')
    (hrows : ∀ id row', s'.table.jobs id = some row' → ∃ row, s.table.jobs id = some row ∧ row'.type = row.type ∧
      row'.attemptCount = row.attemptCount ∧ (row'.status = .pending → row.status = .pending ∨
        ∀ e ∈ s.starts, e.jobId = id → e.attempt ≠ row.attemptCount)) :
    Counted workers s' := by
  constructor
  case traced =>
    refine h.traced.of_from hnext hexecutions fun id row' hrow' => ?_
    obtain ⟨row, hrow, htype, hcount, -⟩ := hrows id row' hrow'
    exact ⟨row, hrow, htype, hcount⟩
  case active => exact fun w => le_trans (hactive w) (h.active w)
  case fresh =>
    rw [hstarts, hnext]
    exact h.fresh
  case behind =>
    rw [hstarts]
    intro f hf row' hrow'
    obtain ⟨row, hrow, -, hcount, hpending⟩ := hrows f.jobId row' hrow'
    obtain ⟨hle, hlt⟩ := h.behind f hf row hrow
    rw [hcount]
    refine ⟨hle, fun hp => ?_⟩
    rcases hpending hp with hp | hnone
    · exact hlt hp
    · exact Nat.lt_of_le_of_ne hle (hnone f hf rfl)
  case increasing =>
    rw [hstarts]
    exact h.increasing
  case allowed =>
    rw [hstarts]
    exact h.allowed

theorem Execution.From.refl (e : Execution) : e.From e := ⟨rfl, rfl, rfl, rfl, id, fun _ => id⟩

theorem Counted.heartbeat (h : Counted workers s) (n : Nat) (now : Int) : Counted workers (s.step workers (.heartbeat n now)) := by
  have hexecutions : (s.table.heartbeat workers n now).executions = s.table.executions := heartbeat_executions n now
  refine h.of_from (append_nil _) ?_ (fun w => ?_) (fun x e' hx => ⟨e', ?_, .refl e'⟩) fun id row' hrow' => ?_
  · show (s.table.heartbeat workers n now).nextId = _
    unfold JobTable.heartbeat
    split <;> rfl
  · show (s.table.heartbeat workers n now).active w ≤ _
    unfold JobTable.active
    rw [hexecutions]
  · rw [← hexecutions]
    exact hx
  · change (s.table.heartbeat workers n now).jobs id = some row' at hrow'
    unfold JobTable.heartbeat at hrow'
    split at hrow'
    · exact ⟨row', hrow', rfl, rfl, fun hp => .inl hp⟩
    · obtain ⟨row, hrow, heq⟩ := Option.map_eq_some_iff.1 hrow'
      refine ⟨row, hrow, ?_⟩
      split at heq
      · subst heq
        exact ⟨rfl, rfl, fun hp => .inl hp⟩
      · subst heq
        exact ⟨rfl, rfl, fun hp => .inl hp⟩

theorem Counted.beat (h : Counted workers s) (w : Nat) : Counted workers (s.step workers (.beat w)) := by
  have htable : (s.table.beat w).jobs = s.table.jobs ∧ (s.table.beat w).nextId = s.table.nextId := by
    unfold JobTable.beat
    split
    · exact ⟨rfl, rfl⟩
    · exact ⟨rfl, rfl⟩
  have hexecutions := beat_executions (s := s.table) w
  refine h.of_from (append_nil _) htable.2 (fun w' => ?_) (fun x e' hx => ⟨e', ?_, .refl e'⟩) fun id row' hrow' => ?_
  · show (s.table.beat w).active w' ≤ _
    unfold JobTable.active
    rw [hexecutions]
  · rw [← hexecutions]
    exact hx
  · refine ⟨row', ?_, rfl, rfl, fun hp => .inl hp⟩
    rw [← htable.1]
    exact hrow'

theorem Counted.reap (h : Counted workers s) {w : Nat} (hg : InTurn workers s (.reapStaleJobs w now)) :
    Counted workers (s.step workers (.reapStaleJobs w now)) := by
  refine h.of_from (append_nil _) rfl (fun w' => ?_) (fun x e' hx => ?_) fun id row' hrow' => ?_
  · show (s.table.executions.map _).countP _ ≤ _
    rw [countP_map]
    exact le_rfl
  · simp only [JobStarts.step, JobTable.step, JobTable.reapStaleJobs, getElem?_map, Option.map_eq_some_iff] at hx
    obtain ⟨e, he, rfl⟩ := hx
    exact ⟨e, he, rfl, rfl, rfl, rfl, id, fun _ => id⟩
  · simp only [JobStarts.step, JobTable.step, JobTable.reapStaleJobs] at hrow'
    split at hrow'
    · rename_i hstale
      obtain ⟨row, hrow, rfl⟩ := Option.map_eq_some_iff.1 hrow'
      exact ⟨row, hrow, rfl, rfl, fun _ => .inr (hg id row hrow hstale)⟩
    · exact ⟨row', hrow', rfl, rfl, fun hp => .inl hp⟩

theorem Counted.crash (h : Counted workers s) (w : Nat) : Counted workers (s.step workers (.crash w)) := by
  refine h.of_from (append_nil _) rfl (fun w' => ?_) (fun x e' hx => ?_) fun id row' hrow' =>
    ⟨row', hrow', rfl, rfl, fun hp => .inl hp⟩
  · show (s.table.executions.map _).countP _ ≤ _
    rw [countP_map]
    apply countP_mono_left
    intro e _ he
    simp only [Function.comp] at he
    split at he
    · have hdone : _ ∧ (Phase.done = .dispatching ∨ Phase.done = .handling) := of_decide_eq_true he
      rcases hdone.2 with hd | hd <;> cases hd
    · exact he
  · simp only [JobStarts.step, JobTable.step, JobTable.crash, getElem?_map, Option.map_eq_some_iff] at hx
    obtain ⟨e, he, heq⟩ := hx
    refine ⟨e, he, ?_⟩
    split at heq
    · subst heq
      exact ⟨rfl, rfl, rfl, rfl, by rintro ⟨⟩, by simp⟩
    · subst heq
      exact .refl e

theorem Counted.enqueue (hpolicy : ∀ w type, 1 ≤ (workers w).maxAttempts type) (h : Counted workers s)
    (type payload : String) (runAt : Int) : Counted workers (s.step workers (.enqueue type payload runAt)) := by
  have hrows : ∀ id row, (s.table.enqueue type payload runAt).jobs id = some row →
      s.table.jobs id = some row ∨ id = s.table.nextId ∧ row = { type, payload, runAt } := by
    intro id row hrow
    by_cases hid : id = s.table.nextId
    · subst hid
      simp only [JobTable.enqueue, Function.update_self] at hrow
      exact .inr ⟨rfl, (Option.some.inj hrow).symm⟩
    · exact .inl ((Function.update_of_ne hid _ _).symm.trans hrow)
  have hold : ∀ id row, id < s.table.nextId → (s.table.enqueue type payload runAt).jobs id = some row →
      s.table.jobs id = some row := fun id row hlt hrow =>
    (hrows id row hrow).resolve_right fun hnew => Nat.ne_of_lt hlt hnew.1
  have ht := h.traced
  have hstarts : (s.step workers (.enqueue type payload runAt)).starts = s.starts := append_nil _
  constructor
  case traced =>
    refine ⟨fun e he => Nat.lt_succ_of_lt (ht.known e he), fun id row hrow => ?_, ht.alone, fun e he row hrow => ?_,
      fun e he hue row hrow => ?_, ht.retried, fun id row hrow m hm => ?_⟩
    · rcases hrows id row hrow with hrow | ⟨rfl, -⟩
      · exact Nat.lt_succ_of_lt (ht.rows id row hrow)
      · exact Nat.lt_succ_self _
    · exact ht.types e he row (hold _ row (ht.known e he) hrow)
    · exact ht.attempt e he hue row (hold _ row (ht.known e he) hrow)
    · rcases hrows id row hrow with hrow | ⟨-, rfl⟩
      · exact ht.left id row hrow m hm
      · rw [← hm 0]
        exact hpolicy 0 _
  case active => exact h.active
  case fresh =>
    rw [hstarts]
    exact fun e he => Nat.lt_succ_of_lt (h.fresh e he)
  case behind =>
    rw [hstarts]
    exact fun e he row hrow => h.behind e he row (hold _ row (h.fresh e he) hrow)
  case increasing =>
    rw [hstarts]
    exact h.increasing
  case allowed =>
    rw [hstarts]
    exact h.allowed

theorem select_row {q : JobQueue} {id : Nat} {row : JobRow} (h : (id, row) ∈ t.select q now) : t.jobs id = some row := by
  have h := mem_of_mem_take h
  rw [mem_insertionSort] at h
  obtain ⟨id', -, heq⟩ := mem_filterMap.1 (mem_filter.1 h).1
  obtain ⟨row', hrow, heq⟩ := Option.map_eq_some_iff.1 heq
  cases heq
  exact hrow

theorem Counted.poll (h : Counted workers s) {w : Nat} (hg : InTurn workers s (.poll w now)) :
    Counted workers (s.step workers (.poll w now)) := by
  have ht := h.traced
  have hstarts : (s.step workers (.poll w now)).starts = s.starts := append_nil _
  have hnew : ∀ f ∈ (s.table.poll workers w now).executions, f ∈ s.table.executions ∨
      f.phase = .dispatching ∧ f.worker = w ∧ ∃ row, s.table.jobs f.jobId = some row ∧ row.type = f.type := by
    intro f hf
    rcases mem_append.1 hf with hf | hf
    · exact .inl hf
    · obtain ⟨⟨id, row⟩, hsel, rfl⟩ := mem_map.1 hf
      exact .inr ⟨rfl, rfl, row, select_row hsel, rfl⟩
  constructor
  case traced =>
    refine ⟨fun f hf => ?_, ht.rows, fun x y e f hx hy hjob hue huf => ?_, fun f hf row hrow => ?_,
      fun f hf huf row hrow => ?_, fun f hf error hphase => ?_, ht.left⟩
    · rcases hnew f hf with hf | ⟨-, -, row, hrow, -⟩
      · exact ht.known f hf
      · exact ht.rows _ row hrow
    · exact ht.alone x y e f (poll_execution hx hue) (poll_execution hy huf) hjob hue huf
    · rcases hnew f hf with hf | ⟨-, -, row', hrow', htype⟩
      · exact ht.types f hf row hrow
      · cases hrow'.symm.trans hrow
        exact htype
    · rcases hnew f hf with hf | ⟨hphase, -⟩
      · exact ht.attempt f hf huf row hrow
      · rw [Execution.underWay, hphase] at huf
        cases huf
    · rcases hnew f hf with hf | ⟨hd, -⟩
      · exact ht.retried f hf error hphase
      · rw [hd] at hphase
        cases hphase
  case active =>
    intro w'
    show (s.table.executions ++ (s.table.select (workers w) now).map _).countP _ ≤ _
    rw [countP_append]
    by_cases hw : w = w'
    · subst hw
      exact le_trans (Nat.add_le_add_left (countP_le_length.trans_eq (length_map _)) _) hg
    · rw [show ((s.table.select (workers w) now).map _).countP _ = 0 from countP_eq_zero.2 fun f hf hp => ?_]
      · exact h.active w'
      · obtain ⟨_, -, rfl⟩ := mem_map.1 hf
        exact hw (of_decide_eq_true hp).1
  case fresh =>
    rw [hstarts]
    exact h.fresh
  case behind =>
    rw [hstarts]
    exact h.behind
  case increasing =>
    rw [hstarts]
    exact h.increasing
  case allowed =>
    rw [hstarts]
    exact h.allowed

/-- **Every orderly step keeps the counts.** -/
theorem Counted.step (hpolicy : ∀ w type, 1 ≤ (workers w).maxAttempts type) (s : JobStarts) (e : JobEvent)
    (h : Counted workers s) (hg : InTurn workers s e) : Counted workers (s.step workers e) := by
  cases e with
  | enqueue type payload runAt => exact h.enqueue hpolicy type payload runAt
  | poll w now => exact h.poll hg
  | goOn x reply now =>
    cases hx : s.table.executions[x]? with
    | some e => exact h.goOn hx hg
    | none =>
      have hstep : s.step workers (.goOn x reply now) = s := by
        have htable : s.table.goOn workers x reply now = s.table := by rw [JobTable.goOn, hx]
        have hstarted : s.started workers (.goOn x reply now) = [] := by
          cases reply with
          | ok => simp only [JobStarts.started, hx]
          | fails error => rfl
        simp only [JobStarts.step, JobTable.step, htable, hstarted, append_nil]
      rw [hstep]
      exact h
  | beat w => exact h.beat w
  | heartbeat n now => exact h.heartbeat n now
  | reapStaleJobs w now => exact h.reap hg
  | crash w => exact h.crash w

end

/-! ## Runs -/

theorem Counted.initial (workers : Nat → JobQueue) : Counted workers {} where
  traced := ⟨nofun, nofun, nofun, nofun, nofun, nofun, nofun⟩
  active _ := Nat.zero_le _
  fresh := nofun
  behind := nofun
  increasing := List.Pairwise.nil
  allowed := nofun

/-- **The bounds of the queue**: over every run of orderly steps, and with policies that allow an attempt, no
worker runs more handlers than its `concurrency`, and no job is started more often than its policy allows. -/
theorem bounded_of_orderly (workers : Nat → JobQueue) (hpolicy : ∀ w type, 1 ≤ (workers w).maxAttempts type)
    (es : List JobEvent) (h : Guarded (JobStarts.step workers) (InTurn workers) {} es) (n : Nat) :
    Bounded workers (run (JobStarts.step workers) {} (es.take n)) :=
  (take_invariant_of_guarded _ (Counted.step hpolicy) h (Counted.initial workers) n).bounded

section

variable {workers : Nat → JobQueue} {s : JobStarts} {x : Nat} {now : Int}

theorem orderly_of_locked {reply : Reply} (h : ∀ f ∈ s.table.executions, f.phase ≠ .dispatching) : InTurn workers s (.goOn x reply now) := by
  cases reply with
  | fails error => trivial
  | ok => exact fun e he hd => absurd hd (h e (mem_of_getElem? he))

theorem orderly_of_resting {e : Execution} {row : JobRow} (hx : s.table.executions[x]? = some e)
    (hrow : s.table.jobs e.jobId = some row) (hpending : row.status = .pending)
    (hattempt : row.attemptCount = e.attempt)
    (h : ∀ f ∈ s.table.executions, f.underWay = false) : InTurn workers s (.goOn x .ok now) := by
  intro e' he' _
  cases hx.symm.trans he'
  exact ⟨⟨row, hrow, hpending, hattempt⟩, fun y f _ hf _ => h f (mem_of_getElem? hf)⟩

end

/-- A worker of one type, with one handler at a time and so many attempts. -/
def loneWorker (maxAttempts : Nat) (_ : Nat) : JobQueue :=
  { workerId := "worker-0"
    concurrency := 1
    staleJobThresholdMs := 10
    handlers := ["mail"]
    retryPolicies := [("mail", { maxAttempts, initialDelayMs := 5, backoffMultiplier := 2, maxDelayMs := 60 })] }

/-- A job fails once, and is done in its second attempt. -/
def secondAttempt : List JobEvent :=
  [.enqueue "mail" "{}" 0, .poll 0 1, .goOn 0 .ok 1, .goOn 0 (.fails "smtp down") 2, .goOn 0 .ok 3, .poll 0 9,
    .goOn 1 .ok 9, .goOn 1 .ok 10, .goOn 1 .ok 11]

theorem bounded_of_orderly_secondAttempt : Bounded (loneWorker 2) (run (JobStarts.step (loneWorker 2)) {} (secondAttempt.take 9)) := by
  refine bounded_of_orderly (loneWorker 2) (fun w type => ?_) secondAttempt ?_ 9
  · simp only [JobQueue.maxAttempts, loneWorker, OrderedMap.get]
    split <;> decide
  · refine ⟨trivial, ?_, orderly_of_resting rfl rfl rfl rfl (by decide), trivial, orderly_of_locked (by decide), ?_,
      orderly_of_resting rfl rfl rfl rfl (by decide), orderly_of_locked (by decide), orderly_of_locked (by decide), trivial⟩
    · show _ ≤ _
      decide
    · show _ ≤ _
      decide

/-- The second poll does not see that the first job's handler still runs. -/
def secondPoll : List JobEvent :=
  [.enqueue "mail" "{}" 0, .enqueue "mail" "{}" 0, .poll 0 1, .goOn 0 .ok 1, .poll 0 2, .goOn 1 .ok 2]

/-- A worker stops in its handler, and the row is reaped with the count that it had. -/
def crashedWorker : List JobEvent :=
  [.enqueue "mail" "{}" 0, .poll 0 1, .goOn 0 .ok 1, .crash 0, .reapStaleJobs 0 20, .poll 0 21, .goOn 1 .ok 21]

theorem job_bounds_counterexample : (¬∀ n, Bounded (loneWorker 1) (run (JobStarts.step (loneWorker 1)) {} (secondPoll.take n))) ∧
      ¬∀ n, Bounded (loneWorker 1) (run (JobStarts.step (loneWorker 1)) {} (crashedWorker.take n)) := by
  constructor
  · intro h
    have hle := (h 6).handling 0
    exact absurd hle (by decide)
  · intro h
    have hle := (h 7).starts 0 "mail" 1 fun _ => rfl
    exact absurd hle (by decide)

end StreetJS.Jobs
