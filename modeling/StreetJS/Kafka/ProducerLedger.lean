/-
Where the records of a producer are: what `send` has accepted is buffered, held by a flush, or settled, each record
once.
-/
import StreetJS.Kafka.Producer

namespace StreetJS.Kafka

open StreetJS.Lib List OrderedMap
open Prod (fst snd)

/-! ## What is held -/

/-- The records that a flush will settle. -/
def FlushPhase.records : FlushPhase → List Nat
  | .ensuring list => list.map PendingRecord.record
  | .producing b _ _ rest => b.records ++ rest.flatMap snd
  | .done | .failed _ => []

/-- The records that nobody will settle. -/
def FlushPhase.lost : FlushPhase → List Nat
  | .failed list => list.map PendingRecord.record
  | _ => []

/-- What a flush has, also if it will not settle it. -/
def FlushPhase.held (phase : FlushPhase) : List Nat := phase.records ++ phase.lost

theorem FlushPhase.held_ensuring (list : List PendingRecord) : (ensuring list).held = list.map PendingRecord.record := by
  simp [held, records, lost]

theorem FlushPhase.held_producing (b : Batch) (attempt : Nat) (backoff : Bool) (rest : OrderedMap Int (List Nat)) :
    (producing b attempt backoff rest).held = b.records ++ rest.flatMap snd := by
  simp [held, records, lost]

namespace ProducerWorld

variable (w : ProducerWorld)

def buffered : List Nat := w.batches.flatMap fun e => e.2.map PendingRecord.record

def inFlight : List Nat := w.tasks.flatMap fun task => task.phase.records

def held : List Nat := w.tasks.flatMap fun task => task.phase.held

def settledRecords : List Nat := w.settled.map fst

/-- How often a record is somewhere. -/
def total (r : Nat) : Nat := w.buffered.count r + w.held.count r + w.settledRecords.count r

/-- Every record that is accepted is in one place. -/
def Conserved : Prop := ∀ r, w.total r = if r < w.accepted then 1 else 0

end ProducerWorld

/-! ## Groups -/

theorem count_byPartition_from (r : Nat) (list : List PendingRecord) (groups : OrderedMap Int (List Nat)) :
    ((list.foldl (fun groups pr => groups.set pr.partition ((groups.get pr.partition).getD [] ++ [pr.record])) groups).flatMap snd).count r =
      (groups.flatMap snd).count r + (list.map PendingRecord.record).count r := by
  induction list generalizing groups with
  | nil => simp
  | cons pr list ih =>
    obtain ⟨old, hold⟩ : ∃ old, old = (groups.get pr.partition).getD [] := ⟨_, rfl⟩
    have hset : ((groups.set pr.partition (old ++ [pr.record])).flatMap snd).count r + old.count r =
        (old ++ [pr.record]).count r + (groups.flatMap snd).count r := by
      have h := count_flatMap_set id groups pr.partition (old ++ [pr.record]) r
      rw [Option.map_id, id, ← hold] at h
      exact h
    rw [count_append] at hset
    have hcons : ((pr :: list).map PendingRecord.record).count r = [pr.record].count r + (list.map PendingRecord.record).count r := by
      rw [map_cons, ← count_append, singleton_append]
    rw [foldl_cons, ih, hcons, ← hold]
    omega

theorem count_byPartition (r : Nat) (list : List PendingRecord) :
    ((byPartition list).flatMap snd).count r = (list.map PendingRecord.record).count r := by
  have h := count_byPartition_from r list []
  rwa [flatMap_nil, count_nil, Nat.zero_add] at h

theorem byPartition_ne_nil (list : List PendingRecord) : ∀ e ∈ byPartition list, e.2 ≠ [] := by
  have hfrom : ∀ (list : List PendingRecord) (groups : OrderedMap Int (List Nat)), (∀ e ∈ groups, e.2 ≠ []) →
      ∀ e ∈ list.foldl (fun groups pr => groups.set pr.partition ((groups.get pr.partition).getD [] ++ [pr.record])) groups, e.2 ≠ [] := by
    intro list
    induction list with
    | nil => exact fun _ h => h
    | cons pr list ih =>
      intro groups hg
      refine ih _ fun e he => ?_
      rcases mem_set he with he | rfl
      · exact hg e he
      · simp
  exact hfrom list [] (by simp)

/-! ## Operations -/

namespace ProducerWorld

variable {w : ProducerWorld}

theorem flushTopic_cases (w : ProducerWorld) (topic : Topic) :
    (w.flushTopic topic = w ∧ ∀ list, w.batches.get topic = some list → list = []) ∨
    ∃ list, w.batches.get topic = some list ∧ list ≠ [] ∧ w.flushTopic topic = { w with
        batches := w.batches.set topic []
        init := if w.opts.idempotent ∧ w.init = .absent then .pending else w.init
        tasks := w.tasks ++ [{ topic, phase := .ensuring list }] } := by
  rw [flushTopic]
  split
  case h_1 hget => exact .inl ⟨rfl, by simp [hget]⟩
  case h_2 hget => exact .inl ⟨rfl, by simp [hget]⟩
  case h_3 list hne hget => exact .inr ⟨list, hget, hne, rfl⟩

theorem answer_cases (w : ProducerWorld) (k : Nat) (topic : Topic) (b : Batch) (attempt : Nat)
    (rest : OrderedMap Int (List Nat)) (outcome : ProduceOutcome) :
    outcome = .acknowledged ∧ w.answer k topic b attempt rest outcome =
        (({ w with log := store w.log b }.acknowledge b).settle b true).produceNext k topic rest ∨
      ∃ log, (log = w.log ∨ log = store w.log b) ∧ (w.opts.maxRetries ≤ attempt ∧
            w.answer k topic b attempt rest outcome = ({ w with log }.settle b false).produceNext k topic rest ∨
          w.answer k topic b attempt rest outcome =
            { w with log }.setTask k { topic, phase := .producing b (attempt + 1) true rest }) := by
  cases outcome with
  | acknowledged => exact .inl ⟨rfl, rfl⟩
  | failed =>
    refine .inr ⟨w.log, .inl rfl, ?_⟩
    by_cases ha : w.opts.maxRetries ≤ attempt
    · exact .inl ⟨ha, by simp [answer, ha]⟩
    · exact .inr (by simp [answer, ha])
  | appliedButFailed =>
    refine .inr ⟨store w.log b, .inr rfl, ?_⟩
    by_cases ha : w.opts.maxRetries ≤ attempt
    · exact .inl ⟨ha, by simp [answer, ha]⟩
    · exact .inr (by simp [answer, ha])

theorem flushTopic_total (w : ProducerWorld) (topic : Topic) (r : Nat) : (w.flushTopic topic).total r = w.total r := by
  rcases flushTopic_cases w topic with ⟨heq, -⟩ | ⟨list, hget, -, heq⟩
  · rw [heq]
  · have hset := count_flatMap_set (fun list => list.map PendingRecord.record) w.batches topic [] r
    rw [hget, Option.map_some, Option.getD_some, map_nil, count_nil] at hset
    rw [heq]
    simp only [total, buffered, held, settledRecords, flatMap_append, count_append, flatMap_singleton, FlushPhase.held_ensuring]
    omega

theorem flush_induction {P : ProducerWorld → Prop} (hstep : ∀ w topic, P w → P (flushTopic w topic))
    (h : P { w with flushTimer := false }) : P w.flush :=
  run_invariant flushTopic hstep _ h

theorem flushTopic_accepted (w : ProducerWorld) (topic : Topic) : (w.flushTopic topic).accepted = w.accepted := by
  rw [flushTopic]
  split <;> rfl

theorem Conserved.flushTopic (h : w.Conserved) (topic : Topic) : (w.flushTopic topic).Conserved := by
  intro r
  rw [flushTopic_total, flushTopic_accepted]
  exact h r

theorem Conserved.flush (h : w.Conserved) : w.flush.Conserved :=
  flush_induction (fun _ topic hw => hw.flushTopic topic) h

theorem Conserved.push (h : w.Conserved) (topic : Topic) (partition : Int) : (w.push topic partition).Conserved := by
  obtain ⟨old, hold⟩ : ∃ old, old = (w.batches.get topic).getD [] := ⟨_, rfl⟩
  obtain ⟨w', hw'⟩ : ∃ w' : ProducerWorld, w' = { w with
    batches := w.batches.set topic (old ++ [{ partition, record := w.accepted }]), accepted := w.accepted + 1 } := ⟨_, rfl⟩
  have hconserved : w'.Conserved := by
    intro r
    have hset := count_flatMap_set (fun list => list.map PendingRecord.record) w.batches topic
      (old ++ [{ partition, record := w.accepted }]) r
    have hget : ((w.batches.get topic).map fun list => list.map PendingRecord.record).getD [] = old.map PendingRecord.record := by
      rw [hold]
      cases w.batches.get topic <;> rfl
    rw [hget, map_append, count_append, map_singleton, count_singleton] at hset
    have hr := h r
    rw [hw']
    simp only [total, buffered, held, settledRecords] at hr ⊢
    have hnew : (if (w.accepted == r) = true then 1 else 0) = if r = w.accepted then 1 else 0 := by
      simp only [beq_iff_eq]
      exact if_congr eq_comm rfl rfl
    rw [hnew] at hset
    split at hset <;> split at hr <;> split <;> omega
  rw [ProducerWorld.push, ← hold, ← hw']
  split
  · exact hconserved.flushTopic topic
  · exact hconserved

theorem setTask_total {k : Nat} {task : FlushTask} (hk : w.tasks[k]? = some task) (task' : FlushTask) (r : Nat) :
    (w.setTask k task').total r + task.phase.held.count r = w.total r + task'.phase.held.count r := by
  have hset := count_flatMap_set (fun task => task.phase.held) hk task' r
  simp only [total, buffered, held, settledRecords, setTask]
  omega

theorem produceNext_total {k : Nat} {task : FlushTask} (hk : w.tasks[k]? = some task) (topic : Topic)
    (groups : OrderedMap Int (List Nat)) (r : Nat) :
    (w.produceNext k topic groups).total r + task.phase.held.count r = w.total r + (groups.flatMap snd).count r := by
  cases groups with
  | nil => exact setTask_total hk _ r
  | cons e rest =>
    obtain ⟨partition, records⟩ := e
    obtain ⟨base, hbase⟩ : ∃ base, base = if w.opts.idempotent then some ((w.sequences.get (topic, partition)).getD 0) else none := ⟨_, rfl⟩
    have hset := setTask_total hk { topic, phase := .producing { topic, partition, baseSequence := base, records } 0 false rest } r
    rw [FlushPhase.held_producing] at hset
    rw [produceNext, ← hbase]
    exact hset

theorem settle_total (w : ProducerWorld) (b : Batch) (resolved : Bool) (r : Nat) :
    (w.settle b resolved).total r = w.total r + b.records.count r := by
  have hmap : (b.records.map fun record => (record, resolved)).map fst = b.records := by
    rw [map_map]
    exact map_id _
  simp only [total, settle, settledRecords, buffered, held, map_append, hmap, count_append]
  omega

theorem answer_total {k : Nat} {topic : Topic} {b : Batch} {attempt : Nat} {rest : OrderedMap Int (List Nat)}
    (hk : w.tasks[k]? = some { topic, phase := .producing b attempt false rest }) (outcome : ProduceOutcome) (r : Nat) :
    (w.answer k topic b attempt rest outcome).total r = w.total r := by
  have hheld : ∀ attempt backoff, (FlushPhase.producing b attempt backoff rest).held.count r =
      b.records.count r + (rest.flatMap snd).count r := by
    intro attempt backoff
    rw [FlushPhase.held_producing, count_append]
  have hsettle : ∀ (w' : ProducerWorld) (resolved : Bool), w'.tasks = w.tasks → w'.total r = w.total r →
      ((w'.settle b resolved).produceNext k topic rest).total r = w.total r := by
    intro w' resolved htasks htotal
    have hnext := produceNext_total (w := w'.settle b resolved) (htasks ▸ hk) topic rest r
    rw [settle_total, hheld] at hnext
    omega
  rcases answer_cases w k topic b attempt rest outcome with ⟨-, heq⟩ | ⟨log, -, ⟨-, heq⟩ | heq⟩
  · rw [heq]
    exact hsettle _ true rfl rfl
  · rw [heq]
    exact hsettle _ false rfl rfl
  · have hset := setTask_total (w := { w with log }) hk { topic, phase := .producing b (attempt + 1) true rest } r
    rw [hheld, hheld] at hset
    rw [heq]
    have hlog : ({ w with log } : ProducerWorld).total r = w.total r := rfl
    omega

/-! ## Steps -/

@[simp] theorem setTask_accepted (w : ProducerWorld) (k : Nat) (task : FlushTask) : (w.setTask k task).accepted = w.accepted := rfl

@[simp] theorem produceNext_accepted (w : ProducerWorld) (k : Nat) (topic : Topic) (groups : OrderedMap Int (List Nat)) :
    (w.produceNext k topic groups).accepted = w.accepted := by
  cases groups <;> rfl

theorem answer_accepted (w : ProducerWorld) (k : Nat) (topic : Topic) (b : Batch) (attempt : Nat)
    (rest : OrderedMap Int (List Nat)) (outcome : ProduceOutcome) :
    (w.answer k topic b attempt rest outcome).accepted = w.accepted := by
  rcases answer_cases w k topic b attempt rest outcome with ⟨-, heq⟩ | ⟨log, -, ⟨-, heq⟩ | heq⟩
  · rw [heq, produceNext_accepted]
    rfl
  · rw [heq, produceNext_accepted]
    rfl
  · rw [heq, setTask_accepted]

theorem Conserved.of_total {w' : ProducerWorld} (h : w.Conserved) (htotal : ∀ r, w'.total r = w.total r)
    (haccepted : w'.accepted = w.accepted) : w'.Conserved := by
  intro r
  rw [htotal, haccepted]
  exact h r

theorem Conserved.stepTask (h : w.Conserved) {k : Nat} {task : FlushTask} (hk : w.tasks[k]? = some task) (e : ProducerEvent) :
    (w.stepTask k task e).Conserved := by
  obtain ⟨topic, phase⟩ := task
  cases e with
  | ensured k =>
    simp only [ProducerWorld.stepTask]
    cases phase with
    | ensuring list =>
      simp only
      split
      · refine h.of_total (fun r => ?_) (produceNext_accepted ..)
        have hnext := produceNext_total hk topic (byPartition list) r
        rw [count_byPartition, FlushPhase.held_ensuring] at hnext
        omega
      · split
        · refine h.of_total (fun r => ?_) rfl
          have hset := setTask_total hk { topic, phase := .failed list } r
          have hsame : (FlushPhase.failed list).held = list.map PendingRecord.record := rfl
          rw [FlushPhase.held_ensuring, hsame] at hset
          omega
        · exact h
    | _ => exact h
  | produced k outcome =>
    simp only [ProducerWorld.stepTask]
    split
    case h_1 b attempt rest =>
      exact h.of_total (answer_total hk _) (answer_accepted ..)
    case h_2 => exact h
  | retry k =>
    simp only [ProducerWorld.stepTask]
    split
    case h_1 b attempt rest =>
      refine h.of_total (fun r => ?_) rfl
      have hset := setTask_total hk { topic, phase := .producing b attempt false rest } r
      rw [FlushPhase.held_producing, FlushPhase.held_producing] at hset
      omega
    case h_2 => exact h
  | _ => exact h

/-- Whatever fails, no record is lost from sight or settled twice. -/
theorem Conserved.step (h : w.Conserved) (e : ProducerEvent) : (w.step e).Conserved := by
  have htask : ∀ k, ((w.tasks[k]?.map fun task => w.stepTask k task e).getD w).Conserved := by
    intro k
    cases hk : w.tasks[k]? with
    | none => exact h
    | some task => exact h.stepTask hk e
  cases e with
  | send topic partition =>
    simp only [ProducerWorld.step]
    split
    · exact h
    · cases partition with
      | some p => exact h.push topic p
      | none => exact h
  | metadata s partitions =>
    rw [ProducerWorld.step]
    split
    · next topic _ =>
      cases partitions with
      | none => exact h
      | some n =>
        have hcursor : Conserved
            { w with choosing := w.choosing.set s none, rr := w.rr.set topic ((w.rr.get topic).getD 0 + 1) } := h
        exact hcursor.push topic _
    · exact h
  | timer =>
    rw [ProducerWorld.step]
    split
    · exact h.flush
    · exact h
  | flush => exact h.flush
  | close => exact Conserved.flush (w := { w with closed := true }) h
  | initialised ok =>
    rw [ProducerWorld.step]
    split <;> exact h
  | ensured k => exact htask k
  | produced k outcome => exact htask k
  | retry k => exact htask k

theorem conserved_init (opts : ProducerOptions) : Conserved { opts } := fun r => by simp [total, buffered, held, settledRecords]

theorem conserved_run (opts : ProducerOptions) (es : List ProducerEvent) : (run step { opts } es).Conserved :=
  run_invariant (P := Conserved) step (fun _ e h => h.step e) es (conserved_init opts)

/-- **Whatever fails, a record that is accepted is in one place**, and settled once at most. -/
theorem accounted (opts : ProducerOptions) (es : List ProducerEvent) : let w := run step { opts } es
    (w.buffered ++ w.held ++ w.settledRecords).Perm (range w.accepted) :=
  perm_iff_count.2 fun r => by
    rw [count_append, count_append, count_range]
    exact conserved_run opts es r

end ProducerWorld

end StreetJS.Kafka
