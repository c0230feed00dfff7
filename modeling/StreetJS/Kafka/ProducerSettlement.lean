/-
The producer settles every record once, and has none left behind a `close`, while a producer id is to be had and `close`
finds no flush and no send under way.
-/
import StreetJS.Kafka.ProducerLedger

namespace StreetJS.Kafka

open StreetJS.Lib List OrderedMap

namespace ProducerWorld

variable {w : ProducerWorld}

/-! ## Settlement -/

/-- `close` has resolved: every run that it waits for is done. -/
def Resolved (w : ProducerWorld) (c : Nat × Nat) : Prop :=
  ∀ k task, c.1 ≤ k → k < c.2 → w.tasks[k]? = some task → task.phase = .done

/-- A record is buffered, in flight or settled; there is a timer for the buffered ones, a promise is resolved when its batch
is acknowledged, and behind a `close` only settled records are left. -/
structure Settles (w : ProducerWorld) : Prop where
  exactlyOne : (w.buffered ++ w.inFlight ++ w.settledRecords).Perm (List.range w.accepted)
  scheduled : w.buffered ≠ [] → w.flushTimer = true
  resolved : ∀ r, (r, true) ∈ w.settled → ∃ b ∈ w.acknowledged, r ∈ b.records
  closed : ∀ c ∈ w.closes, w.Resolved c → w.buffered = [] ∧ w.inFlight = []

/-- A producer id is to be had, `close` finds no flush under way, and no send gets its partition behind it. -/
def Attended (w : ProducerWorld) : ProducerEvent → Prop
  | .initialised ok => w.init = .pending → ok = true
  | .metadata s partitions => (∃ topic, w.choosing[s]? = some (some topic)) → partitions.isSome → w.closed = false
  | .close => ∀ task ∈ w.tasks, task.phase = .done
  | _ => True

/-! ## Acknowledgements -/

/-- What is resolved is acknowledged. -/
def Acked (w : ProducerWorld) : Prop := ∀ r, (r, true) ∈ w.settled → ∃ b ∈ w.acknowledged, r ∈ b.records

theorem Acked.settle (h : w.Acked) {b : Batch} {resolved : Bool} (hb : resolved = true → b ∈ w.acknowledged) :
    (w.settle b resolved).Acked := by
  intro r hr
  rcases mem_append.1 hr with hr | hr
  · exact h r hr
  · obtain ⟨r', hr', heq⟩ := mem_map.1 hr
    obtain ⟨rfl, rfl⟩ := Prod.mk.inj heq
    exact ⟨b, hb rfl, hr'⟩

theorem Acked.produceNext (h : w.Acked) (k : Nat) (topic : Topic) (groups : OrderedMap Int (List Nat)) :
    (w.produceNext k topic groups).Acked := by
  cases groups <;> exact h

theorem Acked.acknowledge (h : w.Acked) (b : Batch) : (w.acknowledge b).Acked := by
  intro r hr
  obtain ⟨c, hc, hrc⟩ := h r hr
  exact ⟨c, mem_append_left _ hc, hrc⟩

theorem Acked.answer (h : w.Acked) (k : Nat) (topic : Topic) (b : Batch) (attempt : Nat) (rest : OrderedMap Int (List Nat))
    (outcome : ProduceOutcome) : (w.answer k topic b attempt rest outcome).Acked := by
  rcases answer_cases w k topic b attempt rest outcome with ⟨-, heq⟩ | ⟨log, -, ⟨-, heq⟩ | heq⟩
  · rw [heq]
    have hack : ({ w with log := store w.log b }.acknowledge b).Acked := Acked.acknowledge (w := { w with log := _ }) h b
    exact (hack.settle fun _ => mem_append_right _ (mem_singleton.2 rfl)).produceNext k topic rest
  · rw [heq]
    have hlog : ({ w with log } : ProducerWorld).Acked := h
    have hgiven : ({ w with log }.settle b false).Acked := hlog.settle (by simp)
    exact hgiven.produceNext k topic rest
  · rw [heq]
    exact h

theorem Acked.flushTopic (h : w.Acked) (topic : Topic) : (w.flushTopic topic).Acked := by
  rcases flushTopic_cases w topic with ⟨heq, -⟩ | ⟨list, -, -, heq⟩
  · rw [heq]
    exact h
  · rw [heq]
    exact h

/-! ## The invariant -/

structure Inv (w : ProducerWorld) : Prop where
  acked : w.Acked
  keys : (w.batches.map Prod.fst).Nodup
  healthy : ∀ task ∈ w.tasks, task.phase.lost = []
  init : w.init ≠ .rejected
  scheduled : w.buffered ≠ [] → w.flushTimer = true
  closing : w.closes ≠ [] → w.closed = true
  /-- Behind a `close` nothing is buffered, and every `close` waits for what is in flight. -/
  closed : w.closed = true → w.buffered = [] ∧
    ∀ (k : Nat) task, w.tasks[k]? = some task → task.phase ≠ .done → ∀ c ∈ w.closes, c.1 ≤ k ∧ k < c.2

/-- A flush has gone on; the buffers are as they were. -/
structure Moves (w : ProducerWorld) (k : Nat) (w' : ProducerWorld) : Prop where
  tasks : ∃ task, task.phase.lost = [] ∧ w'.tasks = w.tasks.set k task
  batches : w'.batches = w.batches
  flushTimer : w'.flushTimer = w.flushTimer
  init : w'.init = w.init
  closed : w'.closed = w.closed
  closes : w'.closes = w.closes

theorem moves_setTask (w : ProducerWorld) (k : Nat) {task : FlushTask} (h : task.phase.lost = []) : w.Moves k (w.setTask k task) :=
  ⟨⟨task, h, rfl⟩, rfl, rfl, rfl, rfl, rfl⟩

theorem moves_produceNext (w : ProducerWorld) (k : Nat) (topic : Topic) (groups : OrderedMap Int (List Nat)) :
    w.Moves k (w.produceNext k topic groups) := by
  cases groups with
  | nil => exact moves_setTask w k rfl
  | cons e rest => exact ⟨⟨_, rfl, rfl⟩, rfl, rfl, rfl, rfl, rfl⟩

theorem moves_answer (w : ProducerWorld) (k : Nat) (topic : Topic) (b : Batch) (attempt : Nat) (rest : OrderedMap Int (List Nat))
    (outcome : ProduceOutcome) : w.Moves k (w.answer k topic b attempt rest outcome) := by
  rcases answer_cases w k topic b attempt rest outcome with ⟨-, heq⟩ | ⟨log, -, ⟨-, heq⟩ | heq⟩
  · rw [heq]
    obtain ⟨htasks, hbatches, htimer, hinit, hclosed, hcloses⟩ :=
      moves_produceNext (({ w with log := store w.log b }.acknowledge b).settle b true) k topic rest
    exact ⟨htasks, hbatches, htimer, hinit, hclosed, hcloses⟩
  · rw [heq]
    obtain ⟨htasks, hbatches, htimer, hinit, hclosed, hcloses⟩ :=
      moves_produceNext ({ w with log }.settle b false) k topic rest
    exact ⟨htasks, hbatches, htimer, hinit, hclosed, hcloses⟩
  · rw [heq]
    exact ⟨⟨_, rfl, rfl⟩, rfl, rfl, rfl, rfl, rfl⟩

theorem Inv.moves (h : w.Inv) {w' : ProducerWorld} {k : Nat} {task : FlushTask} (hm : w.Moves k w')
    (hk : w.tasks[k]? = some task) (hlive : task.phase ≠ .done) (hacked : w'.Acked) : w'.Inv := by
  obtain ⟨⟨task', hlost, htasks⟩, hbatches, htimer, hinit, hclosed, hcloses⟩ := hm
  have hbuffered : w'.buffered = w.buffered := by rw [buffered, hbatches, buffered]
  refine ⟨hacked, ?_, fun t ht => ?_, ?_, ?_, ?_, fun hc => ?_⟩
  · rw [hbatches]
    exact h.keys
  · rw [htasks] at ht
    rcases mem_or_eq_of_mem_set ht with ht | rfl
    · exact h.healthy t ht
    · exact hlost
  · rw [hinit]
    exact h.init
  · rw [hbuffered, htimer]
    exact h.scheduled
  · rw [hcloses, hclosed]
    exact h.closing
  · rw [hclosed] at hc
    obtain ⟨hempty, hcovered⟩ := h.closed hc
    refine ⟨hbuffered.trans hempty, fun j t hj hne => ?_⟩
    rw [hcloses]
    rw [htasks] at hj
    rcases getElem?_set_cases hj with ⟨rfl, -⟩ | ⟨-, hj⟩
    · exact hcovered j task hk hlive
    · exact hcovered j t hj hne

/-! ## Flushes -/

theorem buffered_ne_nil {topic : Topic} {list : List PendingRecord} (hget : w.batches.get topic = some list) (hne : list ≠ []) :
    w.buffered ≠ [] := by
  intro hnil
  have := flatMap_eq_nil_iff.1 hnil _ (get_mem hget)
  exact hne (map_eq_nil_iff.1 this)

theorem flushTopic_of_buffered (h : w.buffered = []) (topic : Topic) : w.flushTopic topic = w := by
  rcases flushTopic_cases w topic with ⟨heq, -⟩ | ⟨list, hget, hne, -⟩
  · exact heq
  · exact absurd h (buffered_ne_nil hget hne)

theorem mem_buffered_flushTopic {topic : Topic} {r : Nat} (h : r ∈ (w.flushTopic topic).buffered) : r ∈ w.buffered := by
  rcases flushTopic_cases w topic with ⟨heq, -⟩ | ⟨list, hget, hne, heq⟩
  · rwa [heq] at h
  · rw [heq] at h
    obtain ⟨e, he, hr⟩ := mem_flatMap.1 h
    rcases OrderedMap.mem_set he with he | rfl
    · exact mem_flatMap.2 ⟨e, he, hr⟩
    · cases hr

theorem Inv.flushTopic (h : w.Inv) (topic : Topic) : (w.flushTopic topic).Inv := by
  have hscheduled : (w.flushTopic topic).buffered ≠ [] → w.flushTimer = true := fun hne =>
    h.scheduled fun hnil => hne <| eq_nil_iff_forall_not_mem.2 fun r hr =>
      not_mem_nil (hnil ▸ mem_buffered_flushTopic hr)
  have hacked := h.acked.flushTopic topic
  rcases flushTopic_cases w topic with ⟨heq, -⟩ | ⟨list, hget, hne, heq⟩
  · rw [heq]
    exact h
  · rw [heq] at hscheduled hacked ⊢
    have hopen : w.closed ≠ true := fun hc => buffered_ne_nil hget hne (h.closed hc).1
    refine ⟨hacked, keys_set_nodup h.keys topic [], fun t ht => ?_, ?_, hscheduled, h.closing, fun hc => absurd hc hopen⟩
    · rcases mem_append.1 ht with ht | ht
      · exact h.healthy t ht
      · rw [mem_singleton.1 ht]
        rfl
    · simp only
      split
      · nofun
      · exact h.init

theorem flushTopic_set (w : ProducerWorld) (topic : Topic) (flushTimer closed : Bool) :
    { w with flushTimer, closed }.flushTopic topic = { w.flushTopic topic with flushTimer, closed } := by
  simp only [ProducerWorld.flushTopic]
  split <;> rfl

theorem run_flushTopic_set (keys : List Topic) (w : ProducerWorld) (flushTimer closed : Bool) :
    run flushTopic { w with flushTimer, closed } keys = { run flushTopic w keys with flushTimer, closed } := by
  induction keys generalizing w with
  | nil => rfl
  | cons topic keys ih => rw [run_cons, flushTopic_set, ih, run_cons]

theorem flushTopic_frame (w : ProducerWorld) (topic : Topic) :
    (w.flushTopic topic).closed = w.closed ∧ (w.flushTopic topic).closes = w.closes := by
  rcases flushTopic_cases w topic with ⟨heq, -⟩ | ⟨list, -, -, heq⟩ <;> rw [heq] <;> exact ⟨rfl, rfl⟩

theorem run_flushTopic_buffered (keys : List Topic) {w : ProducerWorld} (hn : (w.batches.map Prod.fst).Nodup)
    (hkeys : ∀ topic list, w.batches.get topic = some list → list ≠ [] → topic ∈ keys) :
    (run flushTopic w keys).buffered = [] := by
  induction keys generalizing w with
  | nil =>
    refine flatMap_eq_nil_iff.2 fun e he => ?_
    have hget := get_of_mem hn he
    by_contra hne
    exact not_mem_nil (hkeys e.1 e.2 hget fun hnil => hne (by rw [hnil]; rfl))
  | cons key keys ih =>
    rw [run_cons]
    rcases flushTopic_cases w key with ⟨heq, hempty⟩ | ⟨list, hget, hne, heq⟩
    · rw [heq]
      refine ih hn fun topic list hget hne => ?_
      rcases mem_cons.1 (hkeys topic list hget hne) with rfl | hmem
      · exact absurd (hempty list hget) hne
      · exact hmem
    · refine ih ?_ fun topic list hget' hne' => ?_
      · rw [heq]
        exact keys_set_nodup hn key []
      · rw [heq] at hget'
        simp only [get_set] at hget'
        split at hget'
        · exact absurd (Option.some.inj hget').symm hne'
        · next hkey =>
          rcases mem_cons.1 (hkeys topic list hget' hne') with rfl | hmem
          · exact absurd rfl hkey
          · exact hmem

/-- What `flush` detaches. -/
def detached (w : ProducerWorld) : ProducerWorld := run flushTopic w (w.batches.map Prod.fst)

theorem flush_eq (w : ProducerWorld) (closed : Bool) :
    { w with closed }.flush = { w.detached with flushTimer := false, closed } :=
  run_flushTopic_set (w.batches.map Prod.fst) w false closed

theorem Inv.detached (h : w.Inv) : w.detached.Inv :=
  run_invariant (P := Inv) ProducerWorld.flushTopic (fun _ topic hw => hw.flushTopic topic) (w.batches.map Prod.fst) h

theorem detached_frame (w : ProducerWorld) : w.detached.closed = w.closed ∧ w.detached.closes = w.closes := by
  refine run_invariant (P := fun w' => w'.closed = w.closed ∧ w'.closes = w.closes) flushTopic (fun s topic hs => ?_) _ ⟨rfl, rfl⟩
  obtain ⟨hclosed, hcloses⟩ := flushTopic_frame s topic
  exact ⟨hclosed.trans hs.1, hcloses.trans hs.2⟩

theorem Inv.detached_buffered (h : w.Inv) : w.detached.buffered = [] :=
  run_flushTopic_buffered _ h.keys fun topic list hget _ => mem_map.2 ⟨(topic, list), get_mem hget, rfl⟩

theorem detached_tasks (w : ProducerWorld) : w.tasks <+: w.detached.tasks ∧ (w.buffered = [] → w.detached.tasks = w.tasks) := by
  constructor
  · refine run_invariant (P := fun w' => w.tasks <+: w'.tasks) flushTopic (fun s topic hs => ?_) _ (prefix_refl _)
    rcases flushTopic_cases s topic with ⟨heq, -⟩ | ⟨list, -, -, heq⟩
    · rwa [heq]
    · rw [heq]
      exact hs.trans (prefix_append _ _)
  · intro hnil
    refine (run_invariant (P := fun w' => w'.buffered = [] ∧ w'.tasks = w.tasks) flushTopic (fun s topic hs => ?_) _ ⟨hnil, rfl⟩).2
    rwa [flushTopic_of_buffered hs.1]

theorem Inv.flush (h : w.Inv) : w.flush.Inv := by
  have hflush : w.flush = { w.detached with flushTimer := false, closed := w.closed } := flush_eq w w.closed
  rw [← (detached_frame w).1] at hflush
  obtain ⟨hacked, hkeys, hhealthy, hinit, -, hclosing, hclosed⟩ := h.detached
  rw [hflush]
  exact ⟨hacked, hkeys, hhealthy, hinit, fun hne => absurd h.detached_buffered hne, hclosing, hclosed⟩

theorem Inv.push (h : w.Inv) (hopen : w.closed = false) (topic : Topic) (partition : Int) : (w.push topic partition).Inv := by
  obtain ⟨list, hlist⟩ : ∃ list, list = (w.batches.get topic).getD [] ++ [{ partition, record := w.accepted }] := ⟨_, rfl⟩
  have hne : list ≠ [] := by simp [hlist]
  have hkeys := keys_set_nodup h.keys topic list
  have hinv : Inv { w with batches := w.batches.set topic list, accepted := w.accepted + 1, flushTimer := true } :=
    ⟨h.acked, hkeys, h.healthy, h.init, fun _ => rfl, h.closing, fun hc => absurd hc (by simp [hopen])⟩
  rw [ProducerWorld.push, ← hlist]
  simp only
  split
  · -- The list is detached again at once: the others have their timer as before.
    have hset := flushTopic_set { w with batches := w.batches.set topic list, accepted := w.accepted + 1, flushTimer := true }
      topic w.flushTimer w.closed
    obtain ⟨hacked, hkeys', hhealthy, hinit, -, hclosing, hclosed⟩ := hinv.flushTopic topic
    rcases flushTopic_cases { w with batches := w.batches.set topic list, accepted := w.accepted + 1, flushTimer := true }
      topic with ⟨-, hempty⟩ | ⟨list', -, -, heq⟩
    · exact absurd (hempty list (by simp)) hne
    · rw [heq] at hset hacked hkeys' hhealthy hinit hclosing hclosed
      rw [hset]
      refine ⟨hacked, hkeys', hhealthy, hinit, fun hbuffered => ?_, hclosing, hclosed⟩
      refine h.scheduled fun hnil => hbuffered (eq_nil_iff_forall_not_mem.2 fun r hr => ?_)
      simp only [buffered, OrderedMap.set_set] at hr
      obtain ⟨e, he, hr⟩ := mem_flatMap.1 hr
      rcases OrderedMap.mem_set he with he | rfl
      · have hmem : r ∈ w.buffered := mem_flatMap.2 ⟨e, he, hr⟩
        rw [hnil] at hmem
        cases hmem
      · cases hr
  · exact hinv

theorem Inv.close (h : w.Inv) (hdone : ∀ task ∈ w.tasks, task.phase = .done) : (w.step .close).Inv := by
  obtain ⟨hacked, hkeys, hhealthy, hinit, -, -, -⟩ := h.detached
  obtain ⟨hkept, hsame⟩ := detached_tasks w
  have hclose : w.step .close =
      { w.detached with flushTimer := false, closed := true, closes := w.closes ++ [(w.tasks.length, w.detached.tasks.length)] } := by
    simp only [ProducerWorld.step, flush_eq]
  rw [hclose]
  refine ⟨hacked, hkeys, hhealthy, hinit, fun hne => absurd h.detached_buffered hne, fun _ => rfl,
    fun _ => ⟨h.detached_buffered, fun k task hk hlive c hc => ?_⟩⟩
  -- What is not done is detached now.
  have hnew : w.tasks.length ≤ k := by
    by_contra hlt
    have hold : w.tasks[k]? = some task := by
      obtain ⟨new, hnew⟩ := hkept
      simp only [← hnew] at hk
      rwa [getElem?_append_left (by omega)] at hk
    exact hlive (hdone task (mem_of_getElem? hold))
  rcases mem_append.1 hc with hc | hc
  · have hnil := (h.closed (h.closing (ne_nil_of_mem hc))).1
    have hlen := (lt_length hk)
    simp only [hsame hnil] at hlen
    omega
  · rw [mem_singleton.1 hc]
    exact ⟨hnew, (lt_length hk)⟩

/-! ## Runs -/

theorem Inv.stepTask (h : w.Inv) {k : Nat} {task : FlushTask} (hk : w.tasks[k]? = some task) (e : ProducerEvent) :
    (w.stepTask k task e).Inv := by
  obtain ⟨topic, phase⟩ := task
  cases e with
  | ensured k =>
    simp only [ProducerWorld.stepTask]
    cases phase with
    | ensuring list =>
      simp only
      split
      · exact h.moves (moves_produceNext ..) hk (by simp) (h.acked.produceNext _ _ _)
      · split
        · next hrejected => exact absurd hrejected h.init
        · exact h
    | _ => exact h
  | produced k outcome =>
    simp only [ProducerWorld.stepTask]
    split
    case h_1 => exact h.moves (moves_answer ..) hk (by simp) (h.acked.answer _ _ _ _ _ _)
    case h_2 => exact h
  | retry k =>
    simp only [ProducerWorld.stepTask]
    split
    case h_1 => exact h.moves (moves_setTask w _ rfl) hk (by simp) h.acked
    case h_2 => exact h
  | _ => exact h

theorem Inv.step (h : w.Inv) (e : ProducerEvent) (hg : w.Attended e) : (w.step e).Inv := by
  have htask : ∀ k, ((w.tasks[k]?.map fun task => w.stepTask k task e).getD w).Inv := by
    intro k
    cases hk : w.tasks[k]? with
    | none => exact h
    | some task => exact h.stepTask hk e
  cases e with
  | send topic partition =>
    simp only [ProducerWorld.step]
    split
    · exact h
    · next hopen =>
      cases partition with
      | some p => exact h.push (eq_false_of_ne_true hopen) topic p
      | none => exact ⟨h.acked, h.keys, h.healthy, h.init, h.scheduled, h.closing, h.closed⟩
  | metadata s partitions =>
    rw [ProducerWorld.step]
    split
    · next topic hs =>
      cases partitions with
      | none => exact ⟨h.acked, h.keys, h.healthy, h.init, h.scheduled, h.closing, h.closed⟩
      | some n =>
        have hcursor : Inv { w with choosing := w.choosing.set s none, rr := w.rr.set topic ((w.rr.get topic).getD 0 + 1) } :=
          ⟨h.acked, h.keys, h.healthy, h.init, h.scheduled, h.closing, h.closed⟩
        exact hcursor.push (hg ⟨topic, hs⟩ rfl) topic _
    · exact h
  | timer =>
    rw [ProducerWorld.step]
    split
    · exact h.flush
    · exact h
  | flush => exact h.flush
  | close => exact h.close hg
  | initialised ok =>
    rw [ProducerWorld.step]
    split
    · next hpending =>
      refine ⟨h.acked, h.keys, h.healthy, ?_, h.scheduled, h.closing, h.closed⟩
      rw [hg hpending]
      simp
    · exact h
  | ensured k => exact htask k
  | produced k outcome => exact htask k
  | retry k => exact htask k

theorem Inv.settles (h : w.Inv) (hconserved : w.Conserved) : w.Settles where
  exactlyOne := by
    have hheld : w.held = w.inFlight :=
      flatMap_congr fun task ht => by rw [FlushPhase.held, h.healthy task ht, append_nil]
    refine perm_iff_count.2 fun r => ?_
    have htotal := hconserved r
    rw [total, hheld] at htotal
    rw [count_append, count_append, count_range, htotal]
  scheduled := h.scheduled
  resolved := h.acked
  closed := by
    intro c hc hresolved
    obtain ⟨hnil, hcovered⟩ := h.closed (h.closing (ne_nil_of_mem hc))
    refine ⟨hnil, flatMap_eq_nil_iff.2 fun task ht => ?_⟩
    obtain ⟨k, hk⟩ := getElem?_of_mem ht
    have hdone : task.phase = .done := by
      by_contra hlive
      obtain ⟨hfirst, hbehind⟩ := hcovered k task hk hlive c hc
      exact hlive (hresolved k task hfirst hbehind hk)
    rw [hdone]
    rfl

/-- Every run that is attended to settles every record. -/
theorem settles_of_attended (opts : ProducerOptions) (es : List ProducerEvent) (hes : Guarded step Attended { opts } es) :
    (run step { opts } es).Settles := by
  have hinit : Inv { opts } :=
    ⟨nofun, nodup_nil, nofun, nofun, fun h => absurd rfl h, fun h => absurd rfl h, nofun⟩
  exact (run_invariant_of_guarded (P := Inv) step (fun _ e h hg => h.step e hg) es hes hinit).settles (conserved_run opts es)

/-- A batch is produced at the second attempt; another record is left to `close`. -/
theorem settles_of_attended_close : (run step { opts := { idempotent := true } }
      [.send ['t'] (some 0), .timer, .initialised true, .ensured 0, .produced 0 .appliedButFailed, .retry 0,
        .produced 0 .acknowledged, .send ['t'] none, .metadata 0 (some 2), .close, .ensured 1,
        .produced 1 .acknowledged]).Settles := by
  refine settles_of_attended _ _ ⟨trivial, trivial, fun _ => rfl, trivial, trivial, trivial, trivial, trivial, fun _ _ => rfl, ?_,
    trivial, trivial, trivial⟩
  change ∀ task ∈ [({ topic := ['t'], phase := .done } : FlushTask)], task.phase = .done
  decide

/-- Without a producer id a record is nowhere, and `close` resolves while an earlier flush is in flight and before a send
has its partition. -/
theorem not_settles : ¬ (run step { opts := { idempotent := true } } [.send ['t'] (some 0), .timer, .initialised false, .ensured 0]).Settles ∧
    ¬ (run step { opts := { batchSize := 1 } } [.send ['t'] (some 0), .close]).Settles ∧
    ¬ (run step {} [.send ['t'] none, .close, .metadata 0 (some 1)]).Settles := by
  refine ⟨fun h => ?_, fun h => ?_, fun h => ?_⟩
  · have hlen := h.exactlyOne.length_eq
    exact absurd hlen (by decide)
  · obtain ⟨-, hnil⟩ := h.closed (1, 1) (mem_singleton.2 rfl) fun k task hfirst hbehind => by omega
    exact absurd hnil (by decide)
  · obtain ⟨hnil, -⟩ := h.closed (0, 0) (mem_singleton.2 rfl) fun k task hfirst hbehind => by omega
    exact absurd hnil (by decide)

end ProducerWorld

end StreetJS.Kafka
