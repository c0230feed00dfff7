/-
Idempotent production: the batches of a partition carry consecutive sequences and a broker that drops what it has seen
has every resolved record once, while a flush begins with a partition only when all its batches are acknowledged.
-/
import Mathlib.Data.List.Nodup
import Mathlib.Data.List.Pairwise
import StreetJS.Kafka.ProducerLedger

namespace StreetJS.Kafka

open StreetJS.Lib List

/-! ## Consecutive batches -/

/-- The batches of a partition. -/
def batchesOf (key : Topic × Int) (bs : List Batch) : List Batch := bs.filter (·.key = key)

/-- How many records the batches have. -/
def recordCount (bs : List Batch) : Nat := (bs.map fun b => b.records.length).sum

/-- Every batch begins where the one before it ends. -/
def Contiguous : Nat → List Batch → Prop
  | _, [] => True
  | i, b :: bs => b.baseSequence = some i ∧ Contiguous (i + b.records.length) bs

@[simp] theorem batchesOf_append (key : Topic × Int) (bs cs : List Batch) : batchesOf key (bs ++ cs) = batchesOf key bs ++ batchesOf key cs :=
  filter_append ..

variable {bs : List Batch} {b : Batch}

theorem mem_batchesOf {key : Topic × Int} : b ∈ batchesOf key bs ↔ b ∈ bs ∧ b.key = key := by
  rw [batchesOf, mem_filter, decide_eq_true_eq]

theorem batchesOf_self : batchesOf b.key [b] = [b] := by simp [batchesOf]

theorem batchesOf_other {key : Topic × Int} (h : b.key ≠ key) : batchesOf key [b] = [] := by simp [batchesOf, h]

@[simp] theorem recordCount_append (bs cs : List Batch) : recordCount (bs ++ cs) = recordCount bs + recordCount cs := by
  rw [recordCount, map_append, sum_append]
  rfl

@[simp] theorem recordCount_singleton (b : Batch) : recordCount [b] = b.records.length := by simp [recordCount]

theorem contiguous_append {cs : List Batch} {i : Nat} : Contiguous i (bs ++ cs) ↔ Contiguous i bs ∧ Contiguous (i + recordCount bs) cs := by
  induction bs generalizing i with
  | nil => simp [Contiguous, recordCount]
  | cons b bs ih =>
    have hcount : recordCount (b :: bs) = b.records.length + recordCount bs := by simp [recordCount]
    rw [cons_append, Contiguous, Contiguous, ih, hcount, and_assoc, Nat.add_assoc]

theorem Contiguous.base_ge {i : Nat} (h : Contiguous i bs) (hb : b ∈ bs) : ∃ j, b.baseSequence = some j ∧ i ≤ j := by
  induction bs generalizing i with
  | nil => cases hb
  | cons c bs ih =>
    obtain ⟨hc, hbs⟩ := h
    rcases mem_cons.1 hb with rfl | hb
    · exact ⟨i, hc, Nat.le_refl i⟩
    · obtain ⟨j, hj, hle⟩ := ih hbs hb
      exact ⟨j, hj, by omega⟩

theorem overlaps_comm (b c : Batch) : b.overlaps c = c.overlaps b := by
  rw [Batch.overlaps, Batch.overlaps]
  cases b.baseSequence with
  | none => cases c.baseSequence <;> rfl
  | some i =>
    cases c.baseSequence with
    | none => rfl
    | some j =>
      simp only [Bool.and_assoc, eq_comm]
      rw [Bool.and_comm (decide (i < _))]

/-- Consecutive batches share no sequence. -/
theorem Contiguous.pairwise {i : Nat} (h : Contiguous i bs) : bs.Pairwise fun b c => b.overlaps c = false := by
  induction bs generalizing i with
  | nil => exact List.Pairwise.nil
  | cons b bs ih =>
    obtain ⟨hb, hbs⟩ := h
    refine pairwise_cons.2 ⟨fun c hc => ?_, ih hbs⟩
    obtain ⟨j, hj, hle⟩ := hbs.base_ge hc
    simp only [Batch.overlaps, hb, hj, Bool.and_eq_false_iff, decide_eq_false_iff_not]
    omega

theorem overlaps_self {i : Nat} (hi : b.baseSequence = some i) (hb : b.records ≠ []) : b.overlaps b = true := by
  have := length_pos_of_ne_nil hb
  simp only [Batch.overlaps, hi, Bool.and_eq_true, decide_eq_true_eq, true_and]
  omega

namespace ProducerWorld

variable {w : ProducerWorld}

/-! ## Exactly once -/

/-- The batches of every partition are consecutive from 0 and share no sequence, and the broker has every resolved record
once. -/
structure ExactlyOnce (w : ProducerWorld) : Prop where
  contiguous : ∀ key, Contiguous 0 (batchesOf key w.sent)
  disjoint : w.sent.Pairwise fun b c => b.overlaps c = false
  stored : ∀ r, (r, true) ∈ w.settled → (w.log.flatMap Batch.records).count r = 1

/-- The partition that a flush begins with. -/
def begins (w : ProducerWorld) : ProducerEvent → Option (Topic × Int)
  | .ensured k =>
    match w.tasks[k]? with
    | some { topic, phase := .ensuring list } =>
      if w.init = .resolved then (byPartition list).head?.map fun group => (topic, group.1) else none
    | _ => none
  | .produced k outcome =>
    match w.tasks[k]? with
    | some { topic, phase := .producing b attempt false rest } =>
      if (b.encodable = true ∧ outcome = .acknowledged) ∨ w.opts.maxRetries ≤ attempt then
        rest.head?.map fun group => (topic, group.1)
      else none
    | _ => none
  | _ => none

/-- A flush begins with a partition when all batches that are sent to it are acknowledged. -/
def InOrder (w : ProducerWorld) (e : ProducerEvent) : Prop :=
  ∀ key ∈ w.begins e, ∀ b ∈ w.sent, b.key = key → b ∈ w.acknowledged

/-! ## The invariant -/

/-- A flush waits for the reply to a batch. -/
def Producing (w : ProducerWorld) (b : Batch) : Prop :=
  ∃ (k : Nat) (task : FlushTask) (attempt : Nat) (backoff : Bool) (rest : OrderedMap Int (List Nat)),
    w.tasks[k]? = some task ∧ task.phase = .producing b attempt backoff rest

/-- The batches and what the broker has of them. Of a partition the last batch alone may not be acknowledged, and the next
sequence is behind the acknowledged ones. -/
structure Ledger (w : ProducerWorld) : Prop where
  numbered : ∀ b ∈ w.sent, b.records ≠ []
  order : ∀ key, ∃ last, batchesOf key w.sent = batchesOf key w.acknowledged ++ last ∧ last.length ≤ 1
  contiguous : ∀ key, Contiguous 0 (batchesOf key w.sent)
  sequence : ∀ key, (w.sequences.get key).getD 0 = recordCount (batchesOf key w.acknowledged)
  distinct : (w.sent.flatMap Batch.records).Nodup
  stored : w.log ⊆ w.sent ∧ w.log.Nodup ∧ w.acknowledged ⊆ w.log
  resolved : ∀ r, (r, true) ∈ w.settled → ∃ b ∈ w.acknowledged, r ∈ b.records

/-- The batches against the flushes that produce them. -/
structure Flushes (w : ProducerWorld) : Prop where
  /-- A batch that waits for its reply is sent and not acknowledged. -/
  current : ∀ b, w.Producing b → b ∈ w.sent ∧ b ∉ w.acknowledged
  /-- A batch waits for its reply, or its records are settled. -/
  sent : ∀ b ∈ w.sent, w.Producing b ∨ ∀ r ∈ b.records, r ∈ w.settledRecords
  groups : ∀ task ∈ w.tasks, ∀ b attempt backoff rest, task.phase = .producing b attempt backoff rest → ∀ e ∈ rest, e.2 ≠ []

/-! ## The ledger -/

theorem Ledger.congr (h : w.Ledger) {w' : ProducerWorld} (hsent : w'.sent = w.sent) (hacked : w'.acknowledged = w.acknowledged)
    (hsequences : w'.sequences = w.sequences) (hlog : w'.log = w.log) (hsettled : w'.settled = w.settled) : w'.Ledger := by
  obtain ⟨hnumbered, horder, hcontiguous, hsequence, hdistinct, hstored, hresolved⟩ := h
  refine ⟨?_, ?_, ?_, ?_, ?_, ?_, ?_⟩ <;> simp only [hsent, hacked, hsequences, hlog, hsettled] <;> assumption

theorem Ledger.nodup (h : w.Ledger) : w.sent.Nodup := by
  obtain ⟨-, hpairwise⟩ := nodup_flatMap.1 h.distinct
  refine (List.Pairwise.and_mem.1 hpairwise).imp fun {b c} hbc => ?_
  rintro rfl
  obtain ⟨r, hr⟩ := exists_mem_of_ne_nil _ (h.numbered b hbc.1)
  exact hbc.2.2 hr hr

variable {b : Batch}

theorem Ledger.overlaps (h : w.Ledger) {c : Batch} (hb : b ∈ w.sent) (hc : c ∈ w.sent) (hne : b ≠ c) : b.overlaps c = false := by
  by_cases hkey : b.key = c.key
  · have hsymm : Std.Symm fun b c : Batch => b.overlaps c = false := ⟨fun b c h => overlaps_comm c b ▸ h⟩
    exact (h.contiguous c.key).pairwise.forall (mem_batchesOf.2 ⟨hb, hkey⟩) (mem_batchesOf.2 ⟨hc, rfl⟩) hne
  · rw [Batch.overlaps]
    split
    · simp [hkey]
    · rfl

theorem Ledger.store (h : w.Ledger) {b : Batch} (hb : b ∈ w.sent) : store w.log b = if b ∈ w.log then w.log else w.log ++ [b] := by
  obtain ⟨j, hj, -⟩ := (h.contiguous b.key).base_ge (mem_batchesOf.2 ⟨hb, rfl⟩)
  rw [StreetJS.Kafka.store]
  by_cases hmem : b ∈ w.log
  · rw [if_pos hmem, if_pos (any_eq_true.2 ⟨b, hmem, overlaps_self hj (h.numbered b hb)⟩)]
  · rw [if_neg hmem, if_neg]
    rw [any_eq_true]
    rintro ⟨c, hc, hover⟩
    rw [h.overlaps hb (h.stored.1 hc) fun heq => hmem (heq ▸ hc)] at hover
    cases hover

theorem Ledger.apply (h : w.Ledger) (hb : b ∈ w.sent) :
    Ledger { w with log := StreetJS.Kafka.store w.log b } ∧ b ∈ StreetJS.Kafka.store w.log b := by
  obtain ⟨hsub, hnodup, hacked⟩ := h.stored
  rw [h.store hb]
  split
  case isTrue hmem => exact ⟨⟨h.numbered, h.order, h.contiguous, h.sequence, h.distinct, h.stored, h.resolved⟩, hmem⟩
  case isFalse hmem =>
    refine ⟨⟨h.numbered, h.order, h.contiguous, h.sequence, h.distinct, ⟨?_, ?_, ?_⟩, h.resolved⟩, ?_⟩
    · exact append_subset.2 ⟨hsub, fun c hc => mem_singleton.1 hc ▸ hb⟩
    · exact nodup_append.2 ⟨hnodup, nodup_singleton b, fun c hc d hd heq => hmem (mem_singleton.1 hd ▸ heq ▸ hc)⟩
    · exact fun c hc => mem_append_left _ (hacked hc)
    · exact mem_append_right _ (mem_singleton.2 rfl)

theorem Ledger.exactlyOnce (h : w.Ledger) : w.ExactlyOnce where
  contiguous := h.contiguous
  disjoint := (List.Pairwise.and_mem.1 h.nodup).imp fun hbc => h.overlaps hbc.1 hbc.2.1 hbc.2.2
  stored := by
    intro r hr
    obtain ⟨b, hb, hrb⟩ := h.resolved r hr
    obtain ⟨hsub, hnodup, hacked⟩ := h.stored
    obtain ⟨hlists, hpairwise⟩ := nodup_flatMap.1 h.distinct
    refine count_eq_one_of_mem (nodup_flatMap.2 ⟨fun c hc => hlists c (hsub hc), ?_⟩) (mem_flatMap.2 ⟨b, hacked hb, hrb⟩)
    have hsymm : Std.Symm (Function.onFun List.Disjoint Batch.records) := ⟨fun _ _ hd r hc hb => hd hb hc⟩
    exact (List.Pairwise.and_mem.1 hnodup).imp fun hbc => hpairwise.forall (hsub hbc.1) (hsub hbc.2.1) hbc.2.2

theorem Ledger.acknowledge (h : w.Ledger) (hb : b ∈ w.sent) (hlog : b ∈ w.log) (hnew : b ∉ w.acknowledged) :
    ((w.acknowledge b).settle b true).Ledger := by
  obtain ⟨hsub, hnodup, hacked⟩ := h.stored
  obtain ⟨last, hlast, hlen⟩ := h.order b.key
  obtain rfl : last = [b] := by
    have hmem : b ∈ batchesOf b.key w.acknowledged ++ last := hlast ▸ mem_batchesOf.2 ⟨hb, rfl⟩
    have hmem : b ∈ last := (mem_append.1 hmem).resolve_left fun hin => hnew (mem_batchesOf.1 hin).1
    obtain ⟨c, rfl⟩ := length_eq_one_iff.1 (le_antisymm hlen (length_pos_of_mem hmem))
    rw [mem_singleton.1 hmem]
  have hbase : b.baseSequence = some (recordCount (batchesOf b.key w.acknowledged)) := by
    have hcontiguous := h.contiguous b.key
    rw [hlast, contiguous_append, Nat.zero_add] at hcontiguous
    exact hcontiguous.2.1
  refine ⟨h.numbered, fun key => ?_, h.contiguous, fun key => ?_, h.distinct, ⟨hsub, hnodup, ?_⟩, fun r hr => ?_⟩
  · change ∃ last, batchesOf key w.sent = batchesOf key (w.acknowledged ++ [b]) ++ last ∧ last.length ≤ 1
    by_cases hkey : b.key = key
    · subst hkey
      exact ⟨[], by rw [batchesOf_append, batchesOf_self, append_nil, hlast], Nat.zero_le 1⟩
    · rw [batchesOf_append, batchesOf_other hkey, append_nil]
      exact h.order key
  · have hsequences : ((w.acknowledge b).settle b true).sequences =
        w.sequences.set b.key (recordCount (batchesOf b.key w.acknowledged) + b.records.length) := by
      simp only [ProducerWorld.acknowledge, settle, hbase]
    have hackeds : ((w.acknowledge b).settle b true).acknowledged = w.acknowledged ++ [b] := rfl
    rw [hsequences, hackeds, OrderedMap.get_set, batchesOf_append]
    split
    case isTrue hkey =>
      subst hkey
      rw [batchesOf_self, recordCount_append, recordCount_singleton, Option.getD_some]
    case isFalse hkey =>
      rw [batchesOf_other fun heq => hkey heq.symm, append_nil]
      exact h.sequence key
  · exact append_subset.2 ⟨hacked, fun c hc => mem_singleton.1 hc ▸ hlog⟩
  · rcases mem_append.1 hr with hr | hr
    · obtain ⟨c, hc, hrc⟩ := h.resolved r hr
      exact ⟨c, mem_append_left _ hc, hrc⟩
    · obtain ⟨r', hr', heq⟩ := mem_map.1 hr
      obtain ⟨rfl, -⟩ := Prod.mk.inj heq
      exact ⟨b, mem_append_right _ (mem_singleton.2 rfl), hr'⟩

theorem Ledger.reject (h : w.Ledger) (b : Batch) : (w.settle b false).Ledger := by
  refine ⟨h.numbered, h.order, h.contiguous, h.sequence, h.distinct, h.stored, fun r hr => ?_⟩
  rcases mem_append.1 hr with hr | hr
  · exact h.resolved r hr
  · obtain ⟨r', -, heq⟩ := mem_map.1 hr
    cases (Prod.mk.inj heq).2

theorem Ledger.send (h : w.Ledger) (hrecords : b.records ≠ [])
    (hbase : b.baseSequence = some ((w.sequences.get b.key).getD 0)) (hacked : ∀ c ∈ w.sent, c.key = b.key → c ∈ w.acknowledged)
    (hnodup : b.records.Nodup) (hfresh : ∀ c ∈ w.sent, ∀ r ∈ c.records, r ∉ b.records) :
    Ledger { w with sent := w.sent ++ [b] } := by
  have hlast : batchesOf b.key w.sent = batchesOf b.key w.acknowledged := by
    obtain ⟨last, hlast, -⟩ := h.order b.key
    rcases last with _ | ⟨c, last⟩
    · rwa [append_nil] at hlast
    · -- A batch that is not acknowledged yet would be there twice.
      have hmem : c ∈ batchesOf b.key w.sent := hlast ▸ mem_append_right _ mem_cons_self
      obtain ⟨hc, hkey⟩ := mem_batchesOf.1 hmem
      have hnodup : (batchesOf b.key w.acknowledged ++ c :: last).Nodup := hlast ▸ h.nodup.filter _
      exact absurd rfl ((nodup_append.1 hnodup).2.2 c (mem_batchesOf.2 ⟨hacked c hc hkey, hkey⟩) c mem_cons_self)
  refine ⟨fun c hc => ?_, fun key => ?_, fun key => ?_, h.sequence, ?_,
    ⟨fun c hc => mem_append_left _ (h.stored.1 hc), h.stored.2⟩, h.resolved⟩
  · rcases mem_append.1 hc with hc | hc
    · exact h.numbered c hc
    · rwa [mem_singleton.1 hc]
  · by_cases hkey : b.key = key
    · subst hkey
      exact ⟨[b], by simp only [batchesOf_append, batchesOf_self, hlast], Nat.le_refl 1⟩
    · simp only [batchesOf_append, batchesOf_other hkey, append_nil]
      exact h.order key
  · by_cases hkey : b.key = key
    · subst hkey
      simp only [batchesOf_append, batchesOf_self]
      refine contiguous_append.2 ⟨h.contiguous b.key, ?_, trivial⟩
      rw [hbase, h.sequence, hlast, Nat.zero_add]
    · simp only [batchesOf_append, batchesOf_other hkey, append_nil]
      exact h.contiguous key
  · simp only [flatMap_append, flatMap_singleton]
    refine nodup_append.2 ⟨h.distinct, hnodup, fun r hr s hs heq => ?_⟩
    obtain ⟨c, hc, hrc⟩ := mem_flatMap.1 hr
    exact hfresh c hc r hrc (heq ▸ hs)

/-! ## Flushes -/

structure Sequenced (w : ProducerWorld) : Prop where
  idempotent : w.opts.idempotent = true
  conserved : w.Conserved
  ledger : w.Ledger
  flushes : w.Flushes

theorem Conserved.le_one (h : w.Conserved) (r : Nat) : w.total r ≤ 1 := by
  rw [h r]
  split <;> omega

theorem Conserved.held_nodup (h : w.Conserved) : w.held.Nodup := by
  refine nodup_iff_count_le_one.2 fun r => ?_
  have := h.le_one r
  rw [total] at this
  omega

variable {k : Nat}

theorem Conserved.not_settled (h : w.Conserved) {task : FlushTask} (hk : w.tasks[k]? = some task) {r : Nat}
    (hr : r ∈ task.phase.held) : r ∉ w.settledRecords := by
  intro hs
  have htotal := h.le_one r
  have hheld : 0 < w.held.count r :=
    count_pos_iff.2 (mem_flatMap.2 ⟨task, mem_of_getElem? hk, hr⟩)
  have hsettled : 0 < w.settledRecords.count r := count_pos_iff.2 hs
  rw [total] at htotal
  omega

variable {rest : OrderedMap Int (List Nat)}

theorem mem_held_producing {attempt : Nat} {backoff : Bool} {phase : FlushPhase}
    (hphase : phase = .producing b attempt backoff rest) {r : Nat} (hr : r ∈ b.records) : r ∈ phase.held := by
  rw [hphase, FlushPhase.held_producing]
  exact mem_append_left _ hr

section

variable {w' : ProducerWorld} {k : Nat} {task task' : FlushTask} (hk : w.tasks[k]? = some task) (htasks : w'.tasks = w.tasks.set k task')

include hk htasks

/-- What waits after a flush has gone on waits there, or has waited before. -/
theorem Producing.cases_set {b : Batch} (h : w'.Producing b) : (∃ attempt backoff rest, task'.phase = .producing b attempt backoff rest) ∨
      ∃ j t attempt backoff rest, j ≠ k ∧ w.tasks[j]? = some t ∧ t.phase = .producing b attempt backoff rest := by
  obtain ⟨j, t, attempt, backoff, rest, hj, hphase⟩ := h
  rw [htasks] at hj
  rcases getElem?_set_cases hj with ⟨rfl, rfl⟩ | ⟨hne, hj⟩
  · exact .inl ⟨attempt, backoff, rest, hphase⟩
  · exact .inr ⟨j, t, attempt, backoff, rest, hne, hj, hphase⟩

theorem Producing.of_set {b : Batch} (h : w.Producing b) (hother : ∀ attempt backoff rest, task.phase ≠ .producing b attempt backoff rest) :
    w'.Producing b := by
  obtain ⟨j, t, attempt, backoff, rest, hj, hphase⟩ := h
  have hne : k ≠ j := by
    rintro rfl
    obtain rfl := Option.some.inj (hk.symm.trans hj)
    exact hother attempt backoff rest hphase
  exact ⟨j, t, attempt, backoff, rest, by rw [htasks, getElem?_set_ne hne, hj], hphase⟩

theorem Producing.here {b : Batch} {attempt : Nat} {backoff : Bool} {rest : OrderedMap Int (List Nat)}
    (hphase : task'.phase = .producing b attempt backoff rest) : w'.Producing b := by
  have hlt := (lt_length hk)
  exact ⟨k, task', attempt, backoff, rest, by rw [htasks, getElem?_set_self hlt], hphase⟩

end

variable {topic : Topic}

/-- A flush that waits for the producer id begins with its first partition, or has none left. -/
theorem Sequenced.produceNext (h : w.Sequenced) {list : List PendingRecord}
    (hk : w.tasks[k]? = some { topic, phase := .ensuring list }) {groups : OrderedMap Int (List Nat)}
    (hgroups : ∀ r, (groups.flatMap Prod.snd).count r = (list.map PendingRecord.record).count r)
    (hne : ∀ e ∈ groups, e.2 ≠ [])
    (hacked : ∀ group ∈ groups.head?, ∀ b ∈ w.sent, b.key = (topic, group.1) → b ∈ w.acknowledged) :
    (w.produceNext k topic groups).Sequenced := by
  have hconserved : (w.produceNext k topic groups).Conserved := by
    refine h.conserved.of_total (fun r => ?_) (produceNext_accepted ..)
    have hnext := produceNext_total hk topic groups r
    rw [hgroups, FlushPhase.held_ensuring] at hnext
    omega
  obtain ⟨hcurrent, hsent, hgrouped⟩ := h.flushes
  cases groups with
  | nil =>
    refine ⟨h.idempotent, hconserved, ?_, ?_, ?_, ?_⟩
    · exact { h.ledger with }
    · intro b hb
      rcases hb.cases_set hk rfl with ⟨_, _, _, hphase⟩ | ⟨j, t, attempt, backoff, rest, -, hj, hphase⟩
      · cases hphase
      · exact hcurrent b ⟨j, t, attempt, backoff, rest, hj, hphase⟩
    · exact fun b hb => (hsent b hb).imp_left fun hp => hp.of_set hk rfl nofun
    · intro t ht
      rcases mem_or_eq_of_mem_set ht with ht | rfl
      · exact hgrouped t ht
      · nofun
  | cons group rest =>
    obtain ⟨partition, records⟩ := group
    obtain ⟨b, hb⟩ : ∃ b : Batch, b =
      { topic, partition, baseSequence := some ((w.sequences.get (topic, partition)).getD 0), records } := ⟨_, rfl⟩
    have hnext : w.produceNext k topic ((partition, records) :: rest) =
        { w.setTask k { topic, phase := .producing b 0 false rest } with sent := w.sent ++ [b] } := by
      rw [hb]
      simp only [ProducerWorld.produceNext, h.idempotent, if_true]
    have hrecords : b.records = records := by rw [hb]
    -- The records of the batch are those of the list, which no batch has yet.
    have hlist : ∀ r ∈ b.records, r ∈ list.map PendingRecord.record := by
      intro r hr
      have hmem : r ∈ ((partition, records) :: rest).flatMap Prod.snd :=
        mem_flatMap.2 ⟨(partition, records), mem_cons_self, by rwa [hrecords] at hr⟩
      have hpos := count_pos_iff.2 hmem
      rw [hgroups] at hpos
      exact count_pos_iff.1 hpos
    have hfresh : ∀ c ∈ w.sent, ∀ r ∈ c.records, r ∉ b.records := by
      intro c hc r hrc hr
      have hheld : r ∈ (FlushPhase.ensuring list).held := by
        rw [FlushPhase.held_ensuring]
        exact hlist r hr
      rcases hsent c hc with ⟨j, t, attempt, backoff, rest', hj, hphase⟩ | hsettled
      · have hjk : k ≠ j := by
          rintro rfl
          obtain rfl := Option.some.inj (hk.symm.trans hj)
          cases hphase
        exact disjoint_of_nodup_flatMap h.conserved.held_nodup hk hj hjk hheld (mem_held_producing hphase hrc)
      · exact h.conserved.not_settled hk hheld (hsettled r hrc)
    have hnodup : b.records.Nodup := by
      have hlists : (list.map PendingRecord.record).Nodup := by
        have := (nodup_flatMap.1 h.conserved.held_nodup).1 _ (mem_of_getElem? hk)
        rwa [FlushPhase.held_ensuring] at this
      have hall : (((partition, records) :: rest).flatMap Prod.snd).Nodup := nodup_iff_count_le_one.2 fun r => by
        rw [hgroups]
        exact nodup_iff_count_le_one.1 hlists r
      rw [hrecords]
      exact (nodup_flatMap.1 hall).1 _ mem_cons_self
    have hbne : b.records ≠ [] := hrecords ▸ hne _ mem_cons_self
    have hkey : b.key = (topic, partition) := by rw [hb]; rfl
    have hledger := h.ledger.send hbne (by rw [hkey, hb]) (fun c hc hck => hacked (partition, records) rfl c hc (hck.trans hkey))
      hnodup hfresh
    rw [hnext] at hconserved ⊢
    refine ⟨h.idempotent, hconserved, ?_, ?_, ?_, ?_⟩
    · exact { hledger with }
    · intro c hc
      rcases hc.cases_set (w := w) hk rfl with ⟨_, _, _, hphase⟩ | ⟨j, t, attempt, backoff, rest, -, hj, hphase⟩
      · cases hphase
        refine ⟨mem_append_right _ (mem_singleton.2 rfl), fun hin => ?_⟩
        obtain ⟨r, hr⟩ := exists_mem_of_ne_nil _ hbne
        exact hfresh b (h.ledger.stored.1 (h.ledger.stored.2.2 hin)) r hr hr
      · obtain ⟨hin, hout⟩ := hcurrent c ⟨j, t, attempt, backoff, rest, hj, hphase⟩
        exact ⟨mem_append_left _ hin, hout⟩
    · intro c hc
      rcases mem_append.1 hc with hc | hc
      · exact (hsent c hc).imp_left fun hp => hp.of_set hk rfl nofun
      · rw [mem_singleton.1 hc]
        exact .inl (Producing.here (w := w) hk rfl rfl)
    · intro t ht
      rcases mem_or_eq_of_mem_set ht with ht | rfl
      · exact hgrouped t ht
      · intro c attempt backoff rest' hphase
        cases hphase
        exact fun e he => hne e (mem_cons_of_mem _ he)

/-- The records of the partitions that are left, as a list that a flush has detached. -/
def pendings (rest : OrderedMap Int (List Nat)) : List PendingRecord :=
  rest.flatMap fun e => e.2.map fun record => { partition := e.1, record }

theorem map_record_pendings (rest : OrderedMap Int (List Nat)) : (pendings rest).map PendingRecord.record = rest.flatMap Prod.snd := by
  rw [pendings, map_flatMap]
  refine flatMap_congr fun e _ => ?_
  rw [map_map]
  exact map_id _

theorem produceNext_setTask (w : ProducerWorld) (k : Nat) (task : FlushTask) (topic : Topic) (groups : OrderedMap Int (List Nat)) :
    (w.setTask k task).produceNext k topic groups = w.produceNext k topic groups := by
  cases groups with
  | nil => simp only [ProducerWorld.produceNext, setTask, set_set]
  | cons group rest =>
    simp only [ProducerWorld.produceNext, setTask, set_set]
    rfl

section

variable {k : Nat} {topic : Topic} {b : Batch} {attempt : Nat} {rest : OrderedMap Int (List Nat)}
  (hk : w.tasks[k]? = some { topic, phase := .producing b attempt false rest })

include hk

/-- When a batch is settled its flush has the other partitions left, as if it had just detached them. -/
theorem Sequenced.finish (h : w.Sequenced) {log acknowledged : List Batch} {sequences : OrderedMap (Topic × Int) Nat} {resolved : Bool}
    (hacked : ∀ c ∈ acknowledged, c ∈ w.acknowledged ∨ c = b)
    (hledger : ({ w with log, acknowledged, sequences }.settle b resolved).Ledger) :
    (({ w with log, acknowledged, sequences }.settle b resolved).setTask k { topic, phase := .ensuring (pendings rest) }).Sequenced := by
  obtain ⟨w', hw'⟩ : ∃ w', w' = { w with log, acknowledged, sequences }.settle b resolved := ⟨_, rfl⟩
  have htotal : ∀ r, w'.total r = w.total r + b.records.count r := fun r => hw' ▸ settle_total _ b resolved r
  have htasks : w'.tasks = w.tasks := by rw [hw']; rfl
  have hk' : w'.tasks[k]? = some { topic, phase := .producing b attempt false rest } := by rw [htasks, hk]
  have hset : (w'.setTask k { topic, phase := .ensuring (pendings rest) }).tasks =
      w.tasks.set k { topic, phase := .ensuring (pendings rest) } := by rw [setTask, htasks]
  have hsettled : (w'.setTask k { topic, phase := .ensuring (pendings rest) }).settledRecords = w.settledRecords ++ b.records := by
    rw [hw']
    change (w.settled ++ b.records.map fun record => (record, resolved)).map Prod.fst = _
    rw [map_append, map_map]
    congr 1
    exact map_id _
  rw [← hw'] at hledger ⊢
  refine ⟨by rw [hw']; exact h.idempotent, ?_, ?_, ?_, fun c hc => ?_, fun t ht => ?_⟩
  · refine h.conserved.of_total (fun r => ?_) (by rw [hw']; rfl)
    have hheld := setTask_total hk' { topic, phase := .ensuring (pendings rest) } r
    rw [FlushPhase.held_producing, FlushPhase.held_ensuring, map_record_pendings, count_append, htotal] at hheld
    omega
  · exact { hledger with }
  · intro c hc
    rcases hc.cases_set hk hset with ⟨_, _, _, hphase⟩ | ⟨j, t, attempt', backoff, rest', hjk, hj, hphase⟩
    · cases hphase
    · obtain ⟨hin, hout⟩ := h.flushes.current c ⟨j, t, attempt', backoff, rest', hj, hphase⟩
      refine ⟨by rw [hw']; exact hin, fun hc' => ?_⟩
      have hc' : c ∈ acknowledged := by rwa [hw'] at hc'
      rcases hacked c hc' with hc' | rfl
      · exact hout hc'
      · -- No other flush has a record of this batch.
        obtain ⟨r, hr⟩ := exists_mem_of_ne_nil _ (h.ledger.numbered c hin)
        exact disjoint_of_nodup_flatMap h.conserved.held_nodup hj hk hjk (mem_held_producing hphase hr) (mem_held_producing rfl hr)
  · have hc : c ∈ w.sent := by rwa [hw'] at hc
    rw [hsettled]
    by_cases hcb : c = b
    · exact .inr fun r hr => mem_append_right _ (hcb ▸ hr)
    · rcases h.flushes.sent c hc with hp | hs
      · refine .inl (hp.of_set hk hset fun _ _ _ hphase => ?_)
        injection hphase with hbc
        exact hcb hbc.symm
      · exact .inr fun r hr => mem_append_left _ (hs r hr)
  · rw [hset] at ht
    rcases mem_or_eq_of_mem_set ht with ht | rfl
    · exact h.flushes.groups t ht
    · simp

end

theorem Sequenced.again (h : w.Sequenced) {attempt : Nat} {backoff : Bool}
    (hk : w.tasks[k]? = some { topic, phase := .producing b attempt backoff rest })
    {log : List Batch} (hledger : Ledger { w with log }) (attempt' : Nat) (backoff' : Bool) :
    Sequenced ({ w with log }.setTask k { topic, phase := .producing b attempt' backoff' rest }) := by
  refine ⟨h.idempotent, ?_, { hledger with }, fun c hc => ?_, fun c hc => ?_, fun t ht => ?_⟩
  · refine h.conserved.of_total (fun r => ?_) rfl
    have hset := setTask_total (w := { w with log }) hk { topic, phase := .producing b attempt' backoff' rest } r
    rw [FlushPhase.held_producing, FlushPhase.held_producing] at hset
    have hlog : ({ w with log } : ProducerWorld).total r = w.total r := rfl
    omega
  · rcases hc.cases_set (w := w) hk rfl with ⟨_, _, _, hphase⟩ | ⟨j, t, attempt', backoff', rest', -, hj, hphase⟩
    · cases hphase
      exact h.flushes.current b ⟨k, _, attempt, backoff, rest, hk, rfl⟩
    · exact h.flushes.current c ⟨j, t, attempt', backoff', rest', hj, hphase⟩
  · rcases h.flushes.sent c hc with hp | hs
    · by_cases hcb : c = b
      · subst hcb
        exact .inl (Producing.here (w := w) hk rfl rfl)
      · refine .inl (hp.of_set hk rfl fun _ _ _ hphase => ?_)
        injection hphase with hbc
        exact hcb hbc.symm
    · exact .inr hs
  · rcases mem_or_eq_of_mem_set ht with ht | rfl
    · exact h.flushes.groups t ht
    · intro c attempt'' backoff'' rest'' hphase
      cases hphase
      exact h.flushes.groups _ (mem_of_getElem? hk) b attempt backoff rest rfl

theorem Sequenced.answer (h : w.Sequenced) {attempt : Nat}
    (hk : w.tasks[k]? = some { topic, phase := .producing b attempt false rest }) (outcome : ProduceOutcome)
    (hacked : outcome = .acknowledged ∨ w.opts.maxRetries ≤ attempt →
      ∀ group ∈ rest.head?, ∀ c ∈ w.sent, c.key = (topic, group.1) → c ∈ w.acknowledged) :
    (w.answer k topic b attempt rest outcome).Sequenced := by
  obtain ⟨hb, hnew⟩ := h.flushes.current b ⟨k, _, attempt, false, rest, hk, rfl⟩
  have hgroups : ∀ r, (rest.flatMap Prod.snd).count r = ((pendings rest).map PendingRecord.record).count r := fun r => by
    rw [map_record_pendings]
  have hne := h.flushes.groups _ (mem_of_getElem? hk) b attempt false rest rfl
  have hlt := (lt_length hk)
  obtain ⟨happly, hlog⟩ := h.ledger.apply hb
  have hledger : ∀ {log}, log = w.log ∨ log = store w.log b → Ledger { w with log } := by
    rintro log (rfl | rfl)
    · exact { h.ledger with }
    · exact happly
  rcases answer_cases w k topic b attempt rest outcome with ⟨hout, heq⟩ | ⟨log, hlog', ⟨hexhausted, hgive⟩ | hagain⟩
  · have hfinish := h.finish hk (fun c hc => (mem_append.1 hc).imp_right mem_singleton.1) (happly.acknowledge hb hlog hnew)
    have hnext := hfinish.produceNext (getElem?_set_self hlt) hgroups hne
      fun group hg c hc hkey => mem_append_left _ (hacked (.inl hout) group hg c hc hkey)
    rw [produceNext_setTask] at hnext
    exact heq ▸ hnext
  · have hfinish := h.finish hk (fun c hc => .inl hc) ((hledger hlog').reject b)
    have hnext := hfinish.produceNext (getElem?_set_self hlt) hgroups hne
      fun group hg c hc hkey => hacked (.inr hexhausted) group hg c hc hkey
    rw [produceNext_setTask] at hnext
    exact hgive ▸ hnext
  · exact hagain ▸ h.again hk (hledger hlog') (attempt + 1) true

/-! ## Buffers -/

/-- A list is detached, or nothing; what is sent is as it was. -/
structure Detaches (w w' : ProducerWorld) : Prop where
  tasks : w'.tasks = w.tasks ∨ ∃ topic list, w'.tasks = w.tasks ++ [{ topic, phase := .ensuring list }]
  opts : w'.opts = w.opts
  sent : w'.sent = w.sent
  acknowledged : w'.acknowledged = w.acknowledged
  sequences : w'.sequences = w.sequences
  log : w'.log = w.log
  settled : w'.settled = w.settled

theorem detaches_flushTopic (w : ProducerWorld) (topic : Topic) : w.Detaches (w.flushTopic topic) := by
  rcases flushTopic_cases w topic with ⟨heq, -⟩ | ⟨list, -, -, heq⟩
  · rw [heq]
    exact ⟨.inl rfl, rfl, rfl, rfl, rfl, rfl, rfl⟩
  · rw [heq]
    exact ⟨.inr ⟨topic, list, rfl⟩, rfl, rfl, rfl, rfl, rfl, rfl⟩

theorem detaches_push (w : ProducerWorld) (topic : Topic) (partition : Int) : w.Detaches (w.push topic partition) := by
  rw [push]
  simp only
  split
  · obtain ⟨htasks, hopts, hsent, hacked, hsequences, hlog, hsettled⟩ := detaches_flushTopic { w with
        batches := w.batches.set topic ((w.batches.get topic).getD [] ++ [{ partition, record := w.accepted }])
        accepted := w.accepted + 1 } topic
    exact ⟨htasks, hopts, hsent, hacked, hsequences, hlog, hsettled⟩
  · exact ⟨.inl rfl, rfl, rfl, rfl, rfl, rfl, rfl⟩

theorem Sequenced.detaches (h : w.Sequenced) {w' : ProducerWorld} (hconserved : w'.Conserved) (hd : w.Detaches w') : w'.Sequenced := by
  obtain ⟨htasks, hopts, hsent, hacked, hsequences, hlog, hsettled⟩ := hd
  have hproducing : ∀ b, w'.Producing b ↔ w.Producing b := by
    intro b
    rcases htasks with htasks | ⟨topic, list, htasks⟩
    · simp only [Producing, htasks]
    · simp only [Producing, htasks, getElem?_concat_iff]
      constructor
      · rintro ⟨k, task, attempt, backoff, rest, hk | ⟨-, rfl⟩, hphase⟩
        · exact ⟨k, task, attempt, backoff, rest, hk, hphase⟩
        · cases hphase
      · rintro ⟨k, task, attempt, backoff, rest, hk, hphase⟩
        exact ⟨k, task, attempt, backoff, rest, .inl hk, hphase⟩
  refine ⟨by rw [hopts]; exact h.idempotent, hconserved, h.ledger.congr hsent hacked hsequences hlog hsettled, ?_, ?_, ?_⟩
  · intro b hb
    rw [hsent, hacked]
    exact h.flushes.current b ((hproducing b).1 hb)
  · intro b hb
    rw [hsent] at hb
    rw [hproducing, settledRecords, hsettled]
    exact h.flushes.sent b hb
  · intro t ht
    rcases htasks with htasks | ⟨topic, list, htasks⟩
    · rw [htasks] at ht
      exact h.flushes.groups t ht
    · rw [htasks] at ht
      rcases mem_append.1 ht with ht | ht
      · exact h.flushes.groups t ht
      · rw [mem_singleton.1 ht]
        simp

theorem Sequenced.flush (h : w.Sequenced) : w.flush.Sequenced := by
  refine flush_induction (P := Sequenced) (fun s topic hs => hs.detaches (hs.conserved.flushTopic topic) (detaches_flushTopic s topic)) ?_
  exact h.detaches h.conserved ⟨.inl rfl, rfl, rfl, rfl, rfl, rfl, rfl⟩

/-! ## Runs -/

/-- A flush that gets no producer id. -/
theorem Sequenced.fail (h : w.Sequenced) {list : List PendingRecord}
    (hk : w.tasks[k]? = some { topic, phase := .ensuring list }) (hconserved : (w.setTask k { topic, phase := .failed list }).Conserved) :
    (w.setTask k { topic, phase := .failed list }).Sequenced := by
  refine ⟨h.idempotent, hconserved, { h.ledger with }, fun b hb => ?_, fun b hb => ?_, fun t ht => ?_⟩
  · rcases hb.cases_set (w := w) hk rfl with ⟨_, _, _, hphase⟩ | ⟨j, t, attempt, backoff, rest, -, hj, hphase⟩
    · cases hphase
    · exact h.flushes.current b ⟨j, t, attempt, backoff, rest, hj, hphase⟩
  · exact (h.flushes.sent b hb).imp_left fun hp => hp.of_set hk rfl nofun
  · rcases mem_or_eq_of_mem_set ht with ht | rfl
    · exact h.flushes.groups t ht
    · nofun

theorem Sequenced.stepTask (h : w.Sequenced) {task : FlushTask} (hk : w.tasks[k]? = some task) (e : ProducerEvent)
    (hg : w.InOrder e) (he : ∀ j, e = .ensured j ∨ (∃ outcome, e = .produced j outcome) ∨ e = .retry j → j = k)
    (hconserved : (w.stepTask k task e).Conserved) : (w.stepTask k task e).Sequenced := by
  obtain ⟨topic, phase⟩ := task
  cases e with
  | ensured j =>
    obtain rfl := he j (.inl rfl)
    simp only [ProducerWorld.stepTask] at hconserved ⊢
    cases phase with
    | ensuring list =>
      simp only [h.idempotent, Bool.true_eq_false, false_or] at hconserved ⊢
      split
      case isTrue hinit =>
        refine h.produceNext hk (fun r => count_byPartition r list) (byPartition_ne_nil list) fun group hgroup => ?_
        refine hg (topic, group.1) ?_
        simp only [begins, hk, hinit, if_true]
        rw [Option.mem_def.1 hgroup]
        rfl
      case isFalse hinit =>
        rw [if_neg hinit] at hconserved
        split
        case isTrue hrejected =>
          rw [if_pos hrejected] at hconserved
          exact h.fail hk hconserved
        case isFalse => exact h
    | _ => exact h
  | produced j outcome =>
    obtain rfl := he j (.inr (.inl ⟨outcome, rfl⟩))
    simp only [ProducerWorld.stepTask]
    split
    case h_1 b attempt rest =>
      refine h.answer hk _ fun hbegins group hgroup => ?_
      refine hg (topic, group.1) ?_
      simp only [begins, hk]
      rw [if_pos, Option.mem_def.1 hgroup]
      · rfl
      · rcases hbegins with hout | hexhausted
        · cases hb : b.encodable with
          | true => exact .inl ⟨rfl, by simpa [hb] using hout⟩
          | false => simp [hb] at hout
        · exact .inr hexhausted
    case h_2 => exact h
  | retry j =>
    simp only [ProducerWorld.stepTask]
    split
    case h_1 b attempt rest => exact h.again hk ({ h.ledger with }) attempt false
    case h_2 => exact h
  | _ => exact h

theorem Sequenced.step (h : w.Sequenced) (e : ProducerEvent) (hg : w.InOrder e) : (w.step e).Sequenced := by
  have hconserved := h.conserved.step e
  have hsame : ∀ {w' : ProducerWorld}, w'.Conserved → w'.tasks = w.tasks → w'.opts = w.opts → w'.sent = w.sent →
      w'.acknowledged = w.acknowledged → w'.sequences = w.sequences → w'.log = w.log → w'.settled = w.settled → w'.Sequenced :=
    fun hc htasks hopts hsent hacked hsequences hlog hsettled =>
      h.detaches hc ⟨.inl htasks, hopts, hsent, hacked, hsequences, hlog, hsettled⟩
  have htask : ∀ k, (∀ j, e = .ensured j ∨ (∃ outcome, e = .produced j outcome) ∨ e = .retry j → j = k) →
      ((w.tasks[k]?.map fun task => w.stepTask k task e).getD w).Sequenced := by
    intro k he
    cases hk : w.tasks[k]? with
    | none => exact h
    | some task => exact h.stepTask hk e hg he (h.conserved.stepTask hk e)
  cases e with
  | send topic partition =>
    simp only [ProducerWorld.step] at hconserved ⊢
    split
    · exact h
    · next hopen =>
      rw [if_neg hopen] at hconserved
      cases partition with
      | some p => exact h.detaches hconserved (detaches_push w topic p)
      | none => exact hsame hconserved rfl rfl rfl rfl rfl rfl rfl
  | metadata s partitions =>
    rw [ProducerWorld.step] at hconserved ⊢
    split
    · next topic hs =>
      simp only [hs] at hconserved
      cases partitions with
      | none => exact hsame hconserved rfl rfl rfl rfl rfl rfl rfl
      | some n =>
        obtain ⟨htasks, hopts, hsent, hacked, hsequences, hlog, hsettled⟩ := detaches_push
          { w with choosing := w.choosing.set s none, rr := w.rr.set topic ((w.rr.get topic).getD 0 + 1) } topic
          ((w.rr.get topic).getD 0 % max 1 n : Nat)
        exact h.detaches hconserved ⟨htasks, hopts, hsent, hacked, hsequences, hlog, hsettled⟩
    · exact h
  | timer =>
    rw [ProducerWorld.step]
    split
    · exact h.flush
    · exact h
  | flush => exact h.flush
  | close =>
    have hclosed : Sequenced { w with closed := true } := hsame h.conserved rfl rfl rfl rfl rfl rfl rfl
    exact hclosed.flush.detaches hconserved ⟨.inl rfl, rfl, rfl, rfl, rfl, rfl, rfl⟩
  | initialised ok =>
    rw [ProducerWorld.step] at hconserved ⊢
    split
    · next hpending =>
      rw [if_pos hpending] at hconserved
      exact hsame hconserved rfl rfl rfl rfl rfl rfl rfl
    · exact h
  | ensured k => exact htask k (by simp)
  | produced k outcome => exact htask k (by simp)
  | retry k => exact htask k (by simp)

/-- Every run of an idempotent producer in which the batches of a partition are produced one after the other numbers them
in order, and the broker has what is resolved exactly once. -/
theorem exactlyOnce_of_inOrder (opts : ProducerOptions) (hopts : opts.idempotent = true) (es : List ProducerEvent)
    (hes : Guarded step InOrder { opts } es) : (run step { opts } es).ExactlyOnce := by
  have hledger : Ledger { opts } :=
    ⟨nofun, fun key => ⟨[], rfl, Nat.zero_le 1⟩, fun key => trivial, fun key => rfl, nodup_nil,
      ⟨nil_subset _, nodup_nil, nil_subset _⟩, nofun⟩
  have hflushes : Flushes { opts } := ⟨fun b ⟨k, task, _, _, _, hk, _⟩ => by simp at hk, nofun, nofun⟩
  have hinit : Sequenced { opts } := ⟨hopts, conserved_init opts, hledger, hflushes⟩
  exact (run_invariant_of_guarded (P := Sequenced) step (fun _ e h hg => h.step e hg) es hes hinit).ledger.exactlyOnce

/-- The reply to a batch is lost and the broker drops the second attempt; the next batch of the partition is behind it. -/
theorem exactlyOnce_of_inOrder_retry : (run step { opts := { idempotent := true } }
      [.send ['t'] (some 0), .send ['t'] (some 1), .timer, .initialised true, .ensured 0, .produced 0 .appliedButFailed, .retry 0,
        .produced 0 .acknowledged, .produced 0 .acknowledged, .send ['t'] (some 0), .flush, .ensured 1,
        .produced 1 .acknowledged]).ExactlyOnce := by
  refine exactlyOnce_of_inOrder _ rfl _ ⟨nofun, nofun, nofun, nofun, ?_, ?_, nofun, ?_, ?_, nofun, nofun, ?_, ?_, trivial⟩
  all_goals
    unfold InOrder
    decide

/-- Two flushes of a topic produce at once with the same sequence, and the broker drops the second batch, which is
acknowledged; and a batch that is given up leaves its sequence to the next one. -/
theorem not_exactlyOnce : ¬ (run step { opts := { idempotent := true, batchSize := 1 } }
      [.send ['t'] (some 0), .send ['t'] (some 0), .initialised true, .ensured 0, .ensured 1, .produced 0 .acknowledged,
        .produced 1 .acknowledged]).ExactlyOnce ∧
    ¬ (run step { opts := { idempotent := true, batchSize := 1, maxRetries := 0 } }
      [.send ['t'] (some 0), .initialised true, .ensured 0, .produced 0 .appliedButFailed, .send ['t'] (some 0), .ensured 1,
        .produced 1 .acknowledged]).ExactlyOnce := by
  constructor
  · intro h
    exact absurd (h.stored 1 (by decide)) (by decide)
  · intro h
    exact absurd (h.stored 1 (by decide)) (by decide)

end ProducerWorld

end StreetJS.Kafka
