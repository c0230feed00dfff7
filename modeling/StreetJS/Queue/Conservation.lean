/-
Job conservation in the in-process driver, over every sequence of operations, also with reservations
whose lease has expired. Every operation keeps one place for each job that has not been acked, except
`moveToDeadLetter` with a reservation that is no longer leased: it adds a dead-letter record for a
job that is still in a queue, leased again or dead-lettered already.
-/
import StreetJS.Queue.MemoryDriver
import StreetJS.Lib.Runs

namespace StreetJS.Queue

open StreetJS.Lib List OrderedMap

variable {P : Type}

/-! ## Runs of the driver -/

/-- The calls made on a driver. A reservation is one that an earlier `reserve` has returned, by its
number. -/
inductive DriverOp (P : Type) where
  | enqueue (queue : String) (envelope : JobEnvelope P)
  | enqueueDelayed (queue : String) (envelope : JobEnvelope P) (runAt : Int)
  | reserve (queues : List String) (visibilityMs now : Int)
  | ack (i : Nat)
  | nack (i : Nat) (runAt : Option Int)
  | promoteDue (now : Int)
  | moveToDeadLetter (i : Nat) (error : SerializedError) (failedAt : Int)

/-- A driver with its past: the reservations it has returned, the ids it was given, and those whose
lease was acked. -/
structure DriverRun (P : Type) where
  driver : MemoryDriver P := {}
  issued : List (Reservation P) := []
  enqueued : List String := []
  acked : List String := []

/-- A call with the `i`-th reservation. -/
def DriverRun.withReservation (s : DriverRun P) (i : Nat) (call : Reservation P → DriverRun P) : DriverRun P :=
  match s.issued[i]? with
  | some r => call r
  | none => s

def DriverRun.step (s : DriverRun P) : DriverOp P → DriverRun P
  | .enqueue queue envelope =>
    { s with driver := s.driver.enqueue queue envelope, enqueued := envelope.id :: s.enqueued }
  | .enqueueDelayed queue envelope runAt =>
    { s with driver := s.driver.enqueueDelayed queue envelope runAt, enqueued := envelope.id :: s.enqueued }
  | .reserve queues visibilityMs now =>
    let (driver, reservation) := s.driver.reserve queues visibilityMs now
    { s with driver, issued := s.issued ++ reservation.toList }
  | .ack i => s.withReservation i fun r =>
    { s with
      driver := s.driver.ack r
      acked := if s.driver.reserved.has r.token then r.envelope.id :: s.acked else s.acked }
  | .nack i runAt => s.withReservation i fun r => { s with driver := s.driver.nack r runAt }
  | .promoteDue now => { s with driver := (s.driver.promoteDue now).1 }
  | .moveToDeadLetter i error failedAt => s.withReservation i fun r =>
    { s with driver := s.driver.moveToDeadLetter r error failedAt }

/-- The id a call enqueues. -/
def DriverOp.enqueues : DriverOp P → Option String
  | .enqueue _ envelope | .enqueueDelayed _ envelope _ => some envelope.id
  | _ => none

/-- Every job that was enqueued and not acked is in exactly one place. -/
def Conserved (s : DriverRun P) : Prop := ∀ id ∈ s.enqueued, id ∉ s.acked → s.driver.occurs id = 1

/-- A job is dead-lettered by a reservation that is still leased, or after it was acked. -/
def DeadLettersOwned (s : DriverRun P) : DriverOp P → Prop
  | .moveToDeadLetter i _ _ =>
    ∀ r, s.issued[i]? = some r → s.driver.reserved.has r.token = true ∨ r.envelope.id ∈ s.acked
  | _ => True

/-- An id is enqueued once. -/
def EnqueuesFresh (s : DriverRun P) (op : DriverOp P) : Prop := ∀ id, op.enqueues = some id → id ∉ s.enqueued

/-! ## The leases of a run -/

/-- The leases are under different tokens that have been given out, each to the reservation of its
job, and every job in a place was enqueued. -/
structure Sound (s : DriverRun P) : Prop where
  tokens : (s.driver.reserved.map Prod.fst).Nodup
  leased_lt : ∀ e ∈ s.driver.reserved, e.1 < s.driver.nextToken
  issued_lt : ∀ r ∈ s.issued, r.token < s.driver.nextToken
  issued_id : ∀ r ∈ s.issued, r.envelope.id ∈ s.enqueued
  owner : ∀ r ∈ s.issued, ∀ lease, (r.token, lease) ∈ s.driver.reserved → lease.envelope.id = r.envelope.id
  known : ∀ id, 0 < s.driver.occurs id → id ∈ s.enqueued

theorem sound_empty : Sound ({} : DriverRun P) where
  tokens := nodup_nil
  leased_lt _ he := absurd he not_mem_nil
  issued_lt _ hr := absurd hr not_mem_nil
  issued_id _ hr := absurd hr not_mem_nil
  owner _ hr := absurd hr not_mem_nil
  known _ hid := absurd hid (lt_irrefl 0)

variable {s : DriverRun P}

theorem Sound.moved (hs : Sound s) {d : MemoryDriver P} {acked : List String}
    (hr : d.reserved.Sublist s.driver.reserved) (ht : d.nextToken = s.driver.nextToken)
    (hk : ∀ id, 0 < d.occurs id → id ∈ s.enqueued) : Sound { s with driver := d, acked } where
  tokens := hs.tokens.sublist (hr.map _)
  leased_lt e he := ht ▸ hs.leased_lt e (hr.subset he)
  issued_lt r hr' := ht ▸ hs.issued_lt r hr'
  issued_id := hs.issued_id
  owner r hr' lease hl := hs.owner r hr' lease (hr.subset hl)
  known := hk

theorem Sound.enqueued {s : DriverRun P} (hs : Sound s) {d : MemoryDriver P} {envelope : JobEnvelope P}
    (hr : d.reserved = s.driver.reserved) (ht : d.nextToken = s.driver.nextToken)
    (ho : ∀ id, d.occurs id = [envelope.id].count id + s.driver.occurs id) :
    Sound { s with driver := d, enqueued := envelope.id :: s.enqueued } where
  tokens := hr ▸ hs.tokens
  leased_lt e he := ht ▸ hs.leased_lt e (hr ▸ he)
  issued_lt r hr' := ht ▸ hs.issued_lt r hr'
  issued_id r hr' := mem_cons_of_mem _ (hs.issued_id r hr')
  owner r hr' lease hl := hs.owner r hr' lease (hr ▸ hl)
  known id hid := by
    have h : 0 < d.occurs id := hid
    rw [ho id] at h
    by_cases he : id = envelope.id
    · exact he ▸ mem_cons_self
    · have : [envelope.id].count id = 0 := count_eq_zero.2 (by simpa using he)
      exact mem_cons_of_mem _ (hs.known id (by omega))

/-! ## Reserving -/

theorem reserve_spec (hs : Sound s) (queues : List String) (visibilityMs now : Int) :
    Rearranged s.driver (s.driver.reserve queues visibilityMs now).1 ∧ (s.driver.reserve queues visibilityMs now).2 = none ∨
      ∃ r lease, (s.driver.reserve queues visibilityMs now).2 = some r ∧ r.token = s.driver.nextToken ∧
        lease.envelope = r.envelope ∧ 0 < s.driver.occurs r.envelope.id ∧
        (s.driver.reserve queues visibilityMs now).1.nextToken = s.driver.nextToken + 1 ∧
        (∃ kept, kept.Sublist s.driver.reserved ∧ (s.driver.reserve queues visibilityMs now).1.reserved = kept ++ [(r.token, lease)]) ∧
        ∀ id, (s.driver.reserve queues visibilityMs now).1.occurs id = s.driver.occurs id := by
  have hre := reclaimExpiredLeases_rearranged hs.tokens now
  unfold MemoryDriver.reserve
  simp only
  generalize hd : s.driver.reclaimExpiredLeases now = d at hre
  split
  · rename_i queue envelope d' htake
    obtain ⟨h1, h2, -, h4⟩ := take_spec htake
    have hlt : ∀ e ∈ d'.reserved, e.1 < d'.nextToken := by
      intro e he
      rw [h1] at he
      rw [h2, hre.nextToken]
      exact hs.leased_lt e (hre.reserved.subset he)
    have hnew : d'.nextToken ∉ d'.reserved.map Prod.fst := fun h => by
      obtain ⟨e, he, hk⟩ := mem_map.1 h
      have := hlt e he
      omega
    refine .inr ⟨_, { envelope, queue, leaseExpiresAt := now + visibilityMs }, rfl, ?_, rfl, ?_, ?_, ⟨d'.reserved, ?_, ?_⟩, fun id => ?_⟩
    · exact h2.trans hre.nextToken
    · have := h4 envelope.id
      rw [hre.occurs] at this
      show 0 < s.driver.occurs envelope.id
      rw [this, count_singleton_self]
      omega
    · show d'.nextToken + 1 = _
      rw [h2, hre.nextToken]
    · rw [h1]; exact hre.reserved
    · exact set_of_not_has hnew _
    · rw [occurs_lease d' hlt, ← hre.occurs, h4 id]
  · exact .inl ⟨hre, rfl⟩

theorem sound_reserve (hs : Sound s) (queues : List String) (visibilityMs now : Int) : Sound (s.step (.reserve queues visibilityMs now)) := by
  unfold DriverRun.step
  simp only
  rcases reserve_spec hs queues visibilityMs now with ⟨hre, hn⟩ | ⟨r, lease, hr, ht, hl, hpos, hnext, ⟨kept, hkept, hres⟩, ho⟩
  · rw [hn, Option.toList_none, append_nil]
    exact hs.moved hre.reserved hre.nextToken fun id hid => hs.known id (by rw [hre.occurs] at hid; exact hid)
  · rw [hr, Option.toList_some]
    constructor
    · simp only [hres, map_append, map_singleton]
      rw [nodup_append]
      refine ⟨hs.tokens.sublist (hkept.map _), pairwise_singleton _ _, fun a ha b hb hab => ?_⟩
      obtain ⟨e, he, rfl⟩ := mem_map.1 ha
      have hlt := hs.leased_lt e (hkept.subset he)
      have hb' : b = r.token := mem_singleton.1 hb
      omega
    · intro e he
      simp only [hres, mem_append, mem_singleton] at he
      show e.1 < (s.driver.reserve queues visibilityMs now).1.nextToken
      rcases he with he | rfl
      · have := hs.leased_lt e (hkept.subset he)
        omega
      · omega
    · intro r' hr'
      show r'.token < (s.driver.reserve queues visibilityMs now).1.nextToken
      rcases mem_append.1 hr' with hr' | hr'
      · have := hs.issued_lt r' hr'
        omega
      · rw [mem_singleton.1 hr']
        omega
    · intro r' hr'
      rcases mem_append.1 hr' with hr' | hr'
      · exact hs.issued_id r' hr'
      · rw [mem_singleton.1 hr']
        exact hs.known _ hpos
    · intro r' hr' lease' hl'
      simp only [hres, mem_append, mem_singleton, Prod.mk.injEq] at hl'
      rcases mem_append.1 hr' with hr' | hr'
      · rcases hl' with hl' | ⟨hl', -⟩
        · exact hs.owner r' hr' lease' (hkept.subset hl')
        · have := hs.issued_lt r' hr'
          omega
      · have hr'' := mem_singleton.1 hr'
        subst hr''
        rcases hl' with hl' | ⟨-, rfl⟩
        · have : r'.token < s.driver.nextToken := hs.leased_lt _ (hkept.subset hl')
          omega
        · rw [hl]
    · intro id hid
      exact hs.known id ((ho id) ▸ hid)

/-! ## One call -/

variable {r : Reservation P}

/-- A reservation that is leased, with the lease given up. -/
theorem release_spec (hs : Sound s) (hr : r ∈ s.issued) (hh : s.driver.reserved.has r.token = true) (id : String) : s.driver.occurs id =
      [r.envelope.id].count id + { s.driver with reserved := s.driver.reserved.delete r.token }.occurs id := by
  obtain ⟨lease, hl⟩ := Option.isSome_iff_exists.1 hh
  have hm := get_mem hl
  rw [← hs.owner r hr lease hm]
  exact occurs_release hs.tokens hm id

theorem release_stale (hh : ¬ s.driver.reserved.has r.token = true) :
    { s.driver with reserved := s.driver.reserved.delete r.token } = s.driver := by
  rw [has_iff_mem_keys] at hh
  rw [delete_of_not_has hh]

theorem nack_spec (hs : Sound s) (hr : r ∈ s.issued) (runAt : Option Int) : Rearranged s.driver (s.driver.nack r runAt) := by
  unfold MemoryDriver.nack
  split
  · rename_i hh
    have hrel := release_spec hs hr hh
    cases runAt with
    | none =>
      exact ⟨filter_sublist, rfl, fun id => by rw [occurs_enqueue, hrel id]⟩
    | some runAt =>
      exact ⟨filter_sublist, rfl, fun id => by rw [occurs_enqueueDelayed, hrel id]⟩
  · exact Rearranged.refl _

/-- What a call does to the places: an enqueued job gets one more, a job dead-lettered by a stale
reservation gets one more, and otherwise every job that is not acked keeps its places. -/
inductive StepEffect (s : DriverRun P) (op : DriverOp P) (s' : DriverRun P) : Prop where
  | added (new : String) (enqueues : op.enqueues = some new) (enqueued : s'.enqueued = new :: s.enqueued)
      (acked : s'.acked = s.acked) (owned : DeadLettersOwned s op)
      (occurs : ∀ id, s'.driver.occurs id = [new].count id + s.driver.occurs id)
  | doubled (i : Nat) (error : SerializedError) (failedAt : Int) (r : Reservation P)
      (call : op = .moveToDeadLetter i error failedAt) (issued : s.issued[i]? = some r)
      (stale : ¬ s.driver.reserved.has r.token = true) (enqueued : s'.enqueued = s.enqueued) (acked : s'.acked = s.acked)
      (occurs : ∀ id, s'.driver.occurs id = [r.envelope.id].count id + s.driver.occurs id)
  | kept (enqueued : s'.enqueued = s.enqueued) (acked : s.acked ⊆ s'.acked) (owned : DeadLettersOwned s op)
      (occurs : ∀ id, id ∉ s'.acked → s'.driver.occurs id = s.driver.occurs id)

theorem rearranged_spec (hs : Sound s) {op : DriverOp P} {d : MemoryDriver P} (hd : Rearranged s.driver d) (hg : DeadLettersOwned s op) :
    Sound { s with driver := d } ∧ StepEffect s op { s with driver := d } :=
  ⟨hs.moved hd.reserved hd.nextToken fun id hid => hs.known id (by rw [hd.occurs] at hid; exact hid),
    .kept rfl (fun _ h => h) hg fun id _ => hd.occurs id⟩

theorem ack_spec (hs : Sound s) {i : Nat} (hi : s.issued[i]? = some r) :
    Sound (s.step (.ack i)) ∧ StepEffect s (.ack i) (s.step (.ack i)) := by
  have hr : r ∈ s.issued := mem_of_getElem? hi
  by_cases hh : s.driver.reserved.has r.token = true
  · have he : s.step (.ack i) = { s with driver := s.driver.ack r, acked := r.envelope.id :: s.acked } := by
      simp only [DriverRun.step, DriverRun.withReservation, hi, hh, if_true]
    have hrel := release_spec hs hr hh
    rw [he]
    refine ⟨hs.moved filter_sublist rfl fun id hid => hs.known id ?_, .kept rfl (subset_cons_self _ _) trivial fun id hid => ?_⟩
    · have : 0 < { s.driver with reserved := s.driver.reserved.delete r.token }.occurs id := hid
      rw [hrel id]
      omega
    · have hne : id ≠ r.envelope.id := fun h => hid (h ▸ mem_cons_self)
      have h0 : [r.envelope.id].count id = 0 := count_eq_zero.2 (by simpa using hne)
      show { s.driver with reserved := s.driver.reserved.delete r.token }.occurs id = _
      have := hrel id
      omega
  · have he : s.step (.ack i) = { s with driver := s.driver } := by
      simp only [DriverRun.step, DriverRun.withReservation, hi, hh, MemoryDriver.ack, release_stale hh]
      rfl
    rw [he]
    exact rearranged_spec hs (Rearranged.refl _) trivial

theorem moveToDeadLetter_spec (hs : Sound s) {i : Nat} (hi : s.issued[i]? = some r) (error : SerializedError) (failedAt : Int) :
    Sound (s.step (.moveToDeadLetter i error failedAt)) ∧
      StepEffect s (.moveToDeadLetter i error failedAt) (s.step (.moveToDeadLetter i error failedAt)) := by
  have hr : r ∈ s.issued := mem_of_getElem? hi
  have he : s.step (.moveToDeadLetter i error failedAt) =
      { s with driver := s.driver.moveToDeadLetter r error failedAt } := by
    simp only [DriverRun.step, DriverRun.withReservation, hi]
  have hdl := occurs_moveToDeadLetter s.driver r error failedAt
  rw [he]
  by_cases hh : s.driver.reserved.has r.token = true
  · refine rearranged_spec hs ⟨filter_sublist, rfl, fun id => ?_⟩ fun r' hr' => ?_
    · rw [hdl id, release_spec hs hr hh id]
    · rw [hi] at hr'
      cases hr'
      exact .inl hh
  · rw [release_stale hh] at hdl
    refine ⟨hs.moved filter_sublist rfl fun id hid => ?_, .doubled i error failedAt r rfl hi hh rfl rfl hdl⟩
    rw [hdl id] at hid
    by_cases he : id = r.envelope.id
    · exact he ▸ hs.issued_id r hr
    · have h0 : [r.envelope.id].count id = 0 := count_eq_zero.2 (by simpa using he)
      exact hs.known id (by omega)

theorem step_spec (hs : Sound s) (op : DriverOp P) : Sound (s.step op) ∧ StepEffect s op (s.step op) := by
  have hnone : ∀ {i : Nat} {call : Reservation P → DriverRun P}, s.issued[i]? = none →
      s.withReservation i call = { s with driver := s.driver } := fun hi => by
    simp only [DriverRun.withReservation, hi]
  cases op with
  | enqueue queue envelope =>
    have ho := occurs_enqueue s.driver queue envelope
    exact ⟨hs.enqueued rfl rfl ho, .added envelope.id rfl rfl rfl trivial ho⟩
  | enqueueDelayed queue envelope runAt =>
    have ho := occurs_enqueueDelayed s.driver queue envelope runAt
    exact ⟨hs.enqueued rfl rfl ho, .added envelope.id rfl rfl rfl trivial ho⟩
  | reserve queues visibilityMs now =>
    refine ⟨sound_reserve hs queues visibilityMs now, .kept rfl (fun _ h => h) trivial fun id _ => ?_⟩
    rcases reserve_spec hs queues visibilityMs now with ⟨hre, -⟩ | ⟨r, lease, -, -, -, -, -, -, ho⟩
    · exact hre.occurs id
    · exact ho id
  | promoteDue now => exact rearranged_spec hs (promoteDue_rearranged s.driver now) trivial
  | ack i =>
    cases hi : s.issued[i]? with
    | some r => exact ack_spec hs hi
    | none =>
      have he : s.step (.ack i) = { s with driver := s.driver } := hnone hi
      rw [he]
      exact rearranged_spec hs (Rearranged.refl _) trivial
  | nack i runAt =>
    cases hi : s.issued[i]? with
    | some r =>
      have he : s.step (.nack i runAt) = { s with driver := s.driver.nack r runAt } := by
        simp only [DriverRun.step, DriverRun.withReservation, hi]
      rw [he]
      exact rearranged_spec hs (nack_spec hs (mem_of_getElem? hi) runAt) trivial
    | none =>
      have he : s.step (.nack i runAt) = { s with driver := s.driver } := hnone hi
      rw [he]
      exact rearranged_spec hs (Rearranged.refl _) trivial
  | moveToDeadLetter i error failedAt =>
    cases hi : s.issued[i]? with
    | some r => exact moveToDeadLetter_spec hs hi error failedAt
    | none =>
      have he : s.step (.moveToDeadLetter i error failedAt) = { s with driver := s.driver } := hnone hi
      rw [he]
      refine rearranged_spec hs (Rearranged.refl _) fun r hr => ?_
      rw [hi] at hr
      cases hr

/-- From a state where every job has one place, a call keeps it so exactly when a dead-lettered job
is leased or acked. -/
theorem conserved_step_iff (hs : Sound s) (hc : Conserved s) {op : DriverOp P}
    (hf : EnqueuesFresh s op) : Conserved (s.step op) ↔ DeadLettersOwned s op := by
  cases (step_spec hs op).2 with
  | added new hnew henq hack hg ho =>
    have hzero : s.driver.occurs new = 0 := by
      by_contra h
      exact hf new hnew (hs.known new (Nat.pos_of_ne_zero h))
    refine ⟨fun _ => hg, fun _ id hid hna => ?_⟩
    rw [ho id]
    by_cases he : id = new
    · subst he
      rw [count_singleton_self, hzero]
    · have h0 : [new].count id = 0 := count_eq_zero.2 (by simpa using he)
      rw [henq] at hid
      rw [hack] at hna
      have := hc id (mem_of_ne_of_mem he hid) hna
      omega
  | doubled i error failedAt r hop hi hh henq hack ho =>
    -- the lease is gone, so the record is a second place unless the job was acked
    subst hop
    have hid : r.envelope.id ∈ s.enqueued := hs.issued_id r (mem_of_getElem? hi)
    constructor
    · intro hc' r' hr'
      rw [hi] at hr'
      cases hr'
      refine .inr (Classical.byContradiction fun hna => ?_)
      have h1 := hc r.envelope.id hid hna
      have h2 := hc' r.envelope.id (henq ▸ hid) (hack ▸ hna)
      rw [ho, count_singleton_self] at h2
      omega
    · intro hg id hid' hna
      rw [henq] at hid'
      rw [hack] at hna
      rcases hg r hi with hh' | hack'
      · exact absurd hh' hh
      · have hne : id ≠ r.envelope.id := fun h => hna (h ▸ hack')
        have h0 : [r.envelope.id].count id = 0 := count_eq_zero.2 (by simpa using hne)
        have := hc id hid' hna
        have := ho id
        omega
  | kept henq hack hg ho =>
    refine ⟨fun _ => hg, fun _ id hid hna => ?_⟩
    rw [ho id hna]
    exact hc id (henq ▸ hid) fun h => hna (hack h)

/-! ## Runs -/

theorem step_enqueued (hs : Sound s) (op : DriverOp P) : (s.step op).enqueued = op.enqueues.toList ++ s.enqueued := by
  cases (step_spec hs op).2 with
  | added new hnew henq => rw [hnew]; exact henq
  | doubled i error failedAt r hop hi hh henq => rw [hop] at henq ⊢; exact henq
  | kept henq hack hg ho =>
    cases op with
    | enqueue queue envelope => rfl
    | enqueueDelayed queue envelope runAt => rfl
    | _ => exact henq

theorem guarded_enqueuesFresh : ∀ (ops : List (DriverOp P)) {s : DriverRun P}, Sound s →
    (ops.filterMap DriverOp.enqueues).Nodup → (∀ id ∈ ops.filterMap DriverOp.enqueues, id ∉ s.enqueued) →
      Guarded DriverRun.step EnqueuesFresh s ops
  | [], _, _, _, _ => trivial
  | op :: ops, s, hs, hn, hd => by
    have hsplit : (op :: ops).filterMap DriverOp.enqueues = op.enqueues.toList ++ ops.filterMap DriverOp.enqueues := by
      cases he : op.enqueues <;> simp [he]
    rw [hsplit] at hn hd
    obtain ⟨-, hn', hdis⟩ := nodup_append.1 hn
    refine ⟨fun id hid => hd id (mem_append_left _ (by rw [hid]; exact mem_singleton_self id)),
      guarded_enqueuesFresh ops (step_spec hs op).1 hn' fun id hid => ?_⟩
    rw [step_enqueued hs, mem_append, not_or]
    exact ⟨fun h => hdis id h id hid rfl, hd id (mem_append_right _ hid)⟩

/-- Every state of a run from `s` is conserved. -/
def ConservedAlong (s : DriverRun P) (ops : List (DriverOp P)) : Prop :=
  ∀ ops₁ ops₂, ops = ops₁ ++ ops₂ → Conserved (Lib.run DriverRun.step s ops₁)

theorem conservedAlong_iff_guarded : ∀ (ops : List (DriverOp P)) {s : DriverRun P}, Sound s → Conserved s →
    Guarded DriverRun.step EnqueuesFresh s ops → (ConservedAlong s ops ↔ Guarded DriverRun.step DeadLettersOwned s ops)
  | [], s, _, hc, _ => by
    refine ⟨fun _ => trivial, fun _ ops₁ ops₂ h => ?_⟩
    obtain ⟨rfl, rfl⟩ := append_eq_nil_iff.1 h.symm
    exact hc
  | op :: ops, s, hs, hc, hf => by
    have hs' := (step_spec hs op).1
    have hiff := conserved_step_iff hs hc hf.1
    constructor
    · intro h
      have hc' : Conserved (s.step op) := h [op] ops rfl
      refine ⟨hiff.1 hc', (conservedAlong_iff_guarded ops hs' hc' hf.2).1 fun ops₁ ops₂ he => ?_⟩
      exact h (op :: ops₁) ops₂ (by rw [he]; rfl)
    · rintro ⟨hg, hg'⟩ ops₁ ops₂ he
      have hc' := hiff.2 hg
      cases ops₁ with
      | nil => exact hc
      | cons op' ops₁ =>
        obtain ⟨rfl, rfl⟩ := List.cons.inj he
        exact (conservedAlong_iff_guarded _ hs' hc' hf.2).2 hg' ops₁ ops₂ rfl

/-- In a run that enqueues every id once, every job that was enqueued and not acked is in exactly one
place at every point if and only if no job is dead-lettered, before it was acked, by a reservation
whose lease is gone. -/
theorem conservation_iff_deadLettersOwned (ops : List (DriverOp P)) (hn : (ops.filterMap DriverOp.enqueues).Nodup) :
    ConservedAlong {} ops ↔ Guarded DriverRun.step DeadLettersOwned {} ops :=
  conservedAlong_iff_guarded ops sound_empty (fun _ hid => absurd hid not_mem_nil)
    (guarded_enqueuesFresh ops sound_empty hn fun _ _ => not_mem_nil)

/-- A job that fails for good under its own lease. -/
theorem conservation_iff_failedJob : ConservedAlong {} [.enqueue "default" ⟨"job-1", "mail", (), 0, 1, none, 0, 1⟩, .reserve ["default"] 10 0,
        .moveToDeadLetter 0 { name := "Error", message := "boom" } 5] ↔
      Guarded DriverRun.step DeadLettersOwned {} [.enqueue "default" ⟨"job-1", "mail", (), 0, 1, none, 0, 1⟩, .reserve ["default"] 10 0,
          .moveToDeadLetter 0 { name := "Error", message := "boom" } 5] :=
  conservation_iff_deadLettersOwned _ (by decide)

/-- A job whose lease has expired is reserved again; when the first worker dead-letters it, it is
leased and dead at once. -/
theorem expired_lease_counterexample :
    ¬ ConservedAlong {} [.enqueue "default" ⟨"job-1", "mail", (), 0, 1, none, 0, 1⟩, .reserve ["default"] 10 0,
        .reserve ["default"] 10 20, .moveToDeadLetter 0 { name := "Error", message := "boom" } 25] := by
  intro h
  have h1 := h _ [] (append_nil _).symm "job-1" (by decide) (by decide)
  exact absurd h1 (by decide)

end StreetJS.Queue
