/-
The in-process queue driver (`queue/src/drivers/memory.ts`): ready and delayed heaps per queue, the
leases by reservation token, and the dead-letter lists. Tokens (`randomUUID`) are a counter.
-/
import StreetJS.Queue.Job
import StreetJS.Lib.OrderedMap
import StreetJS.Lib.BinaryHeap
import Mathlib.Tactic

namespace StreetJS.Queue

open StreetJS.Lib List OrderedMap
open Prod (fst)

variable {P : Type}

/-! ## The state -/

/-- An envelope and the instant at which it is due. -/
structure DelayedEntry (P : Type) where
  envelope : JobEnvelope P
  runAt : Int

structure LeaseRecord (P : Type) where
  envelope : JobEnvelope P
  queue : String
  leaseExpiresAt : Int

structure MemoryDriver (P : Type) where
  ready : OrderedMap String (BinaryHeap (JobEnvelope P)) := []
  delayed : OrderedMap String (BinaryHeap (DelayedEntry P)) := []
  reserved : OrderedMap Nat (LeaseRecord P) := []
  dead : OrderedMap String (List (DeadLetterRecord P)) := []
  attempts : OrderedMap String Nat := []
  nextToken : Nat := 0

/-- `compareReady(a, b) < 0`: higher priority first, FIFO on ties. -/
def compareReady (a b : JobEnvelope P) : Bool :=
  if a.priority ≠ b.priority then b.priority < a.priority else a.seq < b.seq

/-- `compareDelayed(a, b) < 0`: earliest first, ties by `seq`. -/
def compareDelayed (a b : DelayedEntry P) : Bool :=
  if a.runAt ≠ b.runAt then a.runAt < b.runAt else a.envelope.seq < b.envelope.seq

def MemoryDriver.readyHeap (d : MemoryDriver P) (queue : String) : BinaryHeap (JobEnvelope P) :=
  (d.ready.get queue).getD {}

def MemoryDriver.delayedHeap (d : MemoryDriver P) (queue : String) : BinaryHeap (DelayedEntry P) :=
  (d.delayed.get queue).getD {}

def MemoryDriver.deadList (d : MemoryDriver P) (queue : String) : List (DeadLetterRecord P) :=
  (d.dead.get queue).getD []

/-- `envelope.attempts` of a job. -/
def MemoryDriver.attemptsOf (d : MemoryDriver P) (id : String) : Nat := (d.attempts.get id).getD 0

/-! ## The operations -/

def MemoryDriver.enqueue (d : MemoryDriver P) (queue : String) (envelope : JobEnvelope P) : MemoryDriver P :=
  { d with ready := d.ready.set queue ((d.readyHeap queue).push compareReady envelope) }

def MemoryDriver.enqueueDelayed (d : MemoryDriver P) (queue : String) (envelope : JobEnvelope P) (runAt : Int) : MemoryDriver P :=
  { d with delayed := d.delayed.set queue ((d.delayedHeap queue).push compareDelayed { envelope, runAt }) }

/-- A lease is given up and its envelope put back into its ready heap. -/
def MemoryDriver.reclaim (d : MemoryDriver P) (token : Nat) (lease : LeaseRecord P) : MemoryDriver P :=
  { d with reserved := d.reserved.delete token }.enqueue lease.queue lease.envelope

/-- The leases whose expiry has passed go back to their ready heaps, in order of reservation. -/
def MemoryDriver.reclaimExpiredLeases (d : MemoryDriver P) (now : Int) : MemoryDriver P :=
  (d.reserved.filter fun e => e.2.leaseExpiresAt ≤ now).foldl (fun d e => d.reclaim e.1 e.2) d

/-- The next job of the first queue that has one. -/
def MemoryDriver.take (d : MemoryDriver P) : List String → Option (String × JobEnvelope P × MemoryDriver P)
  | [] => none
  | queue :: queues =>
    match (d.readyHeap queue).pop compareReady with
    | some (envelope, heap) => some (queue, envelope, { d with ready := d.ready.set queue heap })
    | none => d.take queues

def MemoryDriver.lease (d : MemoryDriver P) (queue : String) (envelope : JobEnvelope P) (leaseExpiresAt : Int) :
    MemoryDriver P × Reservation P :=
  ({ d with
      attempts := d.attempts.set envelope.id (d.attemptsOf envelope.id + 1)
      reserved := d.reserved.set d.nextToken { envelope, queue, leaseExpiresAt }
      nextToken := d.nextToken + 1 },
    { envelope, token := d.nextToken, queue, leaseExpiresAt })

def MemoryDriver.reserve (d : MemoryDriver P) (queues : List String) (visibilityMs now : Int) : MemoryDriver P × Option (Reservation P) :=
  let d := d.reclaimExpiredLeases now
  match d.take queues with
  | some (queue, envelope, d) =>
    let (d, reservation) := d.lease queue envelope (now + visibilityMs)
    (d, some reservation)
  | none => (d, none)

def MemoryDriver.ack (d : MemoryDriver P) (reservation : Reservation P) : MemoryDriver P :=
  { d with reserved := d.reserved.delete reservation.token }

def MemoryDriver.nack (d : MemoryDriver P) (reservation : Reservation P) (runAt : Option Int) : MemoryDriver P :=
  -- a lease that was already reclaimed or acked does not resurrect the job
  if d.reserved.has reservation.token then
    let d := { d with reserved := d.reserved.delete reservation.token }
    match runAt with
    | some runAt => d.enqueueDelayed reservation.queue reservation.envelope runAt
    | none => d.enqueue reservation.queue reservation.envelope
  else d

/-- The due entries of one queue's delayed heap move to its ready heap. -/
def MemoryDriver.promoteQueue (now : Int) (acc : MemoryDriver P × Nat) (queue : String) : MemoryDriver P × Nat :=
  let heap := acc.1.delayedHeap queue
  let (due, heap) := heap.drainWhile compareDelayed (fun top => top.runAt ≤ now) heap.items.length
  (due.foldl (fun d entry => d.enqueue queue entry.envelope) { acc.1 with delayed := acc.1.delayed.set queue heap }, acc.2 + due.length)

def MemoryDriver.promoteDue (d : MemoryDriver P) (now : Int) : MemoryDriver P × Nat :=
  (d.delayed.map fst).foldl (MemoryDriver.promoteQueue now) (d, 0)

/-- The record is written whether or not the reservation is still leased. -/
def MemoryDriver.moveToDeadLetter (d : MemoryDriver P) (reservation : Reservation P) (error : SerializedError)
    (failedAt : Int) : MemoryDriver P :=
  let envelope := reservation.envelope
  let record : DeadLetterRecord P :=
    { id := envelope.id, type := envelope.type, queue := reservation.queue, payload := envelope.payload
      attempts := d.attemptsOf envelope.id, maxAttempts := envelope.maxAttempts, backoff := envelope.backoff
      error, enqueuedAt := envelope.enqueuedAt, failedAt }
  { d with
    reserved := d.reserved.delete reservation.token
    dead := d.dead.set reservation.queue (d.deadList reservation.queue ++ [record]) }

/-- The record of a job is taken out of the first dead-letter list that has it. -/
def takeDeadLetter (jobId : String) : OrderedMap String (List (DeadLetterRecord P)) →
      OrderedMap String (List (DeadLetterRecord P)) × Option (DeadLetterRecord P)
  | [] => ([], none)
  | (queue, list) :: dead =>
    match list.findIdx? (fun record => record.id = jobId) with
    | some index => ((queue, list.eraseIdx index) :: dead, list[index]?)
    | none => ((queue, list) :: (takeDeadLetter jobId dead).1, (takeDeadLetter jobId dead).2)

def MemoryDriver.removeDeadLetter (d : MemoryDriver P) (jobId : String) : MemoryDriver P × Option (DeadLetterRecord P) :=
  let (dead, removed) := takeDeadLetter jobId d.dead
  ({ d with dead }, removed)

/-- The dead letters of one queue, or of all, are dropped. -/
def MemoryDriver.flushDeadLetters (d : MemoryDriver P) : Option String → MemoryDriver P × Nat
  | some queue =>
    ({ d with dead := d.dead.map fun e => if e.1 = queue then (e.1, []) else e }, (d.deadList queue).length)
  | none => ({ d with dead := d.dead.map fun e => (e.1, []) }, (d.dead.map fun e => e.2.length).sum)

/-- The ready and delayed jobs of one queue, or of all, are dropped; leases and dead letters stay. -/
def MemoryDriver.purge (d : MemoryDriver P) : Option String → MemoryDriver P × Nat
  | some queue =>
    ({ d with ready := d.ready.delete queue, delayed := d.delayed.delete queue },
      (d.readyHeap queue).items.length + (d.delayedHeap queue).items.length)
  | none =>
    ({ d with ready := [], delayed := [] }, (d.ready.map fun e => e.2.items.length).sum + (d.delayed.map fun e => e.2.items.length).sum)

/-! ## The places of a job -/

def readyIds (heap : BinaryHeap (JobEnvelope P)) : List String := heap.items.map (·.id)

def delayedIds (heap : BinaryHeap (DelayedEntry P)) : List String := heap.items.map (·.envelope.id)

/-- The ids in the ready heaps, the delayed heaps, the leases and the dead-letter lists. -/
def MemoryDriver.places (d : MemoryDriver P) : List String :=
  d.ready.flatMap (fun e => readyIds e.2) ++ (d.delayed.flatMap (fun e => delayedIds e.2) ++
    (d.reserved.map (fun e => e.2.envelope.id) ++ d.dead.flatMap (fun e => e.2.map (·.id))))

/-- How often an id occurs in the places. -/
abbrev MemoryDriver.occurs (d : MemoryDriver P) (id : String) : Nat := d.places.count id

section

variable (d : MemoryDriver P)
include d

theorem occurs_eq (id : String) :
    d.occurs id = (d.ready.flatMap fun e => readyIds e.2).count id + (d.delayed.flatMap fun e => delayedIds e.2).count id +
      (d.reserved.map fun e => e.2.envelope.id).count id + (d.dead.flatMap fun e => e.2.map (·.id)).count id := by
  unfold MemoryDriver.occurs MemoryDriver.places
  simp only [count_append]
  omega

theorem readyHeap_ids (queue : String) : (((d.ready.get queue).map readyIds).getD []) = readyIds (d.readyHeap queue) := by
  unfold MemoryDriver.readyHeap
  cases d.ready.get queue <;> rfl

theorem delayedHeap_ids (queue : String) : (((d.delayed.get queue).map delayedIds).getD []) = delayedIds (d.delayedHeap queue) := by
  unfold MemoryDriver.delayedHeap
  cases d.delayed.get queue <;> rfl

theorem deadList_ids (queue : String) : (((d.dead.get queue).map (List.map (·.id))).getD []) = (d.deadList queue).map (·.id) := by
  unfold MemoryDriver.deadList
  cases d.dead.get queue <;> rfl

theorem occurs_enqueue (queue : String) (envelope : JobEnvelope P) (id : String) :
    (d.enqueue queue envelope).occurs id = [envelope.id].count id + d.occurs id := by
  have h := count_flatMap_set readyIds d.ready queue ((d.readyHeap queue).push compareReady envelope) id
  rw [readyHeap_ids] at h
  have hp : (readyIds ((d.readyHeap queue).push compareReady envelope)).count id =
      [envelope.id].count id + (readyIds (d.readyHeap queue)).count id := by
    rw [← count_append]
    exact ((BinaryHeap.push_perm compareReady _ _).map _).count_eq id
  rw [occurs_eq, occurs_eq]
  simp only [MemoryDriver.enqueue]
  omega

theorem occurs_enqueueDelayed (queue : String) (envelope : JobEnvelope P) (runAt : Int)
    (id : String) : (d.enqueueDelayed queue envelope runAt).occurs id = [envelope.id].count id + d.occurs id := by
  have h := count_flatMap_set delayedIds d.delayed queue ((d.delayedHeap queue).push compareDelayed ⟨envelope, runAt⟩) id
  rw [delayedHeap_ids] at h
  have hp : (delayedIds ((d.delayedHeap queue).push compareDelayed ⟨envelope, runAt⟩)).count id =
      [envelope.id].count id + (delayedIds (d.delayedHeap queue)).count id := by
    rw [← count_append]
    exact ((BinaryHeap.push_perm compareDelayed _ _).map _).count_eq id
  rw [occurs_eq, occurs_eq]
  simp only [MemoryDriver.enqueueDelayed]
  omega

end

theorem occurs_release {d : MemoryDriver P} (hn : (d.reserved.map fst).Nodup) {token : Nat} {lease : LeaseRecord P}
    (h : (token, lease) ∈ d.reserved) (id : String) :
    d.occurs id = [lease.envelope.id].count id + { d with reserved := d.reserved.delete token }.occurs id := by
  have hp := ((perm_cons_delete hn h).map fun e => e.2.envelope.id).count_eq id
  have hc : ((token, lease) :: d.reserved.delete token).map (fun e => e.2.envelope.id) =
      [lease.envelope.id] ++ (d.reserved.delete token).map fun e => e.2.envelope.id := rfl
  rw [hc, count_append] at hp
  rw [occurs_eq, occurs_eq]
  simp only
  omega

theorem occurs_moveToDeadLetter (d : MemoryDriver P) (r : Reservation P) (error : SerializedError) (failedAt : Int)
    (id : String) : (d.moveToDeadLetter r error failedAt).occurs id =
      [r.envelope.id].count id + { d with reserved := d.reserved.delete r.token }.occurs id := by
  rw [occurs_eq, occurs_eq]
  simp only [MemoryDriver.moveToDeadLetter]
  generalize hrec : DeadLetterRecord.mk r.envelope.id r.envelope.type r.queue r.envelope.payload
    (d.attemptsOf r.envelope.id) r.envelope.maxAttempts r.envelope.backoff error r.envelope.enqueuedAt failedAt = record
  have hid : record.id = r.envelope.id := by rw [← hrec]
  have h := count_flatMap_set (List.map (·.id)) d.dead r.queue (d.deadList r.queue ++ [record]) id
  rw [deadList_ids, map_append, count_append, map_singleton, hid] at h
  omega

/-! ## The operations keep the other places -/

/-- `d'` holds the leases of `d` except some that went back to a queue, and every job is where it
was or in another place. -/
structure Rearranged (d d' : MemoryDriver P) : Prop where
  reserved : d'.reserved.Sublist d.reserved
  nextToken : d'.nextToken = d.nextToken
  occurs : ∀ id, d'.occurs id = d.occurs id

theorem Rearranged.refl (d : MemoryDriver P) : Rearranged d d := ⟨List.Sublist.refl _, rfl, fun _ => rfl⟩

theorem Rearranged.trans {a b c : MemoryDriver P} (h : Rearranged a b) (h' : Rearranged b c) : Rearranged a c :=
  ⟨h'.reserved.trans h.reserved, h'.nextToken.trans h.nextToken, fun id => (h'.occurs id).trans (h.occurs id)⟩

theorem reclaim_rearranged {d : MemoryDriver P} (hn : (d.reserved.map fst).Nodup) {token : Nat}
    {lease : LeaseRecord P} (h : (token, lease) ∈ d.reserved) : Rearranged d (d.reclaim token lease) := by
  refine ⟨filter_sublist, rfl, fun id => ?_⟩
  unfold MemoryDriver.reclaim
  rw [occurs_enqueue, occurs_release hn h]

theorem foldl_reclaim_rearranged : ∀ (leases : List (Nat × LeaseRecord P)) (d : MemoryDriver P),
    (d.reserved.map fst).Nodup → (leases.map fst).Nodup → (∀ e ∈ leases, e ∈ d.reserved) →
      Rearranged d (leases.foldl (fun d e => d.reclaim e.1 e.2) d)
  | [], d, _, _, _ => Rearranged.refl d
  | e :: leases, d, hn, hl, hm => by
    have h1 : Rearranged d (d.reclaim e.1 e.2) := reclaim_rearranged hn (hm e mem_cons_self)
    simp only [map_cons, nodup_cons] at hl
    refine h1.trans (foldl_reclaim_rearranged leases _ (keys_delete_nodup hn _) hl.2 fun e' he' => ?_)
    refine mem_delete.2 ⟨hm e' (mem_cons_of_mem _ he'), fun hk => hl.1 ?_⟩
    exact hk ▸ mem_map_of_mem he'

theorem reclaimExpiredLeases_rearranged {d : MemoryDriver P} (hn : (d.reserved.map fst).Nodup) (now : Int) :
    Rearranged d (d.reclaimExpiredLeases now) :=
  foldl_reclaim_rearranged _ d hn (hn.sublist (filter_sublist.map _)) fun _ he => mem_of_mem_filter he

theorem take_spec {d d' : MemoryDriver P} {queue : String} {envelope : JobEnvelope P} :
    ∀ {queues : List String}, d.take queues = some (queue, envelope, d') →
      d'.reserved = d.reserved ∧ d'.nextToken = d.nextToken ∧ d'.attempts = d.attempts ∧
        ∀ id, d.occurs id = [envelope.id].count id + d'.occurs id
  | [], h => by cases h
  | q :: queues, h => by
    unfold MemoryDriver.take at h
    split at h
    · rename_i e heap hp
      cases h
      refine ⟨rfl, rfl, rfl, fun id => ?_⟩
      have hc := count_flatMap_set readyIds d.ready queue heap id
      rw [readyHeap_ids] at hc
      have hperm : (readyIds (d.readyHeap queue)).count id = [envelope.id].count id + (readyIds heap).count id := by
        rw [← count_append]
        exact ((BinaryHeap.pop_perm compareReady hp).map _).count_eq id
      rw [occurs_eq, occurs_eq]
      simp only
      omega
    · exact take_spec h

theorem occurs_lease (d : MemoryDriver P) (hlt : ∀ e ∈ d.reserved, e.1 < d.nextToken) (queue : String)
    (envelope : JobEnvelope P) (leaseExpiresAt : Int) (id : String) :
    (d.lease queue envelope leaseExpiresAt).1.occurs id = [envelope.id].count id + d.occurs id := by
  have hk : d.nextToken ∉ d.reserved.map fst := fun h => by
    obtain ⟨e, he, hk⟩ := mem_map.1 h
    have := hlt e he
    omega
  rw [occurs_eq, occurs_eq]
  simp only [MemoryDriver.lease, set_of_not_has hk, map_append, count_append, map_singleton]
  omega

theorem foldl_enqueue_spec (queue : String) : ∀ (entries : List (DelayedEntry P)) (d : MemoryDriver P),
    let d' := entries.foldl (fun d entry => d.enqueue queue entry.envelope) d
    d'.reserved = d.reserved ∧ d'.nextToken = d.nextToken ∧ ∀ id, d'.occurs id = (entries.map (·.envelope.id)).count id + d.occurs id
  | [], _ => ⟨rfl, rfl, fun _ => by simp⟩
  | entry :: entries, d => by
    obtain ⟨h1, h2, h3⟩ := foldl_enqueue_spec queue entries (d.enqueue queue entry.envelope)
    refine ⟨h1, h2, fun id => ?_⟩
    show (entries.foldl _ (d.enqueue queue entry.envelope)).occurs id = _
    have hc : (entry :: entries).map (·.envelope.id) = [entry.envelope.id] ++ entries.map (·.envelope.id) := rfl
    rw [h3 id, occurs_enqueue, hc, count_append]
    omega

theorem promoteQueue_rearranged (now : Int) (acc : MemoryDriver P × Nat) (queue : String) :
    Rearranged acc.1 (MemoryDriver.promoteQueue now acc queue).1 := by
  unfold MemoryDriver.promoteQueue
  simp only
  generalize hd : (acc.1.delayedHeap queue).drainWhile compareDelayed (fun top => decide (top.runAt ≤ now))
    (acc.1.delayedHeap queue).items.length = drained
  have hperm : (delayedIds (acc.1.delayedHeap queue)).Perm (drained.1.map (·.envelope.id) ++ delayedIds drained.2) := by
    have := (BinaryHeap.drainWhile_perm compareDelayed (fun top => decide (top.runAt ≤ now))
      (acc.1.delayedHeap queue).items.length (acc.1.delayedHeap queue)).map (·.envelope.id)
    rw [hd, map_append] at this
    exact this
  obtain ⟨h1, h2, h3⟩ := foldl_enqueue_spec queue drained.1 { acc.1 with delayed := acc.1.delayed.set queue drained.2 }
  refine ⟨by rw [h1], h2, fun id => ?_⟩
  have hc := count_flatMap_set delayedIds acc.1.delayed queue drained.2 id
  have hp := hperm.count_eq id
  rw [delayedHeap_ids] at hc
  rw [count_append] at hp
  rw [h3 id, occurs_eq, occurs_eq]
  simp only
  omega

theorem promoteDue_rearranged (d : MemoryDriver P) (now : Int) : Rearranged d (d.promoteDue now).1 := by
  suffices h : ∀ (queues : List String) (acc : MemoryDriver P × Nat),
      Rearranged acc.1 (queues.foldl (MemoryDriver.promoteQueue now) acc).1 from h _ (d, 0)
  intro queues
  induction queues with
  | nil => exact fun acc => Rearranged.refl acc.1
  | cons queue queues ih =>
    exact fun acc => (promoteQueue_rearranged now acc queue).trans (ih (MemoryDriver.promoteQueue now acc queue))

end StreetJS.Queue
