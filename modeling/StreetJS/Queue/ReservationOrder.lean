/-
The order in which the in-process driver hands out jobs (`reserve` of `queue/src/drivers/memory.ts`), after
any operations: the heaps stay in heap order, so the top of the first queue with a ready job is the
job with the greatest priority and among those the least `seq`.
-/
import StreetJS.Queue.MemoryDriver
import StreetJS.Lib.Runs

namespace StreetJS.Queue

open StreetJS.Lib List OrderedMap

variable {P : Type}

/-! ## The operations -/

/-- The calls that change a driver, with any reservation. -/
inductive MemoryOp (P : Type) where
  | enqueue (queue : String) (envelope : JobEnvelope P)
  | enqueueDelayed (queue : String) (envelope : JobEnvelope P) (runAt : Int)
  | reserve (queues : List String) (visibilityMs now : Int)
  | ack (reservation : Reservation P)
  | nack (reservation : Reservation P) (runAt : Option Int)
  | promoteDue (now : Int)
  | moveToDeadLetter (reservation : Reservation P) (error : SerializedError) (failedAt : Int)
  | removeDeadLetter (jobId : String)
  | flushDeadLetters (queue : Option String)
  | purge (queue : Option String)

def MemoryDriver.apply (d : MemoryDriver P) : MemoryOp P → MemoryDriver P
  | .enqueue queue envelope => d.enqueue queue envelope
  | .enqueueDelayed queue envelope runAt => d.enqueueDelayed queue envelope runAt
  | .reserve queues visibilityMs now => (d.reserve queues visibilityMs now).1
  | .ack reservation => d.ack reservation
  | .nack reservation runAt => d.nack reservation runAt
  | .promoteDue now => (d.promoteDue now).1
  | .moveToDeadLetter reservation error failedAt => d.moveToDeadLetter reservation error failedAt
  | .removeDeadLetter jobId => (d.removeDeadLetter jobId).1
  | .flushDeadLetters queue => (d.flushDeadLetters queue).1
  | .purge queue => (d.purge queue).1

/-! ## The order -/

/-- The ready jobs of a queue, with those whose leases have expired. -/
def MemoryDriver.readyAt (d : MemoryDriver P) (now : Int) (queue : String) : List (JobEnvelope P) :=
  (d.readyHeap queue).items ++ (d.reserved.filter fun e => e.2.leaseExpiresAt ≤ now ∧ e.2.queue = queue).map (·.2.envelope)

/-- A greater priority, or the same and no greater `seq`. -/
def JobEnvelope.NotAfter (a b : JobEnvelope P) : Prop := b.priority < a.priority ∨ b.priority = a.priority ∧ a.seq ≤ b.seq

/-- What is reserved comes from the first queue with a ready job, goes before all that is ready there, and is
all that is taken. -/
structure ReservesInOrder (d : MemoryDriver P) (queues : List String) (visibilityMs now : Int) : Prop where
  none : (d.reserve queues visibilityMs now).2 = none → ∀ queue ∈ queues, d.readyAt now queue = []
  queue : ∀ r, (d.reserve queues visibilityMs now).2 = some r →
    ∃ earlier later, queues = earlier ++ r.queue :: later ∧ ∀ queue ∈ earlier, d.readyAt now queue = []
  first : ∀ r, (d.reserve queues visibilityMs now).2 = some r →
    r.envelope ∈ d.readyAt now r.queue ∧ ∀ other ∈ d.readyAt now r.queue, r.envelope.NotAfter other
  taken : ∀ r, (d.reserve queues visibilityMs now).2 = some r →
    (d.readyAt now r.queue).Perm (r.envelope :: ((d.reserve queues visibilityMs now).1.readyHeap r.queue).items)
  kept : ∀ queue, (∀ r, (d.reserve queues visibilityMs now).2 = some r → r.queue ≠ queue) →
    (d.readyAt now queue).Perm ((d.reserve queues visibilityMs now).1.readyHeap queue).items

/-- The operations of a heap keep the heap order and the items. -/
structure KeepsHeaps {T : Type} (before : T → T → Bool) : Prop where
  push : ∀ (h : BinaryHeap T) (item : T), BinaryHeap.Ordered before h.items →
    BinaryHeap.Ordered before (h.push before item).items ∧ (h.push before item).items.Perm (item :: h.items)
  pop : ∀ (h h' : BinaryHeap T) (item : T), BinaryHeap.Ordered before h.items → h.pop before = some (item, h') →
    BinaryHeap.Ordered before h'.items ∧ h.items.Perm (item :: h'.items)
  drainWhile : ∀ (h : BinaryHeap T) (p : T → Bool), BinaryHeap.Ordered before h.items →
    BinaryHeap.Ordered before (h.drainWhile before p h.items.length).2.items ∧
      h.items.Perm ((h.drainWhile before p h.items.length).1 ++ (h.drainWhile before p h.items.length).2.items)

theorem keepsHeaps_of_comparison {T : Type} {before : T → T → Bool} (hc : BinaryHeap.Comparison before) : KeepsHeaps before where
  push h item ho := ⟨BinaryHeap.push_ordered hc ho item, BinaryHeap.push_perm before h item⟩
  pop _ _ _ ho hp := ⟨BinaryHeap.pop_ordered hc ho hp, BinaryHeap.pop_perm before hp⟩
  drainWhile h p ho :=
    ⟨BinaryHeap.drainWhile_ordered hc p h.items.length ho, BinaryHeap.drainWhile_perm before p h.items.length h⟩

theorem comparison_compareReady : BinaryHeap.Comparison (compareReady (P := P)) := by
  constructor
  case asymm =>
    intro a b h
    unfold compareReady at h ⊢
    split at h <;> split <;> simp only [decide_eq_true_eq, decide_eq_false_iff_not] at h ⊢ <;> omega
  case trans =>
    intro a b c hab hbc
    unfold compareReady at hab hbc ⊢
    split at hab <;> split at hbc <;> split <;> simp only [decide_eq_false_iff_not] at hab hbc ⊢ <;> omega

theorem comparison_compareDelayed : BinaryHeap.Comparison (compareDelayed (P := P)) := by
  constructor
  case asymm =>
    intro a b h
    unfold compareDelayed at h ⊢
    split at h <;> split <;> simp only [decide_eq_true_eq, decide_eq_false_iff_not] at h ⊢ <;> omega
  case trans =>
    intro a b c hab hbc
    unfold compareDelayed at hab hbc ⊢
    split at hab <;> split at hbc <;> split <;> simp only [decide_eq_false_iff_not] at hab hbc ⊢ <;> omega

theorem notAfter_of_compareReady {a b : JobEnvelope P} (h : compareReady b a = false) : a.NotAfter b := by
  unfold compareReady at h
  unfold JobEnvelope.NotAfter
  split at h <;> simp only [decide_eq_false_iff_not] at h <;> omega

/-! ## The heaps of a driver -/

/-- Every heap of the driver is in heap order. -/
structure Heaped (d : MemoryDriver P) : Prop where
  ready : ∀ queue, BinaryHeap.Ordered compareReady (d.readyHeap queue).items
  delayed : ∀ queue, BinaryHeap.Ordered compareDelayed (d.delayedHeap queue).items

theorem ordered_nil {T : Type} (before : T → T → Bool) : BinaryHeap.Ordered before [] := fun _ _ => rfl

theorem heaped_empty : Heaped ({} : MemoryDriver P) where
  ready _ := ordered_nil compareReady
  delayed _ := ordered_nil compareDelayed

variable {d : MemoryDriver P}

theorem readyHeap_set (queue queue' : String) (heap : BinaryHeap (JobEnvelope P)) :
    { d with ready := d.ready.set queue heap }.readyHeap queue' = if queue' = queue then heap else d.readyHeap queue' := by
  unfold MemoryDriver.readyHeap
  rw [get_set]
  split <;> rfl

theorem delayedHeap_set (queue queue' : String) (heap : BinaryHeap (DelayedEntry P)) :
    { d with delayed := d.delayed.set queue heap }.delayedHeap queue' = if queue' = queue then heap else d.delayedHeap queue' := by
  unfold MemoryDriver.delayedHeap
  rw [get_set]
  split <;> rfl

theorem readyHeap_enqueue (queue queue' : String) (envelope : JobEnvelope P) : (d.enqueue queue envelope).readyHeap queue' =
      if queue' = queue then (d.readyHeap queue).push compareReady envelope else d.readyHeap queue' :=
  readyHeap_set queue queue' _

section

variable (h : Heaped d) (queue : String)
include h queue

theorem Heaped.setReady {heap : BinaryHeap (JobEnvelope P)}
    (ho : BinaryHeap.Ordered compareReady heap.items) : Heaped { d with ready := d.ready.set queue heap } where
  ready queue' := by
    rw [readyHeap_set]
    split
    · exact ho
    · exact h.ready queue'
  delayed := h.delayed

theorem Heaped.setDelayed {heap : BinaryHeap (DelayedEntry P)}
    (ho : BinaryHeap.Ordered compareDelayed heap.items) : Heaped { d with delayed := d.delayed.set queue heap } where
  ready := h.ready
  delayed queue' := by
    rw [delayedHeap_set]
    split
    · exact ho
    · exact h.delayed queue'

theorem Heaped.enqueue (envelope : JobEnvelope P) : Heaped (d.enqueue queue envelope) :=
  h.setReady queue (BinaryHeap.push_ordered comparison_compareReady (h.ready queue) envelope)

theorem Heaped.enqueueDelayed (envelope : JobEnvelope P) (runAt : Int) : Heaped (d.enqueueDelayed queue envelope runAt) :=
  h.setDelayed queue (BinaryHeap.push_ordered comparison_compareDelayed (h.delayed queue) ⟨envelope, runAt⟩)

end

theorem Heaped.congr (h : Heaped d) {d' : MemoryDriver P} (hr : d'.ready = d.ready) (hd : d'.delayed = d.delayed) : Heaped d' where
  ready queue := by
    unfold MemoryDriver.readyHeap
    rw [hr]
    exact h.ready queue
  delayed queue := by
    unfold MemoryDriver.delayedHeap
    rw [hd]
    exact h.delayed queue

theorem Heaped.reclaim (h : Heaped d) (token : Nat) (lease : LeaseRecord P) : Heaped (d.reclaim token lease) := by
  have h' : Heaped { d with reserved := d.reserved.delete token } := h.congr rfl rfl
  exact h'.enqueue lease.queue lease.envelope

theorem Heaped.foldl_reclaim : ∀ (leases : List (Nat × LeaseRecord P)) {d : MemoryDriver P}, Heaped d →
    Heaped (leases.foldl (fun d e => d.reclaim e.1 e.2) d)
  | [], _, h => h
  | e :: leases, _, h => Heaped.foldl_reclaim leases (h.reclaim e.1 e.2)

theorem Heaped.reclaimExpiredLeases (h : Heaped d) (now : Int) : Heaped (d.reclaimExpiredLeases now) :=
  Heaped.foldl_reclaim _ h

theorem foldl_reclaim_perm (queue : String) : ∀ (leases : List (Nat × LeaseRecord P)) (d : MemoryDriver P),
    ((leases.foldl (fun d e => d.reclaim e.1 e.2) d).readyHeap queue).items.Perm
      ((d.readyHeap queue).items ++ (leases.filter fun e => e.2.queue = queue).map (·.2.envelope))
  | [], d => by simp
  | e :: leases, d => by
    refine (foldl_reclaim_perm queue leases (d.reclaim e.1 e.2)).trans ?_
    have hheap : (d.reclaim e.1 e.2).readyHeap queue =
        if queue = e.2.queue then (d.readyHeap e.2.queue).push compareReady e.2.envelope else d.readyHeap queue :=
      readyHeap_enqueue (d := { d with reserved := d.reserved.delete e.1 }) e.2.queue queue e.2.envelope
    rw [hheap, filter_cons]
    by_cases hq : queue = e.2.queue
    · subst hq
      simp only [if_true, decide_true, map_cons]
      exact ((BinaryHeap.push_perm compareReady _ _).append_right _).trans perm_middle.symm
    · rw [if_neg hq, if_neg (by simpa using Ne.symm hq)]

theorem readyAt_perm (d : MemoryDriver P) (now : Int) (queue : String) :
    ((d.reclaimExpiredLeases now).readyHeap queue).items.Perm (d.readyAt now queue) := by
  refine (foldl_reclaim_perm queue _ d).trans (List.Perm.of_eq ?_)
  rw [filter_filter]
  congr 2
  refine filter_congr fun e _ => ?_
  rw [Bool.decide_and, Bool.and_comm]

/-! ## Reserving -/

theorem take_some {d d' : MemoryDriver P} {queue : String} {envelope : JobEnvelope P} :
    ∀ {queues : List String}, d.take queues = some (queue, envelope, d') →
      ∃ earlier later heap, queues = earlier ++ queue :: later ∧ (∀ q ∈ earlier, (d.readyHeap q).items = []) ∧
        (d.readyHeap queue).pop compareReady = some (envelope, heap) ∧ d' = { d with ready := d.ready.set queue heap }
  | [], h => by cases h
  | q :: queues, h => by
    unfold MemoryDriver.take at h
    split at h
    · rename_i e heap hp
      cases h
      exact ⟨[], queues, heap, rfl, fun q hq => absurd hq not_mem_nil, hp, rfl⟩
    · rename_i hp
      obtain ⟨earlier, later, heap, rfl, hempty, hpop, hd⟩ := take_some h
      refine ⟨q :: earlier, later, heap, rfl, fun q' hq' => ?_, hpop, hd⟩
      rcases mem_cons.1 hq' with rfl | hq'
      · exact (BinaryHeap.pop_none compareReady).1 hp
      · exact hempty q' hq'

theorem take_none {d : MemoryDriver P} : ∀ {queues : List String}, d.take queues = none → ∀ queue ∈ queues, (d.readyHeap queue).items = []
  | [], _, _, h => absurd h not_mem_nil
  | q :: queues, h, queue, hq => by
    unfold MemoryDriver.take at h
    split at h
    · cases h
    · rename_i hp
      rcases mem_cons.1 hq with rfl | hq
      · exact (BinaryHeap.pop_none compareReady).1 hp
      · exact take_none h queue hq

/-- What `reserve` does: nothing is ready in any of the queues, or the top of the first heap that is not empty
is leased. -/
theorem reserve_cases (d : MemoryDriver P) (queues : List String) (visibilityMs now : Int) :
    ((d.reserve queues visibilityMs now) = (d.reclaimExpiredLeases now, none) ∧
        ∀ queue ∈ queues, ((d.reclaimExpiredLeases now).readyHeap queue).items = []) ∨
      ∃ earlier later queue envelope heap r, queues = earlier ++ queue :: later ∧
        (∀ q ∈ earlier, ((d.reclaimExpiredLeases now).readyHeap q).items = []) ∧
        ((d.reclaimExpiredLeases now).readyHeap queue).pop compareReady = some (envelope, heap) ∧
        (d.reserve queues visibilityMs now).2 = some r ∧ r.queue = queue ∧ r.envelope = envelope ∧
        (d.reserve queues visibilityMs now).1.ready = (d.reclaimExpiredLeases now).ready.set queue heap ∧
        (d.reserve queues visibilityMs now).1.delayed = (d.reclaimExpiredLeases now).delayed := by
  unfold MemoryDriver.reserve
  simp only
  split
  · rename_i queue envelope d' ht
    obtain ⟨earlier, later, heap, hq, hempty, hpop, rfl⟩ := take_some ht
    exact .inr ⟨earlier, later, queue, envelope, heap, _, hq, hempty, hpop, rfl, rfl, rfl, rfl, rfl⟩
  · rename_i ht
    exact .inl ⟨rfl, take_none ht⟩

theorem Heaped.reserve (h : Heaped d) (queues : List String) (visibilityMs now : Int) : Heaped (d.reserve queues visibilityMs now).1 := by
  have hre := h.reclaimExpiredLeases now
  rcases reserve_cases d queues visibilityMs now with ⟨heq, -⟩ |
    ⟨-, -, queue, envelope, heap, -, -, -, hpop, -, -, -, hready, hdelayed⟩
  · rw [heq]
    exact hre
  · exact (hre.setReady queue (BinaryHeap.pop_ordered comparison_compareReady (hre.ready queue) hpop)).congr hready hdelayed

/-- **A reservation follows the order**, in a driver whose heaps are in heap order. -/
theorem Heaped.reservesInOrder (h : Heaped d) (queues : List String) (visibilityMs now : Int) :
    ReservesInOrder d queues visibilityMs now := by
  have hperm := readyAt_perm d now
  have hempty : ∀ queue, ((d.reclaimExpiredLeases now).readyHeap queue).items = [] → d.readyAt now queue = [] :=
    fun queue he => perm_nil.1 ((hperm queue).symm.trans (List.Perm.of_eq he))
  rcases reserve_cases d queues visibilityMs now with ⟨heq, hnone⟩ |
    ⟨earlier, later, queue, envelope, heap, r, hqueues, hearlier, hpop, hr, rfl, rfl, hready, -⟩
  · constructor
    case none => exact fun _ queue hq => hempty queue (hnone queue hq)
    case kept =>
      intro queue _
      rw [heq]
      exact (hperm queue).symm
    all_goals
      intro r hr
      rw [heq] at hr
      cases hr
  · have hheap : ∀ queue, (d.reserve queues visibilityMs now).1.readyHeap queue =
        if queue = r.queue then heap else (d.reclaimExpiredLeases now).readyHeap queue := fun queue => by
      rw [← readyHeap_set]
      unfold MemoryDriver.readyHeap
      rw [hready]
    have hitems := BinaryHeap.pop_perm compareReady hpop
    have hmem : r.envelope ∈ ((d.reclaimExpiredLeases now).readyHeap r.queue).items :=
      hitems.mem_iff.2 mem_cons_self
    constructor
    case none =>
      intro hn
      rw [hr] at hn
      cases hn
    case queue =>
      intro r' hr'
      rw [hr] at hr'
      cases hr'
      exact ⟨earlier, later, hqueues, fun queue hq => hempty queue (hearlier queue hq)⟩
    case first =>
      intro r' hr'
      rw [hr] at hr'
      cases hr'
      refine ⟨(hperm r.queue).mem_iff.1 hmem, fun other hother => ?_⟩
      exact notAfter_of_compareReady (BinaryHeap.pop_first comparison_compareReady
        ((h.reclaimExpiredLeases now).ready r.queue) hpop other ((hperm r.queue).mem_iff.2 hother))
    case taken =>
      intro r' hr'
      rw [hr] at hr'
      cases hr'
      rw [hheap, if_pos rfl]
      exact (hperm r.queue).symm.trans hitems
    case kept =>
      intro queue hne
      rw [hheap, if_neg (Ne.symm (hne r hr))]
      exact (hperm queue).symm

/-! ## The other operations -/

theorem Heaped.foldl_enqueue (queue : String) : ∀ (entries : List (DelayedEntry P)) {d : MemoryDriver P}, Heaped d →
    Heaped (entries.foldl (fun d entry => d.enqueue queue entry.envelope) d)
  | [], _, h => h
  | entry :: entries, _, h => Heaped.foldl_enqueue queue entries (h.enqueue queue entry.envelope)

theorem Heaped.promoteQueue (now : Int) {acc : MemoryDriver P × Nat} (h : Heaped acc.1) (queue : String) :
    Heaped (MemoryDriver.promoteQueue now acc queue).1 := by
  exact Heaped.foldl_enqueue queue _ (h.setDelayed queue (BinaryHeap.drainWhile_ordered comparison_compareDelayed _ _ (h.delayed queue)))

theorem Heaped.promoteDue (h : Heaped d) (now : Int) : Heaped (d.promoteDue now).1 := by
  suffices hfold : ∀ (queues : List String) (acc : MemoryDriver P × Nat), Heaped acc.1 →
      Heaped (queues.foldl (MemoryDriver.promoteQueue now) acc).1 from hfold _ (d, 0) h
  intro queues
  induction queues with
  | nil => exact fun _ h => h
  | cons queue queues ih => exact fun acc h => ih _ (h.promoteQueue now queue)

theorem Heaped.nack (h : Heaped d) (reservation : Reservation P) (runAt : Option Int) : Heaped (d.nack reservation runAt) := by
  unfold MemoryDriver.nack
  split
  · have h' : Heaped { d with reserved := d.reserved.delete reservation.token } := h.congr rfl rfl
    cases runAt with
    | some runAt => exact h'.enqueueDelayed reservation.queue reservation.envelope runAt
    | none => exact h'.enqueue reservation.queue reservation.envelope
  · exact h

theorem Heaped.purge (h : Heaped d) (queue : Option String) : Heaped (d.purge queue).1 := by
  cases queue with
  | none => exact ⟨fun _ => ordered_nil compareReady, fun _ => ordered_nil compareDelayed⟩
  | some queue =>
    constructor
    case ready =>
      intro queue'
      show BinaryHeap.Ordered compareReady (((d.ready.delete queue).get queue').getD {}).items
      rw [get_delete]
      split
      · exact ordered_nil compareReady
      · exact h.ready queue'
    case delayed =>
      intro queue'
      show BinaryHeap.Ordered compareDelayed (((d.delayed.delete queue).get queue').getD {}).items
      rw [get_delete]
      split
      · exact ordered_nil compareDelayed
      · exact h.delayed queue'

/-- **Every operation keeps the heaps in order.** -/
theorem Heaped.apply (h : Heaped d) (op : MemoryOp P) : Heaped (d.apply op) := by
  cases op with
  | enqueue queue envelope => exact h.enqueue queue envelope
  | enqueueDelayed queue envelope runAt => exact h.enqueueDelayed queue envelope runAt
  | reserve queues visibilityMs now => exact h.reserve queues visibilityMs now
  | ack reservation => exact h.congr rfl rfl
  | nack reservation runAt => exact h.nack reservation runAt
  | promoteDue now => exact h.promoteDue now
  | moveToDeadLetter reservation error failedAt => exact h.congr rfl rfl
  | removeDeadLetter jobId => exact h.congr rfl rfl
  | flushDeadLetters queue =>
    cases queue with
    | none => exact h.congr rfl rfl
    | some queue => exact h.congr rfl rfl
  | purge queue => exact h.purge queue

/-- After any operations a reservation follows the order, over heaps whose operations keep the heap order and
the items. -/
theorem reserves_in_order (ops : List (MemoryOp P)) (queues : List String) (visibilityMs now : Int) :
    ReservesInOrder (Lib.run MemoryDriver.apply {} ops) queues visibilityMs now ∧
      KeepsHeaps (compareReady (P := P)) ∧ KeepsHeaps (compareDelayed (P := P)) := by
  refine ⟨?_, keepsHeaps_of_comparison comparison_compareReady, keepsHeaps_of_comparison comparison_compareDelayed⟩
  have h : Heaped (Lib.run MemoryDriver.apply ({} : MemoryDriver P) ops) :=
    run_invariant (P := Heaped) MemoryDriver.apply (fun _ op h => h.apply op) ops heaped_empty
  exact h.reservesInOrder queues visibilityMs now

end StreetJS.Queue
