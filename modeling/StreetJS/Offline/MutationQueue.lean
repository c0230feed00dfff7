/-
The offline outbox (`client-offline/src/queue.ts`): one queue over a store whose single calls are atomic,
with any number of `enqueue`, `flush`, `clear`, `list` and `size` calls in progress. A step is the effect of
one call on the store, or the answer of the sender, with what the queue does on it before its next `await`.
JSON values come back from the store as they were written.
-/
import StreetJS.Lib.Runs

namespace StreetJS.Offline

open StreetJS.Lib

/-! ## Data -/

structure Mutation (P : Type) where
  id : String
  op : String
  payload : P
  createdAt : Int
  attempts : Nat

/-- A mutation in the outbox. Its serial number, which the code does not have, tells apart mutations that were
enqueued under one id. -/
structure Entry (P : Type) extends Mutation P where
  serial : Nat

structure MutationInput (P : Type) where
  id : String
  op : String
  payload : P

/-- The sender's outcome; a sender that throws has answered `retry`. -/
inductive SendOutcome where
  | ok
  | retry (error : Option String)
  | drop (error : Option String)

structure FlushResult where
  sent : Nat
  dropped : Nat
  remaining : Nat

/-- What has happened, with the number of the flush that did it. A clear records what it removes, the return of a
flush how many mutations are stored then. -/
inductive Record where
  | offered (flush serial : Nat)
  | sent (flush serial : Nat)
  | dropped (flush serial : Nat) (reason : String)
  | cleared (serial : Nat)
  | flushed (flush : Nat) (result : FlushResult) (stored : Nat)

/-! ## The queue -/

/-- Where a flush stands. Its own copy of the outbox is the head, whose attempts count on the copy as soon as it
is offered, and the rest. -/
inductive FlushPhase (P : Type) where
  | reading
  | offering (head : Entry P) (rest : List (Entry P))
  /-- The head is settled, and the rest is about to be stored. -/
  | removing (head : Entry P) (rest : List (Entry P))
  /-- The attempt of the head is about to be stored. -/
  | retrying (head : Entry P) (rest : List (Entry P))

structure Flush (P : Type) where
  number : Nat
  sent : Nat := 0
  dropped : Nat := 0
  phase : FlushPhase P := .reading

/-- Any other call. An `enqueue` that has read the outbox holds the list it read; `refused` is a `flush` that found
another one in progress. -/
inductive Call (P : Type) where
  | enqueueRead (input : MutationInput P)
  | enqueueWrite (seen : List (Entry P)) (mutation : Mutation P)
  | clear
  | read
  | refused (flush : Nat)
  | done

/-- The stored outbox, the flush that has set `flushing`, the other calls, and what has happened. -/
structure MutationQueue (P : Type) where
  outbox : List (Entry P) := []
  flush : Option (Flush P) := none
  calls : List (Call P) := []
  log : List Record := []
  enqueued : Nat := 0
  flushes : Nat := 0

inductive Event (P : Type) where
  | enqueue (input : MutationInput P)
  | flush
  | clear
  | list
  | size
  /-- The `get`, `set` and `delete` of the other calls. -/
  | get (c : Nat) (now : Int)
  | set (c : Nat)
  | delete (c : Nat)
  /-- The `get` and `set` of the flush, and the answer to what it offered; `onDrop` may throw. -/
  | flushGet
  | answer (outcome : SendOutcome) (throws : Bool)
  | flushSet

variable {P : Type}

/-- The head of a flush's copy, with the attempt that was made. -/
def Entry.attempted (e : Entry P) : Entry P := { e with attempts := e.attempts + 1 }

def SendOutcome.isOk : SendOutcome → Bool
  | .ok => true
  | _ => false

/-- The reason for which an outcome drops a mutation of so many attempts. -/
def dropReason (maxAttempts attempts : Nat) : SendOutcome → Option String
  | .ok => none
  | .drop error => some (error.getD "dropped by sender")
  | .retry error => if maxAttempts ≤ attempts then some (error.getD "max attempts exceeded") else none

namespace MutationQueue

variable (s : MutationQueue P)

/-- What a flush has settled and not yet removed from the store. -/
def removing : List Nat :=
  match s.flush with
  | some { phase := .removing head _, .. } => [head.serial]
  | _ => []

/-- The mutations that are queued still, by their serial numbers. -/
def queued : List Nat := (s.outbox.map Entry.serial).filter (· ∉ s.removing)

def begin (call : Call P) : MutationQueue P := { s with calls := s.calls ++ [call] }

/-- The end of the loop: the flush returns. -/
def finish (f : Flush P) (list : List (Entry P)) : MutationQueue P :=
  { s with
    flush := none
    log := s.log ++ [.flushed f.number ⟨f.sent, f.dropped, list.length⟩ s.outbox.length] }

/-- One turn of the loop of a flush with its copy. -/
def pass (f : Flush P) : List (Entry P) → MutationQueue P
  | [] => s.finish f []
  | head :: rest =>
    { s with
      flush := some { f with phase := .offering head rest }
      log := s.log ++ [.offered f.number head.serial] }

/-- The flush shifts its list and is about to store it. -/
def settle (f : Flush P) (head : Entry P) (rest : List (Entry P)) (record : Record) : MutationQueue P :=
  { s with flush := some { f with phase := .removing head rest }, log := s.log ++ [record] }

/-- A `get` for one of the other calls. -/
def get (c : Nat) (now : Int) : Call P → MutationQueue P
  | .enqueueRead input =>
    match s.outbox.find? fun m => m.id = input.id with
    | some _ => { s with calls := s.calls.set c .done }
    | none =>
      let mutation := { id := input.id, op := input.op, payload := input.payload, createdAt := now, attempts := 0 }
      { s with calls := s.calls.set c (.enqueueWrite s.outbox mutation) }
  | .read => { s with calls := s.calls.set c .done }
  | .refused number =>
    { s with
      calls := s.calls.set c .done
      log := s.log ++ [.flushed number ⟨0, 0, s.outbox.length⟩ s.outbox.length] }
  | _ => s

/-- The sender answers for the head of a flush's copy. -/
def answer (maxAttempts : Nat) (f : Flush P) (head : Entry P) (rest : List (Entry P)) (outcome : SendOutcome)
    (throws : Bool) : MutationQueue P :=
  match outcome, dropReason maxAttempts (head.attempts + 1) outcome with
  | .ok, _ => s.settle { f with sent := f.sent + 1 } head rest (.sent f.number head.serial)
  | _, some reason =>
    if throws then { s with flush := none, log := s.log ++ [.dropped f.number head.serial reason] }
    else s.settle { f with dropped := f.dropped + 1 } head rest (.dropped f.number head.serial reason)
  | _, none => { s with flush := some { f with phase := .retrying head rest } }

def step (maxAttempts : Nat) (s : MutationQueue P) : Event P → MutationQueue P
  | .enqueue input => s.begin (.enqueueRead input)
  | .clear => s.begin .clear
  | .list => s.begin .read
  | .size => s.begin .read
  | .flush =>
    match s.flush with
    | some _ => { s.begin (.refused s.flushes) with flushes := s.flushes + 1 }
    | none => { s with flush := some { number := s.flushes }, flushes := s.flushes + 1 }
  | .get c now =>
    match s.calls[c]? with
    | some call => s.get c now call
    | none => s
  | .set c =>
    match s.calls[c]? with
    | some (.enqueueWrite seen mutation) =>
      { s with
        outbox := seen ++ [{ toMutation := mutation, serial := s.enqueued }]
        enqueued := s.enqueued + 1
        calls := s.calls.set c .done }
    | _ => s
  | .delete c =>
    match s.calls[c]? with
    | some .clear =>
      { s with outbox := [], log := s.log ++ s.queued.map .cleared, calls := s.calls.set c .done }
    | _ => s
  | .flushGet =>
    match s.flush with
    | some f =>
      match f.phase with
      | .reading => s.pass f s.outbox
      | _ => s
    | none => s
  | .answer outcome throws =>
    match s.flush with
    | some f =>
      match f.phase with
      | .offering head rest => s.answer maxAttempts f head rest outcome throws
      | _ => s
    | none => s
  | .flushSet =>
    match s.flush with
    | some f =>
      match f.phase with
      | .removing _ rest => { s with outbox := rest }.pass f rest
      | .retrying head rest => { s with outbox := head.attempted :: rest }.finish f (head.attempted :: rest)
      | _ => s
    | none => s

end MutationQueue

/-! ## What is promised -/

/-- The mutation a record offers. -/
def Record.offers : Record → Option Nat
  | .offered _ n => some n
  | _ => none

/-- The mutation a record reports as sent, dropped or removed. -/
def Record.settles : Record → Option Nat
  | .sent _ n => some n
  | .dropped _ n _ => some n
  | .cleared n => some n
  | _ => none

def Record.sentBy (number : Nat) : Record → Bool
  | .sent k _ => k = number
  | _ => false

def Record.droppedBy (number : Nat) : Record → Bool
  | .dropped k _ _ => k = number
  | _ => false

def offersOf (log : List Record) : List Nat := log.filterMap Record.offers

def settledIn (log : List Record) : List Nat := log.filterMap Record.settles

/-- Nothing is lost and nothing reordered. -/
structure Faithful (maxAttempts : Nat) (s : MutationQueue P) : Prop where
  /-- Every mutation that was enqueued is either queued or reported once. -/
  accounted : (s.queued ++ settledIn s.log).Perm (List.range s.enqueued)
  /-- The first offers follow the order of enqueueing. -/
  order : ∀ i j k, (offersOf s.log)[k]? = some j → i < j → i ∈ offersOf s.log → i ∈ (offersOf s.log).take k
  /-- What was sent, dropped or cleared is not offered any more. -/
  final : s.log.Pairwise fun a b => ∀ n, a.settles = some n → b.offers ≠ some n
  bounded : ∀ n, (offersOf s.log).count n ≤ maxAttempts
  ids : (s.outbox.map fun e => e.id).Nodup
  results : ∀ number result stored, .flushed number result stored ∈ s.log →
    result.sent = s.log.countP (Record.sentBy number) ∧ result.dropped = s.log.countP (Record.droppedBy number) ∧ result.remaining = stored

/-- What a flush that is about to store its list holds to be stored. -/
def FlushPhase.storesOver : FlushPhase P → Option (List (Entry P))
  | .removing head rest => some (head :: rest)
  | .retrying head rest => some (head :: rest)
  | _ => none

/-- A list is stored only over the list it was made from; a mutation is settled while it is stored still, and
`onDrop` does not throw. -/
def Undisturbed (maxAttempts : Nat) (s : MutationQueue P) : Event P → Prop
  | .set c => ∀ seen mutation, s.calls[c]? = some (.enqueueWrite seen mutation) → s.outbox = seen
  | .answer outcome throws => ∀ f head rest, s.flush = some f → f.phase = .offering head rest →
    (outcome.isOk ∨ (dropReason maxAttempts (head.attempts + 1) outcome).isSome →
      head.serial ∈ s.outbox.map Entry.serial) ∧ (throws = true → dropReason maxAttempts (head.attempts + 1) outcome = none)
  | .flushSet => ∀ f, s.flush = some f → ∀ list, f.phase.storesOver = some list → s.outbox = list
  | _ => True

end StreetJS.Offline
