/-
The Kafka consumer (`core/src/transports/kafka/index.ts`, `KafkaConsumer`) on one partition: poll loops that fetch
records, hand them to the handler one by one and commit the next offset, with stops, failures and restarts.
-/
import StreetJS.Lib.Runs
import StreetJS.Lib.ListSet

namespace StreetJS.Kafka

open StreetJS.Lib

/-! ## Consumers -/

structure ConsumerOptions where
  /-- Where a consumer starts that finds no committed offset: at the earliest record, or behind the latest. -/
  fromBeginning : Bool := true
  autoCommit : Bool := true

/-- A consumer object: whether it is to go on, and the next offset. -/
structure Consumer where
  running : Bool := true
  offset : Nat := 0

/-- What a poll loop waits for. -/
inductive LoopPhase where
  | starting
  | polling
  | fetching (offset : Nat)
  /-- The handler has the record; the others were fetched with it. -/
  | handling (record : Nat) (rest : List Nat)
  | committing (offset : Nat)
  | ended
deriving DecidableEq

/-- A call of `run`: its consumer, and the offsets of the records that it has handed to the handler. -/
structure PollLoop where
  consumer : Nat
  phase : LoopPhase := .starting
  handed : List Nat := []
deriving DecidableEq

/-- The partition of the broker with the group's offset, and the consumers. -/
structure ConsumerWorld where
  /-- The offsets of the records. -/
  log : List Nat := []
  endOffset : Nat := 0
  committed : Option Nat := none
  consumers : List Consumer := []
  loops : List PollLoop := []
  /-- Where the first loop started. -/
  base : Option Nat := none
  fetched : List Nat := []
  /-- The records whose handler has completed. -/
  completed : List Nat := []

inductive ConsumerEvent where
  /-- A record is appended; some offsets may be left out. -/
  | append (gap : Nat)
  | create
  | run (k : Nat)
  | stop (k : Nat)
  /-- The start offset is known, or a request for it has failed. -/
  | started (x : Nat) (ok : Bool)
  | poll (x : Nat)
  /-- The answer to a fetch: that many of the records that are there. -/
  | fetched (x : Nat) (n : Nat)
  | fetchFailed (x : Nat)
  | handled (x : Nat) (ok : Bool)
  /-- The answer to a commit; one that fails may have been applied. -/
  | committed (x : Nat) (applied : Bool)

namespace ConsumerWorld

variable (opts : ConsumerOptions) (w : ConsumerWorld)

def running (k : Nat) : Bool := w.consumers[k]?.any (·.running)

def offset (k : Nat) : Nat := (w.consumers[k]?.getD {}).offset

def setRunning (k : Nat) (running : Bool) : ConsumerWorld :=
  { w with consumers := w.consumers.modify k fun c => { c with running } }

def setOffset (k offset : Nat) : ConsumerWorld :=
  { w with consumers := w.consumers.modify k fun c => { c with offset } }

def setLoop (x : Nat) (l : PollLoop) : ConsumerWorld := { w with loops := w.loops.set x l }

/-- `_startOffset`: the committed offset, the earliest or the latest. -/
def startOffset : Nat :=
  match w.committed with
  | some offset => offset
  | none => if opts.fromBeginning then 0 else w.endOffset

/-- The next record goes to the handler, unless the consumer is stopped. -/
def hand (x : Nat) (l : PollLoop) (records : List Nat) (done : LoopPhase) : ConsumerWorld :=
  match records with
  | [] => w.setLoop x { l with phase := done }
  | record :: rest =>
    if w.running l.consumer then
      w.setLoop x { l with phase := .handling record rest, handed := l.handed ++ [record] }
    else w.setLoop x { l with phase := done }

/-- Behind the last record: the next offset of the consumer is committed. -/
def behindBatch (offset : Nat) : LoopPhase := if opts.autoCommit then .committing offset else .polling

def stepLoop (x : Nat) (l : PollLoop) : ConsumerEvent → ConsumerWorld
  | .started _ ok =>
    match l.phase, ok with
    | .starting, true =>
      let w' := { w with base := some (w.base.getD (w.startOffset opts)) }
      (w'.setOffset l.consumer (w.startOffset opts)).setLoop x { l with phase := .polling }
    | .starting, false => w.setLoop x { l with phase := .ended }
    | _, _ => w
  | .poll _ =>
    match l.phase with
    | .polling => w.setLoop x { l with phase := if w.running l.consumer then .fetching (w.offset l.consumer) else .ended }
    | _ => w
  | .fetched _ n =>
    match l.phase with
    | .fetching offset =>
      let records := (w.log.filter fun record => decide (offset ≤ record)).take n
      { w with fetched := w.fetched ++ records }.hand x l records .polling
    | _ => w
  | .fetchFailed _ =>
    match l.phase with
    | .fetching _ => w.setLoop x { l with phase := .polling }
    | _ => w
  | .handled _ ok =>
    match l.phase, ok with
    | .handling record rest, true =>
      let w' := { w.setOffset l.consumer (record + 1) with completed := w.completed ++ [record] }
      w'.hand x l rest (behindBatch opts (record + 1))
    | .handling _ _, false => w.setLoop x { l with phase := .polling }
    | _, _ => w
  | .committed _ applied =>
    match l.phase with
    | .committing offset =>
      { w.setLoop x { l with phase := .polling } with committed := if applied then some offset else w.committed }
    | _ => w
  | _ => w

def step (w : ConsumerWorld) : ConsumerEvent → ConsumerWorld
  | .append gap => { w with log := w.log ++ [w.endOffset + gap], endOffset := w.endOffset + gap + 1 }
  | .create => { w with consumers := w.consumers ++ [{ running := false }] }
  | .run k =>
    if k < w.consumers.length then { w.setRunning k true with loops := w.loops ++ [{ consumer := k }] } else w
  | .stop k => w.setRunning k false
  | .started x ok => (w.loops[x]?.map fun l => w.stepLoop opts x l (.started x ok)).getD w
  | .poll x => (w.loops[x]?.map fun l => w.stepLoop opts x l (.poll x)).getD w
  | .fetched x n => (w.loops[x]?.map fun l => w.stepLoop opts x l (.fetched x n)).getD w
  | .fetchFailed x => (w.loops[x]?.map fun l => w.stepLoop opts x l (.fetchFailed x)).getD w
  | .handled x ok => (w.loops[x]?.map fun l => w.stepLoop opts x l (.handled x ok)).getD w
  | .committed x applied => (w.loops[x]?.map fun l => w.stepLoop opts x l (.committed x applied)).getD w

end ConsumerWorld

end StreetJS.Kafka
