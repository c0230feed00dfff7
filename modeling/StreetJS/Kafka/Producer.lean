/-
The Kafka producer (`core/src/transports/kafka/index.ts`, `KafkaProducer`): records are buffered by topic, detached by
a flush, and produced partition by partition with retries; an idempotent producer numbers them for the broker.
-/
import StreetJS.Lib.Runs
import StreetJS.Lib.ListSet
import StreetJS.Lib.OrderedMap

namespace StreetJS.Kafka

open StreetJS.Lib

/-- A topic, by its characters. -/
abbrev Topic := List Char

structure ProducerOptions where
  batchSize : Nat := 100
  idempotent : Bool := false
  maxRetries : Nat := 3

/-- A record that `send` has accepted, by its number. -/
structure PendingRecord where
  partition : Int
  record : Nat
deriving DecidableEq

/-- A record batch; without a base sequence it is not numbered. -/
structure Batch where
  topic : Topic
  partition : Int
  baseSequence : Option Nat
  records : List Nat
deriving DecidableEq

namespace Batch

variable (b : Batch)

/-- The base sequence is written in 32 bits. -/
def encodable : Bool := (b.baseSequence.getD 0) < 2 ^ 31

/-- The key of `sequences`, which is the topic and the partition behind a slash. -/
def key : Topic × Int := (b.topic, b.partition)

/-- A sequence is in both batches. -/
def overlaps (b c : Batch) : Bool :=
  match b.baseSequence, c.baseSequence with
  | some i, some j => b.key = c.key && decide (i < j + c.records.length) && decide (j < i + b.records.length)
  | _, _ => false

end Batch

/-- A broker drops a batch with a sequence that it has seen. -/
def store (log : List Batch) (b : Batch) : List Batch := if log.any b.overlaps then log else log ++ [b]

/-- `initPromise` -/
inductive InitPromise where
  | absent
  | pending
  | resolved
  | rejected
deriving DecidableEq

/-- What a run of `_flushTopic` waits for. -/
inductive FlushPhase where
  /-- The producer id, with the detached list. -/
  | ensuring (list : List PendingRecord)
  /-- The reply to a Produce request, or the time before the next attempt; the other partitions follow. -/
  | producing (batch : Batch) (attempt : Nat) (backoff : Bool) (rest : OrderedMap Int (List Nat))
  | done
  /-- There is no producer id: it throws, and leaves the list. -/
  | failed (list : List PendingRecord)
deriving DecidableEq

structure FlushTask where
  topic : Topic
  phase : FlushPhase

inductive ProduceOutcome where
  | acknowledged
  | failed
  /-- The broker has the batch, but the reply is lost. -/
  | appliedButFailed
deriving DecidableEq

structure ProducerWorld where
  opts : ProducerOptions := {}
  batches : OrderedMap Topic (List PendingRecord) := []
  rr : OrderedMap Topic Nat := []
  flushTimer : Bool := false
  closed : Bool := false
  init : InitPromise := .absent
  sequences : OrderedMap (Topic × Int) Nat := []
  tasks : List FlushTask := []
  /-- The sends that wait for the partitions of their topic. -/
  choosing : List (Option Topic) := []
  /-- The runs that each `close` waits for: from the first number to before the second. -/
  closes : List (Nat × Nat) := []
  /-- How many records `send` has accepted. -/
  accepted : Nat := 0
  /-- The records whose promise is settled, and whether it is resolved. -/
  settled : List (Nat × Bool) := []
  /-- The batches that are sent, those that are acknowledged, and those that the broker has. -/
  sent : List Batch := []
  acknowledged : List Batch := []
  log : List Batch := []

inductive ProducerEvent where
  | send (topic : Topic) (partition : Option Int)
  /-- The partitions of a topic are known, or not to be had. -/
  | metadata (s : Nat) (partitions : Option Nat)
  | timer
  | flush
  | close
  | initialised (ok : Bool)
  /-- A flush goes on behind `_ensureProducerId`. -/
  | ensured (k : Nat)
  | produced (k : Nat) (outcome : ProduceOutcome)
  | retry (k : Nat)

/-- `byPartition` -/
def byPartition (list : List PendingRecord) : OrderedMap Int (List Nat) :=
  list.foldl (fun groups pr => groups.set pr.partition ((groups.get pr.partition).getD [] ++ [pr.record])) []

namespace ProducerWorld

variable (w : ProducerWorld)

/-- `_flushTopic`, up to the producer id. -/
def flushTopic (topic : Topic) : ProducerWorld :=
  match w.batches.get topic with
  | none | some [] => w
  | some list =>
    { w with
      batches := w.batches.set topic []
      init := if w.opts.idempotent ∧ w.init = .absent then .pending else w.init
      tasks := w.tasks ++ [{ topic, phase := .ensuring list }] }

/-- `flush` -/
def flush : ProducerWorld := (w.batches.map Prod.fst).foldl flushTopic { w with flushTimer := false }

/-- A record is buffered. -/
def push (topic : Topic) (partition : Int) : ProducerWorld :=
  let list := (w.batches.get topic).getD [] ++ [{ partition, record := w.accepted }]
  let w' := { w with batches := w.batches.set topic list, accepted := w.accepted + 1 }
  if w.opts.batchSize ≤ list.length then w'.flushTopic topic else { w' with flushTimer := true }

def setTask (k : Nat) (task : FlushTask) : ProducerWorld := { w with tasks := w.tasks.set k task }

/-- The next partition of a flush. -/
def produceNext (k : Nat) (topic : Topic) : OrderedMap Int (List Nat) → ProducerWorld
  | [] => w.setTask k { topic, phase := .done }
  | (partition, records) :: rest =>
    let baseSequence := if w.opts.idempotent then some ((w.sequences.get (topic, partition)).getD 0) else none
    let batch := { topic, partition, baseSequence, records }
    { w.setTask k { topic, phase := .producing batch 0 false rest } with sent := w.sent ++ [batch] }

/-- The promises of a batch are settled. -/
def settle (b : Batch) (resolved : Bool) : ProducerWorld :=
  { w with settled := w.settled ++ b.records.map fun record => (record, resolved) }

def acknowledge (b : Batch) : ProducerWorld :=
  { w with
    acknowledged := w.acknowledged ++ [b]
    sequences := match b.baseSequence with
      | some base => w.sequences.set b.key (base + b.records.length)
      | none => w.sequences }

/-- A Produce request is answered, in `_produceWithRetry`. -/
def answer (k : Nat) (topic : Topic) (b : Batch) (attempt : Nat) (rest : OrderedMap Int (List Nat)) : ProduceOutcome → ProducerWorld
  | .acknowledged => (({ w with log := store w.log b }.acknowledge b).settle b true).produceNext k topic rest
  | outcome =>
    let w' := if outcome = .appliedButFailed then { w with log := store w.log b } else w
    if w.opts.maxRetries ≤ attempt then (w'.settle b false).produceNext k topic rest
    else w'.setTask k { topic, phase := .producing b (attempt + 1) true rest }

def stepTask (k : Nat) (task : FlushTask) : ProducerEvent → ProducerWorld
  | .ensured _ =>
    match task.phase with
    | .ensuring list =>
      if w.opts.idempotent = false ∨ w.init = .resolved then w.produceNext k task.topic (byPartition list)
      else if w.init = .rejected then w.setTask k { task with phase := .failed list }
      else w
    | _ => w
  | .produced _ outcome =>
    match task.phase with
    | .producing b attempt false rest => w.answer k task.topic b attempt rest (if b.encodable then outcome else .failed)
    | _ => w
  | .retry _ =>
    match task.phase with
    | .producing b attempt true rest => w.setTask k { task with phase := .producing b attempt false rest }
    | _ => w
  | _ => w

/-- `send` behind the metadata. -/
def choose (s : Nat) (topic : Topic) : Option Nat → ProducerWorld
  | none => { w with choosing := w.choosing.set s none }
  | some partitions =>
    let cursor := (w.rr.get topic).getD 0
    { w with choosing := w.choosing.set s none, rr := w.rr.set topic (cursor + 1) }.push topic (cursor % max 1 partitions : Nat)

def step (w : ProducerWorld) : ProducerEvent → ProducerWorld
  | .send topic partition =>
    if w.closed then w
    else
      match partition with
      | some p => w.push topic p
      | none => { w with choosing := w.choosing ++ [some topic] }
  | .metadata s partitions =>
    match w.choosing[s]? with
    | some (some topic) => w.choose s topic partitions
    | _ => w
  | .timer => if w.flushTimer then w.flush else w
  | .flush => w.flush
  | .close =>
    let w' := { w with closed := true }.flush
    { w' with closes := w.closes ++ [(w.tasks.length, w'.tasks.length)] }
  | .initialised ok => if w.init = .pending then { w with init := if ok then .resolved else .rejected } else w
  | .ensured k => (w.tasks[k]?.map fun task => w.stepTask k task (.ensured k)).getD w
  | .produced k outcome => (w.tasks[k]?.map fun task => w.stepTask k task (.produced k outcome)).getD w
  | .retry k => (w.tasks[k]?.map fun task => w.stepTask k task (.retry k)).getD w

end ProducerWorld

end StreetJS.Kafka
