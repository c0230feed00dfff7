/-
The consumer of RabbitMQ (`core/src/transports/rabbitmq/index.ts`, `RabbitMqConsumer`) over the connections of a
manager: it is started on a connection, and is to be started again on the next one.
-/
import StreetJS.Amqp.RpcMatching
import StreetJS.Amqp.Manager

namespace StreetJS.Amqp

open StreetJS.Lib

structure ConsumerOptions where
  deadLetterExchange : Bool := false
  routingKeys : Nat := 1

/-- The operations of `start`, in order. -/
def ConsumerOptions.setup (options : ConsumerOptions) (handler : Nat) : List Op :=
  [.declareExchange] ++ (if options.deadLetterExchange then [.declareExchange] else []) ++ [.declareQueue] ++
    List.replicate options.routingKeys .bindQueue ++ [.setQos, .consume handler]

/-- A connection of the manager, and whether its close event has been handled. -/
structure ManagedLink where
  rpc : RpcWorld := {}
  disconnected : Bool := false

inductive StartPhase where
  /-- A call is waited for; the other operations follow. -/
  | waiting (call : Nat) (rest : List Op)
  | done
  | failed

/-- A run of `start` on a connection; the first one of a consumer registers it for reconnects. -/
structure Start where
  consumer : Nat
  k : Nat
  first : Bool
  phase : StartPhase

inductive ConsumePhase where
  | connecting (a : Nat)
  | connected (k : Nat)
  | starting
  /-- `consuming` is set and the callback is with the manager. -/
  | registered

structure RabbitMqConsumer where
  options : ConsumerOptions
  phase : ConsumePhase

structure ConsumerWorld where
  links : List ManagedLink := []
  manager : RabbitMqConnectionManager := {}
  consumers : List RabbitMqConsumer := []
  starts : List Start := []

inductive ConsumerEvent where
  | consume (options : ConsumerOptions)
  /-- `consume` goes on. -/
  | resume (c : Nat)
  /-- `start` goes on. -/
  | proceed (s : Nat)
  | opened (a : Nat)
  | retry (a : Nat)
  /-- Another user of the connection. -/
  | call (k : Nat) (op : Op)
  | serve (k : Nat) (args : Bytes)
  | continue (k : Nat)
  | destroy (k : Nat)
  /-- The close event of a connection. -/
  | disconnect (k : Nat)

namespace ConsumerWorld

variable (w : ConsumerWorld)

def connected (k : Nat) : Bool := w.links[k]?.any (·.rpc.conn.connected)

/-- A step of one connection. -/
def onLink (k : Nat) (e : RpcEvent) : ConsumerWorld :=
  { w with links := w.links.modify k fun L => { L with rpc := L.rpc.step e } }

/-- How the call of a start stands. -/
def settled (k i : Nat) : Option Bool := w.links[k]?.bind fun L => L.rpc.conn.settled i

/-- Nothing that waits for a promise can go on: only then another event comes. -/
def idle : Bool :=
  (w.links.all fun L => L.rpc.conn.microtasks.isEmpty) && w.starts.all fun s =>
    match s.phase with
    | .waiting i _ => (w.settled s.k i).isNone
    | _ => true

/-- The number of the next call of a connection. -/
def nextCall (k : Nat) : Nat := (w.links[k]?.map fun L => L.rpc.conn.calls.length).getD 0

/-- The operations of a start: the next one is called and waited for. -/
def operate (k : Nat) : List Op → ConsumerWorld × StartPhase
  | [] => (w, .done)
  | op :: rest => (w.onLink k (.call op), .waiting (w.nextCall k) rest)

/-- `start` on a connection. -/
def start (c : Nat) (options : ConsumerOptions) (k : Nat) (first : Bool) : ConsumerWorld :=
  let (w', phase) := w.operate k (options.setup c)
  { w' with starts := w'.starts ++ [{ consumer := c, k, first, phase }] }

def setConsumer (c : Nat) (phase : ConsumePhase) : ConsumerWorld :=
  { w with consumers := w.consumers.modify c fun consumer => { consumer with phase } }

/-- The first start of a consumer is done. -/
def register (c : Nat) : ConsumerWorld := { w.setConsumer c .registered with manager := w.manager.onReconnect c }

/-- A callback of `onReconnect`. -/
def restart (k : Nat) (w : ConsumerWorld) (c : Nat) : ConsumerWorld :=
  match w.consumers[c]? with
  | some consumer => w.start c consumer.options k false
  | none => w

def leasePhase : Lease → ConsumePhase
  | .connection k => .connected k
  | .attempt a => .connecting a

/-- `consume` behind the `await` of its phase. -/
def resume (c : Nat) (consumer : RabbitMqConsumer) : ConsumerWorld :=
  match consumer.phase with
  | .connecting a =>
    match w.manager.attempts[a]? with
    | some (.ready k) => w.setConsumer c (.connected k)
    | _ => w
  | .connected k => if k < w.links.length then (w.setConsumer c .starting).start c consumer.options k true else w
  | _ => w

/-- `start` behind the `await` of a call. -/
def proceed (x : Nat) (s : Start) : ConsumerWorld :=
  match s.phase with
  | .waiting i rest =>
    match w.settled s.k i with
    | some true =>
      let (w', phase) := w.operate s.k rest
      let w' := { w' with starts := w'.starts.set x { s with phase } }
      match phase with
      | .done => if s.first then w'.register s.consumer else w'
      | _ => w'
    | some false => { w with starts := w.starts.set x { s with phase := .failed } }
    | none => w
  | _ => w

def step (w : ConsumerWorld) : ConsumerEvent → ConsumerWorld
  | .consume options =>
    let (manager, lease) := w.manager.get w.connected
    { w with manager, consumers := w.consumers ++ [{ options, phase := leasePhase lease }] }
  | .resume c => (w.consumers[c]?.map (w.resume c)).getD w
  | .proceed x => (w.starts[x]?.map (w.proceed x)).getD w
  | .opened a =>
    match w.idle, w.manager.attempts[a]? with
    | true, some .waiting =>
      let (manager, callbacks) := w.manager.ready a w.links.length
      callbacks.foldl (restart w.links.length) { w with links := w.links ++ [{}], manager }
    | _, _ => w
  | .retry a => { w with manager := w.manager.retry a }
  | .call k op => w.onLink k (.call op)
  | .serve k args => if w.idle then w.onLink k (.serve args) else w
  | .continue k => w.onLink k .continue
  | .destroy k => if w.idle then w.onLink k .destroy else w
  | .disconnect k =>
    if w.idle && w.links[k]?.any fun L => !L.rpc.conn.connected && !L.disconnected then
      { w with manager := w.manager.onDisconnect w.connected, links := w.links.modify k fun L => { L with disconnected := true } }
    else w

end ConsumerWorld

end StreetJS.Amqp
