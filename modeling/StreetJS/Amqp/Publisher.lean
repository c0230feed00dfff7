/-
The publisher of RabbitMQ (`core/src/transports/rabbitmq/index.ts`, `RabbitMqPublisher`) over the connections of a
manager, with the broker's end of each connection.
-/
import StreetJS.Amqp.Manager

namespace StreetJS.Amqp

open StreetJS.Lib

/-! ## The broker -/

/-- A Basic.Ack or Basic.Nack of the broker. -/
structure Confirm where
  tag : Nat
  multiple : Bool
  nack : Bool

def Confirm.covers (f : Confirm) (tag : Nat) : Bool := if f.multiple then decide (tag ≤ f.tag) else decide (tag = f.tag)

/-- Whether a tag is nacked: what the first confirm says that covers it. -/
def verdict (confirms : List Confirm) (tag : Nat) : Option Bool :=
  (confirms.find? fun f => f.covers tag).map Confirm.nack

/-- A connection and the broker's end of it. -/
structure Link where
  conn : AmqpConnection := {}
  /-- Confirm.Select has been received. -/
  selected : Bool := false
  /-- The messages that have a delivery tag, the first with tag 1. -/
  tagged : List Nat := []
  /-- The confirms that have come to the connection, and those that are on the way. -/
  arrived : List Confirm := []
  inbox : List Confirm := []

namespace Link

variable (L : Link)

/-- The confirms that the broker has sent. -/
def confirms : List Confirm := L.arrived ++ L.inbox

/-- The broker takes the oldest frame: a message gets the next tag, a request its reply. -/
def serve (args : Bytes) : Link :=
  match L.conn.sent with
  | [] => L
  | .publish message :: rest =>
    { L with conn := { L.conn with sent := rest }, tagged := if L.selected then L.tagged ++ [message] else L.tagged }
  | .request _ op :: rest =>
    { L with conn := { L.conn with sent := rest }.handleReply op.expects args, selected := L.selected || op = .enableConfirms }

/-- The broker confirms a tag that it has assigned. -/
def send (f : Confirm) : Link :=
  if 1 ≤ f.tag ∧ f.tag ≤ L.tagged.length then { L with inbox := L.inbox ++ [f] } else L

/-- The oldest confirm comes to the connection. -/
def arrive : Link :=
  match L.inbox with
  | [] => L
  | f :: rest => { L with conn := L.conn.confirm f.tag f.multiple f.nack, arrived := L.arrived ++ [f], inbox := rest }

end Link

/-! ## RabbitMqPublisher -/

/-- What a call of `publish` waits for. -/
inductive PublishPhase where
  | connecting (a : Nat)
  | connected (k : Nat)
  | declaring (k call : Nat)
  | enabling (k call : Nat)
  /-- The promise of the message decides. -/
  | sent (k message : Nat)
  | failed

structure PublisherWorld where
  links : List Link := []
  manager : RabbitMqConnectionManager := {}
  exchangeReady : Bool := false
  publishes : List PublishPhase := []

inductive PublisherEvent where
  | publish
  /-- A call of `publish` goes on. -/
  | resume (p : Nat)
  /-- An attempt has connected, or has failed. -/
  | opened (a : Nat)
  | retry (a : Nat)
  /-- Another user of the connection. -/
  | call (k : Nat) (op : Op)
  | serve (k : Nat) (args : Bytes)
  | continue (k : Nat)
  | confirm (k : Nat) (f : Confirm)
  | arrive (k : Nat)
  | destroy (k : Nat)
  /-- The close event of a connection. -/
  | disconnect (k : Nat)
  | close

namespace PublisherWorld

variable (w : PublisherWorld)

def connected (k : Nat) : Bool := w.links[k]?.any (·.conn.connected)

/-- A step of one connection. -/
def onLink (k : Nat) (f : Link → Link) : PublisherWorld := { w with links := w.links.modify k f }

def setPhase (p : Nat) (phase : PublishPhase) : PublisherWorld := { w with publishes := w.publishes.set p phase }

/-- A synchronous operation of a publish on its connection. -/
def startCall (p k : Nat) (L : Link) (op : Op) (phase : Nat → PublishPhase) : PublisherWorld :=
  { w with links := w.links.set k { L with conn := L.conn.call op } }.setPhase p (phase L.conn.calls.length)

/-- `conn.publish` -/
def sendMessage (p k : Nat) (L : Link) : PublisherWorld :=
  { w with links := w.links.set k { L with conn := L.conn.publish } }.setPhase p (.sent k L.conn.publishes.length)

/-- `publish` behind the `await` of its phase. -/
def resume (p : Nat) : PublishPhase → PublisherWorld
  | .connecting a =>
    match w.manager.attempts[a]? with
    | some (.ready k) => w.setPhase p (.connected k)
    | some .failed => w.setPhase p .failed
    | _ => w
  | .connected k =>
    match w.links[k]? with
    | some L =>
      if w.exchangeReady then w.sendMessage p k L else w.startCall p k L .declareExchange (.declaring k)
    | none => w
  | .declaring k i =>
    match w.links[k]? with
    | some L =>
      match L.conn.settled i with
      | some true => w.startCall p k L .enableConfirms (.enabling k)
      | some false => w.setPhase p .failed
      | none => w
    | none => w
  | .enabling k i =>
    match w.links[k]? with
    | some L =>
      match L.conn.settled i with
      | some true => { w with exchangeReady := true }.sendMessage p k L
      | some false => w.setPhase p .failed
      | none => w
    | none => w
  | .sent _ _ => w
  | .failed => w

def leasePhase : Lease → PublishPhase
  | .connection k => .connected k
  | .attempt a => .connecting a

def step (w : PublisherWorld) : PublisherEvent → PublisherWorld
  | .publish =>
    let (manager, lease) := w.manager.get w.connected
    { w with manager, publishes := w.publishes ++ [leasePhase lease] }
  | .resume p => (w.publishes[p]?.map (w.resume p)).getD w
  | .opened a =>
    match w.manager.attempts[a]? with
    | some .waiting => { w with links := w.links ++ [{}], manager := (w.manager.ready a w.links.length).1 }
    | _ => w
  | .retry a => { w with manager := w.manager.retry a }
  | .call k op => w.onLink k fun L => { L with conn := L.conn.call op }
  | .serve k args => if w.connected k then w.onLink k fun L => L.serve args else w
  | .continue k => w.onLink k fun L => { L with conn := L.conn.runMicrotask }
  | .confirm k f => w.onLink k fun L => L.send f
  | .arrive k => if w.connected k then w.onLink k Link.arrive else w
  | .destroy k => w.onLink k fun L => { L with conn := { L.conn with connected := false } }
  | .disconnect k => if w.connected k then w else { w with manager := w.manager.onDisconnect w.connected }
  | .close =>
    let w' := (w.manager.conn.map fun k => w.onLink k fun L => { L with conn := { L.conn with connected := false } }).getD w
    { w' with manager := { w.manager with closed := true, conn := none } }

end PublisherWorld

end StreetJS.Amqp
