/-
Deliveries over the bytes of a socket (`core/src/transports/rabbitmq/connection.ts`, `_onData`): the broker writes
frames to a stream that comes in chunks, and the connection handles the frames of a chunk before anything that waits
for a reply goes on.
-/
import StreetJS.Amqp.Connection

namespace StreetJS.Amqp

open StreetJS.Lib
open BigEndian (encode)

/-! ## `_onData` -/

namespace AmqpConnection

/-- `_onData`, with the bytes of the decoder: all frames that are there are handled. -/
def onData : Nat → AmqpConnection → Bytes → AmqpConnection × Bytes
  | 0, c, buf => (c, buf)
  | fuel + 1, c, buf =>
    match next buf with
    | .frame frame rest => onData fuel (c.handleFrame frame) rest
    | _ => (c, buf)

/-- All that is to go on goes on. -/
def runMicrotasks (c : AmqpConnection) : AmqpConnection :=
  c.microtasks.foldl (fun c i => c.continueCall i) { c with microtasks := [] }

end AmqpConnection

/-! ## The stream of the broker -/

/-- A delivery that ends: the consumer tag, its handler and the message. -/
abbrev Completion := Bytes × Nat × DeliveredMessage

/-- A frame of the broker; the last one of a delivery has the delivery. -/
inductive Signal where
  | heartbeat
  /-- A reply that is not a Consume-Ok. -/
  | reply (op : Op) (args : Bytes)
  | consumeOk (tag : Bytes) (handler : Nat)
  | confirm (tag : Nat) (multiple nack : Bool)
  | deliver (tag : Bytes) (msg : MessageFields)
  | header (size : Nat) (properties : Bytes) (completes : Option Completion)
  | body (bytes : Bytes) (completes : Option Completion)

namespace Signal

def method (key : MethodKey) (args : Bytes) : RawFrame :=
  { type := FRAME_METHOD, channel := 1
    payload := encode 2 key.classId ++ (encode 2 key.methodId ++ args) }

def deliverArgs (tag : Bytes) (msg : MessageFields) : Bytes :=
  writeShortStr tag ++ (encode 8 msg.deliveryTag ++ (encode 1 msg.redelivered.toNat ++
    (writeShortStr msg.exchange ++ (writeShortStr msg.routingKey ++ []))))

def frame : Signal → RawFrame
  | .heartbeat => { type := FRAME_HEARTBEAT, channel := 0, payload := [] }
  | .reply op args => method op.expects args
  | .consumeOk tag _ => method ⟨60, 21⟩ (writeShortStr tag ++ [])
  | .confirm tag multiple nack =>
    method ⟨60, if nack then 120 else 80⟩ (encode 8 tag ++ (encode 1 multiple.toNat ++ []))
  | .deliver tag msg => method ⟨60, 60⟩ (deliverArgs tag msg)
  | .header size properties _ =>
    { type := FRAME_HEADER, channel := 1
      payload := encode 2 60 ++ encode 2 0 ++ (encode 8 size ++ properties) }
  | .body bytes _ => { type := FRAME_BODY, channel := 1, payload := bytes }

def bytes (s : Signal) : Bytes := buildFrame s.frame

/-- The fields have their widths. -/
def FieldsFit : Signal → Prop
  | .consumeOk tag _ => tag.length < 256
  | .confirm tag _ _ => tag < 256 ^ 8
  | .deliver tag msg => tag.length < 256 ∧ msg.deliveryTag < 256 ^ 8 ∧ msg.exchange.length < 256 ∧ msg.routingKey.length < 256
  | .header size _ _ => size < 256 ^ 8
  | _ => True

instance : (s : Signal) → Decidable s.FieldsFit
  | .heartbeat => isTrue trivial
  | .reply _ _ => isTrue trivial
  | .consumeOk _ _ => inferInstanceAs (Decidable (_ < _))
  | .confirm _ _ _ => inferInstanceAs (Decidable (_ < _))
  | .deliver _ _ => inferInstanceAs (Decidable (_ ∧ _))
  | .header _ _ _ => inferInstanceAs (Decidable (_ < _))
  | .body _ _ => isTrue trivial

def Fits (s : Signal) : Prop := s.frame.Fits ∧ s.FieldsFit

instance (s : Signal) : Decidable s.Fits := inferInstanceAs (Decidable (_ ∧ _))

def completes : Signal → Option Completion
  | .header _ _ done => done
  | .body _ done => done
  | _ => none

/-- The consumer tag of a Consume-Ok. -/
def subscribes : Signal → Option (Bytes × Nat)
  | .consumeOk tag handler => some (tag, handler)
  | _ => none

end Signal

/-- A delivery that is being written: its header is still to come, or bytes of its body. -/
structure Content where
  tag : Bytes
  msg : MessageFields
  size : Option Nat := none
  body : Bytes := []

structure DeliveryWorld where
  conn : AmqpConnection := {}
  /-- The bytes of the decoder, and those on the way. -/
  buf : Bytes := []
  pipe : Bytes := []
  /-- The frames that have not come as a whole. -/
  signals : List Signal := []
  content : Option Content := none
  /-- The handlers of the consumer tags that the broker has given. -/
  subscribed : OrderedMap Bytes Nat := []
  /-- The deliveries that have been written, with the handler of their tag. -/
  delivered : List (Nat × DeliveredMessage) := []

inductive DeliveryEvent where
  | call (op : Op)
  | publish
  | heartbeat
  /-- The broker takes the oldest frame: a request is answered, one to consume with a consumer tag. -/
  | serve (reply : Bytes)
  | confirm (tag : Nat) (multiple nack : Bool)
  | deliver (tag : Bytes) (msg : MessageFields)
  | header (size : Nat) (properties : Bytes)
  | body (bytes : Bytes)
  /-- A chunk of that many bytes comes. -/
  | data (n : Nat)

namespace DeliveryWorld

/-- The frames that are there as a whole within that many bytes, and the others. -/
def splitSignals : Nat → List Signal → List Signal × List Signal
  | _, [] => ([], [])
  | n, s :: ss =>
    if s.bytes.length ≤ n then
      let (came, rest) := splitSignals (n - s.bytes.length) ss
      (s :: came, rest)
    else ([], s :: ss)

variable (w : DeliveryWorld)

/-- The handler of a delivery and its message. -/
def handling : Completion → Nat × DeliveredMessage := fun (_, handler, message) => (handler, message)

/-- The broker writes a frame. -/
def write (s : Signal) : DeliveryWorld :=
  { w with pipe := w.pipe ++ s.bytes, signals := w.signals ++ [s], delivered := w.delivered ++ (s.completes.map handling).toList }

/-- The delivery of the content, when its body is all there. -/
def completion (content : Content) (size : Nat) : Option Completion :=
  if size ≤ content.body.length then
    (w.subscribed.get content.tag).map fun handler => (content.tag, handler, { msg := content.msg, body := content.body })
  else none

/-- The broker: only heartbeats come between the frames of a delivery. -/
def broker : DeliveryEvent → DeliveryWorld
  | .heartbeat => w.write .heartbeat
  | .serve reply =>
    match w.content, w.conn.sent with
    | none, .publish _ :: rest => { w with conn := { w.conn with sent := rest } }
    | none, .request _ (.consume handler) :: rest =>
      let s := Signal.consumeOk reply handler
      if s.Fits ∧ w.subscribed.get reply = none then
        { w.write s with conn := { w.conn with sent := rest }, subscribed := w.subscribed.set reply handler }
      else w
    | none, .request _ op :: rest =>
      let s := Signal.reply op reply
      if s.Fits then { w.write s with conn := { w.conn with sent := rest } } else w
    | _, _ => w
  | .confirm tag multiple nack =>
    let s := Signal.confirm tag multiple nack
    if w.content.isNone ∧ s.Fits then w.write s else w
  | .deliver tag msg =>
    let s := Signal.deliver tag msg
    if w.content.isNone ∧ s.Fits ∧ (w.subscribed.get tag).isSome then { w.write s with content := some { tag, msg } } else w
  | .header size properties =>
    match w.content with
    | some { tag, msg, size := none, body } =>
      let content := { tag, msg, size := some size, body }
      let s := Signal.header size properties (w.completion content size)
      if s.Fits then { w.write s with content := if size = 0 then none else some content } else w
    | _ => w
  | .body bytes =>
    match w.content with
    | some { tag, msg, size := some size, body } =>
      let content := { tag, msg, size := some size, body := body ++ bytes }
      let s := Signal.body bytes (w.completion content size)
      if s.Fits ∧ content.body.length ≤ size then
        { w.write s with content := if content.body.length = size then none else some content }
      else w
    | _ => w
  | _ => w

def step (w : DeliveryWorld) : DeliveryEvent → DeliveryWorld
  | .call op => { w with conn := w.conn.call op }
  | .publish => { w with conn := w.conn.publish }
  | .data n =>
    let chunk := w.buf ++ w.pipe.take n
    let (conn, buf) := AmqpConnection.onData chunk.length w.conn chunk
    { w with conn := conn.runMicrotasks, buf, pipe := w.pipe.drop n, signals := (splitSignals chunk.length w.signals).2 }
  | e => w.broker e

end DeliveryWorld

end StreetJS.Amqp
