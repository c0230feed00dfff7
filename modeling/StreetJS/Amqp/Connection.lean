/-
The AMQP connection (`core/src/transports/rabbitmq/connection.ts`, `AmqpConnection`) with its channel open: calls
that wait for the reply of their method, publishes that wait for a confirm, and consumers.
-/
import StreetJS.Lib.OrderedMap
import StreetJS.Amqp.Codec

namespace StreetJS.Amqp

open StreetJS.Lib

/-! ## Operations -/

/-- The synchronous operations; `consume` has a handler. -/
inductive Op where
  | declareExchange
  | declareQueue
  | bindQueue
  | enableConfirms
  | setQos
  | consume (handler : Nat)
deriving DecidableEq

/-- The reply that an operation waits for. -/
def Op.expects : Op → MethodKey
  | .declareExchange => ⟨40, 11⟩
  | .declareQueue => ⟨50, 11⟩
  | .bindQueue => ⟨50, 21⟩
  | .enableConfirms => ⟨85, 11⟩
  | .setQos => ⟨60, 11⟩
  | .consume _ => ⟨60, 21⟩

/-- The state of a promise; the arguments of a reply are those of the method that came. -/
inductive Outcome where
  | pending
  | replied (args : Bytes)
  | resolved
  | rejected
deriving DecidableEq

/-- A promise is settled once. -/
def Outcome.settle : Outcome → Outcome → Outcome
  | .pending, o => o
  | o, _ => o

structure Call where
  op : Op
  outcome : Outcome := .pending
deriving DecidableEq

/-- What a connection writes to its socket: the request of a call, or a publish with its header and body. -/
inductive ClientFrame where
  | request (call : Nat) (op : Op)
  | publish (message : Nat)

structure MessageFields where
  deliveryTag : Nat
  redelivered : Bool
  exchange : Bytes
  routingKey : Bytes
deriving DecidableEq

structure DeliveredMessage where
  msg : MessageFields
  body : Bytes
deriving DecidableEq

structure PendingDelivery where
  tag : Bytes
  msg : MessageFields
  bodySize : Nat := 0
  chunks : List Bytes := []

structure AmqpConnection where
  connected : Bool := true
  /-- The call that waits for a reply. -/
  waiters : OrderedMap MethodKey Nat := []
  nextPublishTag : Nat := 1
  /-- The publish that waits for the confirm of a tag. -/
  confirmWaiters : OrderedMap Nat Nat := []
  confirmEnabled : Bool := false
  pendingDelivery : Option PendingDelivery := none
  consumers : OrderedMap Bytes Nat := []
  calls : List Call := []
  publishes : List Outcome := []
  /-- What is written and not read by the broker. -/
  sent : List ClientFrame := []
  /-- The calls that have a reply and are to go on. -/
  microtasks : List Nat := []
  /-- The calls of the handlers. -/
  handled : List (Nat × DeliveredMessage) := []

namespace AmqpConnection

variable (c : AmqpConnection)

/-! ## Calls -/

/-- `_rpc`: the waiter of the reply is replaced; a socket that is not connected rejects. -/
def rpc (op : Op) : AmqpConnection :=
  let call := c.calls.length
  let waiting := { c with waiters := c.waiters.set op.expects call }
  if c.connected then
    { waiting with calls := c.calls ++ [{ op }], sent := c.sent ++ [.request call op] }
  else { waiting with calls := c.calls ++ [{ op, outcome := .rejected }] }

/-- A synchronous operation; confirms are enabled only once. -/
def call (op : Op) : AmqpConnection :=
  if op = .enableConfirms ∧ c.confirmEnabled then { c with calls := c.calls ++ [{ op, outcome := .resolved }] }
  else c.rpc op

def settleCall (i : Nat) (o : Outcome) : AmqpConnection :=
  { c with calls := c.calls.modify i fun call => { call with outcome := call.outcome.settle o } }

/-- A synchronous reply goes to the waiter of its method. -/
def handleReply (key : MethodKey) (args : Bytes) : AmqpConnection :=
  match c.waiters.get key with
  | some i =>
    { c.settleCall i (.replied args) with waiters := c.waiters.delete key, microtasks := c.microtasks ++ [i] }
  | none => c

/-- What follows the `await` of a call: confirms are enabled, or the consumer has its handler. -/
def continueCall (i : Nat) : AmqpConnection :=
  match c.calls[i]? with
  | some { op := .enableConfirms, outcome := .replied _ } => { c with confirmEnabled := true }
  | some { op := .consume handler, outcome := .replied args } =>
    match shortStr args with
    | some (tag, _) => { c with consumers := c.consumers.set tag handler }
    | none => c
  | _ => c

/-- The next of the calls that are to go on. -/
def runMicrotask : AmqpConnection :=
  match c.microtasks with
  | [] => c
  | i :: rest => { c with microtasks := rest }.continueCall i

/-- How a call stands for its caller: completed (and what followed it has run), failed, or waiting. -/
def settled (i : Nat) : Option Bool :=
  match c.calls[i]? with
  | some { op := _, outcome := .replied _ } => if i ∈ c.microtasks then none else some true
  | some { op := _, outcome := .resolved } => some true
  | some { op := _, outcome := .rejected } => some false
  | _ => none

/-! ## Publishes -/

/-- `publish`: without confirms it resolves at once. -/
def publish : AmqpConnection :=
  let message := c.publishes.length
  let tagged :=
    if c.confirmEnabled then
      { c with nextPublishTag := c.nextPublishTag + 1, confirmWaiters := c.confirmWaiters.set c.nextPublishTag message }
    else c
  if c.connected then
    { tagged with
      publishes := c.publishes ++ [if c.confirmEnabled then .pending else .resolved]
      sent := c.sent ++ [.publish message] }
  else { tagged with publishes := c.publishes ++ [.rejected] }

/-- `resolveTag` of `_handleConfirm` -/
def resolveTag (tag : Nat) (nack : Bool) : AmqpConnection :=
  match c.confirmWaiters.get tag with
  | some message =>
    { c with
      publishes := c.publishes.modify message fun o => o.settle (if nack then .rejected else .resolved)
      confirmWaiters := c.confirmWaiters.delete tag }
  | none => c

/-- `_handleConfirm`: one tag, or all that are waited for up to it. -/
def confirm (tag : Nat) (multiple nack : Bool) : AmqpConnection :=
  if multiple then
    ((c.confirmWaiters.map Prod.fst).filter fun key => decide (key ≤ tag)).foldl (fun c key => c.resolveTag key nack) c
  else c.resolveTag tag nack

/-! ## Deliveries -/

/-- `_beginDelivery` -/
def beginDelivery (args : Bytes) : Option PendingDelivery := do
  let (tag, rest) ← shortStr args
  let (deliveryTag, rest) ← longLong rest
  let (redelivered, rest) ← bit rest
  let (exchange, rest) ← shortStr rest
  let (routingKey, _) ← shortStr rest
  some { tag, msg := { deliveryTag, redelivered, exchange, routingKey } }

/-- `_finishDelivery`: a message without a handler is dropped. -/
def finishDelivery (pending : PendingDelivery) : AmqpConnection :=
  match c.consumers.get pending.tag with
  | some handler =>
    { c with pendingDelivery := none, handled := c.handled ++ [(handler, { msg := pending.msg, body := pending.chunks.flatten })] }
  | none => { c with pendingDelivery := none }

/-- `_handleHeader`: the size of the body is behind the class and the weight. -/
def handleHeader (payload : Bytes) : AmqpConnection :=
  match c.pendingDelivery, longLong (payload.drop 4) with
  | some pending, some (bodySize, _) =>
    if bodySize = 0 then c.finishDelivery { pending with bodySize }
    else { c with pendingDelivery := some { pending with bodySize } }
  | _, _ => c

/-- `_handleBody` -/
def handleBody (payload : Bytes) : AmqpConnection :=
  match c.pendingDelivery with
  | some pending =>
    let pending := { pending with chunks := pending.chunks ++ [payload] }
    if pending.bodySize ≤ (pending.chunks.map List.length).sum then c.finishDelivery pending
    else { c with pendingDelivery := some pending }
  | none => c

/-! ## Frames -/

/-- The methods of `_handleFrame`; those of the connection itself leave the channel as it is. -/
def handleMethod (key : MethodKey) (args : Bytes) : AmqpConnection :=
  if key.classId = 10 ∧ (key.methodId = 10 ∨ key.methodId = 30 ∨ key.methodId = 41 ∨ key.methodId = 50) then c
  else if key = ⟨60, 60⟩ then
    match beginDelivery args with
    | some pending => { c with pendingDelivery := some pending }
    | none => c
  else if key = ⟨60, 80⟩ ∨ key = ⟨60, 120⟩ then
    match longLong args with
    | some (tag, rest) =>
      match bit rest with
      | some (multiple, _) => c.confirm tag multiple (key = ⟨60, 120⟩)
      | none => c
    | none => c
  else c.handleReply key args

/-- `_handleFrame`: where the reader throws, the frame is left. -/
def handleFrame (frame : RawFrame) : AmqpConnection :=
  if frame.type = FRAME_HEARTBEAT then c
  else if frame.type = FRAME_HEADER then c.handleHeader frame.payload
  else if frame.type = FRAME_BODY then c.handleBody frame.payload
  else if frame.type = FRAME_METHOD then
    match readMethodHeader frame.payload with
    | some (key, args) => c.handleMethod key args
    | none => c
  else c

/-! ## What the operations leave as it is -/

theorem call_eq (op : Op) : ∃ o waiters sent, c.call op = { c with calls := c.calls ++ [{ op, outcome := o }], waiters, sent } ∧
      (c.connected = true → o ≠ .rejected) ∧ (∀ args, o ≠ .replied args) ∧ (o = .resolved → op = .enableConfirms) := by
  unfold call
  split
  · next h => exact ⟨.resolved, c.waiters, c.sent, rfl, by simp, by simp, fun _ => h.1⟩
  · unfold rpc
    split
    · exact ⟨.pending, _, _, rfl, by simp, by simp, by simp⟩
    · next h => exact ⟨.rejected, _, c.sent, rfl, fun hc => absurd hc h, by simp, by simp⟩

theorem settled_call {i : Nat} (hi : i < c.calls.length) (op : Op) : (c.call op).settled i = c.settled i := by
  obtain ⟨o, waiters, sent, hcall, -⟩ := c.call_eq op
  unfold settled
  rw [hcall]
  simp only [List.getElem?_append_left hi]

theorem confirm_eq (tag : Nat) (multiple nack : Bool) : ∃ publishes confirmWaiters,
    c.confirm tag multiple nack = { c with publishes, confirmWaiters } := by
  have hresolve : ∀ (c : AmqpConnection) (tag : Nat), ∃ publishes confirmWaiters,
      c.resolveTag tag nack = { c with publishes, confirmWaiters } := by
    intro c tag
    unfold resolveTag
    split
    · exact ⟨_, _, rfl⟩
    · exact ⟨c.publishes, c.confirmWaiters, rfl⟩
  have hfold : ∀ (keys : List Nat) (c : AmqpConnection), ∃ publishes confirmWaiters,
      keys.foldl (fun c key => c.resolveTag key nack) c = { c with publishes, confirmWaiters } := by
    intro keys
    induction keys with
    | nil => exact fun c => ⟨c.publishes, c.confirmWaiters, rfl⟩
    | cons key keys ih =>
      intro c
      obtain ⟨publishes, waiters, hkey⟩ := hresolve c key
      obtain ⟨publishes', waiters', hkeys⟩ := ih (c.resolveTag key nack)
      refine ⟨publishes', waiters', ?_⟩
      rw [List.foldl_cons, hkeys, hkey]
  unfold confirm
  split
  · exact hfold _ c
  · exact hresolve c tag

theorem runMicrotask_eq : ∃ microtasks confirmEnabled consumers, c.runMicrotask = { c with microtasks, confirmEnabled, consumers } := by
  unfold runMicrotask continueCall
  repeat' split
  all_goals exact ⟨_, _, _, rfl⟩

end AmqpConnection

end StreetJS.Amqp
