/-
The connection manager of RabbitMQ (`core/src/transports/rabbitmq/index.ts`, `RabbitMqConnectionManager`): attempts
to connect, and callbacks for a new connection.
-/
import StreetJS.Amqp.Connection

namespace StreetJS.Amqp

/-- A call of `_connectWithRetry`: it goes on until it has a connection or the manager is closed. -/
inductive Attempt where
  | waiting
  | ready (k : Nat)
  | failed
deriving DecidableEq

/-- What `get` gives: a connection, or an attempt to wait for. -/
inductive Lease where
  | connection (k : Nat)
  | attempt (a : Nat)

structure RabbitMqConnectionManager where
  conn : Option Nat := none
  connectPromise : Option Nat := none
  closed : Bool := false
  /-- The callbacks of `onReconnect`. -/
  onReady : List Nat := []
  attempts : List Attempt := []

namespace RabbitMqConnectionManager

variable (m : RabbitMqConnectionManager)

/-- A new attempt. -/
def connectWithRetry : RabbitMqConnectionManager × Lease :=
  ({ m with connectPromise := some m.attempts.length, attempts := m.attempts ++ [.waiting] }, .attempt m.attempts.length)

/-- `get`: the connection while it is connected, or the attempt that goes on. -/
def get (connected : Nat → Bool) : RabbitMqConnectionManager × Lease :=
  match m.conn.filter connected, m.connectPromise with
  | some k, _ => (m, .connection k)
  | none, some a => (m, .attempt a)
  | none, none => m.connectWithRetry

/-- An attempt has the connection `k`: the callbacks are called once and forgotten. -/
def ready (a k : Nat) : RabbitMqConnectionManager × List Nat :=
  ({ m with conn := some k, connectPromise := none, onReady := [], attempts := m.attempts.set a (.ready k) }, m.onReady)

/-- An attempt that fails tries again, unless the manager is closed. -/
def retry (a : Nat) : RabbitMqConnectionManager :=
  if m.closed ∧ m.attempts[a]? = some .waiting then { m with attempts := m.attempts.set a .failed } else m

/-- `_onDisconnect`: it connects again at once. -/
def onDisconnect (connected : Nat → Bool) : RabbitMqConnectionManager :=
  let m' := { m with conn := none, connectPromise := none }
  if m.closed then m' else (m'.get connected).1

def onReconnect (callback : Nat) : RabbitMqConnectionManager := { m with onReady := m.onReady ++ [callback] }

end RabbitMqConnectionManager

end StreetJS.Amqp
