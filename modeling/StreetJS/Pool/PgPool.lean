/-
The PostgreSQL connection pool, at the grain of its await points: every stretch of code between two
awaits is one step, and the continuations that are due are part of the state. Connections are named by
numbers, in the order in which their creation began; so are the callers of `acquire`.
-/
import StreetJS.Lib.Runs
import Mathlib.Data.List.Nodup

namespace StreetJS.Pool

open StreetJS.Lib

structure PoolOptions where
  minConnections : Nat := 2
  maxConnections : Nat := 10
  idleTimeoutMs : Int := 30000

/-- The states of a connection that the pool tells apart: `isReady`, neither, `isClosed`. -/
inductive ConnStatus where
  | ready
  | busy
  | closed
  deriving DecidableEq

/-- What a connection is created for. -/
inductive Purpose where
  | warmUp (w : Nat)
  | acquire (caller : Nat)
  | replacement
  deriving DecidableEq

/-- A run of `initialize`: how many of its creations have not resolved, and whether one has failed. -/
structure WarmUp where
  left : Nat
  failed : Bool := false
  deriving DecidableEq

/-- A pool with the continuations that are due and what its callers hold. -/
structure PgPool where
  connections : List Nat := []
  waitQueue : List Nat := []
  pendingCreations : Nat := 0
  closed : Bool := false
  initialized : Bool := false
  /-- The warm-up that `ensureInitialized` waits for. -/
  initPromise : Option Nat := none
  /-- The fields of the pooled connections, by number. -/
  inUse : Nat → Bool := fun _ => false
  lastUsed : Nat → Int := fun _ => 0
  status : Nat → ConnStatus := fun _ => .busy
  /-- Creations whose `PgConnection.connect` has not settled. -/
  connecting : List (Nat × Purpose) := []
  /-- Connections in the pool whose creator has not gone on. -/
  created : List (Nat × Purpose) := []
  /-- Replacements whose `finally` is due. -/
  finishing : Nat := 0
  warmUps : List WarmUp := []
  /-- Callers that wait for a warm-up, and callers whose warm-up has succeeded. -/
  cold : List (Nat × Nat) := []
  resumed : List Nat := []
  nextConnection : Nat := 0
  /-- The connections in the hands of callers, each with its caller. -/
  holding : List (Nat × Nat) := []
  settled : List (Nat × Except String Nat) := []

namespace PgPool

def maxWait : Nat := 100

/-- The promise of a caller rejects. -/
def reject (pool : PgPool) (caller : Nat) (error : String) : PgPool :=
  { pool with settled := pool.settled ++ [(caller, .error error)] }

/-- A connection is marked in use and handed to a caller. -/
def hand (pool : PgPool) (conn caller : Nat) : PgPool :=
  { pool with
    inUse := fun c => if c = conn then true else pool.inUse c
    holding := (conn, caller) :: pool.holding
    settled := pool.settled ++ [(caller, .ok conn)] }

/-- `_createConnection` up to its await. -/
def createConnection (pool : PgPool) (purpose : Purpose) : PgPool :=
  { pool with
    connecting := pool.connecting ++ [(pool.nextConnection, purpose)], nextConnection := pool.nextConnection + 1 }

/-- Creations of a warm-up, `n` of them. -/
def createMany (pool : PgPool) (w : Nat) : Nat → PgPool
  | 0 => pool
  | n + 1 => (pool.createConnection (.warmUp w)).createMany w n

section

variable (opts : PoolOptions)

variable (pool : PgPool)

/-- `initialize` up to its await: the minimum connections begin to be created. -/
def warmUp : PgPool :=
  createMany { pool with warmUps := pool.warmUps ++ [{ left := opts.minConnections }] } pool.warmUps.length opts.minConnections

/-- `this.connections.length + this.pendingCreations < this.opts.maxConnections`. -/
def hasRoom : Bool := decide (pool.connections.length + pool.pendingCreations < opts.maxConnections)

variable (caller : Nat)

/-- The caller takes its place in the wait queue, when it is not full. -/
def enqueue : PgPool :=
  if maxWait ≤ pool.waitQueue.length then pool.reject caller "Connection pool wait queue full"
  else { pool with waitQueue := pool.waitQueue ++ [caller] }

/-- A connection is created for the caller when there is room, or the caller waits. -/
def createOrWait : PgPool :=
  if pool.hasRoom opts then
    { pool with pendingCreations := pool.pendingCreations + 1 }.createConnection (.acquire caller)
  else pool.enqueue caller

variable (conn : Nat)

def removeConnection : PgPool :=
  { pool with connections := pool.connections.erase conn }

/-- The first connection that is closed, or idle and ready: what the loop of `_doAcquire` stops at. -/
def candidate : Option Nat :=
  pool.connections.find? fun c => pool.status c = .closed || (!pool.inUse c && pool.status c = .ready)

variable (now : Int)

/-- `_doAcquire`: an idle connection, or one created in its place when it is dead, or a new one, or a
place in the wait queue. -/
def doAcquire : PgPool :=
  if pool.closed then pool.reject caller "Pool is closed"
  else match pool.candidate with
    | some conn =>
      if pool.status conn = .closed then (pool.removeConnection conn).createOrWait opts caller
      else { pool with lastUsed := fun c => if c = conn then now else pool.lastUsed c }.hand conn caller
    | none => pool.createOrWait opts caller

/-- `acquire`: `_doAcquire` at once when the pool is warm; else the caller waits for the warm-up, which
it starts when none is cached. -/
def acquire : PgPool :=
  if pool.initialized then pool.doAcquire opts caller now
  else if pool.closed then pool.reject caller "Pool is closed"
  else match pool.initPromise with
    | some w => { pool with cold := pool.cold ++ [(caller, w)] }
    | none =>
      { pool with
        initPromise := some pool.warmUps.length
        cold := pool.cold ++ [(caller, pool.warmUps.length)] }.warmUp opts

/-- A caller whose warm-up has succeeded goes on. -/
def resume : PgPool :=
  if caller ∈ pool.resumed then
    { pool with resumed := pool.resumed.erase caller }.doAcquire opts caller now
  else pool

/-- The number of a warm-up whose creation has resolved, counted down. -/
def countDown (warmUps : List WarmUp) (w : Nat) : List WarmUp :=
  warmUps.modify w fun u => { u with left := u.left - 1 }

/-- `connect` has resolved: the connection is in the pool, and not in use as from the start; its creator
goes on later. -/
def connected : PgPool :=
  match pool.connecting.find? (·.1 = conn) with
  | none => pool
  | some (_, purpose) =>
    let pool :=
      { pool with
        connecting := pool.connecting.filter (·.1 ≠ conn)
        connections := pool.connections ++ [conn]
        lastUsed := fun c => if c = conn then now else pool.lastUsed c
        status := fun c => if c = conn then .ready else pool.status c }
    match purpose with
    | .warmUp w => { pool with warmUps := countDown pool.warmUps w }
    | _ => { pool with created := pool.created ++ [(conn, purpose)] }

/-- `connect` has failed. -/
def connectFailed (error : String) : PgPool :=
  match pool.connecting.find? (·.1 = conn) with
  | none => pool
  | some (_, purpose) =>
    let pool := { pool with connecting := pool.connecting.filter (·.1 ≠ conn) }
    match purpose with
    | .warmUp w => { pool with warmUps := pool.warmUps.modify w fun u => { u with failed := true } }
    | .acquire caller => { pool with pendingCreations := pool.pendingCreations - 1 }.reject caller error
    | .replacement => { pool with pendingCreations := pool.pendingCreations - 1 }

/-- The `finally` of a replacement. -/
def finish : PgPool :=
  if pool.finishing = 0 then pool
  else { pool with finishing := pool.finishing - 1, pendingCreations := pool.pendingCreations - 1 }

/-- All creations of a warm-up have resolved: the pool is warm and the callers that waited go on. -/
def warmed (w : Nat) : PgPool :=
  match pool.warmUps[w]? with
  | some u =>
    if u.left = 0 ∧ u.failed = false then
      { pool with
        initialized := true
        resumed := pool.resumed ++ (pool.cold.filter (·.2 = w)).map Prod.fst
        cold := pool.cold.filter (·.2 ≠ w) }
    else pool
  | none => pool

/-- A creation of a warm-up has failed: the callers that waited are rejected, and the next one starts
another warm-up. -/
def warmUpFailed (w : Nat) (error : String) : PgPool :=
  match pool.warmUps[w]? with
  | some u =>
    if u.failed then
      { pool with
        initPromise := if pool.initPromise = some w then none else pool.initPromise
        settled := pool.settled ++ (pool.cold.filter (·.2 = w)).map fun c => (c.1, .error error)
        cold := pool.cold.filter (·.2 ≠ w) }
    else pool
  | none => pool

/-- `_maybeCreateReplacement` up to its await. -/
def maybeCreateReplacement : PgPool :=
  if pool.closed then pool
  else if pool.hasRoom opts then
    { pool with pendingCreations := pool.pendingCreations + 1 }.createConnection .replacement
  else pool

/-- A connection is no longer in use. -/
def freed : PgPool :=
  { pool with
    inUse := fun c => if c = conn then false else pool.inUse c
    lastUsed := fun c => if c = conn then now else pool.lastUsed c }

/-- The next caller that waits is given the connection. -/
def serveWaiter : PgPool :=
  match pool.waitQueue with
  | waiter :: waiters => { pool with waitQueue := waiters }.hand conn waiter
  | [] => pool

/-- The creator of a connection goes on: it takes the connection for its own caller, or hands a
replacement to a caller that waits. -/
def creatorGoesOn : PgPool :=
  match pool.created.find? (·.1 = conn) with
  | none => pool
  | some (_, purpose) =>
    let pool := { pool with created := pool.created.filter (·.1 ≠ conn) }
    match purpose with
    | .acquire caller => { pool with pendingCreations := pool.pendingCreations - 1 }.hand conn caller
    | _ => { pool with finishing := pool.finishing + 1 }.serveWaiter conn

/-- `release`: the connection goes to the next waiter, to the idle ones, or out of the pool when it has
died. -/
def giveBack : PgPool :=
  if conn ∈ pool.connections then
    if pool.status conn = .closed then (pool.removeConnection conn).maybeCreateReplacement opts
    else if pool.status conn = .ready then (pool.freed conn now).serveWaiter conn
    else pool.freed conn now
  else pool

/-- A caller releases the connection it was given. -/
def release (conn caller : Nat) (now : Int) : PgPool :=
  giveBack opts { pool with holding := pool.holding.erase (conn, caller) } conn now

/-- The connections that a sweep removes: idle for too long, as long as more than the minimum remain. -/
def expired (pool : PgPool) (now : Int) : List Nat → List Nat → List Nat
  | [], toRemove => toRemove
  | c :: cs, toRemove =>
    if !pool.inUse c ∧ now - pool.lastUsed c > opts.idleTimeoutMs ∧ pool.connections.length - toRemove.length > opts.minConnections then
      expired pool now cs (toRemove ++ [c])
    else expired pool now cs toRemove

/-- `_sweepIdle`. -/
def sweepIdle : PgPool :=
  let toRemove := pool.expired opts now pool.connections []
  { pool with
    connections := toRemove.foldl List.erase pool.connections
    status := fun c => if c ∈ toRemove then .closed else pool.status c }

/-- The timer of a caller that waits. -/
def acquireTimeout : PgPool :=
  if caller ∈ pool.waitQueue then
    { pool with waitQueue := pool.waitQueue.erase caller }.reject caller "Connection acquire timeout"
  else pool

/-- `close` up to its await: the callers that wait are rejected and every connection is closed. -/
def close : PgPool :=
  { pool with
    closed := true
    waitQueue := []
    settled := pool.settled ++ pool.waitQueue.map fun caller => (caller, .error "Connection pool is closed")
    status := fun c => if c ∈ pool.connections then .closed else pool.status c }

/-- The end of `close`. -/
def closeDone : PgPool := { pool with connections := [] }

/-- A connection changes state outside the pool: a command starts or ends, or it dies for good. -/
def setStatus (st : ConnStatus) : PgPool :=
  if pool.status conn = .closed then pool
  else { pool with status := fun c => if c = conn then st else pool.status c }

end

end PgPool

/-- The steps of a pool, in any order. `query`, `stream` and `transaction` are an `acquire` and a
`release` of their caller. -/
inductive PoolEvent where
  | warmUp
  | acquire (caller : Nat) (now : Int)
  | resume (caller : Nat) (now : Int)
  | connected (conn : Nat) (now : Int)
  | connectFailed (conn : Nat) (error : String)
  | creatorGoesOn (conn : Nat)
  | finish
  | warmed (w : Nat)
  | warmUpFailed (w : Nat) (error : String)
  | release (conn caller : Nat) (now : Int)
  | sweepIdle (now : Int)
  | acquireTimeout (caller : Nat)
  | setStatus (conn : Nat) (st : ConnStatus)
  | close
  | closeDone

def PgPool.step (opts : PoolOptions) (pool : PgPool) : PoolEvent → PgPool
  | .warmUp => pool.warmUp opts
  | .acquire caller now => pool.acquire opts caller now
  | .resume caller now => pool.resume opts caller now
  | .connected conn now => pool.connected conn now
  | .connectFailed conn error => pool.connectFailed conn error
  | .creatorGoesOn conn => pool.creatorGoesOn conn
  | .finish => pool.finish
  | .warmed w => pool.warmed w
  | .warmUpFailed w error => pool.warmUpFailed w error
  | .release conn caller now => pool.release opts conn caller now
  | .sweepIdle now => pool.sweepIdle opts now
  | .acquireTimeout caller => pool.acquireTimeout caller
  | .setStatus conn st => pool.setStatus conn st
  | .close => pool.close
  | .closeDone => pool.closeDone

end StreetJS.Pool
