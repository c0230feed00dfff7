/-
The MySQL connection pool (`core/src/database/mysql/pool.ts`), at the grain of its await points, with `query`,
`stream` and `transaction` as far as they borrow and release. Connections are numbered in the order in which their
creation began, calls of `acquire` in the order in which they were made.
-/
import StreetJS.Lib.OrderedMap
import StreetJS.Pool.PgPool

namespace StreetJS.Mysql

open StreetJS.Lib
open Pool (PoolOptions ConnStatus)

/-- What a connection is created for. -/
inductive Purpose where
  | warmUp
  | acquire (caller : Nat)
  | replacement
deriving DecidableEq

/-- Who calls `acquire`. -/
inductive BorrowKind where
  | caller
  | query
  | stream
  | transaction

/-- What a borrowed connection is used for. -/
inductive Use where
  | caller
  | query
  /-- `queryStream` is about to be called. -/
  | opening
  | streaming
  | starting
  | working
  | committing
  | rollingBack
  /-- `queryStream` has thrown. -/
  | abandoned
deriving DecidableEq

def BorrowKind.firstUse : BorrowKind → Use
  | .caller => .caller
  | .query => .query
  | .stream => .opening
  | .transaction => .starting

/-- A connection in the hands of a borrower. -/
structure Lent where
  conn : Nat
  caller : Nat
  use : Use
deriving DecidableEq

/-- How a call of `acquire` has settled, and whether the pool was closed. -/
structure Settlement where
  caller : Nat
  result : Except String Nat
  closed : Bool

structure MysqlPool where
  connections : List Nat := []
  waitQueue : List Nat := []
  pendingCreations : Nat := 0
  closed : Bool := false
  /-- The fields of the pooled connections, by number. -/
  inUse : Nat → Bool := fun _ => false
  lastUsed : Nat → Int := fun _ => 0
  status : Nat → ConnStatus := fun _ => .busy
  /-- Creations whose `MysqlConnection.connect` has not settled. -/
  connecting : OrderedMap Nat Purpose := []
  /-- Connections in the pool whose creator has not gone on. -/
  created : OrderedMap Nat Purpose := []
  /-- Replacements whose `finally` is due. -/
  finishing : Nat := 0
  nextConnection : Nat := 0
  /-- The calls of `acquire`. -/
  kinds : List BorrowKind := []
  lent : List Lent := []
  settled : List Settlement := []
  /-- The borrowers that have called `release`. -/
  releases : List Nat := []
  /-- Connections that a sweep has closed while they were lent. -/
  sweptLent : List Nat := []

namespace MysqlPool

variable (pool : MysqlPool) (opts : PoolOptions)

/-- `MAX_WAIT`. -/
def maxWait : Nat := 100

/-- The promise of a caller rejects. -/
def reject (caller : Nat) (error : String) : MysqlPool :=
  { pool with settled := pool.settled ++ [⟨caller, .error error, pool.closed⟩] }

/-- A connection is marked in use, and the promise of a caller resolves with it. -/
def hand (conn caller : Nat) : MysqlPool :=
  { pool with
    inUse := fun c => if c = conn then true else pool.inUse c
    lent := ⟨conn, caller, (pool.kinds.getD caller .caller).firstUse⟩ :: pool.lent
    settled := pool.settled ++ [⟨caller, .ok conn, pool.closed⟩] }

/-- `_createConnection` up to its await. -/
def createConnection (purpose : Purpose) : MysqlPool :=
  { pool with
    connecting := pool.connecting ++ [(pool.nextConnection, purpose)]
    nextConnection := pool.nextConnection + 1 }

/-- Creations of a warm-up, `n` of them. -/
def createMany (pool : MysqlPool) : Nat → MysqlPool
  | 0 => pool
  | n + 1 => (pool.createConnection .warmUp).createMany n

/-- `initialize` up to its await. -/
def warmUp : MysqlPool := pool.createMany opts.minConnections

/-- `this.connections.length + this.pendingCreations < this.opts.maxConnections`. -/
def hasRoom : Bool := decide (pool.connections.length + pool.pendingCreations < opts.maxConnections)

/-- The caller takes its place in the wait queue, when it is not full. -/
def enqueue (caller : Nat) : MysqlPool :=
  if maxWait ≤ pool.waitQueue.length then pool.reject caller "MysqlPool wait queue full"
  else { pool with waitQueue := pool.waitQueue ++ [caller] }

/-- A connection is created when there is room; its creation is counted. -/
def create (purpose : Purpose) : MysqlPool :=
  { pool with pendingCreations := pool.pendingCreations + 1 }.createConnection purpose

def createOrWait (caller : Nat) : MysqlPool :=
  if pool.hasRoom opts then pool.create (.acquire caller) else pool.enqueue caller

variable (conn : Nat)

def removeConnection : MysqlPool := { pool with connections := pool.connections.erase conn }

/-- The first connection that is closed, or idle and ready: where the loop of `acquire` stops. -/
def candidate : Option Nat :=
  pool.connections.find? fun c => pool.status c = .closed || (!pool.inUse c && pool.status c = .ready)

/-- `acquire`, by the next caller. -/
def acquire (kind : BorrowKind) (now : Int) : MysqlPool :=
  let caller := pool.kinds.length
  let pool := { pool with kinds := pool.kinds ++ [kind] }
  if pool.closed then pool.reject caller "MysqlPool is closed"
  else match pool.candidate with
    | some conn =>
      if pool.status conn = .closed then (pool.removeConnection conn).createOrWait opts caller
      else { pool with lastUsed := fun c => if c = conn then now else pool.lastUsed c }.hand conn caller
    | none => pool.createOrWait opts caller

/-- `connect` has resolved: the connection is in the pool, and its creator goes on later. -/
def connected (now : Int) : MysqlPool :=
  match pool.connecting.get conn with
  | none => pool
  | some purpose =>
    { pool with
      connecting := pool.connecting.delete conn
      connections := pool.connections ++ [conn]
      created := if purpose = .warmUp then pool.created else pool.created ++ [(conn, purpose)]
      inUse := fun c => if c = conn then false else pool.inUse c
      lastUsed := fun c => if c = conn then now else pool.lastUsed c
      status := fun c => if c = conn then .ready else pool.status c }

/-- `connect` has failed. -/
def connectFailed (error : String) : MysqlPool :=
  match pool.connecting.get conn with
  | none => pool
  | some purpose =>
    let pool := { pool with
      connecting := pool.connecting.delete conn
      status := fun c => if c = conn then .closed else pool.status c }
    match purpose with
    | .warmUp => pool
    | .acquire caller => { pool with pendingCreations := pool.pendingCreations - 1 }.reject caller error
    | .replacement => { pool with finishing := pool.finishing + 1 }

/-- The `finally` of a replacement. -/
def finish : MysqlPool :=
  if pool.finishing = 0 then pool
  else { pool with finishing := pool.finishing - 1, pendingCreations := pool.pendingCreations - 1 }

/-- The next caller that waits is given the connection. -/
def serveWaiter : MysqlPool :=
  match pool.waitQueue with
  | waiter :: waiters => { pool with waitQueue := waiters }.hand conn waiter
  | [] => pool

/-- The creator of a connection goes on: it takes the connection for its own caller, or hands a replacement to a
caller that waits. -/
def creatorGoesOn : MysqlPool :=
  match pool.created.get conn with
  | none => pool
  | some purpose =>
    let pool := { pool with created := pool.created.delete conn }
    match purpose with
    | .acquire caller => { pool with pendingCreations := pool.pendingCreations - 1 }.hand conn caller
    | _ => { pool with finishing := pool.finishing + 1 }.serveWaiter conn

/-- `_maybeCreateReplacement` up to its await. -/
def maybeCreateReplacement : MysqlPool :=
  if pool.closed then pool
  else if pool.hasRoom opts then pool.create .replacement
  else pool

/-- A connection is no longer in use. -/
def freed (now : Int) : MysqlPool :=
  { pool with
    inUse := fun c => if c = conn then false else pool.inUse c
    lastUsed := fun c => if c = conn then now else pool.lastUsed c }

/-- `release`. -/
def giveBack (now : Int) : MysqlPool :=
  if conn ∈ pool.connections then
    if pool.status conn = .closed then (pool.removeConnection conn).maybeCreateReplacement opts
    else if pool.status conn = .ready then (pool.freed conn now).serveWaiter conn
    else pool.freed conn now
  else pool

/-- A borrower calls `release` with the connection that it was given. -/
def release (l : Lent) (now : Int) : MysqlPool :=
  giveBack { pool with lent := pool.lent.erase l, releases := pool.releases ++ [l.caller] } opts l.conn now

/-- A borrowed connection is put to another use. -/
def reuse (l : Lent) (use : Use) : MysqlPool :=
  { pool with lent := pool.lent.map fun x => if x = l then { l with use } else x }

/-- A borrower goes on: a caller of `acquire` releases, an awaited query of `query` or `transaction` (or the body of
the transaction) comes back or fails, `queryStream` is called, or its stream is closed. -/
def goOn (caller : Nat) (succeeds : Bool) (now : Int) : MysqlPool :=
  match pool.lent.find? (·.caller = caller) with
  | none => pool
  | some l =>
    match l.use with
    | .caller => pool.release opts l now
    | .query => pool.release opts l now
    | .opening => pool.reuse l (if pool.status l.conn = .ready then .streaming else .abandoned)
    | .streaming => pool.release opts l now
    | .starting => pool.reuse l (if succeeds then .working else .rollingBack)
    | .working => pool.reuse l (if succeeds then .committing else .rollingBack)
    | .committing => if succeeds then pool.release opts l now else pool.reuse l .rollingBack
    | .rollingBack => pool.release opts l now
    | .abandoned => pool

/-- The connections that a sweep removes: idle for too long, as long as more than the minimum remain. -/
def expired (now : Int) : List Nat → List Nat → List Nat
  | [], toRemove => toRemove
  | c :: cs, toRemove =>
    if !pool.inUse c ∧ now - pool.lastUsed c > opts.idleTimeoutMs ∧ pool.connections.length - toRemove.length > opts.minConnections then
      expired now cs (toRemove ++ [c])
    else expired now cs toRemove

/-- `_sweepIdle`. -/
def sweepIdle (now : Int) : MysqlPool :=
  let toRemove := pool.expired opts now pool.connections []
  { pool with
    connections := pool.connections.filter (· ∉ toRemove)
    status := fun c => if c ∈ toRemove then .closed else pool.status c
    sweptLent := pool.sweptLent ++ toRemove.filter fun c => pool.lent.any (·.conn = c) }

/-- The timer of a caller that waits. -/
def acquireTimeout (caller : Nat) : MysqlPool :=
  if caller ∈ pool.waitQueue then
    { pool with waitQueue := pool.waitQueue.erase caller }.reject caller "MysqlPool acquire timeout"
  else pool

/-- `close` up to its await: the callers that wait are rejected and every connection is closed. -/
def close : MysqlPool :=
  { pool with
    closed := true
    waitQueue := []
    settled := pool.settled ++ pool.waitQueue.map fun caller => ⟨caller, .error "MysqlPool is closed", true⟩
    status := fun c => if c ∈ pool.connections then .closed else pool.status c }

/-- The end of `close`. -/
def closeDone : MysqlPool := if pool.closed then { pool with connections := [] } else pool

/-- A connection changes state outside the pool: a command starts or ends, or it dies for good. -/
def setStatus (st : ConnStatus) : MysqlPool :=
  if pool.status conn = .closed then pool
  else { pool with status := fun c => if c = conn then st else pool.status c }

end MysqlPool

inductive PoolEvent where
  | warmUp
  | acquire (kind : BorrowKind) (now : Int)
  | connected (conn : Nat) (now : Int)
  | connectFailed (conn : Nat) (error : String)
  | creatorGoesOn (conn : Nat)
  | finish
  | goOn (caller : Nat) (succeeds : Bool) (now : Int)
  | sweepIdle (now : Int)
  | acquireTimeout (caller : Nat)
  | setStatus (conn : Nat) (st : ConnStatus)
  | close
  | closeDone

def MysqlPool.step (opts : PoolOptions) (pool : MysqlPool) : PoolEvent → MysqlPool
  | .warmUp => pool.warmUp opts
  | .acquire kind now => pool.acquire opts kind now
  | .connected conn now => pool.connected conn now
  | .connectFailed conn error => pool.connectFailed conn error
  | .creatorGoesOn conn => pool.creatorGoesOn conn
  | .finish => pool.finish
  | .goOn caller succeeds now => pool.goOn opts caller succeeds now
  | .sweepIdle now => pool.sweepIdle opts now
  | .acquireTimeout caller => pool.acquireTimeout caller
  | .setStatus conn st => pool.setStatus conn st
  | .close => pool.close
  | .closeDone => pool.closeDone

/-! ## What is promised -/

namespace MysqlPool

variable (pool : MysqlPool)

/-- Calls of `acquire` that wait for a connection of their own. -/
def creating : List Nat :=
  (pool.connecting ++ pool.created).filterMap fun x =>
    match x.2 with
    | .acquire caller => some caller
    | _ => none

/-- Callers that were given a connection. -/
def served : List Nat :=
  pool.settled.filterMap fun x =>
    match x.result with
    | .ok _ => some x.caller
    | .error _ => none

def Held (conn : Nat) : Prop := ∃ l ∈ pool.lent, l.conn = conn

end MysqlPool

structure PoolSafe (opts : PoolOptions) (pool : MysqlPool) : Prop where
  exclusive : (pool.lent.map Lent.conn).Nodup
  swept : pool.sweptLent = []
  bounded : pool.connections.length + pool.connecting.length ≤ opts.maxConnections
  /-- Every call has settled once, or waits in one place. -/
  settled : (pool.settled.map Settlement.caller ++ pool.waitQueue ++ pool.creating).Perm (List.range pool.kinds.length)
  queue : pool.waitQueue.length ≤ MysqlPool.maxWait
  /-- When a caller waits, every connection there may be is lent or is being created. -/
  slots : pool.closed = false → pool.waitQueue ≠ [] → pool.connections.length + pool.connecting.length = opts.maxConnections ∧
      ∀ c ∈ pool.connections, pool.Held c ∨ c ∈ pool.created.map Prod.fst
  /-- Every borrower has its connection yet, or has released it once. -/
  released : (pool.lent.map Lent.caller ++ pool.releases).Perm pool.served
  abandoned : ∀ l ∈ pool.lent, l.use ≠ .abandoned
  /-- After `close` no connection is open or being created, and none is lent out. -/
  closed : pool.closed = true → pool.connecting = [] ∧ ∀ c < pool.nextConnection, pool.status c = .closed
  afterClose : ∀ x ∈ pool.settled, x.closed = true → ∃ error, x.result = .error error

end StreetJS.Mysql
