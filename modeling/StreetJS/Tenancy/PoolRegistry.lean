/-
The pools of the tenants (`core/src/tenancy/pool-registry.ts`): `getPool` in the stretches between its awaits,
`_buildPool`, and `releaseIdle`, over a table of tenants that changes at any time. How a connection string is
parsed as a URL, and which database it names, are parameters.
-/
import StreetJS.Lib.ListSet
import StreetJS.Lib.OrderedMap
import StreetJS.Lib.Runs

namespace StreetJS.Tenancy

open StreetJS.Lib

/-! ## Pools -/

/-- What `new URL` makes of a connection string. -/
structure Url where
  hostname : String
  port : String
  username : String
  password : String
  pathname : String

/-- `none` is a port that is `NaN`. -/
structure PoolOptions where
  host : String
  port : Option Nat
  user : String
  password : String
  database : String

/-- A database that can be connected to. -/
structure Endpoint where
  host : String
  port : Nat
  database : String
deriving DecidableEq

/-- `value || fallback`. -/
def orElse (value fallback : String) : String := if value = "" then fallback else value

/-- `pathname.replace(/^\//, '')`. -/
def stripSlash (pathname : String) : String :=
  match pathname.toList with
  | '/' :: rest => String.ofList rest
  | _ => pathname

/-- `parseInt(url.port, 10)`: the port of a URL is a number, or empty when it is not given. -/
def parsePort (port : String) : Option Nat :=
  match port.toList with
  | [] => none
  | digits => some (digits.foldl (fun n c => 10 * n + (c.toNat - 48)) 0)

/-- The options of the pool that `_buildPool` makes. -/
def poolOptions (url : Url) : PoolOptions where
  host := orElse url.hostname "localhost"
  port := parsePort url.port
  user := orElse url.username "postgres"
  password := url.password
  database := orElse (stripSlash url.pathname) "postgres"

/-- The database that a pool connects to, if it can connect. -/
def PoolOptions.endpoint (o : PoolOptions) : Option Endpoint := o.port.map fun port => ⟨o.host, port, o.database⟩

inductive PoolRef where
  | master
  | dedicated (i : Nat)
deriving DecidableEq

structure DedicatedPool where
  options : PoolOptions
  closed : Bool := false

structure PoolEntry where
  pool : PoolRef
  lastUsed : Int

/-- A row of `street_tenants`. -/
structure TenantRow where
  active : Bool
  connectionString : Option String

/-- `row['connection_string']`, when it is not NULL or empty. -/
def TenantRow.dedicated (row : TenantRow) : Option String := row.connectionString.filter (· ≠ "")

structure RegistryConfig where
  parseUrl : String → Option Url
  /-- The database that a connection string names. -/
  target : String → Endpoint

/-! ## The registry -/

/-- A call of `getPool`, at its awaits. -/
inductive CallPhase where
  /-- The lookup is on its way to the master pool. -/
  | lookup
  /-- Its answer is on its way back. -/
  | found (row : Option TenantRow)
  /-- The module of the pool is being imported. -/
  | importing (options : PoolOptions)
  /-- `_buildPool` has returned. -/
  | built (pool : PoolRef)
  | returned

/-- With the row of the tenant at the time of the call. -/
structure PoolCall where
  tenantId : String
  phase : CallPhase
  before : Option TenantRow

/-- A pool that was given to a tenant, with the row at the call and now, and whether the pool was closed. -/
structure Served where
  tenantId : String
  pool : PoolRef
  before : Option TenantRow
  after : Option TenantRow
  options : Option PoolOptions
  closed : Bool

structure TenantPoolRegistry where
  entries : OrderedMap String PoolEntry := []
  pools : List DedicatedPool := []
  calls : List PoolCall := []
  tenants : OrderedMap String TenantRow := []
  served : List Served := []

inductive RegistryEvent where
  | getPool (tenantId : String) (now : Int)
  /-- The master pool executes the lookup of a call. -/
  | answer (call : Nat)
  /-- A call goes on with the answer. -/
  | resume (call : Nat) (now : Int)
  /-- The import of a call succeeds or fails. -/
  | imported (call : Nat) (succeeds : Bool)
  /-- A call goes on with the pool that was built. -/
  | register (call : Nat) (now : Int)
  | releaseIdle (now maxIdleMs : Int)
  /-- The row of a tenant is written or removed. -/
  | tenantChanged (tenantId : String) (row : Option TenantRow)

namespace TenantPoolRegistry

variable (cfg : RegistryConfig) (s : TenantPoolRegistry)

def row (tenantId : String) : Option TenantRow := s.tenants.get tenantId

/-- The pool behind a reference, when it is not the master pool. -/
def pool? : PoolRef → Option DedicatedPool
  | .master => none
  | .dedicated i => s.pools[i]?

/-- A call returns a pool. -/
def serve (tenantId : String) (pool : PoolRef) (before : Option TenantRow) : TenantPoolRegistry :=
  { s with served := s.served ++ [{
      tenantId, pool, before
      after := s.row tenantId
      options := (s.pool? pool).map DedicatedPool.options
      closed := ((s.pool? pool).map DedicatedPool.closed).getD false }] }

def setPhase (i : Nat) (call : PoolCall) (phase : CallPhase) : TenantPoolRegistry :=
  { s with calls := s.calls.set i { call with phase } }

/-- `this._pools.set(tenantId, { pool, lastUsed })`. -/
def setEntry (tenantId : String) (pool : PoolRef) (now : Int) : TenantPoolRegistry :=
  { s with entries := s.entries.set tenantId ⟨pool, now⟩ }

def getPool (tenantId : String) (now : Int) : TenantPoolRegistry :=
  match s.entries.get tenantId with
  | some existing => (s.setEntry tenantId existing.pool now).serve tenantId existing.pool (s.row tenantId)
  | none => { s with calls := s.calls ++ [⟨tenantId, .lookup, s.row tenantId⟩] }

/-- `SELECT connection_string … WHERE id = $1 AND status = 'active'`. -/
def answer (i : Nat) : TenantPoolRegistry :=
  match s.calls[i]? with
  | none => s
  | some call =>
    match call.phase with
    | .lookup => s.setPhase i call (.found ((s.row call.tenantId).filter TenantRow.active))
    | _ => s

def resume (i : Nat) (now : Int) : TenantPoolRegistry :=
  match s.calls[i]? with
  | none => s
  | some call =>
    match call.phase with
    | .found none => s.setPhase i call .returned
    | .found (some row) =>
      match row.dedicated with
      | none =>
        ((s.setPhase i call .returned).setEntry call.tenantId .master now).serve call.tenantId .master call.before
      | some connectionString =>
        match cfg.parseUrl connectionString with
        | none => s.setPhase i call (.built .master)
        | some url => s.setPhase i call (.importing (poolOptions url))
    | _ => s

/-- `await import('../database/pool.js')`, and `new PgPool`. -/
def imported (i : Nat) (succeeds : Bool) : TenantPoolRegistry :=
  match s.calls[i]? with
  | none => s
  | some call =>
    match call.phase with
    | .importing options =>
      if succeeds then
        { s with
          pools := s.pools ++ [{ options }]
          calls := s.calls.set i { call with phase := .built (.dedicated s.pools.length) } }
      else s.setPhase i call (.built .master)
    | _ => s

def register (i : Nat) (now : Int) : TenantPoolRegistry :=
  match s.calls[i]? with
  | none => s
  | some call =>
    match call.phase with
    | .built pool => ((s.setPhase i call .returned).setEntry call.tenantId pool now).serve call.tenantId pool call.before
    | _ => s

/-- The entry has been unused for too long and has a pool of its own. -/
def idle (threshold : Int) (e : PoolEntry) : Bool := e.lastUsed < threshold ∧ e.pool ≠ .master

/-- The entry is released, and its pool closed. -/
def releaseIdle (now maxIdleMs : Int) : TenantPoolRegistry :=
  let released := s.entries.filter fun e => idle (now - maxIdleMs) e.2
  { s with
    entries := s.entries.filterMap fun e =>
      (if idle (now - maxIdleMs) e.2 then none else some e.2).map fun entry => (e.1, entry)
    pools := s.pools.mapIdx fun i pool =>
      if released.any fun e => e.2.pool = .dedicated i then { pool with closed := true } else pool }

def step : RegistryEvent → TenantPoolRegistry
  | .getPool tenantId now => s.getPool tenantId now
  | .answer i => s.answer i
  | .resume i now => s.resume cfg i now
  | .imported i succeeds => s.imported i succeeds
  | .register i now => s.register i now
  | .releaseIdle now maxIdleMs => s.releaseIdle now maxIdleMs
  | .tenantChanged tenantId none => { s with tenants := s.tenants.delete tenantId }
  | .tenantChanged tenantId (some row) => { s with tenants := s.tenants.set tenantId row }

end TenantPoolRegistry

/-! ## What is promised -/

/-- A pool that a tenant with this row may have: its own one on the database of its connection string. -/
def Fits (cfg : RegistryConfig) (row : TenantRow) (pool : PoolRef) (options : Option PoolOptions) : Prop :=
  ∀ connectionString, row.dedicated = some connectionString → pool ≠ .master ∧
    ∀ o, options = some o → ∀ e, o.endpoint = some e → e = cfg.target connectionString

/-- The tenant is active when it calls and when it is answered, and the pool is open and on its own database. -/
structure Served.Good (cfg : RegistryConfig) (x : Served) : Prop where
  before : ∃ row, x.before = some row ∧ row.active = true ∧ Fits cfg row x.pool x.options
  after : ∃ row, x.after = some row ∧ row.active = true ∧ Fits cfg row x.pool x.options
  opened : x.closed = false

/-- The pool is in an entry of the registry. -/
def TenantPoolRegistry.Registered (s : TenantPoolRegistry) (i : Nat) : Prop :=
  ∃ tenantId entry, s.entries.get tenantId = some entry ∧ entry.pool = .dedicated i

/-- The pool was made for a call that is about to register it. -/
def TenantPoolRegistry.InHand (s : TenantPoolRegistry) (i : Nat) : Prop :=
  ∃ call ∈ s.calls, ∃ pool, call.phase = .built pool ∧ pool = .dedicated i

structure RegistrySafe (cfg : RegistryConfig) (s : TenantPoolRegistry) : Prop where
  served : ∀ x ∈ s.served, x.Good cfg
  /-- No pool is left open outside the registry. -/
  pools : ∀ (i : Nat) pool, s.pools[i]? = some pool → s.Registered i ∨ pool.closed = true ∨ s.InHand i

/-- A call for the tenant is under way. -/
def TenantPoolRegistry.Underway (s : TenantPoolRegistry) (tenantId : String) : Prop :=
  ∃ call ∈ s.calls, call.tenantId = tenantId ∧ call.phase ≠ .returned

/-- The row of a tenant changes while the registry neither has an entry for it nor is at work on one; connection
strings are parsed as what they name, and the pool's module can be imported; and no dedicated pool is registered in
the place of another. -/
def RegistryGuard (cfg : RegistryConfig) (s : TenantPoolRegistry) : RegistryEvent → Prop
  | .getPool _ _ => True
  | .answer _ => True
  | .resume i _ => ∀ call row connectionString, s.calls[i]? = some call → call.phase = .found (some row) →
    row.dedicated = some connectionString → ∃ url, cfg.parseUrl connectionString = some url ∧
        ∀ e, (poolOptions url).endpoint = some e → e = cfg.target connectionString
  | .imported _ succeeds => succeeds = true
  | .register i _ => ∀ call, s.calls[i]? = some call → (∃ pool, call.phase = .built pool) → s.entries.get call.tenantId = none
  | .releaseIdle _ _ => True
  | .tenantChanged tenantId _ => s.entries.get tenantId = none ∧ ¬ s.Underway tenantId

end StreetJS.Tenancy
