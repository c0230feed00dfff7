/-
The audit logger (`core/src/enterprise/audit-logger.ts`): `log`, `flush` and the timer over a pool whose queries
may fail, query by query. `Reflect.getMetadata` of an entity class is the list of its sensitive fields; HMAC, UUIDs
and what a JSONB column makes of a value are parameters. The hex digits of a signature do not run into the JSON
text behind them, which opens with a bracket, so a signature counts as one piece of a text.
-/
import StreetJS.Lib.Json
import StreetJS.Lib.OrderedMap
import StreetJS.Lib.Runs

namespace StreetJS.Enterprise

open StreetJS.Lib

/-! ## Entries and rows -/

/-- The own properties of an entry in order, the class of its entity apart; `none` is `undefined`. -/
abbrev AuditEntry := OrderedMap String (Option Json)

/-- A text that is signed. -/
inductive Text (S : Type) where
  | signature (s : S)
  | token (t : Json.Token)

/-- A row of `street_audit_log` but for its signature; `none` is NULL. -/
structure AuditRow where
  id : Option Json
  category : Option Json
  actorId : Option Json
  action : Option Json
  resource : Option Json
  beforeState : Option Json
  afterState : Option Json
  ip : Option Json
  userAgent : Option Json
  batchId : Option Json
  createdAt : Option Json

/-- What the logger works with: its key, HMAC-SHA256, the UUIDs in the order of their making, and what a JSONB
column makes of a value. -/
structure AuditConfig (S : Type) where
  signingKey : String
  hmac : String → List (Text S) → S
  uuid : Nat → String
  jsonb : Json → Json

/-- `BATCH_SIZE`. -/
def batchSize : Nat := 100

/-- A property that was not set is `undefined`. -/
def AuditEntry.read (e : AuditEntry) (key : String) : Option Json := (e.get key).join

/-- `value ?? null`. -/
def nullish : Option Json → Option Json
  | some .null => none
  | value => value

/-- `{ ...state }` of an object or an array. -/
def spread : Json → List (String × Json)
  | .obj fields => fields
  | .arr items => items.zipIdx.map fun (item, i) => (toString i, item)
  | _ => []

/-- `_redactSensitive`, with the sensitive fields of the class. -/
def redactSensitive (state : Option Json) (entityClass : Option (List String)) : Option Json :=
  match entityClass, state with
  | some (field :: fields), some (.obj o) => some (.obj (redact (field :: fields) o))
  | some (field :: fields), some (.arr items) => some (.obj (redact (field :: fields) (spread (.arr items))))
  | _, state => state
where
  redact (sensitive : List String) (out : List (String × Json)) : List (String × Json) :=
    out.map fun (key, value) => if key ∈ sensitive then (key, .str "[REDACTED]") else (key, value)

/-- The entry that `log` puts into the pending batch. -/
def batchEntry (opts : AuditEntry) (entityClass : Option (List String)) (id createdAt : String) : AuditEntry :=
  let e := opts.set "beforeState" (redactSensitive (opts.read "beforeState") entityClass)
  let e := e.set "afterState" (redactSensitive (opts.read "afterState") entityClass)
  let e := e.set "id" (some (.str id))
  let e := e.set "batchId" (some (.str ""))
  e.set "createdAt" (some (.str createdAt))

/-- `entry.batchId = batchId`. -/
def AuditEntry.assign (e : AuditEntry) (batchId : String) : AuditEntry :=
  e.set "batchId" (some (.str batchId))

/-- The object that `JSON.stringify` writes for an entry: `undefined` is left out. -/
def AuditEntry.json (e : AuditEntry) : Json := .obj (e.filterMap fun (key, value) => value.map (key, ·))

/-- The parameters of the INSERT, as the columns keep them. -/
def insertRow (jsonb : Json → Json) (e : AuditEntry) (batchId : String) : AuditRow where
  id := e.read "id"
  category := nullish (e.read "category")
  actorId := nullish (e.read "actorId")
  action := nullish (e.read "action")
  resource := nullish (e.read "resource")
  beforeState := ((e.read "beforeState").filter Json.truthy).map jsonb
  afterState := ((e.read "afterState").filter Json.truthy).map jsonb
  ip := nullish (e.read "ip")
  userAgent := nullish (e.read "userAgent")
  batchId := some (.str batchId)
  createdAt := e.read "createdAt"

/-! ## The logger -/

/-- A flush that has taken the pending entries: its batch, whether a caller awaits it, how many of the rows are
stored, and whether a query has failed. -/
structure Batch (S : Type) where
  id : String
  entries : List AuditEntry
  signature : S
  awaited : Bool
  written : Nat := 0
  failed : Bool := false

/-- The logger, the batches in the order of their signing, the table, and the ids of what was logged. -/
structure AuditLogger (S : Type) where
  pendingBatch : List AuditEntry := []
  previousSignature : Option S := none
  flushTimer : Bool := false
  batches : List (Batch S) := []
  table : List (AuditRow × S) := []
  uuids : Nat := 0
  logged : List (Option Json) := []

inductive AuditEvent where
  | log (opts : AuditEntry) (entityClass : Option (List String)) (createdAt : String)
  | flush
  /-- The timer fires; its flush is not awaited, and its failure is swallowed. -/
  | timer
  /-- The next query of a flush comes back, or fails. -/
  | stored (batch : Nat)
  | failed (batch : Nat)

variable {S : Type} (cfg : AuditConfig S)

/-- `this.previousSignature + batchJSON`. -/
def signedText (previous : Option S) (objects : List Json) : List (Text S) :=
  (previous.map Text.signature).toList ++ ((Json.arr objects).stringify).map Text.token

namespace AuditLogger

/-- `_flush`, as far as its first query. -/
def flush (s : AuditLogger S) (awaited : Bool) : AuditLogger S :=
  let s := { s with flushTimer := false }
  if s.pendingBatch = [] then s
  else
    let batchId := cfg.uuid s.uuids
    let entries := s.pendingBatch.map (·.assign batchId)
    let signature := cfg.hmac cfg.signingKey (signedText s.previousSignature (entries.map AuditEntry.json))
    { s with
      pendingBatch := []
      previousSignature := some signature
      uuids := s.uuids + 1
      batches := s.batches ++ [{ id := batchId, entries, signature, awaited }] }

def log (s : AuditLogger S) (opts : AuditEntry) (entityClass : Option (List String)) (createdAt : String) : AuditLogger S :=
  let entry := batchEntry opts entityClass (cfg.uuid s.uuids) createdAt
  let s := { s with
    pendingBatch := s.pendingBatch ++ [entry]
    uuids := s.uuids + 1
    logged := s.logged ++ [entry.read "id"] }
  if batchSize ≤ s.pendingBatch.length then flush cfg s true
  else { s with flushTimer := true }

/-- The query for the next entry of a batch. -/
def settle (s : AuditLogger S) (i : Nat) (succeeds : Bool) : AuditLogger S :=
  match s.batches[i]? with
  | none => s
  | some b =>
    match b.failed, b.entries[b.written]? with
    | false, some entry =>
      if succeeds then
        { s with
          table := s.table ++ [(insertRow cfg.jsonb entry b.id, b.signature)]
          batches := s.batches.set i { b with written := b.written + 1 } }
      else { s with batches := s.batches.set i { b with failed := true } }
    | _, _ => s

def step (s : AuditLogger S) : AuditEvent → AuditLogger S
  | .log opts entityClass createdAt => log cfg s opts entityClass createdAt
  | .flush => flush cfg s true
  | .timer => if s.flushTimer then flush cfg s false else s
  | .stored i => settle cfg s i true
  | .failed i => settle cfg s i false

end AuditLogger

end StreetJS.Enterprise
