/-
The three event stores: an array in memory, a Redis sorted set of JSON texts, and a PostgreSQL table with `JSONB`
columns. Filters, patterns and limits are applied in process.
-/
import StreetJS.Events.Matcher
import StreetJS.Lib.Json
import StreetJS.Lib.Runs

namespace StreetJS.Events

open StreetJS.Lib

/-- What a store persists. Times and sequence numbers are integers, and the payload is a JSON value. -/
structure EventEnvelope where
  id : String
  name : String
  payload : Json
  timestamp : Int
  seq : Int
  metadata : List (String × Json)

/-- All fields are optional; an empty filter selects everything. -/
structure ReplayFilter where
  name : Option String
  pattern : Option String
  since : Option Rat
  untilTime : Option Rat
  fromSeq : Option Rat
  limit : Option Rat
  deriving DecidableEq

/-- The filter predicates. -/
def matchesFilter (e : EventEnvelope) : Option ReplayFilter → Bool
  | none => true
  | some filter =>
    filter.name.all (fun name => e.name = name) && filter.pattern.all (fun pattern => matchesPattern e.name pattern) &&
      filter.since.all (fun since => ¬ (e.timestamp : Rat) < since) &&
      filter.untilTime.all (fun untilTime => ¬ untilTime < (e.timestamp : Rat)) &&
      filter.fromSeq.all (fun fromSeq => ¬ (e.seq : Rat) < fromSeq)

/-- `slice(0, filter.limit)`, for a limit that is not negative. -/
def limited (filter : Option ReplayFilter) (l : List EventEnvelope) : List EventEnvelope :=
  match filter.bind ReplayFilter.limit with
  | some limit => if 0 ≤ limit then l.take limit.floor.toNat else l
  | none => l

/-! ## MemoryEventStore -/

/-- Without a bound on its events. -/
structure MemoryEventStore where
  events : List EventEnvelope

namespace MemoryEventStore

def append (s : MemoryEventStore) (envelope : EventEnvelope) : MemoryEventStore := ⟨s.events ++ [envelope]⟩

def select (s : MemoryEventStore) (filter : Option ReplayFilter) : List EventEnvelope :=
  s.events.filter fun e => matchesFilter e filter

def read (s : MemoryEventStore) (filter : Option ReplayFilter) : List EventEnvelope :=
  limited filter (sortOn EventEnvelope.seq (s.select filter))

def count (s : MemoryEventStore) (filter : Option ReplayFilter) : Nat := (s.select filter).length

def clear (_ : MemoryEventStore) : MemoryEventStore := ⟨[]⟩

end MemoryEventStore

/-! ## RedisEventStore -/

/-- The keys `{p}:seq` and `{p}:log`, the log in the order of its scores. -/
structure RedisEventStore where
  seq : Nat
  log : List (Nat × List Json.Token)

namespace RedisEventStore

/-- `ZADD`: a member is in the set once, with the score it got last. -/
def zadd (log : List (Nat × List Json.Token)) (score : Nat) (member : List Json.Token) : List (Nat × List Json.Token) :=
  let others := log.filter fun entry => entry.2 ≠ member
  others.takeWhile (fun entry => entry.1 ≤ score) ++ (score, member) :: others.dropWhile fun entry => entry.1 ≤ score

/-- The envelope as an object. -/
def toJson (envelope : EventEnvelope) : Json :=
  .obj [("id", .str envelope.id), ("name", .str envelope.name), ("payload", envelope.payload),
    ("timestamp", .num envelope.timestamp), ("seq", .num envelope.seq), ("metadata", .obj envelope.metadata)]

def field (fields : List (String × Json)) (key : String) : Option Json :=
  (fields.find? fun field => field.1 = key).map Prod.snd

/-- An object read as an envelope. -/
def ofJson : Json → Option EventEnvelope
  | .obj fields =>
    match field fields "id", field fields "name", field fields "payload", field fields "timestamp", field fields "seq",
      field fields "metadata" with
    | some (.str id), some (.str name), some payload, some (.num timestamp), some (.num seq), some (.obj metadata) =>
      if timestamp.den = 1 ∧ seq.den = 1 then some ⟨id, name, payload, timestamp.num, seq.num, metadata⟩ else none
    | _, _, _, _, _, _ => none
  | _ => none

def safeParse (raw : List Json.Token) : Option EventEnvelope := (Json.parse raw).bind ofJson

/-- `INCR`, then `ZADD` with the new score. -/
def append (s : RedisEventStore) (envelope : EventEnvelope) : RedisEventStore :=
  ⟨s.seq + 1, zadd s.log (s.seq + 1) (toJson envelope).stringify⟩

def read (s : RedisEventStore) (filter : Option ReplayFilter) : List EventEnvelope :=
  let parsed := ((s.log.map Prod.snd).filterMap safeParse).filter fun e => matchesFilter e filter
  limited filter (sortOn EventEnvelope.seq parsed)

/-- `ZCARD` where there is no filter. -/
def count (s : RedisEventStore) : Option ReplayFilter → Nat
  | none => s.log.length
  | some filter => (s.read (some filter)).length

def clear (_ : RedisEventStore) : RedisEventStore := ⟨0, []⟩

end RedisEventStore

/-! ## PostgresEventStore -/

/-- A text without the character that PostgreSQL has no text for. -/
def noNul (text : String) : Bool := !text.toList.contains '\x00'

/-- `JSONB` from a JSON text: the fields of an object are ordered by their keys, and a text with U+0000 is refused. -/
def jsonb (text : List Json.Token) : Option Json :=
  (Json.parse text).bind fun v => if v.texts noNul then some v.canonical else none

structure Row where
  storeSeq : Nat
  id : String
  name : String
  payload : Json
  ts : Int
  seq : Int
  metadata : Json

/-- The table, with the sequence of its `BIGSERIAL` column. -/
structure PostgresEventStore where
  nextSeq : Nat
  rows : List Row

namespace PostgresEventStore

variable (s : PostgresEventStore)

/-- The `INSERT`. Where PostgreSQL refuses a value the statement fails, and `append` rejects. -/
def append (envelope : EventEnvelope) : PostgresEventStore :=
  match jsonb envelope.payload.stringify, jsonb (Json.obj envelope.metadata).stringify with
  | some payload, some metadata =>
    if noNul envelope.id ∧ noNul envelope.name then
      ⟨s.nextSeq + 1, s.rows ++ [⟨s.nextSeq, envelope.id, envelope.name, payload, envelope.timestamp, envelope.seq, metadata⟩]⟩
    else s
  | _, _ => s

/-- The columns come back as texts. -/
def rowToEnvelope (row : Row) : Option EventEnvelope :=
  match Json.parse row.payload.stringify, Json.parse row.metadata.stringify with
  | some payload, some (.obj metadata) => some ⟨row.id, row.name, payload, row.ts, row.seq, metadata⟩
  | _, _ => none

/-- `SELECT … ORDER BY seq ASC, store_seq ASC`, then the filter in process. -/
def read (filter : Option ReplayFilter) : List EventEnvelope :=
  let ordered := sortOn (fun row => toLex (row.seq, row.storeSeq)) s.rows
  limited filter ((ordered.filterMap rowToEnvelope).filter fun e => matchesFilter e filter)

def count (filter : Option ReplayFilter) : Nat := (s.read filter).length

def clear : PostgresEventStore := { s with rows := [] }

end PostgresEventStore

/-! ## One sequence of calls on the three stores -/

inductive Operation
  | append (envelope : EventEnvelope)
  | clear

structure Stores where
  memory : MemoryEventStore
  redis : RedisEventStore
  postgres : PostgresEventStore

def step (s : Stores) : Operation → Stores
  | .append envelope => ⟨s.memory.append envelope, s.redis.append envelope, s.postgres.append envelope⟩
  | .clear => ⟨s.memory.clear, s.redis.clear, s.postgres.clear⟩

def initial : Stores := ⟨⟨[]⟩, ⟨0, []⟩, ⟨1, []⟩⟩

end StreetJS.Events
