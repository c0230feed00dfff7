/-
Workers of one queue facade under per-queue rate limits: the way of a reservation from `reserve` to the
start of its job or to its deferral, await by await. Each worker has its chain of checks; the store and the
driver are shared.
-/
import StreetJS.Queue.Conservation
import StreetJS.Store.RateLimitStore

namespace StreetJS.Queue

open StreetJS.Lib StreetJS.Store

variable {P : Type}

/-! ## The state -/

/-- At most `requests` starts in a window of `windowMs`. -/
structure ResolvedRateLimit where
  requests : Nat
  windowMs : Int

/-- What the facade hands to its workers. -/
structure RateContext where
  rateLimits : OrderedMap String ResolvedRateLimit
  store : RateLimitStoreOptions := {}

/-- Where the execution of a reservation stands in `admitUnderRateLimit`. -/
inductive Admission where
  /-- In its worker's chain of checks. -/
  | waiting
  /-- The clock is read and the hits are counted. -/
  | counted (now : Int) (inWindow : Nat)
  /-- The window is full; the attempt is not given back yet. -/
  | deferring (now : Int)
  | admitted (now : Int)
  /-- The queue has no limit. -/
  | unlimited
  | started
  | deferred
  deriving DecidableEq

structure Execution (P : Type) where
  worker : Nat
  reservation : Reservation P
  admission : Admission

/-- A start or an admission: the execution, its queue and the instant. -/
abbrev Stamp := Nat × String × Int

/-- The driver with its past, the store, the executions, the checks that each worker has in its chain, the
hits in order, and the starts in order. -/
structure RateLimited (P : Type) where
  run : DriverRun P := {}
  store : InMemoryRateLimitStore := []
  executions : List (Execution P) := []
  rateCheckChain : Nat → List Nat := fun _ => []
  admissions : List Stamp := []
  starts : List Stamp := []

inductive RateEvent (P : Type) where
  /-- Any call on the driver: dispatches, promotions, outcomes, reservations that are not executed. -/
  | driver (op : DriverOp P)
  | reserve (worker : Nat) (queues : List String) (visibilityMs now : Int)
  /-- The check at the head of its chain reads the clock and counts. -/
  | check (x : Nat) (now : Int)
  /-- The count has come back. -/
  | decide (x : Nat)
  | defer (x : Nat)
  | start (x : Nat) (now : Int)

namespace RateLimited

variable (context : RateContext) (s : RateLimited P)

/-- Execution `x` comes to another point. -/
def move (x : Nat) (e : Execution P) (admission : Admission) : RateLimited P :=
  { s with executions := s.executions.set x { e with admission } }

/-- A worker reserves, and executes what it gets. -/
def reserve (worker : Nat) (queues : List String) (visibilityMs now : Int) : RateLimited P :=
  let run := s.run.step (.reserve queues visibilityMs now)
  match (s.run.driver.reserve queues visibilityMs now).2 with
  | none => { s with run }
  | some reservation =>
    if context.rateLimits.has reservation.queue then
      { s with
        run
        executions := s.executions ++ [{ worker, reservation, admission := .waiting }]
        rateCheckChain :=
          Function.update s.rateCheckChain worker (s.rateCheckChain worker ++ [s.executions.length]) }
    else
      { s with run, executions := s.executions ++ [{ worker, reservation, admission := .unlimited }] }

def check (x : Nat) (e : Execution P) (limit : ResolvedRateLimit) (now : Int) : RateLimited P :=
  if (s.rateCheckChain e.worker).head? = some x then
    s.move x e (.counted now (s.store.count e.reservation.queue now limit.windowMs))
  else s

/-- The check leaves its chain, with a hit when the window has room. -/
def decide (x : Nat) (e : Execution P) (limit : ResolvedRateLimit) (now : Int) (inWindow : Nat) : RateLimited P :=
  let s := { s with
    rateCheckChain := Function.update s.rateCheckChain e.worker (s.rateCheckChain e.worker).tail }
  if limit.requests ≤ inWindow then s.move x e (.deferring now)
  else
    { s.move x e (.admitted now) with
      store := (s.store.hit context.store e.reservation.queue now limit.windowMs).1
      admissions := s.admissions ++ [(x, e.reservation.queue, now)] }

/-- The attempt is given back, and the job is to come again when the window is over. -/
def defer (x : Nat) (e : Execution P) (limit : ResolvedRateLimit) (now : Int) : RateLimited P :=
  let driver := s.run.driver
  let id := e.reservation.envelope.id
  let driver := { driver with attempts := driver.attempts.set id (driver.attemptsOf id - 1) }
  { s.move x e .deferred with
    run := { s.run with driver := driver.nack e.reservation (some (now + limit.windowMs)) } }

def start (x : Nat) (e : Execution P) (now : Int) : RateLimited P :=
  { s.move x e .started with starts := s.starts ++ [(x, e.reservation.queue, now)] }

/-- An event that does not fit the point of its execution changes nothing. -/
def step (s : RateLimited P) : RateEvent P → RateLimited P
  | .driver op => { s with run := s.run.step op }
  | .reserve worker queues visibilityMs now => s.reserve context worker queues visibilityMs now
  | .check x now =>
    match s.executions[x]? with
    | some e => match e.admission, context.rateLimits.get e.reservation.queue with
      | .waiting, some limit => s.check x e limit now
      | _, _ => s
    | none => s
  | .decide x =>
    match s.executions[x]? with
    | some e => match e.admission, context.rateLimits.get e.reservation.queue with
      | .counted now inWindow, some limit => s.decide context x e limit now inWindow
      | _, _ => s
    | none => s
  | .defer x =>
    match s.executions[x]? with
    | some e => match e.admission, context.rateLimits.get e.reservation.queue with
      | .deferring now, some limit => s.defer x e limit now
      | _, _ => s
    | none => s
  | .start x now =>
    match s.executions[x]? with
    | some e => match e.admission with
      | .admitted _ | .unlimited => s.start x e now
      | _ => s
    | none => s

end RateLimited

end StreetJS.Queue
