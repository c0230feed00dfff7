/-
Requests through one `rateLimit()` middleware (`ratelimit/src/ratelimit.ts`), await by await, over the
in-memory store or over the sorted sets of a Redis server: a count, and for a request that is let through a
separate hit.
-/
import StreetJS.Store.RateLimitStore
import StreetJS.Lib.ListSet
import StreetJS.Lib.Runs

namespace StreetJS.Store

open StreetJS.Lib SlidingWindow

/-! ## Sorted sets -/

/-- The members of a key by their scores, with their random suffixes, and when the key expires. -/
structure ZSet where
  members : List (Int × String) := []
  expiresAt : Option Int := none

abbrev RedisSets := OrderedMap String ZSet

namespace RedisSets

variable (sets : RedisSets)

variable (key : String)

def zset : ZSet := (sets.get key).getD {}

/-- A set without members is no set. -/
def put (set : ZSet) : RedisSets :=
  if set.members = [] then sets.delete key else sets.set key set

def ZSet.expired (set : ZSet) (storeNow : Int) : Bool := set.expiresAt.any fun expiresAt => decide (expiresAt ≤ storeNow)

/-- Before a command the server drops a key that has expired. -/
def live (storeNow : Int) : RedisSets :=
  if ZSet.expired (zset sets key) storeNow then put sets key {} else sets

/-- `ZREMRANGEBYSCORE key -inf (cutoff` -/
def zremrangebyscore (cutoff : Int) : RedisSets :=
  let set := zset sets key
  put sets key { set with members := set.members.filter fun m => decide (cutoff ≤ m.1) }

/-- `ZADD`: a member that is there keeps its place. -/
def zadd (score : Int) (suffix : String) : RedisSets :=
  let set := zset sets key
  if (score, suffix) ∈ set.members then sets else put sets key { set with members := set.members ++ [(score, suffix)] }

/-- `PEXPIRE`: of a key that is there. -/
def pexpire (ms storeNow : Int) : RedisSets :=
  let set := zset sets key
  put sets key { set with expiresAt := some (storeNow + ms) }

def zcard : Nat := (zset sets key).members.length

end RedisSets

/-! ## The middleware -/

/-- The options of the middleware and of its store. -/
structure ScopedRateLimitOptions where
  requests : Nat
  windowMs : Int
  memory : RateLimitStoreOptions := {}
  retentionMs : Option Int := none

/-- The next await of a request. -/
inductive Phase where
  | count
  | hit
  | trimForCount
  | cardForCount
  | trimForHit
  | add
  | expire
  | cardForHit
  | admitted
  | rejected
deriving DecidableEq

/-- A request: the key of its scope, the clock as it is read, and the suffix of its member. -/
structure Request where
  key : String
  now : Int
  suffix : String
  phase : Phase

inductive RateStore where
  | memory (store : InMemoryRateLimitStore)
  | redis (sets : RedisSets)

/-- What a sweep leaves of a key, if anything. -/
def remaining (cutoff : Int) (instants : List Int) : Option (List Int) :=
  if prune cutoff instants = [] then none else some (prune cutoff instants)

/-- `_sweep`: what is before the retention horizon goes, and the keys that are left without instants. -/
def InMemoryRateLimitStore.sweep (store : InMemoryRateLimitStore) (cutoff : Int) : InMemoryRateLimitStore :=
  store.filterMap fun entry => (remaining cutoff entry.2).map fun instants => (entry.1, instants)

structure Limiter where
  store : RateStore
  requests : List Request := []
  /-- The clock at the sweeps so far. -/
  swept : List Int := []

inductive LimiterEvent where
  | arrive (key : String) (now : Int) (suffix : String)
  /-- The request goes on; `storeNow` is the clock of the store. -/
  | proceed (x : Nat) (storeNow : Int)
  | sweep (now : Int)

namespace Limiter

variable (opts : ScopedRateLimitOptions) (s : Limiter)

def firstPhase : RateStore → Phase
  | .memory _ => .count
  | .redis _ => .trimForCount

/-- The request is at another await, with the store as it is then. -/
def move (x : Nat) (r : Request) (store : RateStore) (phase : Phase) : Limiter :=
  { s with store, requests := s.requests.set x { r with phase } }

/-- The next await of a request over the in-memory store. -/
def proceedMemory (x : Nat) (r : Request) (m : InMemoryRateLimitStore) : Limiter :=
  match r.phase with
  | .count => s.move x r (.memory m) (if opts.requests ≤ m.count r.key r.now opts.windowMs then .rejected else .hit)
  | .hit => s.move x r (.memory (m.hit opts.memory r.key r.now opts.windowMs).1) .admitted
  | _ => s

/-- The next command of a request over Redis. -/
def proceedRedis (x : Nat) (r : Request) (sets : RedisSets) (storeNow : Int) : Limiter :=
  let sets := sets.live r.key storeNow
  match r.phase with
  | .trimForCount => s.move x r (.redis (sets.zremrangebyscore r.key (r.now - opts.windowMs))) .cardForCount
  | .cardForCount => s.move x r (.redis sets) (if opts.requests ≤ sets.zcard r.key then .rejected else .trimForHit)
  | .trimForHit => s.move x r (.redis (sets.zremrangebyscore r.key (r.now - opts.windowMs))) .add
  | .add => s.move x r (.redis (sets.zadd r.key r.now r.suffix)) .expire
  | .expire => s.move x r (.redis (sets.pexpire r.key (max 1 opts.windowMs) storeNow)) .cardForHit
  | .cardForHit => s.move x r (.redis sets) .admitted
  | _ => s

def step (s : Limiter) : LimiterEvent → Limiter
  | .arrive key now suffix => { s with requests := s.requests ++ [{ key, now, suffix, phase := firstPhase s.store }] }
  | .proceed x storeNow =>
    match s.requests[x]?, s.store with
    | some r, .memory m => s.proceedMemory opts x r m
    | some r, .redis sets => s.proceedRedis opts x r sets storeNow
    | none, _ => s
  | .sweep now =>
    match s.store, opts.retentionMs with
    | .memory m, some retentionMs =>
      { s with store := .memory (m.sweep (now - retentionMs)), swept := s.swept ++ [now] }
    | _, _ => s

end Limiter

end StreetJS.Store
