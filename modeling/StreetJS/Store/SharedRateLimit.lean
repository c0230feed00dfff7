/-
Several `rateLimit()` middlewares over one store (`ratelimit/src/ratelimit.ts`): the key of a request is its scope and
what identifies its client, and says nothing of the middleware.
-/
import StreetJS.Redis.Resp
import StreetJS.Store.StoreAgreement

namespace StreetJS.Store

open StreetJS.Lib SlidingWindow InMemoryRateLimitStore List OrderedMap

/-! ## The key of a request -/

/-- What a middleware reads of a request. -/
structure StreetContext where
  remoteAddress : Option String := none
  forwardedFor : Option String := none
  userId : Option String := none

inductive RateScope where
  | global
  | ip
  | user

/-- The options of a middleware. -/
structure RateLimitOptions where
  scope : RateScope
  requests : Nat
  windowMs : Int
  userKeyFn : Option (StreetContext → Option String) := none
  trustProxy : Bool := false

/-- `VALID_IP_RE` -/
def validIp (candidate : List Char) : Bool :=
  candidate ≠ [] ∧ candidate.all fun c => c.isAlphanum || ['_', '.', ':', '[', ']'].contains c

/-- The address that the trusted proxy has added last, or that of the socket. -/
def defaultKeyFn (ctx : StreetContext) (trustProxy : Bool) : String :=
  let remoteAddress := ctx.remoteAddress.getD "unknown"
  if trustProxy then
    let candidates := ((ctx.forwardedFor.getD "").toList.splitOn ',').reverse.map Redis.trim
    ((candidates.find? validIp).map String.ofList).getD remoteAddress
  else remoteAddress

def resolveScopedKey (opts : RateLimitOptions) (ctx : StreetContext) : String :=
  match opts.scope with
  | .global => "global:__global__"
  | .ip => "ip:" ++ defaultKeyFn ctx opts.trustProxy
  | .user =>
    let userKey := (opts.userKeyFn.bind fun f => f ctx).or ctx.userId
    match userKey.filter (· ≠ "") with
    | some userKey => "user:" ++ userKey
    -- a client that is not known shares the keys of the users
    | none => "user:ip:" ++ defaultKeyFn ctx opts.trustProxy

/-! ## Middlewares over one store -/

/-- The requests of each middleware. -/
structure SharedLimiters (I : Type) where
  store : RateStore
  requests : I → List Request := fun _ => []

inductive SharedEvent (I : Type) where
  | arrive (i : I) (ctx : StreetContext) (now : Int) (suffix : String)
  | proceed (i : I) (x : Nat) (storeNow : Int)
  | sweep (now : Int)

/-- The event is a step of the middleware, or of the store itself. -/
def SharedEvent.concerns {I : Type} [DecidableEq I] (i : I) : SharedEvent I → Bool
  | .arrive j .. => j = i
  | .proceed j .. => j = i
  | .sweep _ => true

/-- The options of the store. -/
structure SharedStoreOptions where
  memory : RateLimitStoreOptions := {}
  retentionMs : Option Int := none

/-- What a store call of a request returns, where its result is there. -/
def Limiter.counted (opts : ScopedRateLimitOptions) (s : Limiter) (x : Nat) (storeNow : Int) : Option Nat :=
  match s.requests[x]?, s.store with
  | some r, .memory m =>
    match r.phase with
    | .count => some (m.count r.key r.now opts.windowMs)
    | .hit => some (m.hit opts.memory r.key r.now opts.windowMs).2
    | _ => none
  | some r, .redis sets =>
    match r.phase with
    | .cardForCount | .cardForHit => some ((sets.live r.key storeNow).zcard r.key)
    | _ => none
  | none, _ => none

/-- A hit evicts no key that meets `p`. -/
def InMemoryRateLimitStore.Spares (opts : RateLimitStoreOptions) (p : String → Bool) (store : InMemoryRateLimitStore) (key : String) : Prop :=
  store.has key = false → opts.maxKeys ≤ store.length → ∀ entry ∈ store.head?, p entry.1 = false

/-- A hit of the request evicts no key that meets `p`. -/
def Limiter.Spares (opts : ScopedRateLimitOptions) (p : String → Bool) (s : Limiter) (x : Nat) : Prop :=
  ∀ m r, s.store = .memory m → s.requests[x]? = some r → r.phase = .hit → InMemoryRateLimitStore.Spares opts.memory p m r.key

namespace SharedLimiters

variable {I : Type} [DecidableEq I] (store : SharedStoreOptions) (opts : I → RateLimitOptions) (s : SharedLimiters I)

/-- One middleware by itself. -/
def limiter (i : I) : Limiter := { store := s.store, requests := s.requests i }

def limiterOptions (i : I) : ScopedRateLimitOptions :=
  { requests := (opts i).requests, windowMs := (opts i).windowMs, memory := store.memory, retentionMs := store.retentionMs }

/-- The middleware has made its step, with the store that all share. -/
def put (i : I) (l : Limiter) : SharedLimiters I := { store := l.store, requests := Function.update s.requests i l.requests }

def step (s : SharedLimiters I) : SharedEvent I → SharedLimiters I
  | .arrive i ctx now suffix =>
    s.put i ((s.limiter i).step (limiterOptions store opts i) (.arrive (resolveScopedKey (opts i) ctx) now suffix))
  | .proceed i x storeNow => s.put i ((s.limiter i).step (limiterOptions store opts i) (.proceed x storeNow))
  | .sweep now =>
    match s.store, store.retentionMs with
    | .memory m, some retentionMs => { s with store := .memory (m.sweep (now - retentionMs)) }
    | _, _ => s

/-- What a store call of the middleware returns at a step. -/
def counted (i : I) (s : SharedLimiters I) : SharedEvent I → Option Nat
  | .proceed j x storeNow => if j = i then (s.limiter i).counted (limiterOptions store opts i) x storeNow else none
  | _ => none

/-! ## The property and its condition -/

/-- The counts of a middleware and its requests are those of the run without the steps of the others. -/
def Independent (i : I) (s : SharedLimiters I) (evs : List (SharedEvent I)) : Prop :=
  observe (step store opts) (counted store opts i) s evs =
      observe (step store opts) (counted store opts i) s (evs.filter (SharedEvent.concerns i)) ∧
    (run (step store opts) s evs).requests i = (run (step store opts) s (evs.filter (SharedEvent.concerns i))).requests i

/-- The keys of the middleware are `mine` and those of the others are not; and a hit of a new key evicts none of
`mine`. -/
def Apart (i : I) (mine : String → Bool) (s : SharedLimiters I) : SharedEvent I → Prop
  | .arrive j ctx _ _ => mine (resolveScopedKey (opts j) ctx) = decide (j = i)
  | .proceed j x _ => (s.limiter j).Spares (limiterOptions store opts j) mine x
  | .sweep _ => True

end SharedLimiters

/-! ## The store of the keys of one middleware -/

def RateStore.restrict (p : String → Bool) : RateStore → RateStore
  | .memory m => .memory (OrderedMap.restrict p m)
  | .redis sets => .redis (OrderedMap.restrict p sets)

namespace RedisSets

variable {p : String → Bool} {sets : RedisSets} {key : String}

theorem zset_restrict (h : p key = true) : zset (OrderedMap.restrict p sets) key = zset sets key := by
  unfold zset
  rw [get_restrict h]

theorem put_restrict (h : p key = true) (set : ZSet) :
    put (OrderedMap.restrict p sets) key set = OrderedMap.restrict p (put sets key set) := by
  unfold put
  split
  · rw [restrict_delete]
  · rw [restrict_set h]

theorem restrict_put_of_not (h : p key = false) (set : ZSet) : OrderedMap.restrict p (put sets key set) = OrderedMap.restrict p sets := by
  unfold put
  split
  · rw [restrict_delete_of_not h]
  · rw [restrict_set_of_not h]

theorem live_restrict (h : p key = true) (storeNow : Int) :
    live (OrderedMap.restrict p sets) key storeNow = OrderedMap.restrict p (live sets key storeNow) := by
  unfold live
  rw [zset_restrict h, put_restrict h]
  split <;> rfl

theorem zremrangebyscore_restrict (h : p key = true) (cutoff : Int) :
    zremrangebyscore (OrderedMap.restrict p sets) key cutoff = OrderedMap.restrict p (zremrangebyscore sets key cutoff) := by
  unfold zremrangebyscore
  rw [zset_restrict h, put_restrict h]

theorem zadd_restrict (h : p key = true) (score : Int) (suffix : String) :
    zadd (OrderedMap.restrict p sets) key score suffix = OrderedMap.restrict p (zadd sets key score suffix) := by
  unfold zadd
  dsimp only
  rw [zset_restrict h, put_restrict h]
  split <;> rfl

theorem pexpire_restrict (h : p key = true) (ms storeNow : Int) :
    pexpire (OrderedMap.restrict p sets) key ms storeNow = OrderedMap.restrict p (pexpire sets key ms storeNow) := by
  unfold pexpire
  rw [zset_restrict h, put_restrict h]

theorem zcard_restrict (h : p key = true) : zcard (OrderedMap.restrict p sets) key = zcard sets key := by
  unfold zcard
  rw [zset_restrict h]

theorem restrict_live_of_not (h : p key = false) (storeNow : Int) :
    OrderedMap.restrict p (live sets key storeNow) = OrderedMap.restrict p sets := by
  unfold live
  split
  · exact restrict_put_of_not h _
  · rfl

theorem restrict_zadd_of_not (h : p key = false) (score : Int) (suffix : String) :
    OrderedMap.restrict p (zadd sets key score suffix) = OrderedMap.restrict p sets := by
  unfold zadd
  dsimp only
  split
  · rfl
  · exact restrict_put_of_not h _

end RedisSets

namespace InMemoryRateLimitStore

variable {p : String → Bool} {store : InMemoryRateLimitStore} {key : String} {opts : RateLimitStoreOptions}
  {now windowMs : Int}

theorem timestamps_restrict (h : p key = true) : timestamps (OrderedMap.restrict p store) key = timestamps store key := by
  unfold timestamps
  rw [get_restrict h]

theorem count_restrict (h : p key = true) : count (OrderedMap.restrict p store) key now windowMs = count store key now windowMs := by
  unfold count
  rw [timestamps_restrict h]

theorem sweep_restrict (cutoff : Int) : sweep (OrderedMap.restrict p store) cutoff = OrderedMap.restrict p (sweep store cutoff) := by
  unfold sweep
  rw [restrict_filterMap (remaining cutoff)]

/-- The store with a place for a new key. -/
def room (opts : RateLimitStoreOptions) (store : InMemoryRateLimitStore) (key : String) : InMemoryRateLimitStore :=
  if store.has key = false ∧ opts.maxKeys ≤ store.length then store.tail else store

/-- What a hit records of its key. -/
def recorded (opts : RateLimitStoreOptions) (store : InMemoryRateLimitStore) (key : String) (now windowMs : Int) : List Int :=
  let kept := prune (now - windowMs) (timestamps store key)
  if kept.length < opts.maxRequestsPerKey then kept ++ [now] else kept

theorem hit_eq : hit opts store key now windowMs = (OrderedMap.set (room opts store key) key (recorded opts store key now windowMs),
      (recorded opts store key now windowMs).length) := rfl

section

variable (h : Spares opts p store key)
include h

theorem restrict_room : OrderedMap.restrict p (room opts store key) = OrderedMap.restrict p store := by
  unfold room
  split
  · rename_i hfull
    cases store with
    | nil => rfl
    | cons entry rest =>
      have hp : ¬ p entry.1 = true := by
        rw [h hfull.1 hfull.2 entry rfl]
        decide
      rw [restrict_cons, if_neg hp, tail_cons]
  · rfl

theorem room_restrict (hk : p key = true) (hsize : store.length ≤ max 1 opts.maxKeys) :
    room opts (OrderedMap.restrict p store) key = OrderedMap.restrict p store := by
  unfold room
  rw [has_restrict hk]
  split
  · rename_i hfull
    obtain ⟨hnew, hle⟩ := hfull
    have hlen : (OrderedMap.restrict p store).length ≤ store.length := length_filter_le _ _
    cases store with
    | nil => rfl
    | cons entry rest =>
      have hp : ¬ p entry.1 = true := by
        rw [h hnew (by omega) entry rfl]
        decide
      rw [restrict_cons, if_neg hp] at hle ⊢
      have hrest : (OrderedMap.restrict p rest).length ≤ rest.length := length_filter_le _ _
      rw [length_cons] at hsize
      have hnil : OrderedMap.restrict p rest = [] := length_eq_zero_iff.1 (by omega)
      rw [hnil, tail_nil]
  · rfl

theorem hit_restrict (hk : p key = true) (hsize : store.length ≤ max 1 opts.maxKeys) :
    hit opts (OrderedMap.restrict p store) key now windowMs =
      (OrderedMap.restrict p (hit opts store key now windowMs).1, (hit opts store key now windowMs).2) := by
  have hrecorded : recorded opts (OrderedMap.restrict p store) key now windowMs = recorded opts store key now windowMs := by
    unfold recorded
    rw [timestamps_restrict hk]
  rw [hit_eq, hit_eq, hrecorded, room_restrict h hk hsize, restrict_set hk, restrict_room h]

theorem restrict_hit_of_not (hk : p key = false) :
    OrderedMap.restrict p (hit opts store key now windowMs).1 = OrderedMap.restrict p store := by
  rw [hit_eq, restrict_set_of_not hk, restrict_room h]

end

theorem length_hit (hsize : store.length ≤ max 1 opts.maxKeys) : (hit opts store key now windowMs).1.length ≤ max 1 opts.maxKeys := by
  rw [hit_eq]
  dsimp only
  unfold room
  split
  · rename_i hfull
    have hle := length_set_le store.tail key (recorded opts store key now windowMs)
    rw [length_tail] at hle
    omega
  · rename_i hno
    cases hhas : store.has key with
    | true =>
      rw [length_set_of_has hhas]
      exact hsize
    | false =>
      have hle := length_set_le store key (recorded opts store key now windowMs)
      have hlt : ¬ opts.maxKeys ≤ store.length := fun hle => hno ⟨hhas, hle⟩
      omega

theorem length_sweep_le (cutoff : Int) : (sweep store cutoff).length ≤ store.length := by
  exact length_filterMap_le _ _

end InMemoryRateLimitStore

/-! ## A step of a middleware -/

/-- The store has at most as many keys as it may. -/
def RateStore.Sized (opts : RateLimitStoreOptions) : RateStore → Prop
  | .memory m => m.length ≤ max 1 opts.maxKeys
  | .redis _ => True

namespace Limiter

variable {p : String → Bool} {opts : ScopedRateLimitOptions} {s : Limiter} {x : Nat} {storeNow : Int}

def restrict (p : String → Bool) (s : Limiter) : Limiter := { s with store := s.store.restrict p }

theorem move_restrict (r : Request) (store : RateStore) (phase : Phase) :
    (s.restrict p).move x r (store.restrict p) phase = (s.move x r store phase).restrict p := rfl

/-- A step goes on, and counts, as without the other keys. -/
theorem proceed_restrict (hkeys : ∀ r ∈ s.requests, p r.key = true) (hspares : Spares opts p s x) (hsize : s.store.Sized opts.memory) :
    (s.restrict p).step opts (.proceed x storeNow) = (s.step opts (.proceed x storeNow)).restrict p ∧
      (s.restrict p).counted opts x storeNow = s.counted opts x storeNow := by
  simp only [step, counted]
  cases hx : s.requests[x]? with
  | none =>
    rw [show (s.restrict p).requests[x]? = none from hx]
    exact ⟨rfl, rfl⟩
  | some r =>
    have hk := hkeys r (mem_of_getElem? hx)
    rw [show (s.restrict p).requests[x]? = some r from hx]
    cases hs : s.store with
    | memory m =>
      rw [show (s.restrict p).store = .memory (OrderedMap.restrict p m) by rw [restrict, hs]; rfl]
      dsimp only
      unfold proceedMemory
      cases hp : r.phase with
      | count =>
        rw [count_restrict hk]
        exact ⟨move_restrict r (.memory m) _, rfl⟩
      | hit =>
        rw [hs] at hsize
        rw [hit_restrict (hspares m r hs hx hp) hk hsize]
        exact ⟨move_restrict r (.memory _) _, rfl⟩
      | _ => exact ⟨rfl, rfl⟩
    | redis sets =>
      rw [show (s.restrict p).store = .redis (OrderedMap.restrict p sets) by rw [restrict, hs]; rfl]
      dsimp only
      unfold proceedRedis
      rw [RedisSets.live_restrict hk, RedisSets.zcard_restrict hk]
      refine ⟨?_, rfl⟩
      cases hp : r.phase with
      | trimForCount | trimForHit =>
        dsimp only
        rw [RedisSets.zremrangebyscore_restrict hk]
        exact move_restrict r (.redis _) _
      | add =>
        dsimp only
        rw [RedisSets.zadd_restrict hk]
        exact move_restrict r (.redis _) _
      | expire =>
        dsimp only
        rw [RedisSets.pexpire_restrict hk]
        exact move_restrict r (.redis _) _
      | cardForCount =>
        dsimp only
        rw [RedisSets.zcard_restrict hk]
        exact move_restrict r (.redis _) _
      | cardForHit => exact move_restrict r (.redis _) _
      | _ => rfl

theorem restrict_proceed_of_not (hkeys : ∀ r ∈ s.requests, p r.key = false) (hspares : Spares opts p s x) :
    (s.step opts (.proceed x storeNow)).store.restrict p = s.store.restrict p := by
  simp only [step]
  cases hx : s.requests[x]? with
  | none => rfl
  | some r =>
    have hk := hkeys r (mem_of_getElem? hx)
    cases hs : s.store with
    | memory m =>
      dsimp only
      unfold proceedMemory
      cases hp : r.phase with
      | hit => exact congrArg RateStore.memory (restrict_hit_of_not (hspares m r hs hx hp) hk)
      | count => rfl
      | _ =>
        rw [hs]
    | redis sets =>
      have hlive : OrderedMap.restrict p (sets.live r.key storeNow) = OrderedMap.restrict p sets :=
        RedisSets.restrict_live_of_not hk storeNow
      dsimp only
      unfold proceedRedis
      cases hp : r.phase with
      | trimForCount | trimForHit => exact congrArg RateStore.redis ((RedisSets.restrict_put_of_not hk _).trans hlive)
      | cardForCount | cardForHit => exact congrArg RateStore.redis hlive
      | add => exact congrArg RateStore.redis ((RedisSets.restrict_zadd_of_not hk _ _).trans hlive)
      | expire => exact congrArg RateStore.redis ((RedisSets.restrict_put_of_not hk _).trans hlive)
      | _ =>
        rw [hs]

theorem Sized.proceed (hsize : s.store.Sized opts.memory) : (s.step opts (.proceed x storeNow)).store.Sized opts.memory := by
  simp only [step]
  cases hx : s.requests[x]? with
  | none => exact hsize
  | some r =>
    cases hs : s.store with
    | memory m =>
      dsimp only
      unfold proceedMemory
      cases hp : r.phase with
      | hit =>
        rw [hs] at hsize
        exact length_hit hsize
      | count =>
        rw [hs] at hsize
        exact hsize
      | _ => exact hsize
    | redis sets =>
      dsimp only
      unfold proceedRedis
      cases hp : r.phase with
      | admitted | rejected | count | hit => exact hsize
      | _ => trivial

theorem requests_proceed (opts : ScopedRateLimitOptions) (s : Limiter) (x : Nat) (storeNow : Int) :
    (s.step opts (.proceed x storeNow)).requests = s.requests ∨
      ∃ r phase, s.requests[x]? = some r ∧ (s.step opts (.proceed x storeNow)).requests = s.requests.set x { r with phase } := by
  simp only [step]
  cases hx : s.requests[x]? with
  | none => exact .inl rfl
  | some r =>
    cases hs : s.store with
    | memory m =>
      dsimp only
      unfold proceedMemory
      cases hp : r.phase with
      | count | hit => exact .inr ⟨r, _, rfl, rfl⟩
      | _ => exact .inl rfl
    | redis sets =>
      dsimp only
      unfold proceedRedis
      cases hp : r.phase with
      | admitted | rejected | count | hit => exact .inl rfl
      | _ => exact .inr ⟨r, _, rfl, rfl⟩

theorem keys_proceed {b : Bool} (hkeys : ∀ r ∈ s.requests, p r.key = b) :
    ∀ r ∈ (s.step opts (.proceed x storeNow)).requests, p r.key = b := by
  rcases requests_proceed opts s x storeNow with hr | ⟨r, phase, hx, hr⟩
  · rw [hr]
    exact hkeys
  · rw [hr]
    intro r' hr'
    rcases mem_or_eq_of_mem_set hr' with hr' | rfl
    · exact hkeys r' hr'
    · exact hkeys r (mem_of_getElem? hx)

end Limiter

/-! ## The run of one middleware and the run of all -/

namespace SharedLimiters

section

variable {I : Type} [DecidableEq I] {store : SharedStoreOptions} {opts : I → RateLimitOptions} {i : I} {mine : String → Bool}

@[simp] theorem put_requests_self (s : SharedLimiters I) (j : I) (l : Limiter) : (s.put j l).requests j = l.requests :=
  Function.update_self ..

@[simp] theorem put_requests_of_ne (s : SharedLimiters I) {j j' : I} (h : j' ≠ j) (l : Limiter) : (s.put j l).requests j' = s.requests j' :=
  Function.update_of_ne h ..

/-- The run of the middleware alone has its requests, and its part of the store. -/
structure Alone (opts : SharedStoreOptions) (i : I) (mine : String → Bool) (s t : SharedLimiters I) : Prop where
  shared : t.store = s.store.restrict mine
  requests : t.requests i = s.requests i
  keys : ∀ j, ∀ r ∈ s.requests j, mine r.key = decide (j = i)
  size : s.store.Sized opts.memory

variable {s t : SharedLimiters I}

section

variable (h : Alone store i mine s t)
include h

theorem Alone.limiter : t.limiter i = (s.limiter i).restrict mine := by
  unfold SharedLimiters.limiter Limiter.restrict
  rw [h.shared, h.requests]

theorem Alone.own : ∀ r ∈ (s.limiter i).requests, mine r.key = true := by
  intro r hr
  rw [h.keys i r hr]
  exact decide_eq_true rfl

theorem Alone.other {j : I} (hj : j ≠ i) : ∀ r ∈ (s.limiter j).requests, mine r.key = false := by
  intro r hr
  rw [h.keys j r hr]
  exact decide_eq_false hj

theorem Alone.keys_put {j : I} {l : Limiter} (hkeys : ∀ r ∈ l.requests, mine r.key = decide (j = i)) :
    ∀ j', ∀ r ∈ (s.put j l).requests j', mine r.key = decide (j' = i) := by
  intro j' r hr
  by_cases hj : j' = j
  · subst hj
    rw [put_requests_self] at hr
    exact hkeys r hr
  · rw [put_requests_of_ne s hj] at hr
    exact h.keys j' r hr

/-- The middleware makes one step in both. -/
theorem Alone.put {l : Limiter} (hkeys : ∀ r ∈ l.requests, mine r.key = true)
    (hsize : l.store.Sized store.memory) : Alone store i mine (s.put i l) (t.put i (l.restrict mine)) where
  shared := rfl
  requests := by
    rw [put_requests_self, put_requests_self]
    rfl
  keys := h.keys_put fun r hr => (hkeys r hr).trans (decide_eq_true rfl).symm
  size := hsize

theorem Alone.put_other {j : I} (hj : j ≠ i) {l : Limiter} (hkeys : ∀ r ∈ l.requests, mine r.key = false) (hsize : l.store.Sized store.memory)
    (hstore : l.store.restrict mine = s.store.restrict mine) : Alone store i mine (s.put j l) t where
  shared := h.shared.trans hstore.symm
  requests := by
    rw [put_requests_of_ne s hj.symm]
    exact h.requests
  keys := h.keys_put fun r hr => (hkeys r hr).trans (decide_eq_false hj).symm
  size := hsize

theorem Alone.step {ev : SharedEvent I} (hev : ev.concerns i = true)
    (hg : Apart store opts i mine s ev) : Alone store i mine (s.step store opts ev) (t.step store opts ev) := by
  cases ev with
  | arrive j ctx now suffix =>
    obtain rfl : j = i := of_decide_eq_true hev
    have hkey : mine (resolveScopedKey (opts j) ctx) = true := hg.trans (decide_eq_true rfl)
    have hstep : (t.limiter j).step (limiterOptions store opts j) (.arrive (resolveScopedKey (opts j) ctx) now suffix) =
        ((s.limiter j).step (limiterOptions store opts j) (.arrive (resolveScopedKey (opts j) ctx) now suffix)).restrict mine := by
      rw [h.limiter]
      unfold Limiter.restrict Limiter.step
      cases (s.limiter j).store <;> rfl
    unfold SharedLimiters.step
    dsimp only
    rw [hstep]
    refine h.put ?_ h.size
    intro r hr
    rcases mem_append.1 hr with hr | hr
    · exact h.own r hr
    · rw [mem_singleton.1 hr]
      exact hkey
  | proceed j x storeNow =>
    obtain rfl : j = i := of_decide_eq_true hev
    unfold SharedLimiters.step
    dsimp only
    rw [h.limiter, (Limiter.proceed_restrict h.own hg h.size).1]
    exact h.put (Limiter.keys_proceed h.own) (Limiter.Sized.proceed h.size)
  | sweep now =>
    unfold SharedLimiters.step
    rw [h.shared]
    cases hs : s.store with
    | redis sets => exact h
    | memory m =>
      cases store.retentionMs with
      | none => exact h
      | some retentionMs =>
        have hsize := h.size
        rw [hs] at hsize
        exact ⟨congrArg RateStore.memory (sweep_restrict _), h.requests, h.keys, le_trans (length_sweep_le _) hsize⟩

theorem Alone.skip {ev : SharedEvent I} (hev : ev.concerns i = false)
    (hg : Apart store opts i mine s ev) : Alone store i mine (s.step store opts ev) t := by
  cases ev with
  | sweep now => cases hev
  | arrive j ctx now suffix =>
    have hj : j ≠ i := of_decide_eq_false hev
    refine h.put_other hj ?_ h.size rfl
    intro r hr
    rcases mem_append.1 hr with hr | hr
    · exact h.other hj r hr
    · rw [mem_singleton.1 hr]
      exact hg.trans (decide_eq_false hj)
  | proceed j x storeNow =>
    have hj : j ≠ i := of_decide_eq_false hev
    exact h.put_other hj (Limiter.keys_proceed (h.other hj)) (Limiter.Sized.proceed h.size) (Limiter.restrict_proceed_of_not (h.other hj) hg)

theorem Alone.counted {ev : SharedEvent I} (hev : ev.concerns i = true) (hg : Apart store opts i mine s ev) :
    SharedLimiters.counted store opts i t ev = SharedLimiters.counted store opts i s ev := by
  cases ev with
  | arrive j ctx now suffix => rfl
  | sweep now => rfl
  | proceed j x storeNow =>
    obtain rfl : j = i := of_decide_eq_true hev
    unfold SharedLimiters.counted
    dsimp only
    rw [if_pos rfl, if_pos rfl, h.limiter, (Limiter.proceed_restrict h.own hg h.size).2]

end

theorem counted_of_not {ev : SharedEvent I} (hev : ev.concerns i = false) : counted store opts i s ev = none := by
  cases ev with
  | arrive j ctx now suffix => rfl
  | sweep now => cases hev
  | proceed j x storeNow =>
    have hj : j ≠ i := of_decide_eq_false hev
    exact if_neg hj

theorem Alone.independent : ∀ {evs : List (SharedEvent I)} {s t : SharedLimiters I}, Alone store i mine s t →
    Guarded (SharedLimiters.step store opts) (Apart store opts i mine) s evs →
    observe (SharedLimiters.step store opts) (SharedLimiters.counted store opts i) s evs =
        observe (SharedLimiters.step store opts) (SharedLimiters.counted store opts i) t (evs.filter (SharedEvent.concerns i)) ∧
      (run (SharedLimiters.step store opts) s evs).requests i =
        (run (SharedLimiters.step store opts) t (evs.filter (SharedEvent.concerns i))).requests i
  | [], _, _, h, _ => ⟨rfl, h.requests.symm⟩
  | ev :: evs, s, t, h, hg => by
    cases hev : ev.concerns i with
    | true =>
      obtain ⟨hobs, hrun⟩ := (h.step hev hg.1).independent hg.2
      rw [filter_cons_of_pos hev]
      refine ⟨?_, hrun⟩
      rw [observe, observe, hobs, h.counted hev hg.1]
    | false =>
      obtain ⟨hobs, hrun⟩ := (h.skip hev hg.1).independent hg.2
      rw [filter_cons_of_neg (by rw [hev]; decide)]
      refine ⟨?_, hrun⟩
      rw [observe, hobs, counted_of_not hev]
      rfl

/-- A store without keys. -/
def Fresh (store : RateStore) : Prop := store = .memory [] ∨ store = .redis []

theorem independent_of_apart {start : RateStore} (hstart : Fresh start) {evs : List (SharedEvent I)}
    (hg : Guarded (SharedLimiters.step store opts) (Apart store opts i mine) { store := start } evs) :
    Independent store opts i { store := start } evs := by
  refine Alone.independent (i := i) ⟨?_, rfl, fun j r hr => absurd hr not_mem_nil, ?_⟩ hg
  · rcases hstart with rfl | rfl <;> rfl
  · rcases hstart with rfl | rfl
    · exact Nat.zero_le _
    · trivial

end

end SharedLimiters

/-! ## Scopes -/

/-- What the keys of a scope begin with. -/
def RateScope.initial : RateScope → Char
  | .global => 'g'
  | .ip => 'i'
  | .user => 'u'

theorem head_resolveScopedKey (opts : RateLimitOptions) (ctx : StreetContext) :
    (resolveScopedKey opts ctx).toList.head? = some opts.scope.initial := by
  unfold resolveScopedKey
  cases opts.scope with
  | global =>
    dsimp only
    decide
  | ip =>
    rw [String.toList_append]
    rfl
  | user =>
    dsimp only
    split
    · rw [String.toList_append]
      rfl
    · rw [String.toList_append]
      rfl

/-- Of two scopes, no key is the same. -/
theorem initial_inj {scope scope' : RateScope} (h : scope.initial = scope'.initial) : scope = scope' := by
  cases scope <;> cases scope' <;> first | rfl | cases h

namespace SharedLimiters

variable {I : Type} [DecidableEq I] {store : SharedStoreOptions} {opts : I → RateLimitOptions} {s : SharedLimiters I}

theorem apart_of_redis (hs : ∃ sets, s.store = .redis sets) {i j : I} {mine : String → Bool} {x : Nat} {storeNow : Int} :
    Apart store opts i mine s (.proceed j x storeNow) := by
  obtain ⟨sets, hs⟩ := hs
  rintro m r hm
  rw [limiter, hs] at hm
  cases hm

theorem redis_step (hs : ∃ sets, s.store = .redis sets) (ev : SharedEvent I) : ∃ sets, (s.step store opts ev).store = .redis sets := by
  obtain ⟨sets, hs⟩ := hs
  cases ev with
  | arrive j ctx now suffix => exact ⟨sets, hs⟩
  | sweep now =>
    simp only [step, hs]
    exact ⟨sets, rfl⟩
  | proceed j x storeNow =>
    simp only [step, put, Limiter.step, limiter, hs]
    cases (s.requests j)[x]? with
    | none => exact ⟨sets, rfl⟩
    | some r =>
      dsimp only
      unfold Limiter.proceedRedis
      cases r.phase with
      | admitted | rejected | count | hit => exact ⟨sets, rfl⟩
      | _ => exact ⟨_, rfl⟩

/-- Over Redis a middleware counts what it would without those of other scopes, under every interleaving. -/
theorem independent_of_scopes (store : SharedStoreOptions) (opts : I → RateLimitOptions) (i : I)
    (hscopes : ∀ j, j ≠ i → (opts j).scope ≠ (opts i).scope) (evs : List (SharedEvent I)) :
    Independent store opts i { store := .redis [] } evs := by
  refine @independent_of_apart I _ store opts i (fun key => key.toList.head? = some (opts i).scope.initial) _ (.inr rfl) evs ?_
  have hredis : ∀ (evs : List (SharedEvent I)) (s : SharedLimiters I), (∃ sets, s.store = .redis sets) →
      Guarded (step store opts) (Apart store opts i fun key => key.toList.head? = some (opts i).scope.initial) s evs := by
    intro evs
    induction evs with
    | nil => exact fun _ _ => trivial
    | cons ev evs ih =>
      intro s hs
      refine ⟨?_, ih _ (redis_step hs ev)⟩
      cases ev with
      | proceed j x storeNow => exact apart_of_redis hs
      | sweep now => trivial
      | arrive j ctx now suffix =>
        show decide (_ = _) = decide (j = i)
        rw [head_resolveScopedKey, decide_eq_decide, Option.some.injEq]
        constructor
        · intro heq
          by_contra hj
          exact hscopes j hj (initial_inj heq)
        · rintro rfl
          rfl
  exact hredis evs _ ⟨[], rfl⟩

theorem independent_of_scopes_userAndIp : Independent {} (fun user : Bool => ⟨if user then .user else .ip, 5, 1000, none, false⟩)
    true { store := .redis [] } [.arrive true {} 0 "a", .proceed true 0 0, .arrive false {} 5 "b", .proceed true 0 6] :=
  independent_of_scopes _ _ _ (fun j hj h => by cases j <;> cases h; exact hj rfl) _

end SharedLimiters

/-! ## Both -/

/-- A limit by address and one for all, with different windows. -/
def ipAndGlobal : Bool → RateLimitOptions
  | true => { scope := .ip, requests := 5, windowMs := 1000 }
  | false => { scope := .global, requests := 5, windowMs := 10 }

/-- Two limits by address, with different windows. -/
def twoWindows : Bool → RateLimitOptions
  | true => { scope := .ip, requests := 5, windowMs := 1000 }
  | false => { scope := .ip, requests := 5, windowMs := 10 }

end StreetJS.Store
