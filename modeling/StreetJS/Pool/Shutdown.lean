/-
The end of the pool (`close` of `pool/src/pool.ts`), for every interleaving: the callers that wait are
rejected once, and nothing is open or handed out any more, as long as no creation succeeds after
`close` was called. `close` does not wait for the creations under way, and their continuations do not
look at `closed`.
-/
import StreetJS.Pool.PgPool

namespace StreetJS.Pool

open StreetJS.Lib PgPool List
open Prod (fst snd)

/-! ## A pool and its past -/

/-- The settlements that hand out a connection. -/
def handedOut (settled : List (Nat × Except String Nat)) : List (Nat × Nat) :=
  settled.filterMap fun x => match x.2 with
    | .ok conn => some (x.1, conn)
    | .error _ => none

/-- A pool with the calls of `close` that have not resolved, whether one has, the callers that waited when
`close` was called, the connections that were ever open, and what was handed out since it resolved. -/
structure Shutdown where
  pool : PgPool := {}
  nextCaller : Nat := 0
  closing : Nat := 0
  resolved : Bool := false
  waiting : List Nat := []
  opened : List Nat := []
  late : List (Nat × Nat) := []

namespace Shutdown

variable (opts : PoolOptions)

/-- A call of `acquire` is numbered anew, and `close` ends when it was called. -/
def poolStep (s : Shutdown) : PoolEvent → PgPool
  | .acquire _ now => s.pool.acquire opts s.nextCaller now
  | .closeDone => if s.closing = 0 then s.pool else s.pool.closeDone
  | e => s.pool.step opts e

def step (s : Shutdown) (e : PoolEvent) : Shutdown :=
  let pool := s.poolStep opts e
  { pool
    nextCaller := match e with
      | .acquire _ _ => s.nextCaller + 1
      | _ => s.nextCaller
    closing := match e with
      | .close => s.closing + 1
      | .closeDone => s.closing - 1
      | _ => s.closing
    resolved := match e with
      | .closeDone => s.resolved || s.closing ≠ 0
      | _ => s.resolved
    waiting := match e with
      | .close => s.waiting ++ s.pool.waitQueue
      | _ => s.waiting
    opened := match e with
      | .connected conn _ => if conn ∈ s.pool.connecting.map fst then s.opened ++ [conn] else s.opened
      | _ => s.opened
    late := if s.resolved then s.late ++ handedOut (pool.settled.drop s.pool.settled.length) else s.late }

end Shutdown

def closedMessage : String := "Connection pool is closed"

/-- What `close` promises. -/
structure Shut (s : Shutdown) : Prop where
  rejected : ∀ caller ∈ s.waiting, s.pool.settled.filter (fun x => x.1 = caller) = [(caller, .error closedMessage)]
  empty : s.resolved = true → s.pool.connections = [] ∧ ∀ conn ∈ s.opened, s.pool.status conn = .closed
  late : s.late = []

/-- No creation succeeds once `close` was called, and no creator is left to hand its connection to its caller
once it has resolved. -/
def Settled (s : Shutdown) : PoolEvent → Prop
  | .connected conn _ => conn ∈ s.pool.connecting.map fst → s.pool.closed = false
  | .creatorGoesOn conn =>
    s.resolved = true → ∀ caller, s.pool.created.find? (fun x => x.1 = conn) ≠ some (conn, .acquire caller)
  | _ => True

/-! ## The place of a caller -/

/-- How often a caller is settled, waits, or has a connection created for it. -/
def PgPool.places (pool : PgPool) (caller : Nat) : Nat :=
  (pool.settled.map fst).count caller + pool.waitQueue.count caller + (pool.cold.map fst).count caller +
    pool.resumed.count caller + (pool.connecting.map snd).count (.acquire caller) +
    (pool.created.map snd).count (.acquire caller)

section

variable {opts : PoolOptions} {pool pool' : PgPool}

theorem places_reject (caller : Nat) (error : String) (c : Nat) : (pool.reject caller error).places c = pool.places c + [caller].count c := by
  simp only [PgPool.places, PgPool.reject, map_append, map_cons, map_nil, count_append]
  omega

theorem places_hand (conn caller c : Nat) : (pool.hand conn caller).places c = pool.places c + [caller].count c := by
  simp only [PgPool.places, PgPool.hand, map_append, map_cons, map_nil, count_append]
  omega

theorem places_createConnection (purpose : Purpose) (c : Nat) :
    (pool.createConnection purpose).places c = pool.places c + [purpose].count (.acquire c) := by
  simp only [PgPool.places, PgPool.createConnection, map_append, map_cons, map_nil, count_append]
  omega

theorem places_createMany (w : Nat) : ∀ (n : Nat) (pool : PgPool) (c : Nat), (pool.createMany w n).places c = pool.places c
  | 0, _, _ => rfl
  | n + 1, pool, c => by
    refine (places_createMany w n (pool.createConnection (.warmUp w)) c).trans ?_
    rw [places_createConnection]
    simp

theorem places_warmUp (c : Nat) : (pool.warmUp opts).places c = pool.places c := by
  unfold PgPool.warmUp
  rw [places_createMany]
  rfl

theorem count_acquire (caller c : Nat) : [Purpose.acquire caller].count (.acquire c) = [caller].count c := by
  simp [count_cons]

theorem places_createOrWait (caller c : Nat) : (pool.createOrWait opts caller).places c = pool.places c + [caller].count c := by
  unfold PgPool.createOrWait
  split
  · rw [places_createConnection, count_acquire]
    rfl
  · unfold PgPool.enqueue
    split
    · exact places_reject caller _ c
    · simp only [PgPool.places, count_append]
      omega

theorem places_doAcquire (caller : Nat) (now : Int) (c : Nat) :
    (pool.doAcquire opts caller now).places c = pool.places c + [caller].count c := by
  unfold PgPool.doAcquire
  split
  · exact places_reject caller _ c
  · split
    · split
      · exact places_createOrWait caller c
      · exact places_hand _ caller c
    · exact places_createOrWait caller c

theorem places_acquire (caller : Nat) (now : Int) (c : Nat) : (pool.acquire opts caller now).places c = pool.places c + [caller].count c := by
  unfold PgPool.acquire
  split
  · exact places_doAcquire caller now c
  · split
    · exact places_reject caller _ c
    · split
      · simp only [PgPool.places, map_append, map_cons, map_nil, count_append]
        omega
      · rw [places_warmUp]
        simp only [PgPool.places, map_append, map_cons, map_nil, count_append]
        omega

theorem places_resume (caller : Nat) (now : Int) (c : Nat) : (pool.resume opts caller now).places c = pool.places c := by
  unfold PgPool.resume
  split
  · rename_i hmem
    have hcount := (perm_cons_erase hmem).count_eq c
    rw [show caller :: pool.resumed.erase caller = [caller] ++ pool.resumed.erase caller from rfl, count_append] at hcount
    rw [places_doAcquire]
    simp only [PgPool.places]
    omega
  · rfl

theorem count_filter_ne {l : List (Nat × Purpose)} {conn : Nat} {x : Nat × Purpose}
    (h : l.find? (fun x => x.1 = conn) = some x) (purpose : Purpose) :
    ((l.filter fun x => x.1 ≠ conn).map snd).count purpose + [x.2].count purpose ≤ (l.map snd).count purpose := by
  have hx : x.1 = conn := by simpa using find?_some h
  have hsub : [x].Sublist (l.filter fun x => x.1 = conn) :=
    singleton_sublist.2 (mem_filter.2 ⟨mem_of_find?_eq_some h, by simpa using hx⟩)
  have hperm :=
    ((filter_append_perm (fun x : Nat × Purpose => decide (x.1 = conn)) l).map snd).count_eq purpose
  have hone := (hsub.map snd).count_le purpose
  rw [map_append, count_append] at hperm
  have hfilter : (l.filter fun x => x.1 ≠ conn) = l.filter fun x => !decide (x.1 = conn) :=
    filter_congr fun x _ => by simp
  rw [hfilter]
  simp only [map_cons, map_nil] at hone
  omega

theorem places_connected (conn : Nat) (now : Int) (c : Nat) : (pool.connected conn now).places c ≤ pool.places c := by
  unfold PgPool.connected
  split
  · exact Nat.le_refl _
  · rename_i x purpose hfind
    have hcount := count_filter_ne hfind (.acquire c)
    dsimp only at hcount
    split
    · simp only [PgPool.places]
      omega
    · simp only [PgPool.places, map_append, map_cons, map_nil, count_append]
      omega

theorem places_connectFailed (conn : Nat) (error : String) (c : Nat) : (pool.connectFailed conn error).places c ≤ pool.places c := by
  unfold PgPool.connectFailed
  split
  · exact Nat.le_refl _
  · rename_i x purpose hfind
    have hcount := count_filter_ne hfind (.acquire c)
    split
    · simp only [PgPool.places]
      omega
    · rw [places_reject]
      rw [count_acquire] at hcount
      simp only [PgPool.places]
      omega
    · simp only [PgPool.places]
      omega

/-- The callers of a warm-up, with those of the others. -/
theorem count_cold (cold : List (Nat × Nat)) (w c : Nat) :
    ((cold.filter fun x => x.2 = w).map fst).count c + ((cold.filter fun x => x.2 ≠ w).map fst).count c = (cold.map fst).count c := by
  have hperm := ((filter_append_perm (fun x : Nat × Nat => decide (x.2 = w)) cold).map fst).count_eq c
  rw [map_append, count_append] at hperm
  have hfilter : (cold.filter fun x => x.2 ≠ w) = cold.filter fun x => !decide (x.2 = w) :=
    filter_congr fun x _ => by simp
  rw [hfilter]
  exact hperm

theorem places_warmed (w c : Nat) : (pool.warmed w).places c = pool.places c := by
  unfold PgPool.warmed
  split
  · split
    · have hcold := count_cold pool.cold w c
      simp only [PgPool.places, count_append]
      omega
    · rfl
  · rfl

theorem places_warmUpFailed (w : Nat) (error : String) (c : Nat) : (pool.warmUpFailed w error).places c = pool.places c := by
  unfold PgPool.warmUpFailed
  split
  · split
    · have hcold := count_cold pool.cold w c
      simp only [PgPool.places, map_append, map_map, count_append]
      have hmap : List.map (fst ∘ fun x : Nat × Nat => (x.1, (Except.error error : Except String Nat)))
          (pool.cold.filter fun x => x.2 = w) = (pool.cold.filter fun x => x.2 = w).map fst := rfl
      rw [hmap]
      omega
    · rfl
  · rfl

theorem places_finish (c : Nat) : pool.finish.places c = pool.places c := by
  unfold PgPool.finish
  split <;> rfl

theorem places_maybeCreateReplacement (c : Nat) : (pool.maybeCreateReplacement opts).places c = pool.places c := by
  unfold PgPool.maybeCreateReplacement
  split
  · rfl
  · split
    · rw [places_createConnection]
      simp [PgPool.places]
    · rfl

theorem places_serveWaiter (conn c : Nat) : (pool.serveWaiter conn).places c = pool.places c := by
  unfold PgPool.serveWaiter
  split
  · rename_i waiter waiters hq
    rw [places_hand]
    simp only [PgPool.places, hq]
    rw [show waiter :: waiters = [waiter] ++ waiters from rfl, count_append]
    omega
  · rfl

theorem places_creatorGoesOn (conn c : Nat) : (pool.creatorGoesOn conn).places c ≤ pool.places c := by
  unfold PgPool.creatorGoesOn
  split
  · exact Nat.le_refl _
  · rename_i x purpose hfind
    have hcount := count_filter_ne hfind (.acquire c)
    split
    · rw [places_hand]
      rw [count_acquire] at hcount
      simp only [PgPool.places]
      omega
    · rw [places_serveWaiter]
      simp only [PgPool.places]
      omega

theorem places_giveBack (conn : Nat) (now : Int) (c : Nat) : (pool.giveBack opts conn now).places c = pool.places c := by
  unfold PgPool.giveBack
  split
  · split
    · exact places_maybeCreateReplacement c
    · split
      · exact places_serveWaiter conn c
      · rfl
  · rfl

theorem places_acquireTimeout (caller c : Nat) : (pool.acquireTimeout caller).places c = pool.places c := by
  unfold PgPool.acquireTimeout
  split
  · rename_i hmem
    have hcount := (perm_cons_erase hmem).count_eq c
    rw [show caller :: pool.waitQueue.erase caller = [caller] ++ pool.waitQueue.erase caller from rfl, count_append] at hcount
    rw [places_reject]
    simp only [PgPool.places]
    omega
  · rfl

theorem places_close (c : Nat) : pool.close.places c = pool.places c := by
  have hmap : (pool.waitQueue.map fun caller => (caller, (.error closedMessage : Except String Nat))).map fst =
      pool.waitQueue := by
    rw [map_map]
    exact map_id _
  unfold closedMessage at hmap
  simp only [PgPool.places, PgPool.close, map_append, count_append, count_nil]
  rw [hmap]
  omega

theorem places_setStatus (conn : Nat) (st : ConnStatus) (c : Nat) : (pool.setStatus conn st).places c = pool.places c := by
  unfold PgPool.setStatus
  split <;> rfl

/-- **A step gives no caller a second place**, and a new call one. -/
theorem places_poolStep (opts : PoolOptions) (s : Shutdown) (e : PoolEvent) (c : Nat) :
    (s.poolStep opts e).places c ≤ s.pool.places c + if (s.step opts e).nextCaller = s.nextCaller then 0
      else [s.nextCaller].count c := by
  cases e with
  | acquire caller now =>
    have hne : (s.step opts (.acquire caller now)).nextCaller ≠ s.nextCaller := Nat.succ_ne_self _
    rw [if_neg hne]
    exact Nat.le_of_eq (places_acquire s.nextCaller now c)
  | warmUp => exact Nat.le_add_right_of_le (Nat.le_of_eq (places_warmUp c))
  | resume caller now => exact Nat.le_add_right_of_le (Nat.le_of_eq (places_resume caller now c))
  | connected conn now => exact Nat.le_add_right_of_le (places_connected conn now c)
  | connectFailed conn error => exact Nat.le_add_right_of_le (places_connectFailed conn error c)
  | creatorGoesOn conn => exact Nat.le_add_right_of_le (places_creatorGoesOn conn c)
  | finish => exact Nat.le_add_right_of_le (Nat.le_of_eq (places_finish c))
  | warmed w => exact Nat.le_add_right_of_le (Nat.le_of_eq (places_warmed w c))
  | warmUpFailed w error => exact Nat.le_add_right_of_le (Nat.le_of_eq (places_warmUpFailed w error c))
  | release conn caller now => exact Nat.le_add_right_of_le (Nat.le_of_eq (places_giveBack conn now c))
  | sweepIdle now => exact Nat.le_add_right_of_le (Nat.le_refl _)
  | acquireTimeout caller => exact Nat.le_add_right_of_le (Nat.le_of_eq (places_acquireTimeout caller c))
  | setStatus conn st => exact Nat.le_add_right_of_le (Nat.le_of_eq (places_setStatus conn st c))
  | close => exact Nat.le_add_right_of_le (Nat.le_of_eq (places_close c))
  | closeDone =>
    refine Nat.le_add_right_of_le ?_
    show (if s.closing = 0 then s.pool else s.pool.closeDone).places c ≤ _
    split
    · exact Nat.le_refl _
    · exact Nat.le_refl _

/-! ## What a step does to the connections -/

/-- A connection is in the pool, or closed for good. -/
def PgPool.Accounted (pool : PgPool) (conn : Nat) : Prop := conn ∈ pool.connections ∨ pool.status conn = .closed

/-- What every step keeps, a closing one apart. -/
structure Keeps (pool pool' : PgPool) : Prop where
  settled : pool.settled <+: pool'.settled
  closed : pool'.closed = pool.closed
  accounted : ∀ c, pool.Accounted c → pool'.Accounted c

/-- What a step keeps of a closed pool. -/
structure KeepsClosed (pool pool' : PgPool) : Prop where
  queue : pool'.waitQueue = []
  status : ∀ c, pool.status c = .closed → pool'.status c = .closed
  connections : pool'.connections.Sublist pool.connections
  hands : handedOut pool'.settled = handedOut pool.settled

/-- The fields that `Keeps` speaks of. -/
def PgPool.account (pool : PgPool) := (pool.settled, pool.closed, pool.connections, pool.status)

theorem Keeps.of_eq (hsettled : pool.settled <+: pool'.settled) (hsame : pool'.account.2 = pool.account.2) : Keeps pool pool' := by
  simp only [PgPool.account, Prod.mk.injEq] at hsame
  obtain ⟨hclosed, hconnections, hstatus⟩ := hsame
  refine ⟨hsettled, hclosed, fun c hc => ?_⟩
  unfold PgPool.Accounted
  rw [hconnections, hstatus]
  exact hc

theorem Keeps.same (hsame : pool'.account = pool.account) : Keeps pool pool' :=
  .of_eq ⟨[], (append_nil _).trans (congrArg Prod.fst hsame).symm⟩ (congrArg Prod.snd hsame)

theorem KeepsClosed.of_eq (hqueue : pool'.waitQueue = []) (hhands : handedOut pool'.settled = handedOut pool.settled)
    (hsame : pool'.account.2.2 = pool.account.2.2) : KeepsClosed pool pool' := by
  obtain ⟨hconnections, hstatus⟩ := Prod.mk.inj hsame
  exact ⟨hqueue, fun _ hc => hstatus ▸ hc, hconnections ▸ List.Sublist.refl _, hhands⟩

theorem Keeps.trans {pool'' : PgPool} (h : Keeps pool pool') (h' : Keeps pool' pool'') : Keeps pool pool'' :=
  ⟨h.settled.trans h'.settled, h'.closed.trans h.closed, fun c hc => h'.accounted c (h.accounted c hc)⟩

/-- What a step begins with may differ in other fields. -/
theorem Keeps.since {pool₀ : PgPool} (h : Keeps pool₀ pool') (hsame : pool₀.account = pool.account) : Keeps pool pool' :=
  (Keeps.same hsame).trans h

theorem KeepsClosed.since {pool₀ : PgPool} (h : KeepsClosed pool₀ pool') (hsettled : pool₀.settled = pool.settled)
    (hconnections : pool₀.connections = pool.connections) (hstatus : pool₀.status = pool.status) :
    KeepsClosed pool pool' :=
  ⟨h.queue, hstatus ▸ h.status, hconnections ▸ h.connections, hsettled ▸ h.hands⟩

theorem handedOut_append_error (settled : List (Nat × Except String Nat)) (caller : Nat) (error : String) :
    handedOut (settled ++ [(caller, .error error)]) = handedOut settled := by
  unfold handedOut
  rw [filterMap_append]
  exact append_nil _

theorem createMany_spec' (w : Nat) : ∀ (n : Nat) (pool : PgPool),
    (pool.createMany w n).settled = pool.settled ∧ (pool.createMany w n).closed = pool.closed ∧
      (pool.createMany w n).connections = pool.connections ∧ (pool.createMany w n).status = pool.status ∧
      (pool.createMany w n).waitQueue = pool.waitQueue
  | 0, _ => ⟨rfl, rfl, rfl, rfl, rfl⟩
  | n + 1, pool => createMany_spec' w n (pool.createConnection (.warmUp w))

theorem warmUp_spec (opts : PoolOptions) (pool : PgPool) :
    (pool.warmUp opts).settled = pool.settled ∧ (pool.warmUp opts).closed = pool.closed ∧
    (pool.warmUp opts).connections = pool.connections ∧ (pool.warmUp opts).status = pool.status ∧
    (pool.warmUp opts).waitQueue = pool.waitQueue :=
  createMany_spec' pool.warmUps.length opts.minConnections
    { pool with warmUps := pool.warmUps ++ [{ left := opts.minConnections }] }

theorem keeps_warmUp : Keeps pool (pool.warmUp opts) := by
  obtain ⟨hsettled, hclosed, hconnections, hstatus, -⟩ := warmUp_spec opts pool
  exact .same (by rw [PgPool.account, hsettled, hclosed, hconnections, hstatus]; rfl)

theorem keeps_createOrWait (caller : Nat) : Keeps pool (pool.createOrWait opts caller) := by
  unfold PgPool.createOrWait
  split
  · exact .same rfl
  · unfold PgPool.enqueue
    split
    · exact .of_eq (prefix_append _ _) rfl
    · exact .same rfl

theorem keeps_removeConnection {conn : Nat} (hc : pool.status conn = .closed) : Keeps pool (pool.removeConnection conn) := by
  refine ⟨prefix_refl _, rfl, fun c h => ?_⟩
  by_cases hcc : c = conn
  · subst hcc
    exact .inr hc
  · rcases h with h | h
    · exact .inl ((mem_erase_of_ne hcc).2 h)
    · exact .inr h

theorem keeps_doAcquire (caller : Nat) (now : Int) : Keeps pool (pool.doAcquire opts caller now) := by
  unfold PgPool.doAcquire
  split
  · exact .of_eq (prefix_append _ _) rfl
  · split
    · split
      · rename_i conn _ hc
        exact (keeps_removeConnection hc).trans (keeps_createOrWait caller)
      · exact .of_eq (prefix_append _ _) rfl
    · exact keeps_createOrWait caller

theorem keeps_acquire (caller : Nat) (now : Int) : Keeps pool (pool.acquire opts caller now) := by
  unfold PgPool.acquire
  split
  · exact keeps_doAcquire caller now
  · split
    · exact .of_eq (prefix_append _ _) rfl
    · split
      · exact .same rfl
      · exact .since keeps_warmUp rfl

theorem keeps_connected (conn : Nat) (now : Int) : Keeps pool (pool.connected conn now) := by
  unfold PgPool.connected
  split
  · exact .same rfl
  · rename_i x purpose _
    -- the connection is in the pool, whatever its status was
    have haccounted : ∀ c, pool.Accounted c → c ∈ pool.connections ++ [conn] ∨
        (if c = conn then ConnStatus.ready else pool.status c) = .closed := fun c h => by
      by_cases hcc : c = conn
      · subst hcc
        exact .inl (mem_append_right _ mem_cons_self)
      · rw [if_neg hcc]
        exact h.imp_left (mem_append_left _)
    split
    · exact ⟨prefix_refl _, rfl, haccounted⟩
    · exact ⟨prefix_refl _, rfl, haccounted⟩

theorem keeps_connectFailed (conn : Nat) (error : String) : Keeps pool (pool.connectFailed conn error) := by
  unfold PgPool.connectFailed
  split
  · exact .same rfl
  · split
    · exact .same rfl
    · exact .of_eq (prefix_append _ _) rfl
    · exact .same rfl

theorem keeps_maybeCreateReplacement : Keeps pool (pool.maybeCreateReplacement opts) := by
  unfold PgPool.maybeCreateReplacement
  split
  · exact .same rfl
  · split
    · exact .same rfl
    · exact .same rfl

theorem keeps_serveWaiter (conn : Nat) : Keeps pool (pool.serveWaiter conn) := by
  unfold PgPool.serveWaiter
  split
  · exact .of_eq (prefix_append _ _) rfl
  · exact .same rfl

theorem keeps_creatorGoesOn (conn : Nat) : Keeps pool (pool.creatorGoesOn conn) := by
  unfold PgPool.creatorGoesOn
  split
  · exact .same rfl
  · split
    · exact .of_eq (prefix_append _ _) rfl
    · exact .since (keeps_serveWaiter conn) rfl

theorem keeps_giveBack (conn : Nat) (now : Int) : Keeps pool (pool.giveBack opts conn now) := by
  unfold PgPool.giveBack
  split
  · split
    · rename_i hc
      exact (keeps_removeConnection hc).trans keeps_maybeCreateReplacement
    · split
      · exact .since (keeps_serveWaiter conn) rfl
      · exact .same rfl
  · exact .same rfl

theorem mem_foldl_erase {c : Nat} : ∀ (cs l : List Nat), c ∈ l → c ∉ cs → c ∈ cs.foldl List.erase l
  | [], _, h, _ => h
  | x :: cs, l, h, hn => by
    have hne : c ≠ x := fun heq => hn (heq ▸ mem_cons_self)
    have hmem : c ∈ l.erase x := (mem_erase_of_ne hne).2 h
    exact mem_foldl_erase cs (l.erase x) hmem fun hc => hn (mem_cons_of_mem _ hc)

theorem keeps_sweepIdle (now : Int) : Keeps pool (pool.sweepIdle opts now) := by
  refine ⟨prefix_refl _, rfl, fun c h => ?_⟩
  show c ∈ (pool.expired opts now pool.connections []).foldl List.erase pool.connections ∨
    (if c ∈ pool.expired opts now pool.connections [] then ConnStatus.closed else pool.status c) = .closed
  by_cases hc : c ∈ pool.expired opts now pool.connections []
  · exact .inr (if_pos hc)
  · rw [if_neg hc]
    exact h.imp_left fun h => mem_foldl_erase _ _ h hc

theorem keeps_setStatus (conn : Nat) (st : ConnStatus) : Keeps pool (pool.setStatus conn st) := by
  unfold PgPool.setStatus
  split
  · exact .same rfl
  · rename_i hopen
    refine ⟨prefix_refl _, rfl, fun c h => ?_⟩
    show c ∈ pool.connections ∨ (if c = conn then st else pool.status c) = .closed
    by_cases hcc : c = conn
    · subst hcc
      exact .inl (h.resolve_right hopen)
    · rw [if_neg hcc]
      exact h

/-- **Every step keeps the settlements and accounts for the connections**, but for the calls of `close` and their
ends. -/
theorem keeps_step {e : PoolEvent} (hclose : e ≠ .close) (hdone : e ≠ .closeDone) : Keeps pool (pool.step opts e) := by
  cases e with
  | warmUp => exact keeps_warmUp
  | acquire caller now => exact keeps_acquire caller now
  | resume caller now =>
    show Keeps pool (pool.resume opts caller now)
    unfold PgPool.resume
    split
    · exact .since (keeps_doAcquire caller now) rfl
    · exact .same rfl
  | connected conn now => exact keeps_connected conn now
  | connectFailed conn error => exact keeps_connectFailed conn error
  | creatorGoesOn conn => exact keeps_creatorGoesOn conn
  | finish =>
    show Keeps pool pool.finish
    unfold PgPool.finish
    split
    · exact .same rfl
    · exact .same rfl
  | warmed w =>
    show Keeps pool (pool.warmed w)
    unfold PgPool.warmed
    split
    · split
      · exact .same rfl
      · exact .same rfl
    · exact .same rfl
  | warmUpFailed w error =>
    show Keeps pool (pool.warmUpFailed w error)
    unfold PgPool.warmUpFailed
    split
    · split
      · exact .of_eq (prefix_append _ _) rfl
      · exact .same rfl
    · exact .same rfl
  | release conn caller now =>
    show Keeps pool (pool.release opts conn caller now)
    exact .since (keeps_giveBack conn now) rfl
  | sweepIdle now => exact keeps_sweepIdle now
  | acquireTimeout caller =>
    show Keeps pool (pool.acquireTimeout caller)
    unfold PgPool.acquireTimeout
    split
    · exact .of_eq (prefix_append _ _) rfl
    · exact .same rfl
  | setStatus conn st => exact keeps_setStatus conn st
  | close => exact absurd rfl hclose
  | closeDone => exact absurd rfl hdone

/-! ## A closed pool -/

theorem KeepsClosed.refl (hq : pool.waitQueue = []) : KeepsClosed pool pool :=
  .of_eq hq rfl rfl

theorem keepsClosed_reject (hq : pool.waitQueue = []) (caller : Nat) (error : String) : KeepsClosed pool (pool.reject caller error) :=
  .of_eq hq (handedOut_append_error _ _ _) rfl

theorem keepsClosed_doAcquire (hc : pool.closed = true) (hq : pool.waitQueue = []) (caller : Nat) (now : Int) :
    KeepsClosed pool (pool.doAcquire opts caller now) := by
  unfold PgPool.doAcquire
  rw [if_pos hc]
  exact keepsClosed_reject hq caller _

theorem keepsClosed_acquire (hc : pool.closed = true) (hq : pool.waitQueue = []) (caller : Nat) (now : Int) :
    KeepsClosed pool (pool.acquire opts caller now) := by
  unfold PgPool.acquire
  split
  · exact keepsClosed_doAcquire hc hq caller now
  · exact keepsClosed_reject hq caller _

theorem keepsClosed_connectFailed (hq : pool.waitQueue = []) (conn : Nat) (error : String) :
    KeepsClosed pool (pool.connectFailed conn error) := by
  unfold PgPool.connectFailed
  split
  · exact KeepsClosed.refl hq
  · split
    · exact .of_eq hq rfl rfl
    · exact .of_eq hq (handedOut_append_error _ _ _) rfl
    · exact .of_eq hq rfl rfl

theorem serveWaiter_nobody (hq : pool.waitQueue = []) (conn : Nat) : pool.serveWaiter conn = pool := by
  unfold PgPool.serveWaiter
  rw [hq]

theorem keepsClosed_giveBack (hc : pool.closed = true) (hq : pool.waitQueue = []) (conn : Nat) (now : Int) :
    KeepsClosed pool (pool.giveBack opts conn now) := by
  unfold PgPool.giveBack
  split
  · split
    · unfold PgPool.maybeCreateReplacement
      rw [if_pos (show (pool.removeConnection conn).closed = true from hc)]
      exact ⟨hq, fun _ => id, erase_sublist, rfl⟩
    · split
      · have hserve : (pool.freed conn now).serveWaiter conn = pool.freed conn now := by
          apply serveWaiter_nobody
          exact hq
        rw [hserve]
        exact .of_eq hq rfl rfl
      · exact .of_eq hq rfl rfl
  · exact KeepsClosed.refl hq

theorem handedOut_errors (settled : List (Nat × Except String Nat)) (error : String) (callers : List (Nat × Nat)) :
    handedOut (settled ++ callers.map fun c => (c.1, .error error)) = handedOut settled := by
  have hnone : (callers.map fun c => (c.1, (.error error : Except String Nat))).filterMap (fun x => match x.2 with
      | .ok conn => some (x.1, conn)
      | .error _ => none) = [] := by
    rw [filterMap_eq_nil_iff]
    intro x hx
    obtain ⟨c, -, rfl⟩ := mem_map.1 hx
    rfl
  unfold handedOut
  rw [filterMap_append, hnone, append_nil]

theorem sublist_foldl_erase : ∀ (cs l : List Nat), (cs.foldl List.erase l).Sublist l
  | [], _ => List.Sublist.refl _
  | _ :: cs, l => (sublist_foldl_erase cs (l.erase _)).trans erase_sublist

/-- **A closed pool hands nothing out**, but for a connection that its creator has still to take. -/
theorem keepsClosed_step (hc : pool.closed = true) (hq : pool.waitQueue = []) {e : PoolEvent} (hclose : e ≠ .close)
    (hdone : e ≠ .closeDone) (hconnected : ∀ conn now, e = .connected conn now → conn ∉ pool.connecting.map fst)
    (hcreator : ∀ conn, e ≠ .creatorGoesOn conn) : KeepsClosed pool (pool.step opts e) := by
  cases e with
  | warmUp =>
    obtain ⟨hsettled, -, hconnections, hstatus, hqueue⟩ := warmUp_spec opts pool
    exact .of_eq (hqueue.trans hq) (congrArg handedOut hsettled) (Prod.ext hconnections hstatus)
  | acquire caller now => exact keepsClosed_acquire hc hq caller now
  | resume caller now =>
    show KeepsClosed pool (pool.resume opts caller now)
    unfold PgPool.resume
    split
    · refine KeepsClosed.since (keepsClosed_doAcquire ?_ ?_ caller now) rfl rfl rfl
      · exact hc
      · exact hq
    · exact KeepsClosed.refl hq
  | connected conn now =>
    have hnone : pool.connecting.find? (fun x => x.1 = conn) = none := by
      rw [find?_eq_none]
      intro x hx heq
      refine hconnected conn now rfl (mem_map.2 ⟨x, hx, ?_⟩)
      simpa using heq
    show KeepsClosed pool (pool.connected conn now)
    unfold PgPool.connected
    rw [hnone]
    exact KeepsClosed.refl hq
  | connectFailed conn error => exact keepsClosed_connectFailed hq conn error
  | creatorGoesOn conn => exact absurd rfl (hcreator conn)
  | finish =>
    show KeepsClosed pool pool.finish
    unfold PgPool.finish
    split
    · exact KeepsClosed.refl hq
    · exact .of_eq hq rfl rfl
  | warmed w =>
    show KeepsClosed pool (pool.warmed w)
    unfold PgPool.warmed
    split
    · split
      · exact .of_eq hq rfl rfl
      · exact KeepsClosed.refl hq
    · exact KeepsClosed.refl hq
  | warmUpFailed w error =>
    show KeepsClosed pool (pool.warmUpFailed w error)
    unfold PgPool.warmUpFailed
    split
    · split
      · exact .of_eq hq (handedOut_errors _ _ _) rfl
      · exact KeepsClosed.refl hq
    · exact KeepsClosed.refl hq
  | release conn caller now =>
    show KeepsClosed pool (pool.release opts conn caller now)
    refine KeepsClosed.since (keepsClosed_giveBack ?_ ?_ conn now) rfl rfl rfl
    · exact hc
    · exact hq
  | sweepIdle now =>
    refine ⟨hq, fun c h => ?_, sublist_foldl_erase _ _, rfl⟩
    show (if c ∈ pool.expired opts now pool.connections [] then ConnStatus.closed else pool.status c) = .closed
    rw [h, ite_self]
  | acquireTimeout caller =>
    show KeepsClosed pool (pool.acquireTimeout caller)
    unfold PgPool.acquireTimeout
    rw [hq, if_neg not_mem_nil]
    exact KeepsClosed.refl hq
  | setStatus conn st =>
    show KeepsClosed pool (pool.setStatus conn st)
    unfold PgPool.setStatus
    split
    · exact KeepsClosed.refl hq
    · rename_i hopen
      refine ⟨hq, fun c h => ?_, List.Sublist.refl _, rfl⟩
      show (if c = conn then st else pool.status c) = .closed
      have hne : c ≠ conn := by
        rintro rfl
        exact hopen h
      rw [if_neg hne]
      exact h
  | close => exact absurd rfl hclose
  | closeDone => exact absurd rfl hdone

theorem creatorGoesOn_closed (hq : pool.waitQueue = []) (conn : Nat) :
    (pool.creatorGoesOn conn).waitQueue = [] ∧ (pool.creatorGoesOn conn).status = pool.status ∧
      (pool.creatorGoesOn conn).connections = pool.connections := by
  unfold PgPool.creatorGoesOn
  split
  · exact ⟨hq, rfl, rfl⟩
  · split
    · exact ⟨hq, rfl, rfl⟩
    · rw [serveWaiter_nobody]
      · exact ⟨hq, rfl, rfl⟩
      · exact hq

theorem creatorGoesOn_hands (hq : pool.waitQueue = []) {conn : Nat}
    (hcreated : ∀ caller, pool.created.find? (fun x => x.1 = conn) ≠ some (conn, .acquire caller)) :
    handedOut (pool.creatorGoesOn conn).settled = handedOut pool.settled := by
  unfold PgPool.creatorGoesOn
  split
  · rfl
  · rename_i x purpose hfind
    have hx : x = conn := by simpa using find?_some hfind
    subst hx
    split
    · rename_i caller
      exact absurd hfind (hcreated caller)
    · rw [serveWaiter_nobody]
      exact hq

end

/-! ## The invariant -/

/-- What holds of a pool in every run whose steps are settled. -/
structure Shutdown.Sound (s : Shutdown) : Prop where
  places : ∀ c, s.pool.places c ≤ if c < s.nextCaller then 1 else 0
  waiting : ∀ c ∈ s.waiting, (c, .error closedMessage) ∈ s.pool.settled
  queue : s.pool.closed = true → s.pool.waitQueue = []
  accounted : ∀ conn ∈ s.opened, s.pool.Accounted conn
  shut : s.pool.closed = true → ∀ conn ∈ s.opened, s.pool.status conn = .closed
  closing : s.closing ≠ 0 ∨ s.resolved = true → s.pool.closed = true
  empty : s.resolved = true → s.pool.connections = []
  late : s.late = []

theorem Shutdown.Sound.initial : ({} : Shutdown).Sound where
  places c := by simp [PgPool.places]
  waiting := by simp
  queue := by simp
  accounted := by simp
  shut := by simp
  closing := by simp
  empty := by simp
  late := rfl

theorem Shutdown.Sound.settled_once {s : Shutdown} (h : s.Sound) {c : Nat} {result : Except String Nat}
    (hmem : (c, result) ∈ s.pool.settled) : s.pool.settled.filter (fun x => x.1 = c) = [(c, result)] := by
  have hplaces : s.pool.places c ≤ 1 := Nat.le_trans (h.places c) (by split <;> omega)
  have hcount : (s.pool.settled.map fst).count c ≤ 1 := by
    unfold PgPool.places at hplaces
    omega
  have hlength : (s.pool.settled.filter fun x => x.1 = c).length ≤ 1 := by
    rw [count_eq_countP, countP_map] at hcount
    rw [← countP_eq_length_filter]
    refine Nat.le_trans (Nat.le_of_eq (countP_congr fun x _ => ?_)) hcount
    simp
  have hin : (c, result) ∈ s.pool.settled.filter fun x => x.1 = c := mem_filter.2 ⟨hmem, by simp⟩
  exact ((singleton_sublist.2 hin).eq_of_length_le hlength).symm

theorem Shutdown.Sound.toShut {s : Shutdown} (h : s.Sound) : Shut s where
  rejected c hc := h.settled_once (h.waiting c hc)
  empty hr := ⟨h.empty hr, h.shut (h.closing (.inr hr))⟩
  late := h.late

/-! ## Every step keeps it -/

section

variable {opts : PoolOptions} {s : Shutdown} {e : PoolEvent}

/-- The step of the pool: a call of `acquire` is numbered anew. -/
def Shutdown.numbered (s : Shutdown) : PoolEvent → PoolEvent
  | .acquire _ now => .acquire s.nextCaller now
  | e => e

theorem poolStep_eq (hdone : e ≠ .closeDone) : s.poolStep opts e = s.pool.step opts (s.numbered e) := by
  cases e with
  | closeDone => exact absurd rfl hdone
  | _ => rfl

theorem numbered_ne {e' : PoolEvent} (h : e ≠ e') (he' : ∀ caller now, e' ≠ .acquire caller now) : s.numbered e ≠ e' := by
  cases e with
  | acquire caller now => exact fun heq => he' _ _ heq.symm
  | _ => exact h

theorem nextCaller_step (opts : PoolOptions) (s : Shutdown) (e : PoolEvent) :
    (s.step opts e).nextCaller = s.nextCaller ∨ (s.step opts e).nextCaller = s.nextCaller + 1 := by
  cases e with
  | acquire caller now => exact .inr rfl
  | _ => exact .inl rfl

theorem sound_places (h : s.Sound) (c : Nat) : (s.step opts e).pool.places c ≤ if c < (s.step opts e).nextCaller then 1 else 0 := by
  have hstep : (s.step opts e).pool.places c ≤ _ := places_poolStep opts s e c
  have hbefore := h.places c
  rcases nextCaller_step opts s e with hnext | hnext
  · rw [if_pos hnext] at hstep
    rw [hnext]
    exact Nat.le_trans hstep hbefore
  · -- the new call has no other place
    rw [hnext, if_neg (Nat.succ_ne_self _), count_singleton] at hstep
    rw [hnext]
    by_cases hc : c = s.nextCaller
    · subst hc
      simp at hstep hbefore
      rw [if_pos (Nat.lt_succ_self _)]
      omega
    · have hc' : (s.nextCaller == c) = false := by simpa using fun heq => hc heq.symm
      simp only [hc'] at hstep
      refine Nat.le_trans (Nat.le_trans hstep hbefore) ?_
      split <;> split <;> omega

theorem step_rest (opts : PoolOptions) (s : Shutdown) (hclose : e ≠ .close) (hdone : e ≠ .closeDone) :
    (s.step opts e).closing = s.closing ∧ (s.step opts e).resolved = s.resolved ∧ (s.step opts e).waiting = s.waiting := by
  cases e with
  | close => exact absurd rfl hclose
  | closeDone => exact absurd rfl hdone
  | _ => exact ⟨rfl, rfl, rfl⟩

theorem mem_connected {pool : PgPool} {conn : Nat} (hconn : conn ∈ pool.connecting.map fst) (now : Int) :
    conn ∈ (pool.connected conn now).connections := by
  obtain ⟨x, hx, rfl⟩ := mem_map.1 hconn
  unfold PgPool.connected
  split
  · rename_i hnone
    rw [find?_eq_none] at hnone
    exact absurd (decide_eq_true rfl) (hnone x hx)
  · split
    · exact mem_append_right _ mem_cons_self
    · exact mem_append_right _ mem_cons_self

theorem opened_step (hs : Settled s e) {conn : Nat} (hconn : conn ∈ (s.step opts e).opened) :
    conn ∈ s.opened ∨ conn ∈ (s.step opts e).pool.connections ∧ s.pool.closed = false := by
  cases e with
  | connected conn' now =>
    change conn ∈ (if conn' ∈ s.pool.connecting.map fst then s.opened ++ [conn'] else s.opened) at hconn
    split at hconn
    · rename_i hmem
      rcases mem_append.1 hconn with h | h
      · exact .inl h
      · obtain rfl := mem_singleton.1 h
        exact .inr ⟨mem_connected hmem now, hs hmem⟩
    · exact .inl hconn
  | _ => exact .inl hconn

theorem handedOut_drop {settled settled' : List (Nat × Except String Nat)} (hpre : settled <+: settled')
    (h : handedOut settled' = handedOut settled) : handedOut (settled'.drop settled.length) = [] := by
  obtain ⟨more, rfl⟩ := hpre
  rw [drop_left]
  unfold handedOut at h ⊢
  rw [filterMap_append] at h
  exact append_right_eq_self.1 h

theorem closed_step (opts : PoolOptions) (hs : Settled s e) (hclose : e ≠ .close) (hdone : e ≠ .closeDone) (hc : s.pool.closed = true)
    (hq : s.pool.waitQueue = []) :
    (s.step opts e).pool.waitQueue = [] ∧ (∀ c, s.pool.status c = .closed → (s.step opts e).pool.status c = .closed) ∧
      (s.step opts e).pool.connections.Sublist s.pool.connections ∧
      (s.resolved = true → handedOut (s.step opts e).pool.settled = handedOut s.pool.settled) := by
  by_cases hcreator : ∃ conn, e = .creatorGoesOn conn
  · obtain ⟨conn, rfl⟩ := hcreator
    obtain ⟨hqueue, hstatus, hconnections⟩ := creatorGoesOn_closed hq conn
    refine ⟨hqueue, fun c h => ?_, ?_, fun hr => creatorGoesOn_hands hq (hs hr)⟩
    · exact (congrFun hstatus c).trans h
    · exact hconnections ▸ List.Sublist.refl _
  · have hkeeps : KeepsClosed s.pool (s.step opts e).pool := by
      show KeepsClosed s.pool (s.poolStep opts e)
      rw [poolStep_eq hdone]
      refine keepsClosed_step hc hq (numbered_ne hclose (by simp)) (numbered_ne hdone (by simp)) ?_ ?_
      · rintro conn now heq hmem
        cases e with
        | connected conn' now' =>
          cases heq
          exact absurd hc (by rw [hs hmem]; exact Bool.false_ne_true)
        | _ => cases heq
      · intro conn
        exact numbered_ne (fun heq => hcreator ⟨conn, heq⟩) (by simp)
    exact ⟨hkeeps.queue, hkeeps.status, hkeeps.connections, fun _ => hkeeps.hands⟩

theorem sound_other (h : s.Sound) (hs : Settled s e) (hclose : e ≠ .close) (hdone : e ≠ .closeDone) : (s.step opts e).Sound := by
  obtain ⟨hclosing, hresolved, hwaiting⟩ := step_rest opts s hclose hdone
  have hkeeps : Keeps s.pool (s.step opts e).pool := by
    show Keeps s.pool (s.poolStep opts e)
    rw [poolStep_eq hdone]
    exact keeps_step (numbered_ne hclose (by simp)) (numbered_ne hdone (by simp))
  have hshut := fun hc => closed_step opts hs hclose hdone hc (h.queue hc)
  constructor
  case places => exact sound_places h
  case waiting =>
    rw [hwaiting]
    exact fun c hc => hkeeps.settled.subset (h.waiting c hc)
  case queue =>
    rw [hkeeps.closed]
    exact fun hc => (hshut hc).1
  case accounted =>
    intro conn hconn
    rcases opened_step hs hconn with hold | ⟨hnew, -⟩
    · exact hkeeps.accounted conn (h.accounted conn hold)
    · exact .inl hnew
  case shut =>
    rw [hkeeps.closed]
    intro hc conn hconn
    rcases opened_step hs hconn with hold | ⟨-, hopen⟩
    · exact (hshut hc).2.1 conn (h.shut hc conn hold)
    · rw [hc] at hopen
      cases hopen
  case closing =>
    rw [hclosing, hresolved, hkeeps.closed]
    exact h.closing
  case empty =>
    rw [hresolved]
    intro hr
    have hsub := (hshut (h.closing (.inr hr))).2.2.1
    rw [h.empty hr] at hsub
    exact sublist_nil.1 hsub
  case late =>
    show (if s.resolved then s.late ++ handedOut ((s.step opts e).pool.settled.drop s.pool.settled.length)
      else s.late) = []
    split
    · rename_i hr
      rw [h.late, handedOut_drop hkeeps.settled ((hshut (h.closing (.inr hr))).2.2.2 hr)]
      rfl
    · exact h.late

theorem sound_close (h : s.Sound) : (s.step opts .close).Sound := by
  have hclosed : ∀ conn ∈ s.opened, s.pool.close.status conn = .closed := fun conn hconn => by
    show (if conn ∈ s.pool.connections then ConnStatus.closed else s.pool.status conn) = .closed
    split
    · rfl
    · rename_i hnot
      exact (h.accounted conn hconn).resolve_left hnot
  constructor
  case places => exact sound_places h
  case waiting =>
    intro c hc
    rcases mem_append.1 hc with hold | hnew
    · exact mem_append_left _ (h.waiting c hold)
    · exact mem_append_right _ (mem_map.2 ⟨c, hnew, rfl⟩)
  case queue => exact fun _ => rfl
  case accounted => exact fun conn hconn => .inr (hclosed conn hconn)
  case shut => exact fun _ => hclosed
  case closing => exact fun _ => rfl
  case empty => exact h.empty
  case late =>
    show (if s.resolved then s.late ++ handedOut (s.pool.close.settled.drop s.pool.settled.length) else s.late) = []
    split
    · -- nobody waits any more when one has resolved
      rename_i hr
      have hsettled : s.pool.close.settled = s.pool.settled := by
        show s.pool.settled ++ _ = s.pool.settled
        rw [h.queue (h.closing (.inr hr))]
        exact append_nil _
      rw [h.late, hsettled, drop_length]
      rfl
    · exact h.late

theorem sound_closeDone (h : s.Sound) : (s.step opts .closeDone).Sound := by
  by_cases hzero : s.closing = 0
  · have hpool : (s.step opts .closeDone).pool = s.pool := if_pos hzero
    have hresolved : (s.step opts .closeDone).resolved = s.resolved := by
      show (s.resolved || decide (s.closing ≠ 0)) = s.resolved
      rw [hzero]
      exact Bool.or_false _
    have hclosing : (s.step opts .closeDone).closing = s.closing := by
      show s.closing - 1 = s.closing
      omega
    constructor
    case places => exact sound_places h
    case waiting => exact hpool ▸ h.waiting
    case queue => exact hpool ▸ h.queue
    case accounted => exact hpool ▸ h.accounted
    case shut => exact hpool ▸ h.shut
    case closing =>
      rw [hpool, hresolved, hclosing]
      exact h.closing
    case empty =>
      rw [hpool, hresolved]
      exact h.empty
    case late =>
      show (if s.resolved then s.late ++ handedOut ((s.step opts .closeDone).pool.settled.drop s.pool.settled.length)
        else s.late) = []
      rw [hpool, drop_length, h.late]
      exact ite_self []
  · have hpool : (s.step opts .closeDone).pool = s.pool.closeDone := if_neg hzero
    have hc : s.pool.closed = true := h.closing (.inl hzero)
    constructor
    case places => exact sound_places h
    case waiting =>
      rw [hpool]
      exact h.waiting
    case queue =>
      rw [hpool]
      exact h.queue
    case accounted =>
      rw [hpool]
      exact fun conn hconn => .inr (h.shut hc conn hconn)
    case shut =>
      rw [hpool]
      exact h.shut
    case closing =>
      rw [hpool]
      exact fun _ => hc
    case empty =>
      rw [hpool]
      exact fun _ => rfl
    case late =>
      show (if s.resolved then s.late ++ handedOut ((s.step opts .closeDone).pool.settled.drop s.pool.settled.length)
        else s.late) = []
      rw [hpool, show s.pool.closeDone.settled = s.pool.settled from rfl, drop_length, h.late]
      exact ite_self []

/-- **Every settled step keeps the invariant.** -/
theorem sound_step (s : Shutdown) (e : PoolEvent) (h : s.Sound) (hs : Settled s e) : (s.step opts e).Sound := by
  by_cases hclose : e = .close
  · subst hclose
    exact sound_close h
  · by_cases hdone : e = .closeDone
    · subst hdone
      exact sound_closeDone h
    · exact sound_other h hs hclose hdone

end

/-! ## Runs -/

/-- **After `close`**: in every interleaving of it with everything else in which no creation succeeds once it
was called, the callers that waited are rejected once, the pool is empty when it resolves, all that was ever
open is closed, and nothing is handed out again. -/
theorem shut_of_settled (opts : PoolOptions) (es : List PoolEvent) (h : Guarded (Shutdown.step opts) Settled ({} : Shutdown) es) (n : Nat) :
    Shut (run (Shutdown.step opts) {} (es.take n)) :=
  (take_invariant_of_guarded _ sound_step h Shutdown.Sound.initial n).toShut

/-- A pool of one connection that is created for the first caller; the second waits when the pool is closed. -/
def settledRun : List PoolEvent :=
  [.warmUp, .warmed 0, .acquire 0 0, .connected 0 1, .creatorGoesOn 0, .acquire 0 2, .close, .release 0 0 3, .closeDone, .acquire 0 4]

def oneConnection : PoolOptions := { minConnections := 0, maxConnections := 1 }

theorem shut_of_settled_run : Shut (run (Shutdown.step oneConnection) {} (settledRun.take 10)) := by
  refine shut_of_settled oneConnection settledRun ?_ 10
  refine ⟨trivial, trivial, trivial, fun _ => rfl, fun h => ?_, trivial, trivial, trivial, trivial, trivial, trivial⟩
  cases h

/-- The pool is closed while a connection is created for a caller: it is opened after `close` has resolved,
nothing closes it, and its creator hands it out. -/
def creationOutlives : List PoolEvent :=
  [.warmUp, .warmed 0, .acquire 0 0, .close, .closeDone, .connected 0 1, .creatorGoesOn 0]

theorem shutdown_counterexample : ¬∀ n, Shut (run (Shutdown.step oneConnection) {} (creationOutlives.take n)) := by
  intro h
  have hlate : [(0, 0)] = [] := (h 7).late
  cases hlate

end StreetJS.Pool
