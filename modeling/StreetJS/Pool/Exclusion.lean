/-
Mutual exclusion and the bound of the pool, over every interleaving of its steps. A connection enters
the pool before its creator has marked it, so another caller can be given it in between; and it enters
without a check, while its own creation is still counted and creations of a warm-up never are. These
are the only two ways in which the pool fails, and the exact condition on runs is that neither happens.
-/
import StreetJS.Pool.PgPool

namespace StreetJS.Pool

open StreetJS.Lib PgPool List

/-- No connection is in two hands, and the connections and counted creations are within the maximum. -/
structure Safe (opts : PoolOptions) (pool : PgPool) : Prop where
  exclusive : (pool.holding.map Prod.fst).Nodup
  bounded : pool.connections.length + pool.pendingCreations ≤ opts.maxConnections

/-- The connection is in a caller's hands. -/
def PgPool.Held (pool : PgPool) (conn : Nat) : Prop := conn ∈ pool.holding.map Prod.fst

/-- A caller gives back a connection that it holds. -/
def Disciplined (pool : PgPool) : PoolEvent → Prop
  | .release conn caller _ => (conn, caller) ∈ pool.holding
  | _ => True

/-- A connection enters the pool while there is room for one more, and a creator that goes on to hand
its connection out finds it in nobody's hands. -/
def Unhurried (opts : PoolOptions) (pool : PgPool) : PoolEvent → Prop
  | .connected conn _ => (∃ purpose, pool.connecting.find? (·.1 = conn) = some (conn, purpose)) → pool.hasRoom opts
  | .creatorGoesOn conn =>
    (∃ purpose, pool.created.find? (·.1 = conn) = some (conn, purpose) ∧
      ((∃ caller, purpose = .acquire caller) ∨ pool.waitQueue ≠ [])) → ¬ pool.Held conn
  | _ => True

/-- What the pool keeps on such runs: it is safe, and a connection in a caller's hands is in use. -/
structure Kept (opts : PoolOptions) (pool : PgPool) : Prop extends Safe opts pool where
  inUse : ∀ c, pool.Held c → pool.inUse c = true

section

variable {opts : PoolOptions} {pool pool' : PgPool}

/-! ## Steps that hand nothing out -/

/-- A step that changes no hand, and takes no more room. -/
theorem Kept.of_eq (h : Kept opts pool) (hh : pool'.holding = pool.holding) (hu : ∀ c, pool.Held c → pool'.inUse c = pool.inUse c)
    (hb : pool'.connections.length + pool'.pendingCreations ≤ pool.connections.length + pool.pendingCreations) :
    Kept opts pool' :=
  ⟨⟨hh ▸ h.exclusive, Nat.le_trans hb h.bounded⟩, fun c hc => by
    rw [PgPool.Held, hh] at hc
    rw [hu c hc]
    exact h.inUse c hc⟩

variable {conn : Nat}

theorem Kept.hand (h : Kept opts pool) (hfree : ¬ pool.Held conn) (caller : Nat) : Kept opts (pool.hand conn caller) := by
  refine ⟨⟨nodup_cons.2 ⟨hfree, h.exclusive⟩, h.bounded⟩, ?_⟩
  intro c hc
  simp only [PgPool.hand]
  rcases mem_cons.1 hc with rfl | hc
  · rw [if_pos rfl]
  · split
    · rfl
    · exact h.inUse c hc

theorem Kept.create (h : Kept opts pool) (hroom : pool.hasRoom opts = true) (purpose : Purpose) :
    Kept opts ({ pool with pendingCreations := pool.pendingCreations + 1 }.createConnection purpose) := by
  simp only [hasRoom, decide_eq_true_eq] at hroom
  exact ⟨⟨h.exclusive, hroom⟩, h.inUse⟩

theorem Kept.createOrWait (h : Kept opts pool) (caller : Nat) : Kept opts (pool.createOrWait opts caller) := by
  unfold PgPool.createOrWait
  split
  · rename_i hroom
    exact h.create hroom _
  · unfold enqueue
    split <;> exact { h with }

theorem Kept.removeConnection (h : Kept opts pool) (conn : Nat) : Kept opts (pool.removeConnection conn) :=
  h.of_eq rfl (fun _ _ => rfl) (Nat.add_le_add_right length_erase_le _)

theorem candidate_spec (h : pool.candidate = some conn) : pool.status conn = .closed ∨ pool.inUse conn = false := by
  have := find?_some h
  simp only [Bool.or_eq_true, decide_eq_true_eq, Bool.and_eq_true, Bool.not_eq_true'] at this
  rcases this with hc | ⟨hu, -⟩
  · exact .inl hc
  · exact .inr hu

theorem Kept.doAcquire (h : Kept opts pool) (caller : Nat) (now : Int) : Kept opts (pool.doAcquire opts caller now) := by
  unfold PgPool.doAcquire
  split
  · exact { h with }
  · split
    · rename_i conn hcand
      split
      · exact (h.removeConnection conn).createOrWait caller
      · rename_i hopen
        -- an idle connection is in nobody's hands
        have hfree : ¬ pool.Held conn := by
          intro hc
          rcases candidate_spec hcand with hcl | hu
          · exact hopen hcl
          · rw [h.inUse conn hc] at hu; cases hu
        have h' : Kept opts { pool with lastUsed := fun c => if c = conn then now else pool.lastUsed c } :=
          { h with }
        exact h'.hand hfree caller
    · exact h.createOrWait caller

theorem createMany_spec (w : Nat) : ∀ (n : Nat) (pool : PgPool),
    (pool.createMany w n).holding = pool.holding ∧ (pool.createMany w n).inUse = pool.inUse ∧
      (pool.createMany w n).connections = pool.connections ∧
      (pool.createMany w n).pendingCreations = pool.pendingCreations
  | 0, _ => ⟨rfl, rfl, rfl, rfl⟩
  | n + 1, pool => createMany_spec w n (pool.createConnection (.warmUp w))

section

variable (h : Kept opts pool)
include h

theorem Kept.warmUp : Kept opts (pool.warmUp opts) := by
  obtain ⟨hh, hu, hc, hp⟩ := createMany_spec pool.warmUps.length opts.minConnections
    { pool with warmUps := pool.warmUps ++ [{ left := opts.minConnections }] }
  exact h.of_eq hh (fun c _ => congrFun hu c) (Nat.le_of_eq (congrArg₂ (· + ·) (congrArg List.length hc) hp))

theorem Kept.acquire (caller : Nat) (now : Int) : Kept opts (pool.acquire opts caller now) := by
  unfold PgPool.acquire
  split
  · exact h.doAcquire caller now
  · split
    · exact { h with }
    · split
      · exact { h with }
      · have h' : Kept opts { pool with
            initPromise := some pool.warmUps.length, cold := pool.cold ++ [(caller, pool.warmUps.length)] } :=
          { h with }
        exact h'.warmUp

theorem Kept.resume (caller : Nat) (now : Int) : Kept opts (pool.resume opts caller now) := by
  unfold PgPool.resume
  split
  · have h' : Kept opts { pool with resumed := pool.resumed.erase caller } :=
      { h with }
    exact h'.doAcquire caller now
  · exact h

theorem Kept.connectFailed (conn : Nat) (error : String) : Kept opts (pool.connectFailed conn error) := by
  unfold PgPool.connectFailed
  split
  · exact h
  · rename_i purpose _
    cases purpose <;> refine h.of_eq rfl (fun _ _ => rfl) ?_
    · exact Nat.le_refl _
    · exact Nat.add_le_add_left (Nat.sub_le _ _) _
    · exact Nat.add_le_add_left (Nat.sub_le _ _) _

theorem Kept.freed (hfree : ¬ pool.Held conn) (now : Int) : Kept opts (pool.freed conn now) := by
  refine h.of_eq rfl (fun c hc => ?_) (Nat.le_refl _)
  have hne : c ≠ conn := fun he => hfree (he ▸ hc)
  simp only [PgPool.freed, if_neg hne]

theorem Kept.serveWaiter (hfree : pool.waitQueue ≠ [] → ¬ pool.Held conn) : Kept opts (pool.serveWaiter conn) := by
  unfold PgPool.serveWaiter
  split
  · rename_i waiter waiters hw
    have h' : Kept opts { pool with waitQueue := waiters } := { h with }
    exact h'.hand (hfree (by rw [hw]; nofun)) waiter
  · exact h

theorem Kept.maybeCreateReplacement : Kept opts (pool.maybeCreateReplacement opts) := by
  unfold PgPool.maybeCreateReplacement
  split
  · exact h
  · split
    · rename_i hroom
      exact h.create hroom _
    · exact h

theorem Kept.release {caller : Nat} (hheld : (conn, caller) ∈ pool.holding) (now : Int) : Kept opts (pool.release opts conn caller now) := by
  have hperm := perm_cons_erase hheld
  have hnodup := (hperm.map Prod.fst).nodup_iff.1 h.exclusive
  rw [map_cons, nodup_cons] at hnodup
  have h' : Kept opts { pool with holding := pool.holding.erase (conn, caller) } :=
    ⟨⟨hnodup.2, h.bounded⟩, fun c hc =>
      h.inUse c ((hperm.map Prod.fst).mem_iff.2 (mem_cons_of_mem _ hc))⟩
  unfold PgPool.release giveBack
  split
  · split
    · exact (h'.removeConnection conn).maybeCreateReplacement
    · split
      · exact (h'.freed hnodup.1 now).serveWaiter fun _ => hnodup.1
      · exact h'.freed hnodup.1 now
  · exact h'

end

theorem length_foldl_erase_le (cs : List Nat) : ∀ l : List Nat, (cs.foldl List.erase l).length ≤ l.length := by
  induction cs with
  | nil => exact fun l => Nat.le_refl _
  | cons c cs ih => exact fun l => Nat.le_trans (ih (l.erase c)) length_erase_le

section

variable (h : Kept opts pool)
include h

theorem Kept.sweepIdle (now : Int) : Kept opts (pool.sweepIdle opts now) :=
  h.of_eq rfl (fun _ _ => rfl) (Nat.add_le_add_right (length_foldl_erase_le _ _) _)

theorem Kept.finish : Kept opts pool.finish := by
  unfold PgPool.finish
  split
  · exact h
  · exact h.of_eq rfl (fun _ _ => rfl) (Nat.add_le_add_left (Nat.sub_le _ _) _)

theorem Kept.warmed (w : Nat) : Kept opts (pool.warmed w) := by
  unfold PgPool.warmed
  split
  · split
    · exact { h with }
    · exact h
  · exact h

theorem Kept.warmUpFailed (w : Nat) (error : String) : Kept opts (pool.warmUpFailed w error) := by
  unfold PgPool.warmUpFailed
  split
  · split
    · exact { h with }
    · exact h
  · exact h

theorem Kept.acquireTimeout (caller : Nat) : Kept opts (pool.acquireTimeout caller) := by
  unfold PgPool.acquireTimeout
  split
  · exact { h with }
  · exact h

theorem Kept.setStatus (conn : Nat) (st : ConnStatus) : Kept opts (pool.setStatus conn st) := by
  unfold PgPool.setStatus
  split
  · exact h
  · exact { h with }

end

/-! ## New connections -/

/-- A creation that has not failed puts its connection into the pool, and nothing else changes that the
pool's safety depends on. -/
theorem connected_spec {purpose : Purpose} (hc : pool.connecting.find? (·.1 = conn) = some (conn, purpose)) (now : Int) :
    (pool.connected conn now).holding = pool.holding ∧ (pool.connected conn now).inUse = pool.inUse ∧
      (pool.connected conn now).connections = pool.connections ++ [conn] ∧
      (pool.connected conn now).pendingCreations = pool.pendingCreations := by
  unfold connected
  rw [hc]
  cases purpose <;> exact ⟨rfl, rfl, rfl, rfl⟩

theorem find?_eq_self {l : List (Nat × Purpose)} {c : Nat} {purpose : Purpose} (h : l.find? (·.1 = conn) = some (c, purpose)) : c = conn := by
  simpa using find?_some h

theorem Kept.connected (h : Kept opts pool) {now : Int}
    (hg : Unhurried opts pool (.connected conn now)) : Kept opts (pool.connected conn now) := by
  cases hc : pool.connecting.find? (·.1 = conn) with
  | none =>
    unfold PgPool.connected
    rw [hc]
    exact h
  | some e =>
    obtain ⟨c, purpose⟩ := e
    obtain rfl := find?_eq_self hc
    obtain ⟨hh, hu, hcs, hp⟩ := connected_spec hc now
    have hroom := hg ⟨purpose, hc⟩
    simp only [hasRoom, decide_eq_true_eq] at hroom
    refine ⟨⟨by rw [hh]; exact h.exclusive, ?_⟩, fun d hd => ?_⟩
    · rw [hcs, hp, length_append, length_singleton]
      omega
    · rw [hu]
      exact h.inUse d (by unfold Held at hd ⊢; rwa [hh] at hd)

/-- A connection pushed without room breaks the bound. -/
theorem unhurried_of_connected {now : Int} (hs : Safe opts (pool.connected conn now)) : Unhurried opts pool (.connected conn now) := by
  rintro ⟨purpose, hc⟩
  obtain ⟨-, -, hcs, hp⟩ := connected_spec hc now
  have hb := hs.bounded
  rw [hcs, hp, length_append, length_singleton] at hb
  simp only [hasRoom, decide_eq_true_eq]
  omega

theorem Kept.creatorGoesOn (h : Kept opts pool) (hg : Unhurried opts pool (.creatorGoesOn conn)) : Kept opts (pool.creatorGoesOn conn) := by
  unfold PgPool.creatorGoesOn
  split
  · exact h
  · rename_i c purpose hc
    obtain rfl := find?_eq_self hc
    cases purpose with
    | acquire caller =>
      have h' : Kept opts { pool with
          created := pool.created.filter (·.1 ≠ c), pendingCreations := pool.pendingCreations - 1 } :=
        h.of_eq rfl (fun _ _ => rfl) (Nat.add_le_add_left (Nat.sub_le _ _) _)
      exact h'.hand (hg ⟨_, hc, .inl ⟨caller, rfl⟩⟩) caller
    | warmUp w =>
      have h' : Kept opts { pool with
          created := pool.created.filter (·.1 ≠ c), finishing := pool.finishing + 1 } :=
        { h with }
      exact h'.serveWaiter fun hw => hg ⟨_, hc, .inr hw⟩
    | replacement =>
      have h' : Kept opts { pool with
          created := pool.created.filter (·.1 ≠ c), finishing := pool.finishing + 1 } :=
        { h with }
      exact h'.serveWaiter fun hw => hg ⟨_, hc, .inr hw⟩

theorem unhurried_of_creatorGoesOn (hs : Safe opts (pool.creatorGoesOn conn)) : Unhurried opts pool (.creatorGoesOn conn) := by
  rintro ⟨purpose, hc, hgives⟩ hheld
  have hex := hs.exclusive
  unfold PgPool.creatorGoesOn at hex
  rw [hc] at hex
  cases purpose with
  | acquire caller => exact (nodup_cons.1 hex).1 hheld
  | warmUp w =>
    obtain ⟨waiter, waiters, hw⟩ := exists_cons_of_ne_nil (hgives.resolve_left fun ⟨_, h⟩ => by cases h)
    simp only [PgPool.serveWaiter, hw] at hex
    exact (nodup_cons.1 hex).1 hheld
  | replacement =>
    obtain ⟨waiter, waiters, hw⟩ := exists_cons_of_ne_nil (hgives.resolve_left fun ⟨_, h⟩ => by cases h)
    simp only [PgPool.serveWaiter, hw] at hex
    exact (nodup_cons.1 hex).1 hheld

/-! ## Runs -/

theorem Kept.step (h : Kept opts pool) {e : PoolEvent} (hd : Disciplined pool e) (hg : Unhurried opts pool e) :
    Kept opts (pool.step opts e) := by
  cases e with
  | warmUp => exact h.warmUp
  | acquire caller now => exact h.acquire caller now
  | resume caller now => exact h.resume caller now
  | connected conn now => exact h.connected hg
  | connectFailed conn error => exact h.connectFailed conn error
  | creatorGoesOn conn => exact h.creatorGoesOn hg
  | finish => exact h.finish
  | warmed w => exact h.warmed w
  | warmUpFailed w error => exact h.warmUpFailed w error
  | release conn caller now => exact h.release hd now
  | sweepIdle now => exact h.sweepIdle now
  | acquireTimeout caller => exact h.acquireTimeout caller
  | setStatus conn st => exact h.setStatus conn st
  | close => exact { h with }
  | closeDone => exact h.of_eq rfl (fun _ _ => rfl) (Nat.add_le_add_right (Nat.zero_le _) _)

theorem unhurried_of_safe {e : PoolEvent} (hs : Safe opts (pool.step opts e)) : Unhurried opts pool e := by
  cases e with
  | connected conn now => exact unhurried_of_connected hs
  | creatorGoesOn conn => exact unhurried_of_creatorGoesOn hs
  | _ => trivial

/-- Over every run in which callers give back what they hold: no connection is ever in two hands and
the pool is never over its maximum, exactly when every connection enters the pool while there is room
for one more and no creator hands out a connection that is already in a caller's hands. -/
theorem safe_iff_unhurried (opts : PoolOptions) (es : List PoolEvent) (hd : Guarded (PgPool.step opts) Disciplined {} es) :
    (∀ n, Safe opts (run (PgPool.step opts) {} (es.take n))) ↔ Guarded (PgPool.step opts) (Unhurried opts) {} es :=
  forall_take_iff_guarded (PgPool.step opts) (P := Kept opts) (fun _ h => h.toSafe)
    (fun _ _ h hd hg => h.step hd hg) (fun _ _ _ _ hs => unhurried_of_safe hs) es
    ⟨⟨nodup_nil, Nat.zero_le _⟩, nofun⟩ hd

/-- A pool that warms up, lends its connection and has it back. -/
theorem safe_iff_unhurried_lent :
    Safe { minConnections := 1, maxConnections := 3 } (run (PgPool.step { minConnections := 1, maxConnections := 3 })
      {} ([.acquire 0 0, .connected 0 1, .warmed 0, .resume 0 2, .release 0 0 3].take 5)) :=
  (safe_iff_unhurried { minConnections := 1, maxConnections := 3 } [.acquire 0 0, .connected 0 1, .warmed 0, .resume 0 2, .release 0 0 3]
    ⟨trivial, trivial, trivial, trivial, (mem_singleton.2 rfl : ((0 : Nat), (0 : Nat)) ∈ [(0, 0)]), trivial⟩).2
    ⟨trivial, fun _ => by decide, trivial, trivial, trivial, trivial⟩ 5

/-- Caller 1 is given the connection that is being created for caller 0, before caller 0 goes on. -/
def overtaken : List PoolEvent :=
  [.acquire 0 0, .warmed 0, .resume 0 0, .connected 0 1, .acquire 1 1, .creatorGoesOn 0]

/-- A warm-up of two fails after its first connection, and is tried again. -/
def retriedWarmUp : List PoolEvent :=
  [.acquire 0 0, .connected 0 1, .connectFailed 1 "ECONNREFUSED", .warmUpFailed 0 "ECONNREFUSED", .acquire 1 2,
    .connected 2 3, .connected 3 4]

/-- A pool of one creates its one connection. -/
def onlyConnection : List PoolEvent := [.acquire 0 0, .warmed 0, .resume 0 0, .connected 0 1]

/-- Two callers hold one connection; three connections are in a pool of at most two; and a pool of one
counts its only connection twice while its creator has not gone on. -/
theorem unsafe_pool_counterexample :
    (run (PgPool.step { minConnections := 0, maxConnections := 2 }) {} overtaken).holding = [(0, 0), (0, 1)] ∧
      (run (PgPool.step { minConnections := 2, maxConnections := 2 }) {} retriedWarmUp).connections = [0, 2, 3] ∧
      ¬ Safe { minConnections := 0, maxConnections := 2 } (run (PgPool.step { minConnections := 0, maxConnections := 2 }) {} overtaken) ∧
      ¬ Safe { minConnections := 2, maxConnections := 2 } (run (PgPool.step { minConnections := 2, maxConnections := 2 }) {} retriedWarmUp) ∧
      ¬ Safe { minConnections := 0, maxConnections := 1 }
        (run (PgPool.step { minConnections := 0, maxConnections := 1 }) {} onlyConnection) := by
  refine ⟨by decide, by decide, fun h => ?_, fun h => ?_, fun h => ?_⟩
  · exact absurd h.exclusive (by decide)
  · exact absurd h.bounded (by decide)
  · exact absurd h.bounded (by decide)

end

end StreetJS.Pool
