/-
The books of the MySQL pool, which every step keeps: each call of `acquire` is settled once or waits in one place, and
each borrower has its connection yet or has released it once.
-/
import Mathlib.Data.List.Perm.Basic
import Mathlib.Data.List.Range
import StreetJS.Mysql.Pool

namespace StreetJS.Mysql

open StreetJS.Lib MysqlPool List OrderedMap
open Pool (PoolOptions ConnStatus)
open Prod (fst)

/-- The caller that a connection is created for. -/
def Purpose.caller? : Purpose → Option Nat
  | .acquire caller => some caller
  | _ => none

/-- The caller of a settlement with a connection. -/
def Settlement.served? (x : Settlement) : Option Nat :=
  match x.result with
  | .ok _ => some x.caller
  | .error _ => none

namespace MysqlPool

/-- The calls that have settled, wait, or have a connection created for them. -/
def accounts (pool : MysqlPool) : List Nat := pool.settled.map Settlement.caller ++ pool.waitQueue ++ pool.creating

theorem served_eq (pool : MysqlPool) : pool.served = pool.settled.filterMap Settlement.served? := by
  exact congrArg (fun f => List.filterMap f _) rfl

end MysqlPool

structure Calls (pool : MysqlPool) : Prop where
  /-- The creations under way and the connections just created have numbers of their own. -/
  numbers : (pool.connecting.map fst ++ pool.created.map fst).Nodup
  below : ∀ x ∈ pool.connecting ++ pool.created, x.1 < pool.nextConnection
  settled : pool.accounts.Perm (List.range pool.kinds.length)
  released : (pool.lent.map Lent.caller ++ pool.releases).Perm pool.served
  queue : pool.waitQueue.length ≤ maxWait

theorem calls_empty : Calls {} := by
  constructor <;> simp [accounts, creating, served]

section

variable {pool : MysqlPool} {opts : PoolOptions}

/-- The books while a caller has no place in them: it has just called, or has left the queue or its creation. -/
structure CallsBut (caller : Nat) (pool : MysqlPool) : Prop where
  numbers : (pool.connecting.map fst ++ pool.created.map fst).Nodup
  below : ∀ x ∈ pool.connecting ++ pool.created, x.1 < pool.nextConnection
  settled : (caller :: pool.accounts).Perm (List.range pool.kinds.length)
  released : (pool.lent.map Lent.caller ++ pool.releases).Perm pool.served
  queue : pool.waitQueue.length ≤ maxWait

variable {caller : Nat}

/-- The caller is settled in its place. -/
theorem CallsBut.settle (h : CallsBut caller pool) {settlement : Settlement} (hcaller : settlement.caller = caller) :
    ((pool.settled ++ [settlement]).map Settlement.caller ++ pool.waitQueue ++ pool.creating).Perm (List.range pool.kinds.length) := by
  refine List.Perm.trans ?_ h.settled
  rw [map_append, append_assoc, append_assoc, map_singleton, hcaller]
  exact perm_middle.trans (.of_eq (by rw [accounts, append_assoc]; rfl))

theorem CallsBut.reject (h : CallsBut caller pool) (error : String) : Calls (pool.reject caller error) := by
  refine ⟨h.numbers, h.below, h.settle rfl, ?_, h.queue⟩
  rw [served_eq, MysqlPool.reject, filterMap_append]
  show (pool.lent.map Lent.caller ++ pool.releases).Perm (_ ++ [])
  rw [append_nil, ← served_eq]
  exact h.released

theorem CallsBut.hand (h : CallsBut caller pool) (conn : Nat) : Calls (pool.hand conn caller) := by
  refine ⟨h.numbers, h.below, h.settle rfl, ?_, h.queue⟩
  rw [served_eq, MysqlPool.hand, filterMap_append, ← served_eq]
  exact (h.released.cons caller).trans (perm_append_singleton _ _).symm

theorem CallsBut.enqueue (h : CallsBut caller pool) : Calls (pool.enqueue caller) := by
  unfold MysqlPool.enqueue
  split
  · exact h.reject _
  · rename_i hroom
    refine ⟨h.numbers, h.below, ?_, h.released, ?_⟩
    · refine List.Perm.trans ?_ h.settled
      show (pool.settled.map Settlement.caller ++ (pool.waitQueue ++ [caller]) ++ pool.creating).Perm _
      rw [← append_assoc, append_assoc]
      exact perm_middle
    · rw [length_append, length_singleton]
      omega

theorem numbers_createConnection (hn : (pool.connecting.map fst ++ pool.created.map fst).Nodup)
    (hb : ∀ x ∈ pool.connecting ++ pool.created, x.1 < pool.nextConnection) (purpose : Purpose) :
    (((pool.createConnection purpose).connecting.map fst) ++ (pool.createConnection purpose).created.map fst).Nodup ∧
      ∀ x ∈ (pool.createConnection purpose).connecting ++ (pool.createConnection purpose).created,
        x.1 < (pool.createConnection purpose).nextConnection := by
  have hfresh : pool.nextConnection ∉ pool.connecting.map fst ++ pool.created.map fst := fun hmem => by
    rw [← map_append] at hmem
    obtain ⟨x, hx, heq⟩ := mem_map.1 hmem
    have := hb x hx
    omega
  constructor
  · show ((pool.connecting ++ [(pool.nextConnection, purpose)]).map fst ++ pool.created.map fst).Nodup
    rw [map_append, append_assoc]
    exact perm_middle.nodup_iff.2 (nodup_cons.2 ⟨hfresh, hn⟩)
  · intro x hx
    show x.1 < pool.nextConnection + 1
    rcases mem_append.1 hx with hx | hx
    · rcases mem_append.1 (show x ∈ pool.connecting ++ [(pool.nextConnection, purpose)] from hx) with hx | hx
      · have := hb x (mem_append_left _ hx)
        omega
      · rw [mem_singleton.1 hx]
        omega
    · have := hb x (mem_append_right _ hx)
      omega

theorem creating_createConnection (purpose : Purpose) :
    (pool.createConnection purpose).creating.Perm (purpose.caller?.toList ++ pool.creating) := by
  show ((pool.connecting ++ [(pool.nextConnection, purpose)] ++ pool.created).filterMap _).Perm _
  rw [append_assoc]
  refine (perm_middle.filterMap _).trans ?_
  cases purpose with
  | acquire caller => exact List.Perm.refl _
  | _ => exact List.Perm.refl _

theorem CallsBut.create (h : CallsBut caller pool) : Calls (pool.create (.acquire caller)) := by
  obtain ⟨hn, hb⟩ := @numbers_createConnection
    { pool with pendingCreations := pool.pendingCreations + 1 } h.numbers h.below (.acquire caller)
  refine ⟨hn, hb, List.Perm.trans ?_ h.settled, h.released, h.queue⟩
  refine ((@creating_createConnection { pool with pendingCreations := pool.pendingCreations + 1 } (.acquire caller)).append_left _).trans ?_
  exact perm_middle

/-- A creation for nobody. -/
theorem Calls.createConnection (h : Calls pool) {purpose : Purpose} (hp : purpose.caller? = none) :
    Calls (pool.createConnection purpose) := by
  obtain ⟨hn, hb⟩ := numbers_createConnection h.numbers h.below purpose
  refine ⟨hn, hb, List.Perm.trans ?_ h.settled, h.released, h.queue⟩
  refine ((creating_createConnection purpose).append_left _).trans ?_
  rw [hp]
  exact List.Perm.refl _

theorem CallsBut.createOrWait (h : CallsBut caller pool) : Calls (pool.createOrWait opts caller) := by
  unfold MysqlPool.createOrWait
  split
  · exact h.create
  · exact h.enqueue

theorem Calls.called (h : Calls pool) (kind : BorrowKind) : CallsBut pool.kinds.length { pool with kinds := pool.kinds ++ [kind] } := by
  refine ⟨h.numbers, h.below, ?_, h.released, h.queue⟩
  rw [length_append, length_singleton, range_succ]
  exact (h.settled.cons _).trans (perm_append_singleton _ _).symm

theorem Calls.acquire (h : Calls pool) (kind : BorrowKind) (now : Int) : Calls (pool.acquire opts kind now) := by
  have hcalled := h.called kind
  unfold MysqlPool.acquire
  simp only []
  split
  · exact hcalled.reject _
  · split
    · split
      · rename_i conn _ _
        have hremoved : CallsBut pool.kinds.length (MysqlPool.removeConnection { pool with kinds := pool.kinds ++ [kind] } conn) :=
          ⟨hcalled.numbers, hcalled.below, hcalled.settled, hcalled.released, hcalled.queue⟩
        exact hremoved.createOrWait
      · rename_i conn _ _
        have htouched : CallsBut pool.kinds.length { pool with
            kinds := pool.kinds ++ [kind], lastUsed := fun c => if c = conn then now else pool.lastUsed c } :=
          ⟨hcalled.numbers, hcalled.below, hcalled.settled, hcalled.released, hcalled.queue⟩
        exact htouched.hand conn
    · exact hcalled.createOrWait

theorem createMany_calls (n : Nat) : ∀ {pool : MysqlPool}, Calls pool → Calls (pool.createMany n) := by
  induction n with
  | zero => exact fun h => h
  | succ n ih => exact fun h => ih (h.createConnection rfl)

theorem Calls.serveWaiter (h : Calls pool) (conn : Nat) : Calls (pool.serveWaiter conn) := by
  unfold MysqlPool.serveWaiter
  cases hqueue : pool.waitQueue with
  | nil => exact h
  | cons waiter waiters =>
    have hbut : CallsBut waiter { pool with waitQueue := waiters } := by
      refine ⟨h.numbers, h.below, List.Perm.trans ?_ h.settled, h.released, ?_⟩
      · show (waiter :: (pool.settled.map Settlement.caller ++ waiters ++ pool.creating)).Perm _
        rw [accounts, hqueue, append_assoc, append_assoc]
        exact perm_middle.symm
      · have := h.queue
        rw [hqueue, length_cons] at this
        show waiters.length ≤ maxWait
        omega
    exact hbut.hand conn

theorem Calls.acquireTimeout (h : Calls pool) (caller : Nat) : Calls (pool.acquireTimeout caller) := by
  unfold MysqlPool.acquireTimeout
  split
  · rename_i hmem
    have hbut : CallsBut caller { pool with waitQueue := pool.waitQueue.erase caller } := by
      refine ⟨h.numbers, h.below, List.Perm.trans ?_ h.settled, h.released, ?_⟩
      · show (caller :: (pool.settled.map Settlement.caller ++ pool.waitQueue.erase caller ++ pool.creating)).Perm _
        rw [accounts, append_assoc, append_assoc]
        refine perm_middle.symm.trans (List.Perm.append_left _ ?_)
        exact (perm_cons_erase hmem).symm.append_right _
      · exact le_trans length_erase_le h.queue
    exact hbut.reject _
  · exact h

/-- A creation that is under way, before the others. -/
theorem creating_connecting (h : Calls pool) {conn : Nat} {purpose : Purpose} (hget : pool.connecting.get conn = some purpose) :
    pool.creating.Perm (purpose.caller?.toList ++ (pool.connecting.delete conn ++ pool.created).filterMap fun x => x.2.caller?) := by
  have hperm := perm_cons_delete (nodup_append.1 h.numbers).1 (get_mem hget)
  refine ((hperm.append_right _).filterMap _).trans ?_
  cases purpose with
  | acquire caller => exact List.Perm.refl _
  | _ => exact List.Perm.refl _

theorem creating_created (h : Calls pool) {conn : Nat} {purpose : Purpose} (hget : pool.created.get conn = some purpose) :
    pool.creating.Perm (purpose.caller?.toList ++ (pool.connecting ++ pool.created.delete conn).filterMap fun x => x.2.caller?) := by
  have hperm := perm_cons_delete (nodup_append.1 h.numbers).2.1 (get_mem hget)
  refine ((hperm.append_left _).filterMap _).trans ((perm_middle.filterMap _).trans ?_)
  cases purpose with
  | acquire caller => exact List.Perm.refl _
  | _ => exact List.Perm.refl _

theorem keys_delete_sublist (m : OrderedMap Nat Purpose) (conn : Nat) : ((m.delete conn).map fst).Sublist (m.map fst) := filter_sublist.map _

section

variable (h : Calls pool)
include h

theorem Calls.below_delete (conn : Nat) : ∀ x ∈ pool.connecting.delete conn ++ pool.created, x.1 < pool.nextConnection := fun x hx => by
  rcases mem_append.1 hx with hx | hx
  · exact h.below x (mem_append_left _ (mem_delete.1 hx).1)
  · exact h.below x (mem_append_right _ hx)

theorem Calls.connected (conn : Nat) (now : Int) : Calls (pool.connected conn now) := by
  unfold MysqlPool.connected
  cases hget : pool.connecting.get conn with
  | none => exact h
  | some purpose =>
    have hmem := get_mem hget
    have hperm := perm_cons_delete (nodup_append.1 h.numbers).1 hmem
    have hbelow := h.below_delete conn
    by_cases hwarm : purpose = .warmUp
    · -- nobody waits for a connection of a warm-up
      subst hwarm
      refine ⟨?_, ?_, List.Perm.trans (List.Perm.append_left _ ?_) h.settled, h.released, h.queue⟩
      · exact h.numbers.sublist ((keys_delete_sublist _ _).append_right _)
      · exact hbelow
      · exact (creating_connecting h hget).symm
    · have hcreated : (if purpose = .warmUp then pool.created else pool.created ++ [(conn, purpose)]) =
          pool.created ++ [(conn, purpose)] := if_neg hwarm
      dsimp only
      rw [hcreated]
      refine ⟨?_, fun x hx => ?_, List.Perm.trans (List.Perm.append_left _ ?_) h.settled, h.released, h.queue⟩
      · refine List.Perm.nodup_iff ?_ |>.1 h.numbers
        rw [map_append, ← append_assoc]
        exact ((hperm.map fst).append_right _).trans (perm_append_singleton _ _).symm
      · rcases mem_append.1 (show x ∈ pool.connecting.delete conn ++ (pool.created ++ [(conn, purpose)]) from hx) with hx | hx
        · exact hbelow x (mem_append_left _ hx)
        · rcases mem_append.1 hx with hx | hx
          · exact hbelow x (mem_append_right _ hx)
          · rw [mem_singleton.1 hx]
            exact h.below _ (mem_append_left _ hmem)
      · show ((pool.connecting.delete conn ++ (pool.created ++ [(conn, purpose)])).filterMap _).Perm _
        rw [← append_assoc]
        exact ((perm_append_singleton _ _).trans (hperm.append_right _).symm).filterMap _

theorem Calls.connectFailed (conn : Nat) (error : String) : Calls (pool.connectFailed conn error) := by
  unfold MysqlPool.connectFailed
  cases hget : pool.connecting.get conn with
  | none => exact h
  | some purpose =>
    have hcreating := creating_connecting h hget
    have hnumbers := h.numbers.sublist ((keys_delete_sublist pool.connecting conn).append_right (pool.created.map fst))
    have hbelow := h.below_delete conn
    cases purpose with
    | acquire caller =>
      have hbut : CallsBut caller { pool with
          connecting := pool.connecting.delete conn
          status := fun c => if c = conn then .closed else pool.status c
          pendingCreations := pool.pendingCreations - 1 } := by
        refine ⟨hnumbers, hbelow, List.Perm.trans ?_ h.settled, h.released, h.queue⟩
        refine perm_middle.symm.trans (List.Perm.append_left _ ?_)
        exact hcreating.symm
      exact hbut.reject error
    | _ =>
      refine ⟨hnumbers, hbelow, List.Perm.trans (List.Perm.append_left _ ?_) h.settled, h.released, h.queue⟩
      exact hcreating.symm

theorem Calls.creatorGoesOn (conn : Nat) : Calls (pool.creatorGoesOn conn) := by
  unfold MysqlPool.creatorGoesOn
  cases hget : pool.created.get conn with
  | none => exact h
  | some purpose =>
    have hcreating := creating_created h hget
    have hnumbers := h.numbers.sublist ((keys_delete_sublist pool.created conn).append_left (pool.connecting.map fst))
    have hbelow : ∀ x ∈ pool.connecting ++ pool.created.delete conn, x.1 < pool.nextConnection := fun x hx => by
      rcases mem_append.1 hx with hx | hx
      · exact h.below x (mem_append_left _ hx)
      · exact h.below x (mem_append_right _ (mem_delete.1 hx).1)
    cases purpose with
    | acquire caller =>
      have hbut : CallsBut caller { pool with
          created := pool.created.delete conn
          pendingCreations := pool.pendingCreations - 1 } := by
        refine ⟨hnumbers, hbelow, List.Perm.trans ?_ h.settled, h.released, h.queue⟩
        refine perm_middle.symm.trans (List.Perm.append_left _ ?_)
        exact hcreating.symm
      exact hbut.hand conn
    | _ =>
      have hdone : Calls { pool with
          created := pool.created.delete conn
          finishing := pool.finishing + 1 } := by
        refine ⟨hnumbers, hbelow, List.Perm.trans (List.Perm.append_left _ ?_) h.settled, h.released, h.queue⟩
        exact hcreating.symm
      exact hdone.serveWaiter conn

theorem Calls.maybeCreateReplacement : Calls (pool.maybeCreateReplacement opts) := by
  unfold MysqlPool.maybeCreateReplacement
  split
  · exact h
  · split
    · have hcounted : Calls { pool with pendingCreations := pool.pendingCreations + 1 } :=
        { h with }
      exact hcounted.createConnection rfl
    · exact h

theorem Calls.giveBack (conn : Nat) (now : Int) : Calls (pool.giveBack opts conn now) := by
  have hfreed : Calls (pool.freed conn now) := { h with }
  unfold MysqlPool.giveBack
  split
  · split
    · exact Calls.maybeCreateReplacement ({ h with })
    · split
      · exact hfreed.serveWaiter conn
      · exact hfreed
  · exact h

/-- A borrower releases its connection. -/
theorem Calls.release {l : Lent} (hl : l ∈ pool.lent) (now : Int) : Calls (pool.release opts l now) := by
  have hreleased : Calls { pool with lent := pool.lent.erase l, releases := pool.releases ++ [l.caller] } := by
    refine ⟨h.numbers, h.below, h.settled, List.Perm.trans ?_ h.released, h.queue⟩
    rw [← append_assoc]
    exact (perm_append_singleton _ _).trans (((perm_cons_erase hl).map Lent.caller).symm.append_right _)
  exact hreleased.giveBack l.conn now

end

theorem reuse_callers (l : Lent) (use : Use) : (pool.reuse l use).lent.map Lent.caller = pool.lent.map Lent.caller := by
  show (pool.lent.map _).map Lent.caller = _
  rw [map_map]
  refine map_congr_left fun x _ => ?_
  show (if x = l then { l with use } else x).caller = x.caller
  split
  · rename_i heq
    rw [heq]
  · rfl

theorem Calls.goOn (h : Calls pool) (caller : Nat) (succeeds : Bool) (now : Int) : Calls (pool.goOn opts caller succeeds now) := by
  unfold MysqlPool.goOn
  cases hfind : pool.lent.find? (·.caller = caller) with
  | none => exact h
  | some l =>
    have hl := mem_of_find?_eq_some hfind
    have hreuse : ∀ use, Calls (pool.reuse l use) := fun use =>
      { h with released := (reuse_callers l use).symm ▸ h.released }
    dsimp only
    cases l.use with
    | caller => exact h.release hl now
    | query => exact h.release hl now
    | opening => exact hreuse _
    | streaming => exact h.release hl now
    | starting => exact hreuse _
    | working => exact hreuse _
    | committing => cases succeeds with
      | true => exact h.release hl now
      | false => exact hreuse _
    | rollingBack => exact h.release hl now
    | abandoned => exact h

theorem Calls.close (h : Calls pool) : Calls pool.close := by
  refine ⟨h.numbers, h.below, List.Perm.trans (.of_eq ?_) h.settled, ?_, Nat.zero_le _⟩
  · show (pool.settled ++ pool.waitQueue.map _).map Settlement.caller ++ [] ++ pool.creating = _
    rw [map_append, append_nil, accounts, map_map]
    exact congrArg (· ++ _) (congrArg (_ ++ ·) (map_id' _))
  · show (_ : List Nat).Perm ((pool.settled ++ pool.waitQueue.map _).filterMap Settlement.served?)
    rw [filterMap_append, ← served_eq, filterMap_eq_nil_iff.2, append_nil]
    · exact h.released
    · intro x hx
      obtain ⟨caller, -, rfl⟩ := mem_map.1 hx
      rfl

theorem Calls.step (h : Calls pool) (ev : PoolEvent) : Calls (pool.step opts ev) := by
  cases ev with
  | warmUp => exact createMany_calls _ h
  | acquire kind now => exact h.acquire kind now
  | connected conn now => exact h.connected conn now
  | connectFailed conn error => exact h.connectFailed conn error
  | creatorGoesOn conn => exact h.creatorGoesOn conn
  | finish =>
    show Calls pool.finish
    unfold MysqlPool.finish
    split
    · exact h
    · exact { h with }
  | goOn caller succeeds now => exact h.goOn caller succeeds now
  | sweepIdle now => exact { h with }
  | acquireTimeout caller => exact h.acquireTimeout caller
  | setStatus conn st =>
    show Calls (pool.setStatus conn st)
    unfold MysqlPool.setStatus
    split
    · exact h
    · exact { h with }
  | close => exact h.close
  | closeDone =>
    show Calls pool.closeDone
    unfold MysqlPool.closeDone
    split
    · exact { h with }
    · exact h

end

end StreetJS.Mysql
