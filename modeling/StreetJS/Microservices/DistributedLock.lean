/-
The distributed lock (`core/src/microservices/distributed-lock.ts`) on PostgreSQL advisory locks: callers
whose queries a pool runs on any of its sessions. `hashKey` is the lock id of a key.
-/
import StreetJS.Lib.Runs
import StreetJS.Lib.ListSet
import Mathlib.Tactic

namespace StreetJS.Microservices

open StreetJS.Lib List

/-! ## Advisory locks -/

/-- The session that has a lock, and how often it has taken it. -/
abbrev AdvisoryLocks := Int → Option (Nat × Nat)

namespace AdvisoryLocks

variable (locks : AdvisoryLocks)

/-- `pg_try_advisory_lock`: a session takes a lock that is free or its own. -/
def tryLock (session : Nat) (lockId : Int) : AdvisoryLocks × Bool :=
  match locks lockId with
  | none => (Function.update locks lockId (some (session, 1)), true)
  | some (owner, n) =>
    if owner = session then (Function.update locks lockId (some (owner, n + 1)), true) else (locks, false)

/-- `pg_advisory_unlock`: a lock of another session stays. -/
def unlock (session : Nat) (lockId : Int) : AdvisoryLocks × Bool :=
  match locks lockId with
  | none => (locks, false)
  | some (owner, n) =>
    if owner = session then (Function.update locks lockId (if n ≤ 1 then none else some (owner, n - 1)), true)
    else (locks, false)

/-- A session that ends gives its locks back. -/
def endSession (session : Nat) : AdvisoryLocks := fun lockId =>
  match locks lockId with
  | none => none
  | some (owner, n) => if owner = session then none else some (owner, n)

end AdvisoryLocks

/-! ## Callers -/

/-- Where a call of `acquire` stands, and then its handle. -/
inductive LockPhase where
  /-- This many tries have failed. -/
  | trying (failed : Nat)
  /-- With the message after the last try; the error of a query is its own. -/
  | failed (message : Option String)
  /-- The handle is live; the lock was taken on this session. -/
  | live (session : Nat)
  /-- `released` is set, and the unlock query is not answered. -/
  | releasing (session : Nat)
  | released

/-- The session of a handle whose lock is not given back. -/
def LockPhase.session : LockPhase → Option Nat
  | .live session | .releasing session => some session
  | _ => none

structure LockCall where
  key : String
  phase : LockPhase

structure LockWorld where
  locks : AdvisoryLocks := fun _ => none
  calls : List LockCall := []

/-- A query names the session that the pool runs it on; without one it fails. -/
inductive LockEvent where
  | acquire (key : String)
  | tryAcquire (c : Nat) (session : Option Nat)
  | release (c : Nat)
  /-- The timer of the handle. -/
  | expire (c : Nat)
  | unlock (c : Nat) (session : Option Nat)
  | endSession (session : Nat)

/-- The tries of one `acquire`: the first one and ten more. -/
def maxTries : Nat := 11

def acquireError (key : String) : String :=
  "DistributedLock: failed to acquire lock for key \"" ++ key ++ "\" after 10 attempts"

namespace LockWorld

variable (hashKey : String → Int) (s : LockWorld)

def put (c : Nat) (call : LockCall) (phase : LockPhase) : LockWorld :=
  { s with calls := s.calls.set c { call with phase } }

def tryAcquire (c : Nat) (call : LockCall) (failed : Nat) (session : Nat) : LockWorld :=
  let (locks, acquired) := s.locks.tryLock session (hashKey call.key)
  let s := { s with locks }
  if acquired then s.put c call (.live session)
  else if failed + 1 < maxTries then s.put c call (.trying (failed + 1))
  else s.put c call (.failed (some (acquireError call.key)))

/-- `release` and the timer: the first of them sends the query. -/
def giveUp (c : Nat) (call : LockCall) : LockWorld :=
  match call.phase with
  | .live session => s.put c call (.releasing session)
  | _ => s

def unlock (c : Nat) (call : LockCall) (session : Option Nat) : LockWorld :=
  let locks := match session with
    | some session => (s.locks.unlock session (hashKey call.key)).1
    | none => s.locks
  { s with locks }.put c call .released

def step (s : LockWorld) : LockEvent → LockWorld
  | .acquire key => { s with calls := s.calls ++ [{ key, phase := .trying 0 }] }
  | .tryAcquire c session =>
    match s.calls[c]? with
    | some call => match call.phase, session with
      | .trying failed, some session => s.tryAcquire hashKey c call failed session
      | .trying _, none => s.put c call (.failed none)
      | _, _ => s
    | none => s
  | .release c | .expire c =>
    match s.calls[c]? with
    | some call => s.giveUp c call
    | none => s
  | .unlock c session =>
    match s.calls[c]? with
    | some call => match call.phase with
      | .releasing _ => s.unlock hashKey c call session
      | _ => s
    | none => s
  | .endSession session => { s with locks := s.locks.endSession session }

end LockWorld

/-! ## Exclusion -/

/-- At most one handle of a key is live; and where no handle on its lock is live and no unlock query is
outstanding, a try on any session takes the lock. -/
structure LockContract (hashKey : String → Int) (s : LockWorld) : Prop where
  exclusive : ∀ (i j : Nat) (a b : LockCall) (l m : Nat), s.calls[i]? = some a → s.calls[j]? = some b →
    a.phase = .live l → b.phase = .live m → a.key = b.key → i = j
  available : ∀ key, (∀ call ∈ s.calls, hashKey call.key = hashKey key → call.phase.session = none) →
    ∀ session, (s.locks.tryLock session (hashKey key)).2 = true

/-- No try runs on the session that has the lock while a handle on it is live, an unlock query runs on the
session that its handle has taken the lock on, and no session ends with a lock. -/
def SessionKept (hashKey : String → Int) (s : LockWorld) : LockEvent → Prop
  | .tryAcquire c (some session) => ∀ (call : LockCall) failed, s.calls[c]? = some call → call.phase = .trying failed →
    (∃ n, s.locks (hashKey call.key) = some (session, n)) →
      ∀ other ∈ s.calls, hashKey other.key = hashKey call.key → ∀ l, other.phase ≠ .live l
  | .unlock c session => ∀ (call : LockCall) l, s.calls[c]? = some call → call.phase = .releasing l → session = some l
  | .endSession session => ∀ lockId n, s.locks lockId ≠ some (session, n)
  | _ => True

/-! ## Who has a lock -/

/-- The call has a handle on the lock that is not given back. -/
def LockCall.holds (hashKey : String → Int) (lockId : Int) (call : LockCall) : Bool :=
  hashKey call.key = lockId ∧ call.phase.session.isSome

def LockWorld.holders (hashKey : String → Int) (s : LockWorld) (lockId : Int) : Nat :=
  s.calls.countP (·.holds hashKey lockId)

/-- A lock is taken once for each handle on it, all on the session that has it, and at most one of them
is live. -/
structure Owned (hashKey : String → Int) (s : LockWorld) : Prop where
  count : ∀ lockId, s.holders hashKey lockId = (s.locks lockId).elim 0 Prod.snd
  taken : ∀ lockId owner n, s.locks lockId = some (owner, n) → 0 < n
  owner : ∀ call ∈ s.calls, ∀ l, call.phase.session = some l → ∃ n, s.locks (hashKey call.key) = some (l, n)
  alone : ∀ (i j : Nat) (a b : LockCall) (l m : Nat), s.calls[i]? = some a → s.calls[j]? = some b →
    a.phase = .live l → b.phase = .live m → hashKey a.key = hashKey b.key → i = j

section

variable {hashKey : String → Int} {s : LockWorld} {c : Nat} {call : LockCall}

theorem holders_put (hashKey : String → Int) (hc : s.calls[c]? = some call) (phase : LockPhase) (lockId : Int) :
    (s.put c call phase).holders hashKey lockId + (call.holds hashKey lockId).toNat =
      s.holders hashKey lockId + (LockCall.holds hashKey lockId { call with phase }).toNat :=
  countP_set_add (LockCall.holds hashKey lockId) hc { call with phase }

theorem owned_start (hashKey : String → Int) : Owned hashKey {} where
  count _ := rfl
  taken _ _ _ h := by cases h
  owner call hcall := absurd hcall not_mem_nil
  alone i j a b l m hi := by cases hi

section

variable (h : Owned hashKey s) (hc : s.calls[c]? = some call)
include h hc

/-- A call moves to a phase, and the entry of its lock with it. -/
theorem Owned.put {phase : LockPhase} {entry : Option (Nat × Nat)}
    (hcount : (s.put c call phase).holders hashKey (hashKey call.key) = entry.elim 0 Prod.snd)
    (htaken : ∀ owner n, entry = some (owner, n) → 0 < n)
    (howner : ∀ b ∈ (s.put c call phase).calls, hashKey b.key = hashKey call.key → ∀ l, b.phase.session = some l → ∃ n, entry = some (l, n))
    (halone : ∀ l, phase = .live l → ∀ b ∈ s.calls, hashKey b.key = hashKey call.key → ∀ m, b.phase ≠ .live m) :
    Owned hashKey ({ s with locks := Function.update s.locks (hashKey call.key) entry }.put c call phase) := by
  constructor
  · intro lockId
    show (s.put c call phase).holders hashKey lockId = (Function.update s.locks (hashKey call.key) entry lockId).elim 0 Prod.snd
    by_cases hk : lockId = hashKey call.key
    · rw [hk, hcount, Function.update_self]
    · have hput := holders_put hashKey hc phase lockId
      have hk' : ¬ hashKey call.key = lockId := fun he => hk he.symm
      simp [LockCall.holds, hk'] at hput
      rw [hput, Function.update_of_ne hk, h.count]
  · intro lockId owner n hn
    have hn : Function.update s.locks (hashKey call.key) entry lockId = some (owner, n) := hn
    by_cases hk : lockId = hashKey call.key
    · rw [hk, Function.update_self] at hn
      exact htaken owner n hn
    · rw [Function.update_of_ne hk] at hn
      exact h.taken lockId owner n hn
  · intro b hb l hl
    show ∃ n, Function.update s.locks (hashKey call.key) entry (hashKey b.key) = some (l, n)
    by_cases hk : hashKey b.key = hashKey call.key
    · rw [hk, Function.update_self]
      exact howner b hb hk l hl
    · rw [Function.update_of_ne hk]
      rcases mem_or_eq_of_mem_set hb with hb | rfl
      · exact h.owner b hb l hl
      · exact absurd rfl hk
  · intro i j a b l m hi hj ha hb hkey
    rcases getElem?_set_cases hi with ⟨rfl, rfl⟩ | ⟨-, hi⟩
    · rcases getElem?_set_cases hj with ⟨rfl, -⟩ | ⟨-, hj⟩
      · rfl
      · exact absurd hb (halone l ha b (mem_of_getElem? hj) hkey.symm m)
    · rcases getElem?_set_cases hj with ⟨-, rfl⟩ | ⟨-, hj⟩
      · exact absurd ha (halone m hb a (mem_of_getElem? hi) hkey l)
      · exact h.alone i j a b l m hi hj ha hb hkey

/-- A handle that is not live afterwards has the session it had. -/
theorem Owned.putSame {phase : LockPhase} (hp : phase.session = call.phase.session) (hlive : ∀ l, phase ≠ .live l) :
    Owned hashKey (s.put c call phase) := by
  have hput : Owned hashKey ({ s with
      locks := Function.update s.locks (hashKey call.key) (s.locks (hashKey call.key)) }.put c call phase) := by
    refine h.put hc ?_ (h.taken _) ?_ fun l hl => absurd hl (hlive l)
    · have hput := holders_put hashKey hc phase (hashKey call.key)
      simp only [LockCall.holds, hp] at hput
      rw [← h.count]
      omega
    · intro b hb hk l hl
      rw [← hk]
      rcases mem_or_eq_of_mem_set hb with hb | rfl
      · exact h.owner b hb l hl
      · exact h.owner call (mem_of_getElem? hc) l (hp ▸ hl)
  rwa [Function.update_eq_self] at hput

theorem Owned.take (hn : call.phase.session = none) {session n : Nat}
    (hlock : s.locks (hashKey call.key) = none ∧ n = 0 ∨ s.locks (hashKey call.key) = some (session, n))
    (halone : ∀ other ∈ s.calls, hashKey other.key = hashKey call.key → ∀ l, other.phase ≠ .live l) :
    Owned hashKey ({ s with locks := Function.update s.locks (hashKey call.key) (some (session, n + 1)) }.put c call (.live session)) := by
  refine h.put hc ?_ (fun _ _ he => ?_) (fun b hb hk l hl => ?_) fun _ _ => halone
  · have hput := holders_put hashKey hc (.live session) (hashKey call.key)
    have hholders : s.holders hashKey (hashKey call.key) = n := by
      rw [h.count]
      rcases hlock with ⟨hlock, rfl⟩ | hlock <;> rw [hlock] <;> rfl
    have hcall : call.holds hashKey (hashKey call.key) = false := by simp [LockCall.holds, hn]
    rw [hcall, hholders] at hput
    simp [LockCall.holds, LockPhase.session] at hput
    exact hput
  · cases he
    exact Nat.succ_pos n
  · rcases mem_or_eq_of_mem_set hb with hb | rfl
    · obtain ⟨n', hn'⟩ := h.owner b hb l hl
      rw [hk] at hn'
      rcases hlock with ⟨hlock, -⟩ | hlock
      · rw [hlock] at hn'
        cases hn'
      · rw [hlock] at hn'
        cases hn'
        exact ⟨n + 1, rfl⟩
    · cases hl
      exact ⟨n + 1, rfl⟩

theorem Owned.giveUp : Owned hashKey (s.giveUp c call) := by
  unfold LockWorld.giveUp
  split
  · rename_i session hphase
    exact h.putSame hc (by rw [hphase]; rfl) nofun
  · exact h

theorem Owned.unlock {session : Nat} (hphase : call.phase = .releasing session) : Owned hashKey (s.unlock hashKey c call (some session)) := by
  obtain ⟨n, hlock⟩ := h.owner call (mem_of_getElem? hc) session (by rw [hphase]; rfl)
  have hunlock : (s.locks.unlock session (hashKey call.key)).1 =
      Function.update s.locks (hashKey call.key) (if n ≤ 1 then none else some (session, n - 1)) := by
    simp [AdvisoryLocks.unlock, hlock]
  have hput := holders_put hashKey hc .released (hashKey call.key)
  rw [h.count, hlock] at hput
  simp [LockCall.holds, hphase, LockPhase.session] at hput
  unfold LockWorld.unlock
  simp only [hunlock]
  refine h.put hc ?_ (fun owner n' he => ?_) (fun b hb hk l hl => ?_) nofun
  · split <;> simp <;> omega
  · split at he
    · cases he
    · cases he
      omega
  · have hpos : 0 < (s.put c call .released).holders hashKey (hashKey call.key) := by
      refine countP_pos_iff.2 ⟨b, hb, ?_⟩
      simp [LockCall.holds, hk, hl]
    -- another holder is left, so the lock was taken more than once
    have hn1 : ¬ n ≤ 1 := by omega
    rw [if_neg hn1]
    rcases mem_or_eq_of_mem_set hb with hb | rfl
    · obtain ⟨n', hn'⟩ := h.owner b hb l hl
      rw [hk, hlock] at hn'
      cases hn'
      exact ⟨n - 1, rfl⟩
    · cases hl

end

theorem Owned.acquire (h : Owned hashKey s) (key : String) : Owned hashKey { s with calls := s.calls ++ [{ key, phase := .trying 0 }] } := by
  have hold : ∀ {j : Nat} {b : LockCall} {l : Nat}, (s.calls ++ [({ key, phase := .trying 0 } : LockCall)])[j]? = some b →
      b.phase = .live l → s.calls[j]? = some b := by
    intro j b l hj hb
    rcases Nat.lt_or_ge j s.calls.length with hlt | hge
    · rwa [getElem?_append_left hlt] at hj
    · rw [getElem?_append_right hge] at hj
      cases mem_singleton.1 (mem_of_getElem? hj)
      cases hb
  constructor
  · intro lockId
    rw [← h.count]
    simp [LockWorld.holders, LockCall.holds, LockPhase.session]
  · exact h.taken
  · intro b hb l hl
    rcases mem_append.1 hb with hb | hb
    · exact h.owner b hb l hl
    · cases mem_singleton.1 hb
      cases hl
  · intro i j a b l m hi hj ha hb hkey
    exact h.alone i j a b l m (hold hi ha) (hold hj hb) ha hb hkey

theorem Owned.tryAcquire (h : Owned hashKey s) (hc : s.calls[c]? = some call) {failed : Nat}
    (hphase : call.phase = .trying failed) {session : Nat} (hg : SessionKept hashKey s (.tryAcquire c (some session))) :
    Owned hashKey (s.tryAcquire hashKey c call failed session) := by
  have hn : call.phase.session = none := by rw [hphase]; rfl
  unfold LockWorld.tryAcquire AdvisoryLocks.tryLock
  cases hlock : s.locks (hashKey call.key) with
  | none =>
    -- no handle is on a free lock
    refine h.take hc hn (.inl ⟨hlock, rfl⟩) fun other hother hkey l hl => ?_
    obtain ⟨n, hn'⟩ := h.owner other hother l (by rw [hl]; rfl)
    rw [hkey, hlock] at hn'
    cases hn'
  | some held =>
    obtain ⟨owner, n⟩ := held
    by_cases hs : owner = session
    · subst hs
      simp only [if_true]
      exact h.take hc hn (.inr hlock) (hg call failed hc hphase ⟨n, hlock⟩)
    · simp only [hs, if_false, Bool.false_eq_true]
      split
      · exact h.putSame hc hn.symm nofun
      · exact h.putSame hc hn.symm nofun

theorem Owned.step (h : Owned hashKey s) {ev : LockEvent} (hg : SessionKept hashKey s ev) : Owned hashKey (s.step hashKey ev) := by
  cases ev with
  | acquire key => exact h.acquire key
  | tryAcquire c session =>
    simp only [LockWorld.step]
    split
    · rename_i call hc
      split
      · rename_i failed session hphase
        exact h.tryAcquire hc hphase hg
      · rename_i failed hphase
        exact h.putSame hc (by rw [hphase]; rfl) nofun
      · exact h
    · exact h
  | release c =>
    simp only [LockWorld.step]
    split
    · rename_i call hc
      exact h.giveUp hc
    · exact h
  | expire c =>
    simp only [LockWorld.step]
    split
    · rename_i call hc
      exact h.giveUp hc
    · exact h
  | unlock c session =>
    simp only [LockWorld.step]
    split
    · rename_i call hc
      split
      · rename_i l hphase
        rw [hg call l hc hphase]
        exact h.unlock hc hphase
      · exact h
    · exact h
  | endSession session =>
    have hsame : s.locks.endSession session = s.locks := by
      funext lockId
      unfold AdvisoryLocks.endSession
      split
      · rename_i hlock
        exact hlock.symm
      · rename_i owner n hlock
        have hne : owner ≠ session := by
          rintro rfl
          exact hg lockId n hlock
        rw [if_neg hne, hlock]
    simp only [LockWorld.step, hsame]
    exact h

theorem Owned.contract (h : Owned hashKey s) : LockContract hashKey s := by
  constructor
  · intro i j a b l m hi hj ha hb hkey
    exact h.alone i j a b l m hi hj ha hb (by rw [hkey])
  · intro key hkey session
    have hzero : s.holders hashKey (hashKey key) = 0 := by
      refine countP_eq_zero.2 fun call hcall => ?_
      simp only [LockCall.holds, decide_eq_true_eq, not_and]
      rintro hk
      simp [hkey call hcall hk]
    have hfree : s.locks (hashKey key) = none := by
      cases hlock : s.locks (hashKey key) with
      | none => rfl
      | some held =>
        have hpos := h.taken _ held.1 held.2 hlock
        rw [h.count, hlock, Option.elim_some] at hzero
        omega
    simp [AdvisoryLocks.tryLock, hfree]

end

/-! ## Runs -/

/-- A second caller tries on another session, and again when the first has given the lock back. -/
def twoCallers : List LockEvent :=
  [.acquire "report", .acquire "report", .tryAcquire 0 (some 0), .tryAcquire 1 (some 1), .release 0, .unlock 0 (some 0),
    .tryAcquire 1 (some 1)]

end StreetJS.Microservices
