/-
`ApiKeyService`: `verify` finds a key by the hash of the raw key, through a cache that keeps what was found for a
minute; `revoke` deletes a key and then its cache entry. While no verification that found a key caches it after a
revocation has resolved, and none is answered from the cache with a key that has expired, revoked and expired keys
are never returned.
-/
import StreetJS.Cache.Lru
import StreetJS.Lib.Runs

namespace StreetJS.Auth

open StreetJS.Lib StreetJS.Cache

/-- A row of the table, as far as the service reads it. -/
structure ApiKey where
  id : String
  keyHash : String
  ownerId : String
  expiresAt : Option Nat
  deriving DecidableEq

def ApiKey.expired (key : ApiKey) (now : Nat) : Bool := key.expiresAt.any (· < now)

/-- What `verify` waits for: its query, or the result on its way back. A call whose query is rejected goes on no further. -/
inductive VerifyPhase where
  | asked
  | found (row : Option ApiKey)
  | done (result : Option ApiKey) (returnedAt : Nat)
  deriving DecidableEq

inductive KeyRevokePhase where
  | selecting
  | selected (hash : Option String)
  | deleting (hash : Option String)
  | deleted (hash : Option String)
  | done
  deriving DecidableEq

/-- `since`: the ids whose revocation had resolved when the verification started. -/
inductive KeyCall where
  | verify (hash : String) (since : List String) (phase : VerifyPhase)
  | revoke (id : String) (phase : KeyRevokePhase)
  deriving DecidableEq

/-- `revoked` records the ids of the revocations that have resolved; the service does not read it. -/
structure ApiKeyService where
  rows : List ApiKey
  cache : LruCache String (Option ApiKey)
  now : Nat
  calls : List KeyCall
  revoked : List String

inductive KeyEvent where
  /-- `verify`, by the digest of the raw key -/
  | verify (hash : String)
  | revoke (id : String)
  /-- The database executes the statement of a call, or the call goes on with its result. -/
  | proceed (i : Nat)
  | tick (ms : Nat)
  deriving DecidableEq

namespace ApiKeyService

def new (rows : List ApiKey) (now : Nat) : ApiKeyService := ⟨rows, .new 10000 60000 (by decide), now, [], []⟩

variable (s : ApiKeyService) (i : Nat)

def setCall (call : KeyCall) : ApiKeyService := { s with calls := s.calls.set i call }

def proceedVerify (hash : String) (since : List String) : VerifyPhase → ApiKeyService
  | .asked => s.setCall i (.verify hash since (.found (s.rows.find? fun key => key.keyHash = hash)))
  | .found row =>
    -- no row, an expired key and a hash that differs are all cached as `null`
    let result := row.filter fun key => !key.expired s.now && key.keyHash = hash
    { s.setCall i (.verify hash since (.done result s.now)) with cache := s.cache.set s.now hash result }
  | .done _ _ => s

def proceedRevoke (id : String) : KeyRevokePhase → ApiKeyService
  | .selecting => s.setCall i (.revoke id (.selected ((s.rows.find? fun key => key.id = id).map ApiKey.keyHash)))
  | .selected hash => s.setCall i (.revoke id (.deleting hash))
  | .deleting hash =>
    { s.setCall i (.revoke id (.deleted hash)) with rows := s.rows.filter fun key => key.id ≠ id }
  | .deleted hash =>
    { s.setCall i (.revoke id .done) with
      cache := hash.elim s.cache s.cache.delete
      revoked := s.revoked ++ [id] }
  | .done => s

def step (s : ApiKeyService) : KeyEvent → ApiKeyService
  | .verify hash =>
    let phase := match (s.cache.get s.now hash).1 with
      | some cached => .done cached s.now
      | none => .asked
    { s with cache := (s.cache.get s.now hash).2, calls := s.calls ++ [.verify hash s.revoked phase] }
  | .revoke id => { s with calls := s.calls ++ [.revoke id .selecting] }
  | .proceed i =>
    match s.calls[i]? with
    | some (.verify hash since phase) => s.proceedVerify i hash since phase
    | some (.revoke id phase) => s.proceedRevoke i id phase
    | none => s
  | .tick ms => { s with now := s.now + ms }

/-- No verification has returned a key that was revoked when it started, or was expired when it returned. -/
def Sound : Prop := ∀ hash since key returnedAt, .verify hash since (.done (some key) returnedAt) ∈ s.calls →
  key.id ∉ since ∧ key.expired returnedAt = false

/-- The cache does not answer with an expired key. A key that was found is not cached once a revocation of its id has
resolved, and a revocation that found no row does not resolve while the cache still answers with a key of its id. -/
def Orderly (s : ApiKeyService) : KeyEvent → Prop
  | .verify hash => ∀ key, s.cache.read s.now hash = some (some key) → key.expired s.now = false
  | .proceed i =>
    match s.calls[i]? with
    | some (.verify _ _ (.found (some key))) => key.expired s.now = false → key.id ∉ s.revoked
    | some (.revoke id (.deleted none)) => ∀ hash key, s.cache.read s.now hash = some (some key) → key.id ≠ id
    | _ => True
  | _ => True

/-! ## The invariant -/

/-- The hash that a revocation has found is that of every key of its id. -/
def HashOf (table : List ApiKey) (id : String) (hash : Option String) : Prop :=
  ∀ h, hash = some h → ∀ key ∈ table, key.id = id → key.keyHash = h

def CallOk (table rows : List ApiKey) (revoked : List String) : KeyCall → Prop
  | .verify hash since phase => (∀ id ∈ since, id ∈ revoked) ∧ match phase with
    | .found row => ∀ key, row = some key → key ∈ table ∧ key.keyHash = hash ∧ key.id ∉ since
    | .done result returnedAt => ∀ key, result = some key → key.id ∉ since ∧ key.expired returnedAt = false
    | _ => True
  | .revoke id phase => match phase with
    | .selected hash | .deleting hash => HashOf table id hash
    | .deleted hash => HashOf table id hash ∧ ∀ key ∈ rows, key.id ≠ id
    | _ => True

/-- `table` holds the rows that there were at first. -/
structure Inv (table : List ApiKey) (s : ApiKeyService) : Prop where
  rows : ∀ key ∈ s.rows, key ∈ table ∧ key.id ∉ s.revoked
  cached : ∀ hash key, s.cache.read s.now hash = some (some key) → key ∈ table ∧ key.keyHash = hash ∧ key.id ∉ s.revoked
  calls : ∀ call ∈ s.calls, CallOk table s.rows s.revoked call

variable {table : List ApiKey} {s i}

theorem CallOk.mono {rows rows' : List ApiKey} {revoked revoked' : List String} {call : KeyCall}
    (h : CallOk table rows revoked call) (hrows : ∀ key ∈ rows', key ∈ rows) (hrevoked : ∀ id ∈ revoked, id ∈ revoked') :
    CallOk table rows' revoked' call := by
  unfold CallOk at h ⊢
  split at h
  · exact ⟨fun id hid => hrevoked id (h.1 id hid), h.2⟩
  · split at h <;> first | exact h | exact ⟨h.1, fun key hkey => h.2 key (hrows key hkey)⟩

theorem Inv.sound (h : Inv table s) : Sound s := fun _ _ key _ hcall => (h.calls _ hcall).2 key rfl

/-- A call moves on, and nothing else changes. -/
theorem Inv.setCall (h : Inv table s) {call : KeyCall} (hcall : CallOk table s.rows s.revoked call) : Inv table (s.setCall i call) :=
  { h with calls := fun c hc => (List.mem_or_eq_of_mem_set hc).elim (h.calls c) fun heq => heq ▸ hcall }

theorem Inv.start (h : Inv table s) {call : KeyCall} (hcall : CallOk table s.rows s.revoked call) :
    Inv table { s with calls := s.calls ++ [call] } :=
  { h with calls := fun c hc => (List.mem_append.1 hc).elim (h.calls c) fun hc => List.mem_singleton.1 hc ▸ hcall }

/-- The cache answers no more than before. -/
theorem Inv.shrink (h : Inv table s) {cache : LruCache String (Option ApiKey)} {now : Nat}
    (hcache : LruCache.Shrinks s.cache s.now cache now) : Inv table { s with cache, now } :=
  { h with cached := fun hash key hread => h.cached hash key (hcache hash (some key) hread) }

theorem read_of_get {c : LruCache String (Option ApiKey)} {now : Nat} {hash : String} : (c.get now hash).1 = c.read now hash := by
  unfold LruCache.get LruCache.read
  cases c.entry hash with
  | none => rfl
  | some e =>
    dsimp only
    split <;> rfl

theorem Inv.proceedVerify (h : Inv table s) {hash : String} {since : List String} {phase : VerifyPhase}
    (hcall : CallOk table s.rows s.revoked (.verify hash since phase))
    (hfill : ∀ key, phase = .found (some key) → key.expired s.now = false → key.id ∉ s.revoked) :
    Inv table (s.proceedVerify i hash since phase) := by
  cases phase with
  | asked =>
    refine h.setCall ⟨hcall.1, fun key hrow => ?_⟩
    obtain ⟨htable, hkept⟩ := h.rows key (List.mem_of_find?_eq_some hrow)
    exact ⟨htable, by simpa using List.find?_some hrow, fun hid => hkept (hcall.1 _ hid)⟩
  | found row =>
    have hresult : ∀ key, (row.filter fun key => !key.expired s.now && key.keyHash = hash) = some key →
        row = some key ∧ key.expired s.now = false := by
      intro key hkey
      obtain ⟨hrow, hfresh⟩ := Option.filter_eq_some_iff.1 hkey
      simp only [Bool.and_eq_true, Bool.not_eq_true'] at hfresh
      exact ⟨hrow, hfresh.1⟩
    have hok : CallOk table s.rows s.revoked (.verify hash since
        (.done (row.filter fun key => !key.expired s.now && key.keyHash = hash) s.now)) := ⟨hcall.1, fun key hkey => by
      obtain ⟨hrow, hfresh⟩ := hresult key hkey
      exact ⟨(hcall.2 key hrow).2.2, hfresh⟩⟩
    refine { h.setCall hok with cached := fun hash' key hread => ?_ }
    rcases LruCache.read_set hread with ⟨rfl, heq⟩ | ⟨-, hread⟩
    · obtain ⟨hrow, hfresh⟩ := hresult key heq.symm
      obtain ⟨htable, hhash, -⟩ := hcall.2 key hrow
      exact ⟨htable, hhash, hfill key (hrow ▸ rfl) hfresh⟩
    · exact h.cached hash' key hread
  | done => exact h

theorem Inv.proceedRevoke (hids : (table.map ApiKey.id).Nodup) (h : Inv table s) {id : String} {phase : KeyRevokePhase}
    (hcall : CallOk table s.rows s.revoked (.revoke id phase))
    (hevict : phase = .deleted none → ∀ hash key, s.cache.read s.now hash = some (some key) → key.id ≠ id) :
    Inv table (s.proceedRevoke i id phase) := by
  cases phase with
  | selecting =>
    refine h.setCall fun hash hhash key hkey hid => ?_
    obtain ⟨found, hfound, rfl⟩ := Option.map_eq_some_iff.1 hhash
    have hmem := (h.rows found (List.mem_of_find?_eq_some hfound)).1
    have hsame : found.id = id := by simpa using List.find?_some hfound
    rw [List.inj_on_of_nodup_map hids hkey hmem (hid.trans hsame.symm)]
  | selected hash => exact h.setCall hcall
  | deleting hash =>
    have hdeleted : ∀ key ∈ s.rows.filter fun key => key.id ≠ id, key ∈ s.rows ∧ key.id ≠ id := fun key hkey => by
      simpa using hkey
    refine ⟨fun key hkey => h.rows key (hdeleted key hkey).1, h.cached, fun c hc => ?_⟩
    rcases List.mem_or_eq_of_mem_set hc with hc | rfl
    · exact (h.calls c hc).mono (fun key hkey => (hdeleted key hkey).1) fun _ hid => hid
    · exact ⟨hcall, fun key hkey => (hdeleted key hkey).2⟩
  | deleted hash =>
    have hgrown : ∀ {key : ApiKey}, key.id ∉ s.revoked → key.id ≠ id → key.id ∉ s.revoked ++ [id] := by
      intro key hkept hne hmem
      rcases List.mem_append.1 hmem with hmem | hmem
      · exact hkept hmem
      · exact hne (List.mem_singleton.1 hmem)
    refine ⟨fun key hkey => ⟨(h.rows key hkey).1, hgrown (h.rows key hkey).2 (hcall.2 key hkey)⟩, fun hash' key hread => ?_, fun c hc => ?_⟩
    · cases hash with
      | none =>
        obtain ⟨htable, hhash, hkept⟩ := h.cached hash' key hread
        exact ⟨htable, hhash, hgrown hkept (hevict rfl hash' key hread)⟩
      | some evicted =>
        obtain ⟨htable, rfl, hkept⟩ := h.cached hash' key (s.cache.shrinks_keep s.now _ _ _ hread)
        refine ⟨htable, rfl, hgrown hkept fun hid => ?_⟩
        rw [hcall.1 evicted rfl key htable hid] at hread
        exact absurd ((s.cache.read_delete_self s.now evicted).symm.trans hread) nofun
    · rcases List.mem_or_eq_of_mem_set hc with hc | rfl
      · exact (h.calls c hc).mono (fun _ hkey => hkey) fun _ hid => List.mem_append_left _ hid
      · trivial
  | done => exact h

theorem Inv.step (hids : (table.map ApiKey.id).Nodup) (h : Inv table s) {ev : KeyEvent} (hg : Orderly s ev) : Inv table (s.step ev) := by
  cases ev with
  | verify hash =>
    refine (h.shrink (s.cache.shrinks_get s.now hash)).start ⟨fun _ => id, ?_⟩
    rw [read_of_get]
    cases hread : s.cache.read s.now hash with
    | none => trivial
    | some cached =>
      rintro key rfl
      exact ⟨(h.cached hash key hread).2.2, hg key hread⟩
  | revoke id => exact h.start trivial
  | proceed i =>
    unfold ApiKeyService.step
    unfold Orderly at hg
    dsimp only at hg ⊢
    split
    · rename_i hash since phase hi
      refine h.proceedVerify (h.calls _ (List.mem_of_getElem? hi)) fun key hphase => ?_
      rw [hi, hphase] at hg
      exact hg
    · rename_i id phase hi
      refine h.proceedRevoke hids (h.calls _ (List.mem_of_getElem? hi)) fun hphase => ?_
      rw [hi, hphase] at hg
      exact hg
    · exact h
  | tick ms => exact h.shrink (LruCache.shrinks_of_mem (Nat.le_add_right _ _) fun _ => id)

/-- **Revoked and expired keys are not returned.** -/
theorem sound_of_orderly (table : List ApiKey) (now : Nat) (es : List KeyEvent) (hids : (table.map ApiKey.id).Nodup)
    (hg : Guarded step Orderly (new table now) es) : Sound (run step (new table now) es) := by
  refine (run_invariant_of_guarded step (P := Inv table) (fun _ _ h hg => h.step hids hg) es hg ?_).sound
  exact ⟨fun key hkey => ⟨hkey, List.not_mem_nil⟩, nofun, nofun⟩

/-- A key that expires at 500. -/
def key : ApiKey := ⟨"k1", "ab12", "ada", some 500⟩

/-- It is verified, revoked and verified again. -/
def verifyRevokeVerify : List KeyEvent :=
  [.verify "ab12", .proceed 0, .proceed 0, .revoke "k1", .proceed 1, .proceed 1, .proceed 1, .proceed 1, .verify "ab12"]

theorem sound_of_orderly_revoked : Sound (run step (new [key] 0) verifyRevokeVerify) :=
  sound_of_orderly [key] 0 verifyRevokeVerify (by decide)
    ⟨nofun, trivial, fun _ => by decide, trivial, trivial, trivial, trivial, trivial, nofun, trivial⟩

/-- A verification that found the row goes on after the revocation: the next one is answered from the cache. And a key
is answered from the cache after it has expired. -/
theorem revocation_counterexample :
    ¬Sound (run step (new [key] 0) [.verify "ab12", .proceed 0, .revoke "k1", .proceed 1, .proceed 1, .proceed 1,
      .proceed 1, .proceed 0, .verify "ab12"]) ∧
    ¬Sound (run step (new [key] 0) [.verify "ab12", .proceed 0, .proceed 0, .tick 501, .verify "ab12"]) := by
  constructor
  · exact fun h => absurd (h "ab12" ["k1"] key 0 (by decide +kernel)).1 (by decide)
  · exact fun h => absurd (h "ab12" [] key 501 (by decide +kernel)).2 (by decide)

end ApiKeyService

end StreetJS.Auth
