/-
Refresh tokens (`core/src/auth/refresh-tokens.ts`) in a table that several connections of a pool change at READ
COMMITTED: a rotation is a transaction, taken statement by statement, a revocation is one statement.
-/
import StreetJS.Lib.Runs
import StreetJS.Lib.ListSet

namespace StreetJS.Auth

open StreetJS.Lib

/-! ## The table -/

/-- A row; its id is its place in the table, and its token is known by the hash. -/
structure TokenRow where
  tokenHash : String
  familyId : String
  userId : String
  expiresAt : Int
  revokedAt : Option Int := none
deriving DecidableEq

/-- Which rows `revokeFamily` and `revokeAll` change. -/
inductive RevokeScope where
  | family (familyId : String)
  | user (userId : String)

def RevokeScope.covers (row : TokenRow) : RevokeScope → Bool
  | .family familyId => row.familyId == familyId
  | .user userId => row.userId == userId

/-! ## Calls -/

/-- The next statement of a rotation, or how it ended. -/
inductive RotatePhase where
  | selecting
  | revoking (id : Nat) (row : TokenRow)
  /-- The old token is revoked, which nobody sees before the commit. -/
  | inserting (id : Nat) (row : TokenRow) (revokedAt : Int)
  | committing (id : Nat) (row : TokenRow) (revokedAt : Int) (new : TokenRow)
  | revokingFamily (familyId : String)
  /-- `TokenReplayError` is thrown in the callback of the transaction. -/
  | rollingBack (familyId : String) (ids : List Nat)
  | exchanged (new : TokenRow)
  | failed (message : String)

inductive RevokePhase where
  | starting
  /-- The rows that the statement saw. -/
  | updating (ids : List Nat)
  | done

inductive Call where
  | rotate (tokenHash : String) (phase : RotatePhase)
  | revoke (scope : RevokeScope) (phase : RevokePhase)

def notFoundError : String := "Refresh token not found"

def expiredError : String := "Refresh token expired"

def replayError : String := "Refresh token replay detected — entire token family has been revoked"

/-- What the database says of a second row with the same hash. -/
def duplicateError : String := "duplicate key value violates unique constraint"

def RotatePhase.holds (id : Nat) : RotatePhase → Bool
  | .inserting id' _ _ => id' == id
  | .committing id' _ _ _ => id' == id
  | .rollingBack _ ids => ids.contains id
  | _ => false

/-- The row is locked by the transaction of the call. -/
def Call.holds (id : Nat) : Call → Bool
  | .rotate _ phase => phase.holds id
  | .revoke _ _ => false

/-- The hash of a row that is inserted and not committed. -/
def Call.inserts (tokenHash : String) : Call → Bool
  | .rotate _ (.committing _ _ _ new) => new.tokenHash == tokenHash
  | _ => false

structure TokenStore where
  rows : List TokenRow := []
  calls : List Call := []
  /-- The families whose replay was answered, with how many calls there were by then. -/
  replays : List (String × Nat) := []

inductive TokenEvent where
  | issue (userId familyId tokenHash : String) (now : Int)
  | rotate (tokenHash : String)
  | revoke (scope : RevokeScope)
  /-- The next statement of a call; a rotation that inserts has drawn this hash. -/
  | proceed (x : Nat) (now : Int) (newHash : String)
  /-- The statement of a rotation fails. -/
  | fail (x : Nat) (message : String)

namespace TokenStore

variable (refreshTtlMs : Int) (s : TokenStore)

/-- Another transaction has a lock on the row. -/
def locked (x id : Nat) : Bool :=
  (List.range s.calls.length).any fun y => y != x && s.calls[y]?.any (·.holds id)

def taken (tokenHash : String) : Bool :=
  s.rows.any (·.tokenHash == tokenHash) || s.calls.any (·.inserts tokenHash)

/-- The ids of the rows with a property. -/
def idsOf (p : TokenRow → Bool) : List Nat := (List.range s.rows.length).filter fun id => s.rows[id]?.any p

def setCall (x : Nat) (call : Call) : TokenStore := { s with calls := s.calls.set x call }

/-- `SELECT … WHERE token_hash = $1`, and the decisions on its row. -/
def selectToken (tokenHash : String) (now : Int) : RotatePhase :=
  match s.rows.findIdx? (·.tokenHash == tokenHash) with
  | none => .failed notFoundError
  | some id =>
    match s.rows[id]? with
    | none => .failed notFoundError
    | some row =>
      if row.revokedAt.isSome then .revokingFamily row.familyId
      else if row.expiresAt < now then .failed expiredError
      else .revoking id row

def revokeRow (revokedAt : Int) (row : TokenRow) : TokenRow := { row with revokedAt := some revokedAt }

/-- `UPDATE … SET revoked_at` on these rows. -/
def revokeRows (ids : List Nat) (revokedAt : Int) : List TokenRow :=
  s.rows.mapIdx fun id row => if ids.contains id then revokeRow revokedAt row else row

/-- The next statement of a rotation; a statement that meets a lock waits. -/
def proceedRotate (x : Nat) (tokenHash : String) (now : Int) (newHash : String) : RotatePhase → TokenStore
  | .selecting => s.setCall x (.rotate tokenHash (s.selectToken tokenHash now))
  | .revoking id row => if s.locked x id then s else s.setCall x (.rotate tokenHash (.inserting id row now))
  | .inserting id row revokedAt =>
    if s.taken newHash then s.setCall x (.rotate tokenHash (.failed duplicateError))
    else
      s.setCall x (.rotate tokenHash (.committing id row revokedAt
        { tokenHash := newHash, familyId := row.familyId, userId := row.userId, expiresAt := now + refreshTtlMs }))
  | .committing id _ revokedAt new =>
    { s with
      rows := s.revokeRows [id] revokedAt ++ [new]
      calls := s.calls.set x (.rotate tokenHash (.exchanged new)) }
  | .revokingFamily familyId =>
    let ids := s.idsOf fun row => row.familyId == familyId && row.revokedAt.isNone
    if ids.any (s.locked x) then s else s.setCall x (.rotate tokenHash (.rollingBack familyId ids))
  | .rollingBack familyId _ =>
    { s.setCall x (.rotate tokenHash (.failed replayError)) with replays := s.replays ++ [(familyId, s.calls.length)] }
  | .exchanged _ | .failed _ => s

/-- The statement of a revocation: it sees the rows that are there when it starts, and waits for their locks. -/
def proceedRevoke (x : Nat) (scope : RevokeScope) (now : Int) : RevokePhase → TokenStore
  | .starting => s.setCall x (.revoke scope (.updating (s.idsOf scope.covers)))
  | .updating ids =>
    if ids.any (s.locked x) then s
    else { s with rows := s.revokeRows ids now, calls := s.calls.set x (.revoke scope .done) }
  | .done => s

/-- A rotation whose statement fails rolls its transaction back. -/
def failRotate (x : Nat) (tokenHash message : String) : RotatePhase → TokenStore
  | .exchanged _ | .failed _ | .rollingBack _ _ => s
  | _ => s.setCall x (.rotate tokenHash (.failed message))

def step (s : TokenStore) : TokenEvent → TokenStore
  | .issue userId familyId tokenHash now =>
    if s.taken tokenHash then s
    else { s with rows := s.rows ++ [{ tokenHash, familyId, userId, expiresAt := now + refreshTtlMs }] }
  | .rotate tokenHash => { s with calls := s.calls ++ [.rotate tokenHash .selecting] }
  | .revoke scope => { s with calls := s.calls ++ [.revoke scope .starting] }
  | .proceed x now newHash =>
    match s.calls[x]? with
    | some (.rotate tokenHash phase) => s.proceedRotate refreshTtlMs x tokenHash now newHash phase
    | some (.revoke scope phase) => s.proceedRevoke x scope now phase
    | none => s
  | .fail x message =>
    match s.calls[x]? with
    | some (.rotate tokenHash phase) => s.failRotate x tokenHash message phase
    | _ => s

/-! ## Safe rotation -/

/-- A replay of the family has been answered. -/
def Replayed (familyId : String) : Prop := ∃ n, (familyId, n) ∈ s.replays

/-- The rotation of a token stands at this phase. -/
def At (x : Nat) (tokenHash : String) (phase : RotatePhase) : Prop := s.calls[x]? = some (.rotate tokenHash phase)

/-- Each token is exchanged once at most; a family with a replay is revoked, and no rotation that is called later
exchanges a token of it. -/
structure RotationSafe : Prop where
  once : ∀ (x y : Nat) (tokenHash : String) (new new' : TokenRow), s.At x tokenHash (.exchanged new) →
    s.At y tokenHash (.exchanged new') → x = y
  revoked : ∀ (familyId : String), s.Replayed familyId → ∀ row ∈ s.rows, row.familyId = familyId → row.revokedAt.isSome
  noLater : ∀ (familyId : String) (n : Nat), (familyId, n) ∈ s.replays → ∀ x, n ≤ x →
    ∀ (tokenHash : String) (new : TokenRow), s.At x tokenHash (.exchanged new) → new.familyId ≠ familyId

end TokenStore

end StreetJS.Auth
