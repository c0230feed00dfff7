/-
WebAuthn ceremonies (`core/src/auth/webauthn.ts`, `WebAuthnService`): calls that share a session with one challenge for
each user and a table of credentials, taken from one `await` to the next.
-/
import StreetJS.Lib.Runs
import StreetJS.Lib.ListSet
import StreetJS.Auth.Cbor

namespace StreetJS.Auth

open StreetJS.Lib

/-! ## Requests -/

/-- The properties of the client data that are read; one that is not a string is missing. -/
structure ClientData where
  type : Option String
  challenge : Option String
  origin : Option String

/-- What the ceremonies use of Node. -/
structure Primitives where
  sha256 : Bytes → Bytes
  /-- The public key is loaded and verifies a signature of the data. -/
  verifies : Jwk → Bytes → Bytes → Bool
  /-- `JSON.parse` of UTF-8; what throws is `none`. -/
  parseClientData : Bytes → Option ClientData

structure WebAuthnConfig where
  /-- In UTF-8. -/
  rpId : Bytes
  origin : String
  challengeExpiryMs : Int := 60000

structure RegistrationResponse where
  id : String
  clientDataJSON : String
  attestationObject : String
deriving DecidableEq

structure AuthenticationResponse where
  id : String
  clientDataJSON : String
  authenticatorData : String
  signature : String
deriving DecidableEq

/-- An argument of `finishRegistration` or of `finishAuthentication`. -/
inductive CeremonyRequest where
  | registration (credential : RegistrationResponse)
  | authentication (assertion : AuthenticationResponse)
deriving DecidableEq

def CeremonyRequest.clientDataJSON : CeremonyRequest → String
  | .registration credential => credential.clientDataJSON
  | .authentication assertion => assertion.clientDataJSON

def CeremonyRequest.type : CeremonyRequest → String
  | .registration _ => "webauthn.create"
  | .authentication _ => "webauthn.get"

/-! ## State -/

/-- A row of `street_webauthn_credentials`; its id is its place. -/
structure CredentialRow where
  userId : String
  credentialId : String
  publicKey : Jwk
  signCount : Nat
deriving DecidableEq

structure IssuedChallenge where
  userId : String
  challenge : String
  expiresAt : Int

/-- A challenge that a call has read: its number, how many challenges there were, and when. -/
structure HeldChallenge where
  issue : Nat
  seen : Nat
  now : Int
deriving DecidableEq

inductive CeremonyPhase where
  | reading
  /-- The challenge has expired and is cleared. -/
  | expiring
  | inserting (held : HeldChallenge) (publicKey : Jwk) (signCount : Nat)
  | selecting (held : HeldChallenge)
  | updating (held : HeldChallenge) (id : Nat) (row : CredentialRow) (signCount : Nat)
  /-- The challenge is cleared last; an authentication has read a row. -/
  | clearing (held : HeldChallenge) (read : Option (Nat × CredentialRow))
  | resolved
  | rejected (message : String)

/-- A call of `finishRegistration` or `finishAuthentication`. -/
structure Ceremony where
  userId : String
  request : CeremonyRequest
  phase : CeremonyPhase := .reading

/-- A call that has resolved. -/
structure Acceptance where
  userId : String
  request : CeremonyRequest
  held : HeldChallenge
  read : Option (Nat × CredentialRow)
deriving DecidableEq

structure WebAuthnWorld where
  rows : List CredentialRow := []
  issued : List IssuedChallenge := []
  /-- The challenge of a user, by its number. -/
  session : OrderedMap String Nat := []
  ceremonies : List Ceremony := []
  accepted : List Acceptance := []
  /-- The rows that a registration has changed, with the user of the registration. -/
  overwritten : List (String × CredentialRow) := []

inductive WebAuthnEvent where
  /-- `beginRegistration` or `beginAuthentication`, with its random challenge. -/
  | begin (userId challenge : String) (now : Int)
  | finish (userId : String) (request : CeremonyRequest)
  | read (i : Nat) (now : Int)
  | expire (i : Nat)
  | insert (i : Nat)
  | select (i : Nat)
  | update (i : Nat)
  | clear (i : Nat)
  /-- The session or the pool rejects. -/
  | fail (i : Nat)

/-- The call that an event is about. -/
def WebAuthnEvent.call : WebAuthnEvent → Option Nat
  | .read i _ | .expire i | .insert i | .select i | .update i | .clear i | .fail i => some i
  | .begin _ _ _ | .finish _ _ => none

/-! ## Checks -/

/-- `signCount`, where the data is long enough. -/
def signCountOf (authData : Bytes) : Nat := if 41 ≤ authData.length then BigEndian.decode ((authData.drop 33).take 4) else 0

/-- The authenticator data of an attestation, where they are bytes. -/
def attestedData (credential : RegistrationResponse) : Except String Bytes := do
  let attestation ← decodeCbor (Base64.decode credential.attestationObject)
  match attestation.get ['a', 'u', 't', 'h', 'D', 'a', 't', 'a'] with
  | some (.bytes authData) => .ok authData
  | _ => .error "TypeError"

namespace AuthenticationResponse

variable (p : Primitives) (a : AuthenticationResponse)

def authData : Bytes := Base64.decode a.authenticatorData

def signedData : Bytes := a.authData ++ p.sha256 (Base64.decode a.clientDataJSON)

/-- The signature verifies under the key. -/
def signedBy (publicKey : Jwk) : Bool := p.verifies publicKey (a.signedData p) (Base64.decode a.signature)

end AuthenticationResponse

section

variable (p : Primitives) (config : WebAuthnConfig)

/-- The client data of a request against the challenge of the session: what is thrown. -/
def clientDataError (issued : IssuedChallenge) (request : CeremonyRequest) : Option String :=
  match p.parseClientData (Base64.decode request.clientDataJSON) with
  | none => some "SyntaxError"
  | some clientData =>
    if clientData.type ≠ some request.type then some "Invalid ceremony type"
    else if clientData.challenge ≠ some issued.challenge then some "Challenge mismatch"
    else if clientData.origin ≠ some config.origin then some "Origin mismatch"
    else none

/-- A call behind the checks of its client data. -/
def admitted (held : HeldChallenge) : CeremonyRequest → CeremonyPhase
  | .registration credential =>
    let parsed : Except String (Jwk × Nat) := do
      let authData ← attestedData credential
      let publicKey ← parseCredentialPublicKey authData
      .ok (publicKey, signCountOf authData)
    match parsed with
    | .error message => .rejected message
    | .ok (publicKey, signCount) => .inserting held publicKey signCount
  | .authentication _ => .selecting held

/-- An assertion against the row of its credential. -/
def verified (held : HeldChallenge) (a : AuthenticationResponse) (id : Nat) (row : CredentialRow) : CeremonyPhase :=
  let newSignCount := signCountOf a.authData
  if newSignCount ≠ 0 ∧ newSignCount ≤ row.signCount then .rejected "Sign count replay detected"
  else if a.signedBy p row.publicKey then .updating held id row newSignCount
  else .rejected "Invalid assertion signature"

end

/-! ## Steps -/

namespace WebAuthnWorld

variable (p : Primitives) (config : WebAuthnConfig) (w : WebAuthnWorld)

/-- A row, with its id. -/
def findRow (test : CredentialRow → Bool) : Option (Nat × CredentialRow) :=
  (w.rows.findIdx? test).bind fun id => w.rows[id]?.map fun row => (id, row)

/-- A call behind `getChallenge`. -/
def readChallenge (c : Ceremony) (now : Int) : CeremonyPhase :=
  match (w.session.get c.userId).bind fun n => w.issued[n]?.map fun issued => (n, issued) with
  | none => .rejected "challenge_expired"
  | some (n, issued) =>
    if issued.expiresAt < now then .expiring
    else
      match clientDataError p config issued c.request with
      | some message => .rejected message
      | none => admitted { issue := n, seen := w.issued.length, now } c.request

/-- An authentication behind its SELECT. -/
def selectRow (userId : String) (held : HeldChallenge) (a : AuthenticationResponse) : CeremonyPhase :=
  match w.findRow fun row => row.credentialId == a.id && row.userId == userId with
  | none => .rejected "Credential not found"
  | some (id, row) => verified p held a id row

def setPhase (i : Nat) (c : Ceremony) (phase : CeremonyPhase) : WebAuthnWorld :=
  { w with ceremonies := w.ceremonies.set i { c with phase } }

/-- `INSERT … ON CONFLICT (credential_id) DO UPDATE SET sign_count` -/
def upsert (userId : String) (credential : RegistrationResponse) (publicKey : Jwk) (signCount : Nat) : WebAuthnWorld :=
  match w.findRow fun row => row.credentialId == credential.id with
  | some (id, row) =>
    { w with rows := w.rows.set id { row with signCount }, overwritten := w.overwritten ++ [(userId, row)] }
  | none => { w with rows := w.rows ++ [{ userId, credentialId := credential.id, publicKey, signCount }] }

def stepCeremony (i : Nat) (c : Ceremony) : WebAuthnEvent → WebAuthnWorld
  | .read _ now =>
    match c.phase with
    | .reading => w.setPhase i c (w.readChallenge p config c now)
    | _ => w
  | .expire _ =>
    match c.phase with
    | .expiring => { w with session := w.session.delete c.userId }.setPhase i c (.rejected "challenge_expired")
    | _ => w
  | .insert _ =>
    match c.phase, c.request with
    | .inserting held publicKey signCount, .registration credential =>
      (w.upsert c.userId credential publicKey signCount).setPhase i c (.clearing held none)
    | _, _ => w
  | .select _ =>
    match c.phase, c.request with
    | .selecting held, .authentication a => w.setPhase i c (w.selectRow p c.userId held a)
    | _, _ => w
  | .update _ =>
    match c.phase with
    | .updating held id row signCount =>
      { w with rows := w.rows.modify id fun (row : CredentialRow) => { row with signCount } }.setPhase i c (.clearing held (some (id, row)))
    | _ => w
  | .clear _ =>
    match c.phase with
    | .clearing held read =>
      let acceptance : Acceptance := { userId := c.userId, request := c.request, held, read }
      { w with session := w.session.delete c.userId, accepted := w.accepted ++ [acceptance] }.setPhase i c .resolved
    | _ => w
  | .fail _ =>
    match c.phase with
    | .resolved | .rejected _ => w
    | _ => w.setPhase i c (.rejected "Error")
  | _ => w

def step (w : WebAuthnWorld) : WebAuthnEvent → WebAuthnWorld
  | .begin userId challenge now =>
    { w with
      issued := w.issued ++ [{ userId, challenge, expiresAt := now + config.challengeExpiryMs }]
      session := w.session.set userId w.issued.length }
  | .finish userId request => { w with ceremonies := w.ceremonies ++ [{ userId, request }] }
  | e => (e.call.bind fun i => w.ceremonies[i]?.map fun c => w.stepCeremony p config i c e).getD w

end WebAuthnWorld

end StreetJS.Auth
