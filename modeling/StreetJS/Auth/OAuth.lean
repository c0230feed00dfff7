/-
The OAuth login (`core/src/auth/oauth2.ts`): the middleware of one provider with its callbacks and the JWKS cache, in
the stretches between their awaits, over the sessions that it is called in. Token and JWKS responses are any JSON
values. What is in a segment of a token, what `crypto.verify` says, and `String(value)` are parameters.
-/
import StreetJS.Lib.Json
import StreetJS.Lib.ListSet
import StreetJS.Lib.Runs
import Mathlib

namespace StreetJS.Auth

open StreetJS.Lib

/-! ## ID tokens -/

inductive HashAlgorithm where
  | sha256
  | sha384
  | sha512
deriving DecidableEq

/-- The key that `crypto.createPublicKey` is given. -/
inductive KeyMaterial where
  | rsa (n e : Json)
  | ec (x y crv : Json)

structure OAuthPrimitives where
  /-- `JSON.parse` of the text of a base64url segment. -/
  parseSegment : String → Option Json
  /-- `crypto.verify` of a signed text and a signature segment under a key; `none` when it throws, or the key is none. -/
  verify : HashAlgorithm → KeyMaterial → String → String → Option Bool
  /-- `String(value)`. -/
  string : Json → String

/-- A provider with a JWKS URI, as it is configured. -/
structure OAuthProvider where
  clientId : String
  issuer : String

/-- `token.split('.')`. -/
def segments (token : String) : List String := (token.toList.splitOn '.').map String.ofList

structure OAuthProfile where
  id : String
  email : String
  name : String
  avatarUrl : String

variable (p : OAuthPrimitives) (provider : OAuthProvider)

/-- A token of three segments or more, with its header and its payload. -/
structure DecodedToken where
  header : Json
  payload : Json
  signingInput : String
  signature : String

/-- `decodeJwtHeader` and `decodeJwtPayload`; `none` when they throw. -/
def decodeToken (idToken : Json) : Option DecodedToken :=
  match idToken with
  | .str token =>
    match segments token with
    | first :: second :: third :: _ =>
      match p.parseSegment first, p.parseSegment second with
      | some header, some payload => some ⟨header, payload, first ++ "." ++ second, third⟩
      | _, _ => none
    | _ => none
  | _ => none

/-- The checks of `exp` and `aud`; the check of `iss` has no consequence. -/
def claimsAccepted (payload : Json) (now : Int) : Bool :=
  !expired && (audience || audiences)
where
  expired : Bool :=
    match payload.field "exp" with
    | some (.num exp) => exp < now
    | _ => false
  audience : Bool :=
    match payload.field "aud" with
    | some (.str aud) => aud = provider.clientId
    | _ => false
  audiences : Bool :=
    match payload.field "aud" with
    | some (.arr _) => true
    | _ => false

/-- `keys.find(k => !header.kid || k.kid === header.kid)`; `none` when that throws, as the `kid` of `null` does, or `!key`
does. -/
def findKey (header keys : Json) : Option Json :=
  match header, keys with
  | .null, _ => none
  | _, .arr items => (search items).filter Json.truthy
  | _, _ => none
where
  search : List Json → Option Json
    | [] => none
    | key :: rest =>
      match (header.field "kid").filter Json.truthy with
      | none => some key
      | some kid =>
        match key with
        | .null => none
        | _ => if (key.field "kid").any (Json.strictEq kid) then some key else search rest

/-- The hash for a key of type `RSA`. -/
def rsaHash (header : Json) : HashAlgorithm :=
  match header.field "alg" with
  | some (.str "RS256") => .sha256
  | some (.str "RS384") => .sha384
  | _ => .sha512

/-- The hash for a key of type `EC`. -/
def ecHash (header : Json) : HashAlgorithm :=
  match header.field "alg" with
  | some (.str "ES256") => .sha256
  | _ => .sha384

/-- `key.crv ?? 'P-256'`. -/
def curve (key : Json) : Json :=
  match key.field "crv" with
  | some .null | none => .str "P-256"
  | some crv => crv

/-- A field that is there and truthy. -/
def present (key : Json) (name : String) : Option Json := (key.field name).filter Json.truthy

/-- The signature is checked under a usable key; any other key is taken without a check. -/
def signatureAccepted (key : Json) (token : DecodedToken) : Bool :=
  match key.field "kty" with
  | some (.str "RSA") =>
    match present key "n", present key "e" with
    | some n, some e => p.verify (rsaHash token.header) (.rsa n e) token.signingInput token.signature = some true
    | _, _ => true
  | some (.str "EC") =>
    match present key "x", present key "y" with
    | some x, some y =>
      p.verify (ecHash token.header) (.ec x y (curve key)) token.signingInput token.signature = some true
    | _, _ => true
  | _ => true

/-- `String(claims[name] ?? '')`. -/
def claimText (payload : Json) (name : String) : String :=
  match payload.field name with
  | some .null | none => ""
  | some value => p.string value

def profileOf (payload : Json) : OAuthProfile where
  id := claimText p payload "sub"
  email := claimText p payload "email"
  name := claimText p payload "name"
  avatarUrl := claimText p payload "picture"

/-- The lengths in bytes, and then the bytes; texts of the same bytes have the same length in any case. -/
def constantTimeEqual (a b : String) : Bool := a.toUTF8.size = b.toUTF8.size && a.toUTF8 = b.toUTF8

theorem constantTimeEqual_iff {a b : String} : constantTimeEqual a b = true ↔ a = b := by
  unfold constantTimeEqual
  rw [Bool.and_eq_true, decide_eq_true_iff, decide_eq_true_iff]
  constructor
  · rintro ⟨-, hbytes⟩
    exact String.toByteArray_inj.1 hbytes
  · rintro rfl
    exact ⟨rfl, rfl⟩

/-! ## The middleware -/

/-- Keys that the cache holds until they expire. -/
structure JwksEntry where
  keys : Json
  expiresAt : Int

/-- A request, at its awaits. -/
inductive LoginPhase where
  /-- The flow was initiated, with a new state and verifier. -/
  | initiating (state codeVerifier : String)
  /-- The code is being exchanged. -/
  | exchanging
  /-- No ID token: the user is asked for at another place. -/
  | userInfo
  /-- The claims were accepted, and the keys are being fetched. -/
  | fetchingKeys (token : DecodedToken) (checkedAt : Int) (stale : Option Json) (startedAt : Int)
  | verifying (token : DecodedToken) (checkedAt : Int) (keys : Json)
  | succeeded
  | ended

structure LoginRequest where
  session : Nat
  state : String
  phase : LoginPhase
  /-- The token response, when it has come. -/
  response : Option Json := none

/-- A call of `onSuccess`, with what it rests on. -/
structure Success where
  session : Nat
  state : String
  response : Json
  checkedAt : Int
  profile : OAuthProfile

structure OAuthManager where
  /-- `oauth_state_…` and `oauth_verifier_…` of the sessions. -/
  sessions : OrderedMap Nat (String × String) := []
  cache : Option JwksEntry := none
  requests : List LoginRequest := []
  /-- The states that were stored, and in which sessions. -/
  initiations : List (Nat × String) := []
  /-- The keys of the JWKS responses. -/
  jwks : List Json := []
  successes : List Success := []

inductive OAuthEvent where
  /-- A request with `code` and `state`; the new state and verifier are for an initiation. -/
  | request (session : Nat) (code state newState newVerifier : String)
  /-- An initiation goes on and stores its state. -/
  | store (request : Nat)
  /-- The token endpoint answers, or fails. -/
  | tokens (request : Nat) (response : Option Json) (now : Int)
  /-- The other place answers with a user, or with none. -/
  | user (request : Nat) (profile : OAuthProfile)
  /-- The JWKS endpoint answers, or fails. -/
  | keys (request : Nat) (response : Option Json)
  /-- The signature is checked. -/
  | verify (request : Nat)

/-- The TTL of the cache. -/
def jwksTtlMs : Int := 5 * 60 * 1000

namespace OAuthManager

variable (s : OAuthManager)

/-- `String(session.get(ctx, 'oauth_state_…') ?? '')`. -/
def sessionState (session : Nat) : String := ((s.sessions.get session).map Prod.fst).getD ""

def setPhase (i : Nat) (r : LoginRequest) (phase : LoginPhase) : OAuthManager :=
  { s with requests := s.requests.set i { r with phase } }

def request (session : Nat) (code state newState newVerifier : String) : OAuthManager :=
  let phase :=
    if code = "" then .initiating newState newVerifier
    else if constantTimeEqual state (s.sessionState session) then .exchanging
    else .ended
  { s with requests := s.requests ++ [{ session, state, phase }] }

def store (i : Nat) : OAuthManager :=
  match s.requests[i]? with
  | none => s
  | some r =>
    match r.phase with
    | .initiating state codeVerifier =>
      { s.setPhase i r .ended with
        sessions := s.sessions.set r.session (state, codeVerifier)
        initiations := s.initiations ++ [(r.session, state)] }
    | _ => s

/-- The first part of `verifyIdToken`, as far as the keys; dates are in milliseconds. -/
def verifyClaims (i : Nat) (r : LoginRequest) (idToken : Json) (now : Int) : OAuthManager :=
  match decodeToken p idToken with
  | none => s.setPhase i r .ended
  | some token =>
    match token.payload with
    | .null => s.setPhase i r .ended
    | _ =>
      if claimsAccepted provider token.payload (now / 1000) then
        match s.cache with
        | some entry =>
          if now < entry.expiresAt then s.setPhase i r (.verifying token (now / 1000) entry.keys)
          else s.setPhase i r (.fetchingKeys token (now / 1000) (some entry.keys) now)
        | none => s.setPhase i r (.fetchingKeys token (now / 1000) none now)
      else s.setPhase i r .ended

def tokens (i : Nat) (response : Option Json) (now : Int) : OAuthManager :=
  match s.requests[i]? with
  | none => s
  | some r =>
    match r.phase with
    | .exchanging =>
      match response with
      | none => s.setPhase i r .ended
      | some .null => s.setPhase i r .ended
      | some body =>
        let r := { r with response := some body }
        match (body.field "id_token").filter Json.truthy with
        | some idToken => s.verifyClaims p provider i r idToken now
        | none => s.setPhase i r .userInfo
    | _ => s

/-- `onSuccess`. -/
def succeed (i : Nat) (r : LoginRequest) (checkedAt : Int) (profile : OAuthProfile) : OAuthManager :=
  { s.setPhase i r .succeeded with
    successes := s.successes ++ [{ session := r.session, state := r.state, response := r.response.getD .null, checkedAt, profile }] }

def user (i : Nat) (profile : OAuthProfile) : OAuthManager :=
  match s.requests[i]? with
  | none => s
  | some r =>
    match r.phase with
    | .userInfo => s.succeed i r 0 profile
    | _ => s

/-- `body.keys ?? []`. -/
def keysOf (body : Json) : Json :=
  match body.field "keys" with
  | some .null | none => .arr []
  | some keys => keys

def keys (i : Nat) (response : Option Json) : OAuthManager :=
  match s.requests[i]? with
  | none => s
  | some r =>
    match r.phase with
    | .fetchingKeys token checkedAt stale startedAt =>
      match response, stale with
      | none, none | some .null, none => s.setPhase i r .ended
      | none, some keys | some .null, some keys => s.setPhase i r (.verifying token checkedAt keys)
      | some body, _ =>
        { s.setPhase i r (.verifying token checkedAt (keysOf body)) with
          cache := some ⟨keysOf body, startedAt + jwksTtlMs⟩
          jwks := s.jwks ++ [keysOf body] }
    | _ => s

def verify (i : Nat) : OAuthManager :=
  match s.requests[i]? with
  | none => s
  | some r =>
    match r.phase with
    | .verifying token checkedAt keys =>
      match findKey token.header keys with
      | none => s.setPhase i r .ended
      | some key =>
        if signatureAccepted p key token then s.succeed i r checkedAt (profileOf p token.payload)
        else s.setPhase i r .ended
    | _ => s

def step : OAuthEvent → OAuthManager
  | .request session code state newState newVerifier => s.request session code state newState newVerifier
  | .store i => s.store i
  | .tokens i response now => s.tokens p provider i response now
  | .user i profile => s.user i profile
  | .keys i response => s.keys i response
  | .verify i => s.verify p i

end OAuthManager

end StreetJS.Auth
