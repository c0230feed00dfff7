/-
What a login rests on, over every interleaving of requests to the middleware in any sessions: where every callback
comes with the fresh state of its session, and every token response with an ID token whose claims and whose key are of
the kinds that the code checks, `onSuccess` runs for a login of the provider only.
-/
import Mathlib.Data.List.Nodup
import StreetJS.Auth.OAuth

namespace StreetJS.Auth

open StreetJS.Lib List

variable (p : OAuthPrimitives) (provider : OAuthProvider)

/-! ## Soundness -/

/-- The key verifies the signature of the token under the algorithm of this name. -/
inductive SignedUnder (key : Json) (token : DecodedToken) : String → Prop where
  | rsa {n e : Json} {alg : String} {hash : HashAlgorithm} (hkty : key.field "kty" = some (.str "RSA"))
    (hn : present key "n" = some n) (he : present key "e" = some e)
    (halg : (alg, hash) ∈ [("RS256", HashAlgorithm.sha256), ("RS384", .sha384), ("RS512", .sha512)])
    (h : p.verify hash (.rsa n e) token.signingInput token.signature = some true) : SignedUnder key token alg
  | ec {x y : Json} {alg crv : String} {hash : HashAlgorithm} (hkty : key.field "kty" = some (.str "EC"))
    (hx : present key "x" = some x) (hy : present key "y" = some y) (hcrv : curve key = .str crv)
    (halg : (alg, crv, hash) ∈ [("ES256", "P-256", HashAlgorithm.sha256), ("ES384", "P-384", .sha384)])
    (h : p.verify hash (.ec x y (.str crv)) token.signingInput token.signature = some true) : SignedUnder key token alg

/-- The issuer, or a tenant of it. -/
def NamesIssuer (payload : Json) : Prop :=
  ∃ iss, payload.field "iss" = some (.str iss) ∧ (iss = provider.issuer ∨ ∃ tenant, iss = provider.issuer ++ "/" ++ tenant)

/-- The client is the audience, or among the audiences. -/
def HasAudience (payload : Json) : Prop :=
  payload.field "aud" = some (.str provider.clientId) ∨
    ∃ audiences, payload.field "aud" = some (.arr audiences) ∧ .str provider.clientId ∈ audiences

def Unexpired (payload : Json) (now : Int) : Prop := ∃ exp : Rat, payload.field "exp" = some (.num exp) ∧ (now : Rat) ≤ exp

/-- The ID token of a response, for this client, from this issuer and not expired. -/
structure TokenOk (response : Json) (token : DecodedToken) (checkedAt : Int) : Prop where
  own : ∃ idToken, response.field "id_token" = some idToken ∧ decodeToken p idToken = some token
  expiry : Unexpired token.payload checkedAt
  issuer : NamesIssuer provider token.payload
  audience : HasAudience provider token.payload

/-- The state was stored in the session, and the profile is of a token that a key of the JWKS has signed. -/
structure SuccessOk (s : OAuthManager) (x : Success) : Prop where
  stored : (x.session, x.state) ∈ s.initiations
  token : ∃ token, TokenOk p provider x.response token x.checkedAt ∧ x.profile = profileOf p token.payload ∧
    ∃ items key alg, .arr items ∈ s.jwks ∧ key ∈ items ∧ token.header.field "alg" = some (.str alg) ∧ SignedUnder p key token alg

structure LoginSafe (s : OAuthManager) : Prop where
  sound : ∀ x ∈ s.successes, SuccessOk p provider s x
  /-- No state is used twice. -/
  once : (s.successes.map Success.state).Nodup

/-! ## When it holds -/

/-- The claims are of the kinds that are checked: a number, a text or a list with the client in it, and the issuer. -/
structure GenuineClaims (payload : Json) : Prop where
  expiry : ∃ exp : Rat, payload.field "exp" = some (.num exp)
  issuer : NamesIssuer provider payload
  audience : ∀ audiences, payload.field "aud" = some (.arr audiences) → .str provider.clientId ∈ audiences

/-- The algorithm is one that the code knows for keys of this type. -/
inductive UsableKey (key header : Json) : Prop where
  | rsa {alg : String} (hkty : key.field "kty" = some (.str "RSA")) (hn : (present key "n").isSome)
    (he : (present key "e").isSome) (halg : header.field "alg" = some (.str alg))
    (hknown : alg ∈ ["RS256", "RS384", "RS512"]) : UsableKey key header
  | ec {alg crv : String} (hkty : key.field "kty" = some (.str "EC")) (hx : (present key "x").isSome)
    (hy : (present key "y").isSome) (halg : header.field "alg" = some (.str alg)) (hcrv : curve key = .str crv)
    (hknown : (alg, crv) ∈ [("ES256", "P-256"), ("ES384", "P-384")]) : UsableKey key header

/-- A request that has come with a state that it may still succeed with, or has. -/
def LoginRequest.live (r : LoginRequest) : Prop :=
  match r.phase with
  | .initiating _ _ | .ended => False
  | _ => True

/-- A callback comes with the state that is stored in its session, when no other callback has succeeded or is under way
with it; the token responses have genuine ID tokens, and the keys that are selected for them are usable. -/
def LoginGuard (s : OAuthManager) : OAuthEvent → Prop
  | .request session code state _ _ => code ≠ "" → state = s.sessionState session →
    (s.sessions.get session).isSome ∧ ∀ r ∈ s.requests, r.live → r.state ≠ state
  | .store _ => True
  | .tokens _ response _ => ∀ body, response = some body → ∃ idToken, (body.field "id_token").filter Json.truthy = some idToken ∧
    ∀ token, decodeToken p idToken = some token → GenuineClaims provider token.payload
  | .user _ _ => True
  | .keys _ _ => True
  | .verify i => ∀ r token checkedAt keys key, s.requests[i]? = some r → r.phase = .verifying token checkedAt keys →
    findKey token.header keys = some key → UsableKey key token.header

/-! ## The invariant -/

/-- What a request under way has found out. -/
def LoginOk (s : OAuthManager) (r : LoginRequest) : LoginPhase → Prop
  | .initiating _ _ => True
  | .exchanging => (r.session, r.state) ∈ s.initiations
  | .userInfo => False
  | .fetchingKeys token checkedAt stale _ => (r.session, r.state) ∈ s.initiations ∧
    (∃ body, r.response = some body ∧ TokenOk p provider body token checkedAt) ∧ ∀ keys, stale = some keys → keys ∈ s.jwks
  | .verifying token checkedAt keys => (r.session, r.state) ∈ s.initiations ∧
    (∃ body, r.response = some body ∧ TokenOk p provider body token checkedAt) ∧ keys ∈ s.jwks
  | .succeeded => True
  | .ended => True

structure LoginSound (s : OAuthManager) : Prop where
  sessions : ∀ session stored, s.sessions.get session = some stored → (session, stored.1) ∈ s.initiations
  requests : ∀ r ∈ s.requests, LoginOk p provider s r r.phase
  /-- The states of the requests that have one are all different. -/
  distinct : ∀ (i j : Nat) r r', s.requests[i]? = some r → s.requests[j]? = some r' → r.live → r'.live → r.state = r'.state → i = j
  succeeded : ∀ x ∈ s.successes, ∃ r ∈ s.requests, r.phase = .succeeded ∧ r.state = x.state
  cache : ∀ entry, s.cache = some entry → entry.keys ∈ s.jwks
  sound : ∀ x ∈ s.successes, SuccessOk p provider s x
  once : (s.successes.map Success.state).Nodup

theorem loginSound_empty : LoginSound p provider {} := by
  constructor <;> simp

variable {p provider} {s : OAuthManager}

theorem LoginSound.safe (h : LoginSound p provider s) : LoginSafe p provider s := ⟨h.sound, h.once⟩

/-! ## Tokens and keys -/

theorem claims_ok {payload : Json} {now : Int} (h : claimsAccepted provider payload now = true)
    (hg : GenuineClaims provider payload) : Unexpired payload now ∧ HasAudience provider payload := by
  unfold claimsAccepted at h
  rw [Bool.and_eq_true, Bool.or_eq_true] at h
  obtain ⟨hexp, haud⟩ := h
  constructor
  · obtain ⟨exp, hfield⟩ := hg.expiry
    refine ⟨exp, hfield, ?_⟩
    exact Rat.not_lt.1 (by simpa [claimsAccepted.expired, hfield] using hexp)
  · rcases haud with haud | haud
    · refine Or.inl ?_
      unfold claimsAccepted.audience at haud
      split at haud
      · rename_i aud hfield
        rw [hfield, of_decide_eq_true haud]
      · cases haud
    · refine Or.inr ?_
      unfold claimsAccepted.audiences at haud
      split at haud
      · rename_i audiences hfield
        exact ⟨audiences, hfield, hg.audience audiences hfield⟩
      · cases haud

theorem findKey_mem {header keys key : Json} (h : findKey header keys = some key) : ∃ items, keys = .arr items ∧ key ∈ items := by
  have hsearch : ∀ {items : List Json}, findKey.search header items = some key → key ∈ items := fun {items} hs => by
    induction items with
    | nil => cases hs
    | cons k items ih =>
      unfold findKey.search at hs
      split at hs
      · rw [Option.some.inj hs]
        exact mem_cons_self
      · split at hs
        · cases hs
        · split at hs
          · rw [Option.some.inj hs]
            exact mem_cons_self
          · exact mem_cons_of_mem _ (ih hs)
  unfold findKey at h
  split at h
  · cases h
  · rename_i items _
    exact ⟨items, rfl, hsearch (Option.filter_eq_some_iff.1 h).1⟩
  · cases h

theorem signedUnder_of_accepted {key : Json} {token : DecodedToken} (h : signatureAccepted p key token = true)
    (hkey : UsableKey key token.header) :
    ∃ alg, token.header.field "alg" = some (.str alg) ∧ SignedUnder p key token alg := by
  unfold signatureAccepted at h
  cases hkey with
  | @rsa alg hkty hn he halg hknown =>
    obtain ⟨n, hn⟩ := Option.isSome_iff_exists.1 hn
    obtain ⟨e, he⟩ := Option.isSome_iff_exists.1 he
    simp only [hkty, hn, he, decide_eq_true_eq] at h
    refine ⟨alg, halg, .rsa hkty hn he ?_ h⟩
    simp only [mem_cons, not_mem_nil, or_false] at hknown
    rcases hknown with rfl | rfl | rfl <;> simp [rsaHash, halg]
  | @ec alg crv hkty hx hy halg hcrv hknown =>
    obtain ⟨x, hx⟩ := Option.isSome_iff_exists.1 hx
    obtain ⟨y, hy⟩ := Option.isSome_iff_exists.1 hy
    simp only [hkty, hx, hy, hcrv, decide_eq_true_eq] at h
    refine ⟨alg, halg, .ec hkty hx hy hcrv ?_ h⟩
    simp only [mem_cons, not_mem_nil, or_false, Prod.mk.injEq] at hknown
    rcases hknown with ⟨rfl, rfl⟩ | ⟨rfl, rfl⟩ <;> simp [ecHash, halg]

/-! ## The steps -/

theorem SuccessOk.mono {t : OAuthManager} {x : Success} (h : SuccessOk p provider s x)
    (hinitiations : ∀ e ∈ s.initiations, e ∈ t.initiations) (hjwks : ∀ keys ∈ s.jwks, keys ∈ t.jwks) :
    SuccessOk p provider t x := by
  obtain ⟨token, htoken, hprofile, items, key, alg, hitems, hkey⟩ := h.token
  exact ⟨hinitiations _ h.stored, token, htoken, hprofile, items, key, alg, hjwks _ hitems, hkey⟩

theorem LoginOk.mono {t : OAuthManager} {r : LoginRequest} {phase : LoginPhase} (h : LoginOk p provider s r phase)
    (hinitiations : ∀ e ∈ s.initiations, e ∈ t.initiations) (hjwks : ∀ keys ∈ s.jwks, keys ∈ t.jwks) :
    LoginOk p provider t r phase := by
  cases phase with
  | initiating state codeVerifier => trivial
  | exchanging => exact hinitiations _ h
  | userInfo => exact h
  | fetchingKeys token checkedAt stale startedAt =>
    exact ⟨hinitiations _ h.1, h.2.1, fun keys hk => hjwks _ (h.2.2 keys hk)⟩
  | verifying token checkedAt keys => exact ⟨hinitiations _ h.1, h.2.1, hjwks _ h.2.2⟩
  | succeeded => trivial
  | ended => trivial

section

variable (h : LoginSound p provider s)
include h

theorem LoginSound.setPhase {i : Nat} {r q : LoginRequest}
    (hi : s.requests[i]? = some r) (hsame : q.state = r.state) (hlive : q.live → r.live)
    (hsucceeded : r.phase ≠ .succeeded) (hok : LoginOk p provider s q q.phase) :
    LoginSound p provider { s with requests := s.requests.set i q } := by
  refine ⟨h.sessions, fun x hx => ?_, fun j k x y hj hk hx hy hstate => ?_, fun x hx => ?_, h.cache, fun x hx => ?_, h.once⟩
  · rcases mem_or_eq_of_mem_set hx with hx | rfl
    · exact (h.requests x hx).mono (fun _ he => he) fun _ he => he
    · exact hok.mono (fun _ he => he) fun _ he => he
  · rcases getElem?_set_cases hj with ⟨rfl, rfl⟩ | ⟨-, hj'⟩
    · rcases getElem?_set_cases hk with ⟨rfl, rfl⟩ | ⟨-, hk'⟩
      · rfl
      · exact h.distinct j k r y hi hk' (hlive hx) hy (hsame ▸ hstate)
    · rcases getElem?_set_cases hk with ⟨rfl, rfl⟩ | ⟨-, hk'⟩
      · exact h.distinct j k x r hj' hi hx (hlive hy) (hstate.trans hsame)
      · exact h.distinct j k x y hj' hk' hx hy hstate
  · obtain ⟨y, hy, hphase, hstate⟩ := h.succeeded x hx
    exact exists_mem_set (p := fun y : LoginRequest => y.phase = .succeeded ∧ y.state = x.state) hi
      (fun hr => absurd hr.1 hsucceeded) ⟨y, hy, hphase, hstate⟩
  · exact (h.sound x hx).mono (fun _ he => he) fun _ he => he

theorem LoginSound.ended {i : Nat} {r : LoginRequest} (hi : s.requests[i]? = some r)
    (hsucceeded : r.phase ≠ .succeeded) : LoginSound p provider (s.setPhase i r .ended) :=
  h.setPhase hi rfl (fun hlive => hlive.elim) hsucceeded trivial

theorem LoginSound.request {session : Nat} {code state newState newVerifier : String}
    (hg : LoginGuard p provider s (.request session code state newState newVerifier)) :
    LoginSound p provider (s.request session code state newState newVerifier) := by
  have hnew : ∀ phase, LoginOk p provider s { session, state, phase } phase →
      (({ session, state, phase } : LoginRequest).live → ∀ r ∈ s.requests, r.live → r.state ≠ state) →
        LoginSound p provider { s with requests := s.requests ++ [{ session, state, phase }] } :=
    fun phase hok hfresh => by
      refine ⟨h.sessions, fun x hx => ?_, fun j k x y hj hk hx hy hstate => ?_, fun x hx => ?_, h.cache,
        fun x hx => (h.sound x hx).mono (fun _ he => he) fun _ he => he, h.once⟩
      · rcases mem_append.1 hx with hx | hx
        · exact (h.requests x hx).mono (fun _ he => he) fun _ he => he
        · rw [mem_singleton.1 hx]
          exact hok.mono (fun _ he => he) fun _ he => he
      · rcases getElem?_concat_cases hj with hj | ⟨rfl, rfl⟩
        · rcases getElem?_concat_cases hk with hk | ⟨rfl, rfl⟩
          · exact h.distinct j k x y hj hk hx hy hstate
          · exact absurd hstate (hfresh hy x (mem_of_getElem? hj) hx)
        · rcases getElem?_concat_cases hk with hk | ⟨rfl, rfl⟩
          · exact absurd hstate.symm (hfresh hx y (mem_of_getElem? hk) hy)
          · rfl
      · obtain ⟨y, hy, hrest⟩ := h.succeeded x hx
        exact ⟨y, mem_append_left _ hy, hrest⟩
  refine hnew _ ?_ ?_
  · split
    · trivial
    · rename_i hcode
      split
      · rename_i hequal
        have hstate := constantTimeEqual_iff.1 hequal
        obtain ⟨stored, hstored⟩ := Option.isSome_iff_exists.1 (hg hcode hstate).1
        rw [hstate, OAuthManager.sessionState, hstored]
        exact h.sessions session stored hstored
      · trivial
  · split
    · exact fun hlive => hlive.elim
    · rename_i hcode
      split
      · rename_i hequal
        exact fun _ => (hg hcode (constantTimeEqual_iff.1 hequal)).2
      · exact fun hlive => hlive.elim

/-- An initiation stores its state in its session. -/
theorem LoginSound.store (i : Nat) : LoginSound p provider (s.store i) := by
  unfold OAuthManager.store
  cases hi : s.requests[i]? with
  | none => exact h
  | some r =>
    dsimp only
    cases hphase : r.phase with
    | initiating state codeVerifier =>
      have hended := h.ended hi (by rw [hphase]; rintro ⟨⟩)
      have hgrows : ∀ e ∈ s.initiations, e ∈ s.initiations ++ [(r.session, state)] := fun e he =>
        mem_append_left _ he
      refine ⟨fun session stored hstored => ?_, fun x hx => (hended.requests x hx).mono hgrows fun _ he => he,
        hended.distinct, hended.succeeded, h.cache, fun x hx => (h.sound x hx).mono hgrows fun _ he => he, h.once⟩
      rw [OrderedMap.get_set] at hstored
      split at hstored
      · rename_i hsession
        cases hstored
        rw [hsession]
        exact mem_append_right _ mem_cons_self
      · exact hgrows _ (h.sessions session stored hstored)
    | _ => exact h

theorem LoginSound.verifyClaims {i : Nat} {r : LoginRequest} {body idToken : Json} {now : Int}
    (hi : s.requests[i]? = some r) (hphase : r.phase = .exchanging) (hid : body.field "id_token" = some idToken)
    (hg : ∀ token, decodeToken p idToken = some token → GenuineClaims provider token.payload) :
    LoginSound p provider (s.verifyClaims p provider i { r with response := some body } idToken now) := by
  have hsucceeded : r.phase ≠ .succeeded := by rw [hphase]; rintro ⟨⟩
  have hinitiated : (r.session, r.state) ∈ s.initiations := by
    have hok := h.requests r (mem_of_getElem? hi)
    rwa [hphase] at hok
  have hlive : r.live := by
    unfold LoginRequest.live
    rw [hphase]
    trivial
  have hended : LoginSound p provider (s.setPhase i { r with response := some body } .ended) :=
    h.setPhase hi rfl (fun hl => hl.elim) hsucceeded trivial
  unfold OAuthManager.verifyClaims
  cases hdecode : decodeToken p idToken with
  | none => exact hended
  | some token =>
    dsimp only
    have hok : claimsAccepted provider token.payload (now / 1000) = true → TokenOk p provider body token (now / 1000) :=
      fun haccepted => by
        obtain ⟨hexp, haud⟩ := claims_ok haccepted (hg token hdecode)
        exact ⟨⟨idToken, hid, hdecode⟩, hexp, (hg token hdecode).issuer, haud⟩
    split
    · exact hended
    · split
      · rename_i haccepted
        have htoken := hok haccepted
        cases hcache : s.cache with
        | some entry =>
          have hkeys := h.cache entry hcache
          dsimp only
          split
          · exact h.setPhase hi rfl (fun _ => hlive) hsucceeded ⟨hinitiated, ⟨body, rfl, htoken⟩, hkeys⟩
          · refine h.setPhase hi rfl (fun _ => hlive) hsucceeded ⟨hinitiated, ⟨body, rfl, htoken⟩, fun keys hk => ?_⟩
            cases hk
            exact hkeys
        | none =>
          refine h.setPhase hi rfl (fun _ => hlive) hsucceeded ⟨hinitiated, ⟨body, rfl, htoken⟩, fun keys hk => ?_⟩
          cases hk
      · exact hended

theorem LoginSound.tokens {i : Nat} {response : Option Json} {now : Int} (hg : LoginGuard p provider s (.tokens i response now)) :
    LoginSound p provider (s.tokens p provider i response now) := by
  unfold OAuthManager.tokens
  cases hi : s.requests[i]? with
  | none => exact h
  | some r =>
    dsimp only
    cases hphase : r.phase with
    | exchanging =>
      have hended := h.ended hi (by rw [hphase]; rintro ⟨⟩)
      dsimp only
      split
      · exact hended
      · exact hended
      · rename_i body _
        obtain ⟨idToken, hid, hgenuine⟩ := hg body rfl
        simp only [hid]
        exact h.verifyClaims hi hphase (Option.filter_eq_some_iff.1 hid).1 hgenuine
    | _ => exact h

theorem LoginSound.user (i : Nat) (profile : OAuthProfile) : LoginSound p provider (s.user i profile) := by
  unfold OAuthManager.user
  cases hi : s.requests[i]? with
  | none => exact h
  | some r =>
    dsimp only
    cases hphase : r.phase with
    | userInfo =>
      have hok := h.requests r (mem_of_getElem? hi)
      rw [hphase] at hok
      exact hok.elim
    | _ => exact h

end

theorem LoginSound.keys (h : LoginSound p provider s) (i : Nat) (response : Option Json) : LoginSound p provider (s.keys i response) := by
  unfold OAuthManager.keys
  cases hi : s.requests[i]? with
  | none => exact h
  | some r =>
    dsimp only
    cases hphase : r.phase with
    | fetchingKeys token checkedAt stale startedAt =>
      have hsucceeded : r.phase ≠ .succeeded := by rw [hphase]; rintro ⟨⟩
      have hok := h.requests r (mem_of_getElem? hi)
      rw [hphase] at hok
      obtain ⟨hinitiated, htoken, hstale⟩ := hok
      have hlive : r.live := by
        unfold LoginRequest.live
        rw [hphase]
        trivial
      have hverifying : ∀ keys, keys ∈ s.jwks → LoginSound p provider (s.setPhase i r (.verifying token checkedAt keys)) :=
        fun keys hk => h.setPhase hi rfl (fun _ => hlive) hsucceeded ⟨hinitiated, htoken, hk⟩
      dsimp only
      split
      · exact h.ended hi hsucceeded
      · exact h.ended hi hsucceeded
      · exact hverifying _ (hstale _ rfl)
      · exact hverifying _ (hstale _ rfl)
      · rename_i body _ _
        -- the keys of the response are noted before the request goes on with them
        have hgrows : ∀ keys ∈ s.jwks, keys ∈ s.jwks ++ [OAuthManager.keysOf body] := fun keys hk =>
          mem_append_left _ hk
        have hgrown : LoginSound p provider { s with
            cache := some ⟨OAuthManager.keysOf body, startedAt + jwksTtlMs⟩
            jwks := s.jwks ++ [OAuthManager.keysOf body] } := by
          refine ⟨h.sessions, fun x hx => (h.requests x hx).mono (fun _ he => he) hgrows, h.distinct, h.succeeded,
            fun entry he => ?_, fun x hx => (h.sound x hx).mono (fun _ he => he) hgrows, h.once⟩
          cases he
          exact mem_append_right _ mem_cons_self
        exact hgrown.setPhase (q := { r with phase := .verifying token checkedAt (OAuthManager.keysOf body) }) hi rfl
          (fun _ => hlive) hsucceeded ⟨hinitiated, htoken, mem_append_right _ mem_cons_self⟩
    | _ => exact h

theorem LoginSound.verify (h : LoginSound p provider s) {i : Nat} (hg : LoginGuard p provider s (.verify i)) :
    LoginSound p provider (s.verify p i) := by
  unfold OAuthManager.verify
  cases hi : s.requests[i]? with
  | none => exact h
  | some r =>
    dsimp only
    cases hphase : r.phase with
    | verifying token checkedAt keys =>
      have hsucceeded : r.phase ≠ .succeeded := by rw [hphase]; rintro ⟨⟩
      have hok := h.requests r (mem_of_getElem? hi)
      rw [hphase] at hok
      obtain ⟨hinitiated, ⟨body, hbody, htoken⟩, hkeys⟩ := hok
      have hlive : r.live := by
        unfold LoginRequest.live
        rw [hphase]
        trivial
      dsimp only
      cases hkey : findKey token.header keys with
      | none => exact h.ended hi hsucceeded
      | some key =>
        dsimp only
        split
        · rename_i haccepted
          obtain ⟨alg, halg, hsigned⟩ := signedUnder_of_accepted haccepted (hg r token checkedAt keys key hi hphase hkey)
          obtain ⟨items, rfl, hmem⟩ := findKey_mem hkey
          have hnext : LoginSound p provider (s.setPhase i r .succeeded) :=
            h.setPhase hi rfl (fun _ => hlive) hsucceeded trivial
          -- no other login has succeeded with this state
          have hfresh : r.state ∉ s.successes.map Success.state := fun hused => by
            obtain ⟨x, hx, hstate⟩ := mem_map.1 hused
            obtain ⟨r', hr', hphase', hstate'⟩ := h.succeeded x hx
            obtain ⟨k, hk⟩ := mem_iff_getElem?.1 hr'
            have hlive' : r'.live := by
              unfold LoginRequest.live
              rw [hphase']
              trivial
            obtain rfl := h.distinct i k r r' hi hk hlive hlive' (hstate.symm.trans hstate'.symm)
            rw [hi] at hk
            cases hk
            exact hsucceeded hphase'
          refine ⟨hnext.sessions, fun x hx => (hnext.requests x hx).mono (fun _ he => he) fun _ he => he, hnext.distinct,
            fun x hx => ?_, h.cache, fun x hx => ?_, ?_⟩
          · rcases mem_append.1 hx with hx | hx
            · exact hnext.succeeded x hx
            · rw [mem_singleton.1 hx]
              have hlt := (lt_length hi)
              exact ⟨_, mem_iff_getElem?.2 ⟨i, getElem?_set_self hlt⟩, rfl, rfl⟩
          · rcases mem_append.1 hx with hx | hx
            · exact (h.sound x hx).mono (fun _ he => he) fun _ he => he
            · rw [mem_singleton.1 hx]
              refine ⟨hinitiated, token, ?_, rfl, items, key, alg, hkeys, hmem, halg, hsigned⟩
              rw [hbody]
              exact htoken
          · show ((s.successes ++ [_]).map Success.state).Nodup
            rw [map_append, nodup_append]
            refine ⟨h.once, nodup_singleton _, fun a ha b hb heq => hfresh ?_⟩
            have hstate : b = r.state := mem_singleton.1 hb
            rw [← hstate, ← heq]
            exact ha
        · exact h.ended hi hsucceeded
    | _ => exact h

theorem LoginSound.step (s : OAuthManager) (ev : OAuthEvent) (h : LoginSound p provider s)
    (hg : LoginGuard p provider s ev) : LoginSound p provider (s.step p provider ev) := by
  cases ev with
  | request session code state newState newVerifier => exact h.request hg
  | store i => exact h.store i
  | tokens i response now => exact h.tokens hg
  | user i profile => exact h.user i profile
  | keys i response => exact h.keys i response
  | verify i => exact h.verify hg

/-- Along every run whose steps meet the guard, only logins of the provider succeed. -/
theorem login_sound (p : OAuthPrimitives) (provider : OAuthProvider) (events : List OAuthEvent)
    (hg : Guarded (OAuthManager.step p provider) (LoginGuard p provider) {} events) (n : Nat) :
    LoginSafe p provider (run (OAuthManager.step p provider) {} (events.take n)) :=
  (take_invariant_of_guarded _ LoginSound.step hg (loginSound_empty p provider) n).safe

/-- Segments of one letter, and one signature. -/
def letterTokens : OAuthPrimitives where
  parseSegment
    | "h" => some (.obj [("alg", .str "RS256"), ("kid", .str "k1")])
    | "p" => some (.obj [("exp", .num 100), ("iss", .str "https://accounts.google.com"), ("aud", .str "app"), ("sub", .str "u1")])
    | "q" => some (.obj [("aud", .arr []), ("sub", .str "u2")])
    | _ => none
  verify hash _ input signature := some (decide (hash = .sha256 ∧ input = "h.p" ∧ signature = "s"))
  string
    | .str text => text
    | _ => ""

def googleApp : OAuthProvider := ⟨"app", "https://accounts.google.com"⟩

def rsaKeys : Json :=
  .obj [("keys", .arr [.obj [("kty", .str "RSA"), ("kid", .str "k1"), ("n", .str "n"), ("e", .str "AQAB")]])]

/-- A flow is initiated, the callback comes with its state, and the token is signed. -/
theorem login_sound_google : LoginSafe letterTokens googleApp (run (OAuthManager.step letterTokens googleApp) {}
    ([.request 0 "" "" "st" "cv", .store 0, .request 0 "c" "st" "" "",
      .tokens 1 (some (.obj [("id_token", .str "h.p.s")])) 50000, .keys 1 (some rsaKeys), .verify 1].take 6)) := by
  refine login_sound letterTokens googleApp _ ?_ 6
  refine ⟨fun hcode => absurd rfl hcode, trivial, fun _ _ => ⟨rfl, fun r hr hlive => ?_⟩, fun body hbody => ?_, trivial,
    fun r token checkedAt keys key hr hphase hkey => ?_, trivial⟩
  · -- the initiation has ended
    rw [mem_singleton.1 hr] at hlive
    exact hlive.elim
  · cases hbody
    refine ⟨.str "h.p.s", rfl, fun token htoken => ?_⟩
    cases htoken
    refine ⟨⟨100, rfl⟩, ⟨_, rfl, Or.inl rfl⟩, fun audiences haud => ?_⟩
    cases haud
  · cases hr
    cases hphase
    cases hkey
    exact .rsa rfl rfl rfl rfl (by decide)

/-- A callback without a state succeeds in a session where no flow was initiated; and a token without a signature, an
expiry, an issuer or an audience is taken under a key of another type. -/
theorem login_counterexample : ¬ LoginSafe letterTokens googleApp (run (OAuthManager.step letterTokens googleApp) {}
      [.request 0 "c" "" "" "", .tokens 0 (some (.obj [("id_token", .str "h.p.s")])) 50000, .keys 0 (some rsaKeys), .verify 0]) ∧
    ¬ LoginSafe letterTokens googleApp (run (OAuthManager.step letterTokens googleApp) {}
      [.request 0 "" "" "st" "cv", .store 0, .request 0 "c" "st" "" "", .tokens 1 (some (.obj [("id_token", .str "h.q.forged")])) 50000,
        .keys 1 (some (.obj [("keys", .arr [.obj [("kty", .str "OKP"), ("kid", .str "k1")]])])), .verify 1]) := by
  constructor
  · intro h
    have hstored := (h.sound _ mem_cons_self).stored
    cases hstored
  · intro h
    obtain ⟨token, htoken, -⟩ := (h.sound _ mem_cons_self).token
    obtain ⟨idToken, hid, hdecode⟩ := htoken.own
    cases hid
    cases hdecode
    obtain ⟨exp, hexp, -⟩ := htoken.expiry
    cases hexp

end StreetJS.Auth
