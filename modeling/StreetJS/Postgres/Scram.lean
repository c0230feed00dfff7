/-
Server authentication in the SCRAM handshake, over every sequence of backend messages and socket
events. The transcript is the client's exchange with the server as the protocol sees it: it is proved
by an AuthenticationSASLFinal whose signature is the one of the exchange's server-first-message. The
connection takes a ReadyForQuery also while an exchange is open, and checks a SASLFinal that comes
before any server-first-message against an empty password and message.
-/
import StreetJS.Postgres.Connection
import Mathlib.Data.List.Induction

namespace StreetJS.Postgres

open StreetJS.Lib PgConnection

/-! ## Transcripts -/

/-- A SASL exchange as both sides see it. -/
structure Exchange where
  clientFirstMessageBare : Text
  clientNonce : Text
  serverFirst : Option Text := none
  proved : Bool := false
  deriving DecidableEq

section

variable (crypto : Crypto) (opts : PgConnectOptions)

/-- The SaltedPassword that a server-first-message asks for. -/
def saltedPassword (first : ServerFirst) : Bytes :=
  crypto.pbkdf2 (crypto.nfkc opts.password) first.salt first.iterations

/-- HMAC(ServerKey, AuthMessage) of an exchange, once the server has sent its first message. -/
def Exchange.signature (x : Exchange) : Option Bytes :=
  match x.serverFirst with
  | none => none
  | some message => match readServerFirst x.clientNonce message with
    | .error _ => none
    | .ok first =>
      some (serverSignature crypto (saltedPassword crypto opts first) (authMessage x.clientFirstMessageBare message first.nonce))

/-- The exchange after a server-final-message: proved by the signature it should bear. -/
def Exchange.final (x : Exchange) (data : Bytes) : Exchange :=
  match readVerifier (toText data) with
  | some sig => if x.signature crypto opts = some sig then { x with proved := true } else x
  | none => x

/-- What an authentication message does to the exchange. -/
def Exchange.next (x : Option Exchange) (authType : Nat) (data : Bytes) (cNonce : Text) : Option Exchange :=
  if authType = AuthType.SASL then
    if "SCRAM-SHA-256".toList ∈ parseSASLMechanisms data then
      some { clientFirstMessageBare := "n=".toList ++ opts.user ++ ",r=".toList ++ cNonce, clientNonce := cNonce }
    else x
  else if authType = AuthType.SASLContinue then x.map fun x => { x with serverFirst := some (toText data) }
  else if authType = AuthType.SASLFinal then x.map fun x => x.final crypto opts data
  else x

/-- What an event adds to the exchange. -/
def Exchange.observe (x : Option Exchange) : Event → Option Exchange
  | .message m cNonce =>
    if m.type = BackendMsg.AuthRequest then
      match readUInt32BE m.body 0 with
      | some authType => Exchange.next crypto opts x authType (m.body.drop 4) cNonce
      | none => x
    else x
  | _ => x

/-- The exchange that the client started last, after the events `es`. -/
def transcript (es : List Event) : Option Exchange := run (Exchange.observe crypto opts) none es

/-- A connection after the events `es` on its open socket. -/
def handshake (es : List Event) : PgConnection := run (step crypto opts) (opened opts) es

/-! ## What the connection remembers of an exchange -/

/-- The state kept for an open exchange: nothing of the password before a server-first-message, the
salted password and the message to sign after it. -/
structure Follows (scram : ScramState) (x : Exchange) : Prop where
  bare : scram.clientFirstMessageBare = x.clientFirstMessageBare
  nonce : scram.clientNonce = x.clientNonce
  unproved : x.proved = false
  unseeded : x.serverFirst = none → scram.saltedPassword = [] ∧ scram.authMessage = []
  seeded : ∀ message, x.serverFirst = some message → ∃ first,
    readServerFirst x.clientNonce message = .ok first ∧ scram.saltedPassword = saltedPassword crypto opts first ∧
      scram.authMessage = authMessage x.clientFirstMessageBare message first.nonce

/-- A connection that has neither accepted nor refused its server, against the transcript: an exchange
is open as long as the state for it is kept, and one that was closed is proved exactly when the server
had sent its first message. -/
structure Tracks (conn : PgConnection) (x : Option Exchange) : Prop where
  armed : conn.authReject = true
  openExchange : ∀ scram, conn.scramState = some scram → ∃ y, x = some y ∧ Follows crypto opts scram y
  closed : conn.scramState = none → ∀ y, x = some y → (y.proved = true ↔ y.serverFirst ≠ none)

/-- While `connect` is pending, the connection tracks the transcript. -/
def Pending (conn : PgConnection) (x : Option Exchange) : Prop :=
  conn.connect = .pending → Tracks crypto opts conn x

end

/-! ## Steps that leave the handshake alone -/

/-- What the handshake depends on. -/
def PgConnection.auth (conn : PgConnection) : ConnectPromise × Option ScramState × Bool :=
  (conn.connect, conn.scramState, conn.authReject)

section

variable (conn : PgConnection)
include conn

@[simp] theorem auth_write (m : FrontendMessage) : (conn.write m).auth = conn.auth := rfl

@[simp] theorem auth_settle (i : Nat) (o : Outcome) : (conn.settle i o).auth = conn.auth := by
  unfold settle; split <;> rfl

@[simp] theorem auth_rejectQuery (e : String) : (conn.rejectQuery e).auth = conn.auth := by
  unfold rejectQuery
  split
  · exact auth_settle conn _ _
  · rfl

@[simp] theorem auth_destroyStream (e : String) : (conn.destroyStream e).auth = conn.auth := by
  unfold destroyStream
  split
  · exact auth_settle conn _ _
  · rfl

@[simp] theorem auth_acquire (i : Nat) : (conn.acquire i).auth = conn.auth := by
  unfold acquire; split <;> rfl

@[simp] theorem auth_release : conn.release.auth = conn.auth := by
  unfold release; split <;> rfl

@[simp] theorem auth_drainGate : conn.drainGate.auth = conn.auth := rfl

@[simp] theorem auth_completeCommand : conn.completeCommand.auth = conn.auth := by
  unfold completeCommand
  split
  · exact auth_settle _ _ _
  · exact auth_settle _ _ _
  · rfl

@[simp] theorem auth_handleRow (body : Bytes) : (conn.handleRow body).auth = conn.auth := by
  unfold handleRow; split <;> rfl

@[simp] theorem auth_releaseHeld : conn.releaseHeld.auth = conn.auth := by
  unfold releaseHeld
  split
  · exact auth_release _
  · rfl

@[simp] theorem auth_leaveQuery : conn.leaveQuery.auth = conn.auth := by
  unfold leaveQuery; split <;> rfl

@[simp] theorem auth_failCommand (e : String) : (conn.failCommand e).auth = conn.auth := by
  unfold failCommand
  split
  · exact auth_destroyStream conn e
  · exact auth_rejectQuery conn e

@[simp] theorem auth_runQuery (i : Nat) (sql : Text) (params : List Param) : (conn.runQuery i sql params).auth = conn.auth := by
  unfold runQuery
  split
  · rw [auth_settle, auth_release]
  · split
    · rfl
    · unfold queryParams
      split
      · rfl
      · exact auth_settle _ _ _

@[simp] theorem auth_runStream (i : Nat) (sql : Text) : (conn.runStream i sql).auth = conn.auth := by
  unfold runStream
  split
  · rw [auth_release, auth_settle]
  · rfl

@[simp] theorem auth_turn : conn.turn.auth = conn.auth := by
  unfold turn
  split
  · rfl
  · split
    · rename_i c hc
      cases c with
      | query sql params => exact auth_runQuery _ _ _ _
      | queryStream sql => exact auth_runStream _ _ _
    · rfl

end

theorem settle_pending {p q : ConnectPromise} (hq : q ≠ .pending) : p.settle q ≠ .pending := by
  cases p with
  | pending => exact hq
  | resolved => nofun
  | rejected e => nofun

section

variable {crypto : Crypto} {opts : PgConnectOptions} {conn conn' : PgConnection} {x : Option Exchange}

theorem Pending.of_auth (h : Pending crypto opts conn x) (ha : conn'.auth = conn.auth) : Pending crypto opts conn' x := by
  simp only [PgConnection.auth, Prod.mk.injEq] at ha
  obtain ⟨hc, hs, hr⟩ := ha
  intro hp
  obtain ⟨harmed, hopen, hclosed⟩ := h (hc ▸ hp)
  exact ⟨hr ▸ harmed, hs ▸ hopen, hs ▸ hclosed⟩

theorem Pending.of_settled (h : conn.connect ≠ .pending) : Pending crypto opts conn x := fun hp => absurd hp h

/-- Refusing the server settles `connect`. -/
theorem Pending.rejectAuth (h : Pending crypto opts conn x) (y : Option Exchange) (e : String) :
    Pending crypto opts (conn.rejectAuth e) y := by
  unfold PgConnection.rejectAuth
  split
  · exact .of_settled (settle_pending nofun)
  · rename_i hr
    exact .of_settled fun hp => hr (h hp).armed

/-! ## Steps of the handshake -/

section

variable (h : Pending crypto opts conn x)
include h

theorem pending_handleSASL (data : Bytes) (cNonce : Text) : Pending crypto opts (conn.handleSASL opts data cNonce)
      (Exchange.next crypto opts x AuthType.SASL data cNonce) := by
  unfold handleSASL Exchange.next
  split
  · intro hp
    refine ⟨(h hp).armed, ?_, nofun⟩
    intro scram hs
    cases hs
    exact ⟨_, rfl, rfl, rfl, rfl, fun _ => ⟨rfl, rfl⟩, nofun⟩
  · exact h.rejectAuth _ _

theorem pending_handleSASLContinue (data : Bytes) (cNonce : Text) : Pending crypto opts (conn.handleSASLContinue crypto opts data)
      (Exchange.next crypto opts x AuthType.SASLContinue data cNonce) := by
  unfold handleSASLContinue
  split
  · exact h.rejectAuth _ _
  · rename_i scram hs
    -- refused once the state holds the server's message, which the refusal makes irrelevant
    have hrefuse : ∀ e y, Pending crypto opts
        ({ conn with scramState := some { scram with serverFirstMessage := toText data } }.rejectAuth e) y := by
      intro e y
      unfold PgConnection.rejectAuth
      split
      · exact .of_settled (settle_pending nofun)
      · rename_i hr
        exact .of_settled fun hp => hr (h hp).armed
    simp only
    split
    · exact hrefuse _ _
    · rename_i first hfirst
      split
      · intro hp
        obtain ⟨harmed, hopen, -⟩ := h hp
        obtain ⟨y, rfl, hf⟩ := hopen scram hs
        refine ⟨harmed, ?_, nofun⟩
        intro scram' hs'
        cases hs'
        refine ⟨_, rfl, hf.bare, hf.nonce, hf.unproved, nofun, ?_⟩
        intro message hm
        cases hm
        rw [hf.nonce] at hfirst
        exact ⟨first, hfirst, rfl, by rw [← hf.bare]⟩
      · exact hrefuse _ _

theorem pending_handleSASLFinal (data : Bytes) (cNonce : Text) : Pending crypto opts (conn.handleSASLFinal crypto data)
      (Exchange.next crypto opts x AuthType.SASLFinal data cNonce) := by
  unfold handleSASLFinal
  split
  · exact h.rejectAuth _ _
  · rename_i scram hs
    simp only
    split
    · exact h.rejectAuth _ _
    · rename_i sig hsig
      split
      · rename_i heq
        intro hp
        obtain ⟨harmed, hopen, -⟩ := h hp
        obtain ⟨y, rfl, hf⟩ := hopen scram hs
        refine ⟨harmed, by simp, fun _ z hz => ?_⟩
        cases hz
        simp only [Exchange.final, hsig]
        cases hm : y.serverFirst with
        | none => simp [Exchange.signature, hm, hf.unproved]
        | some message =>
          obtain ⟨first, hfirst, hsalted, hauth⟩ := hf.seeded message hm
          simp [Exchange.signature, hm, hfirst, heq, hsalted, hauth]
      · exact h.rejectAuth _ _

theorem pending_handleAuth (body : Bytes) (cNonce : Text) : Pending crypto opts (conn.handleAuth crypto opts body cNonce)
      (match readUInt32BE body 0 with
        | some authType => Exchange.next crypto opts x authType (body.drop 4) cNonce
        | none => x) := by
  unfold handleAuth
  cases readUInt32BE body 0 with
  | none => exact h
  | some authType =>
    simp only
    split
    · subst authType; exact h
    · split
      · subst authType; exact h.of_auth (auth_write _ _)
      · split
        · exact h.rejectAuth _ _
        · split
          · subst authType; exact pending_handleSASL h _ _
          · split
            · subst authType; exact pending_handleSASLContinue h _ _
            · split
              · subst authType; exact pending_handleSASLFinal h _ _
              · exact h.rejectAuth _ _

theorem pending_handleReady : Pending crypto opts conn.handleReady x := by
  unfold handleReady
  split
  · split
    · exact .of_settled (settle_pending nofun)
    · exact h.of_auth rfl
  · apply h.of_auth
    rw [auth_releaseHeld]
    split
    · exact auth_completeCommand _
    · rfl

theorem pending_handleError (body : Bytes) : Pending crypto opts (conn.handleError body) x := by
  have h' : Pending crypto opts conn.leaveQuery x := h.of_auth (auth_leaveQuery conn)
  unfold handleError
  split
  · exact h'.rejectAuth _ _
  · exact h'.of_auth (auth_failCommand _ _)

theorem pending_handleMessage (m : BackendMessage) (cNonce : Text) :
    Pending crypto opts (conn.handleMessage crypto opts m cNonce) (Exchange.observe crypto opts x (.message m cNonce)) := by
  simp only [handleMessage, Exchange.observe]
  split
  · exact pending_handleAuth h _ _
  · split
    · exact pending_handleReady h
    · split
      · exact h.of_auth rfl
      · split
        · exact h.of_auth (auth_handleRow _ _)
        · split
          · exact h.of_auth rfl
          · split
            · exact h.of_auth rfl
            · split
              · exact pending_handleError h _
              · exact h

theorem pending_socketError (error : String) : Pending crypto opts (conn.socketError error) x := by
  have h' : Pending crypto opts ({ conn with state := .closed }.rejectAuth error) x :=
    (show Pending crypto opts { conn with state := .closed } x from h.of_auth rfl).rejectAuth x error
  apply h'.of_auth
  rw [socketError, auth_drainGate, auth_destroyStream, auth_rejectQuery]

end

theorem auth_socketClose (conn : PgConnection) : conn.socketClose.auth = conn.auth := by
  simp only [socketClose, auth_drainGate, auth_destroyStream, auth_rejectQuery]
  rfl

theorem auth_close (conn : PgConnection) : conn.close.auth = conn.auth := by
  unfold PgConnection.close; split <;> rfl

theorem pending_step (h : Pending crypto opts conn x) (e : Event) :
    Pending crypto opts (step crypto opts conn e) (Exchange.observe crypto opts x e) := by
  cases e with
  | message m cNonce => exact pending_handleMessage h m cNonce
  | call c => exact h.of_auth (auth_acquire _ _)
  | turn => exact h.of_auth (auth_turn _)
  | socketError error => exact pending_socketError h error
  | socketClose => exact h.of_auth (auth_socketClose _)
  | close => exact h.of_auth (auth_close _)
  | timeout => exact .of_settled (settle_pending nofun)
  | oversized =>
    simp only [step, oversized]
    split
    · exact h.rejectAuth _ _
    · exact h

theorem handshake_concat (es : List Event) (e : Event) : handshake crypto opts (es ++ [e]) = step crypto opts (handshake crypto opts es) e :=
  run_concat _ _ _ _

theorem transcript_concat (es : List Event) (e : Event) :
    transcript crypto opts (es ++ [e]) = Exchange.observe crypto opts (transcript crypto opts es) e :=
  run_concat _ _ _ _

theorem pending_handshake (es : List Event) : Pending crypto opts (handshake crypto opts es) (transcript crypto opts es) := by
  induction es using List.reverseRecOn with
  | nil => exact fun _ => ⟨rfl, nofun, nofun⟩
  | append_singleton es e ih =>
    rw [handshake_concat, transcript_concat]
    exact pending_step ih e

/-! ## What a resolved `connect` says -/

/-- A step that does not accept the server: `connect` stays, or is rejected. -/
def Refuses (conn conn' : PgConnection) : Prop :=
  conn'.connect = conn.connect ∨ ∃ error, conn'.connect = conn.connect.settle (.rejected error)

theorem Refuses.of_auth (ha : conn'.auth = conn.auth) : Refuses conn conn' := .inl (congrArg Prod.fst ha)

theorem refuses_rejectAuth (conn : PgConnection) (e : String) : Refuses conn (conn.rejectAuth e) := by
  unfold PgConnection.rejectAuth
  split
  · exact .inr ⟨e, rfl⟩
  · exact .inl rfl

theorem refuses_handleSASLContinue (crypto : Crypto) (opts : PgConnectOptions) (conn : PgConnection) (data : Bytes) :
    Refuses conn (conn.handleSASLContinue crypto opts data) := by
  unfold handleSASLContinue
  split
  · exact refuses_rejectAuth _ _
  · rename_i scram _
    have hrefuse : ∀ e, Refuses conn
        ({ conn with scramState := some { scram with serverFirstMessage := toText data } }.rejectAuth e) :=
      fun e => refuses_rejectAuth { conn with scramState := _ } e
    simp only
    split
    · exact hrefuse _
    · split
      · exact .inl rfl
      · exact hrefuse _

theorem refuses_handleSASLFinal (crypto : Crypto) (conn : PgConnection) (data : Bytes) : Refuses conn (conn.handleSASLFinal crypto data) := by
  unfold handleSASLFinal
  split
  · exact refuses_rejectAuth _ _
  · simp only
    split
    · exact refuses_rejectAuth _ _
    · split
      · exact .inl rfl
      · exact refuses_rejectAuth _ _

theorem refuses_handleAuth (crypto : Crypto) (opts : PgConnectOptions) (conn : PgConnection) (body : Bytes)
    (cNonce : Text) : Refuses conn (conn.handleAuth crypto opts body cNonce) := by
  unfold handleAuth
  cases readUInt32BE body 0 with
  | none => exact .inl rfl
  | some authType =>
    simp only
    split
    · exact .inl rfl
    · split
      · exact .inl rfl
      · split
        · exact refuses_rejectAuth _ _
        · split
          · unfold handleSASL
            split
            · exact .inl rfl
            · exact refuses_rejectAuth _ _
          · split
            · exact refuses_handleSASLContinue _ _ _ _
            · split
              · exact refuses_handleSASLFinal _ _ _
              · exact refuses_rejectAuth _ _

theorem refuses_handleError (conn : PgConnection) (body : Bytes) : Refuses conn (conn.handleError body) := by
  have hl : conn.leaveQuery.connect = conn.connect := congrArg Prod.fst (auth_leaveQuery conn)
  unfold handleError
  split
  · unfold Refuses
    rw [← hl]
    exact refuses_rejectAuth _ _
  · exact .of_auth (by rw [auth_failCommand, auth_leaveQuery])

theorem refuses_step (crypto : Crypto) (opts : PgConnectOptions) (conn : PgConnection) (e : Event) :
    Refuses conn (step crypto opts conn e) ∨ ∃ m cNonce, e = .message m cNonce ∧ m.type = BackendMsg.ReadyForQuery := by
  cases e with
  | message m cNonce =>
    by_cases hz : m.type = BackendMsg.ReadyForQuery
    · exact .inr ⟨m, cNonce, rfl, hz⟩
    · left
      simp only [step, handleMessage, if_neg hz]
      split
      · exact refuses_handleAuth _ _ _ _ _
      · split
        · exact .inl rfl
        · split
          · exact .of_auth (auth_handleRow _ _)
          · split
            · exact .inl rfl
            · split
              · exact .inl rfl
              · split
                · exact refuses_handleError _ _
                · exact .inl rfl
  | call c => exact .inl (.of_auth (auth_acquire _ _))
  | turn => exact .inl (.of_auth (auth_turn _))
  | socketError error =>
    left
    have hr := refuses_rejectAuth { conn with state := .closed } error
    have ha : (conn.socketError error).auth = ({ conn with state := .closed }.rejectAuth error).auth := by
      rw [socketError, auth_drainGate, auth_destroyStream, auth_rejectQuery]
    have hc : (conn.socketError error).connect = _ := congrArg Prod.fst ha
    unfold Refuses
    rw [step, hc]
    exact hr
  | socketClose => exact .inl (.of_auth (auth_socketClose _))
  | close => exact .inl (.of_auth (auth_close _))
  | timeout => exact .inl (.inr ⟨_, rfl⟩)
  | oversized =>
    left
    simp only [step, oversized]
    split
    · exact refuses_rejectAuth _ _
    · exact .inl rfl

theorem resolves_by_ready {e : Event} (hp : conn.connect = .pending) (hr : (step crypto opts conn e).connect = .resolved) :
    ∃ m cNonce, e = .message m cNonce ∧ m.type = BackendMsg.ReadyForQuery := by
  rcases refuses_step crypto opts conn e with (h | ⟨error, h⟩) | h
  · rw [h, hp] at hr; cases hr
  · rw [h, hp] at hr; cases hr
  · exact h

/-- The claim on one run: the server has proved itself in the exchange the client started last when
`connect` resolves. -/
def ServerVerified (crypto : Crypto) (opts : PgConnectOptions) (es : List Event) (e : Event) : Prop :=
  ∀ x, transcript crypto opts es = some x → (handshake crypto opts es).connect = .pending →
    (handshake crypto opts (es ++ [e])).connect = .resolved → x.proved = true

end

/-! ## Two servers -/

/-- Primitives with which the two servers below are run. -/
def sampleCrypto : Crypto :=
  { hmac := fun _ _ => [1, 2, 3], sha256 := id, pbkdf2 := fun _ _ _ => [7], nfkc := id }

def sampleOptions : PgConnectOptions := { user := ['u'], password := ['p'], database := ['d'] }

def authentication (authType : UInt8) (data : Text) : Event :=
  .message ⟨BackendMsg.AuthRequest, [0, 0, 0, authType] ++ data.map fun c => UInt8.ofNat c.toNat⟩ "abc".toList

def readyForQuery : Event := .message ⟨BackendMsg.ReadyForQuery, [73]⟩ []

/-- AuthenticationSASL, offering SCRAM-SHA-256. -/
def offer : Event := authentication 10 "SCRAM-SHA-256\x00\x00".toList

/-- A server that goes through the whole exchange. -/
def honestServer : List Event :=
  [offer, authentication 11 "r=abcdef,s=AQID,i=4096".toList, authentication 12 "v=AQID".toList]

end StreetJS.Postgres
