/-
A PostgreSQL connection: the handshake, the handling of each backend message, and the gate that
keeps a command back until the ReadyForQuery of the one before it.
-/
import StreetJS.Postgres.Message
import StreetJS.Lib.Runs
import Mathlib.Data.List.SplitOn

namespace StreetJS.Postgres

open StreetJS.Lib

/-! ## SCRAM messages -/

/-- The primitives of the handshake: keyed and plain hashes, PBKDF2 and Unicode normalisation. -/
structure Crypto where
  hmac : Bytes → Text → Bytes
  sha256 : Bytes → Bytes
  pbkdf2 : Text → Bytes → Int → Bytes
  nfkc : Text → Text

/-- The names in a mechanism list, from `offset` on; `fuel` bounds how many. -/
def mechanismsFrom (data : Bytes) : Nat → Nat → List Text
  | 0, _ => []
  | fuel + 1, offset =>
    if data.length ≤ offset then []
    else match indexOfZero data offset with
      | none => [toText (data.drop offset)]
      | some stop =>
        if stop = offset then []
        else toText (subarray data offset stop) :: mechanismsFrom data fuel (stop + 1)

def parseSASLMechanisms (data : Bytes) : List Text := mechanismsFrom data data.length 0

/-- One `key=value` part of a SCRAM message, set in `params`. -/
def setParam (params : OrderedMap Text Text) (part : Text) : OrderedMap Text Text :=
  match part.span (· ≠ '=') with
  | (key, _ :: value) => if key = [] then params else params.set key value
  | (_, []) => params

def parseScramParams (message : Text) : OrderedMap Text Text := (message.splitOn ',').foldl setParam []

/-- The text of a parameter, absent also when it is empty. -/
def param (params : OrderedMap Text Text) (key : Char) : Option Text :=
  match params.get [key] with
  | some (c :: rest) => some (c :: rest)
  | _ => none

/-- Whether `validateSASLprep` rejects a code point. -/
def prohibited (cp : Nat) : Bool :=
  decide (cp ≤ 0x1F) || (0x7F ≤ cp && cp ≤ 0x9F) || (0xD800 ≤ cp && cp ≤ 0xDFFF) ||
    (0xE000 ≤ cp && cp ≤ 0xF8FF) || (0xF0000 ≤ cp && cp ≤ 0xFFFFD) || (0x100000 ≤ cp && cp ≤ 0x10FFFD) ||
    decide (0xFFFE ≤ cp % 0x10000) || (0xFDD0 ≤ cp && cp ≤ 0xFDEF)

def validateSASLprep (s : Text) : Bool := s.all fun c => !prohibited c.toNat

/-- The fields of a server-first-message. -/
structure ServerFirst where
  nonce : Text
  salt : Bytes
  iterations : Int

/-- Round 2 up to the salted password: the fields of the server's message, or why it is refused. -/
def readServerFirst (clientNonce serverFirstMessage : Text) : Except String ServerFirst :=
  let params := parseScramParams serverFirstMessage
  match param params 'r', param params 's', param params 'i' with
  | some nonce, some saltB64, some iterationsStr =>
    if ¬ clientNonce <+: nonce then
      .error "SCRAM nonce mismatch — server nonce does not start with client nonce"
    else
      let salt := Base64.decode (String.ofList saltB64)
      match parseInt iterationsStr with
      | none => .error "SCRAM server sent invalid salt length or iteration count"
      | some iterations =>
        if salt = [] ∨ iterations < 4096 ∨ iterations > 10000000 then
          .error "SCRAM server sent invalid salt length or iteration count"
        else .ok { nonce, salt, iterations }
  | _, _, _ => .error "Malformed SCRAM server-first-message"

def clientFinalMessageWithoutProof (nonce : Text) : Text := "c=biws,r=".toList ++ nonce

/-- AuthMessage: the client's first message, the server's, and the client's last without its proof. -/
def authMessage (clientFirstMessageBare serverFirstMessage nonce : Text) : Text :=
  clientFirstMessageBare ++ ',' :: serverFirstMessage ++ ',' :: clientFinalMessageWithoutProof nonce

/-- ServerSignature: HMAC(HMAC(SaltedPassword, "Server Key"), AuthMessage). -/
def serverSignature (crypto : Crypto) (saltedPassword : Bytes) (authMessage : Text) : Bytes :=
  crypto.hmac (crypto.hmac saltedPassword "Server Key".toList) authMessage

def xorBuffers (a b : Bytes) : Bytes := List.zipWith (· ^^^ ·) a b

/-- The client-final-message: without its proof, then the proof in base64. -/
def clientFinalMessage (crypto : Crypto) (saltedPassword : Bytes) (nonce authMessage : Text) : Text :=
  let clientKey := crypto.hmac saltedPassword "Client Key".toList
  let clientSignature := crypto.hmac (crypto.sha256 clientKey) authMessage
  let clientProof := xorBuffers clientKey clientSignature
  clientFinalMessageWithoutProof nonce ++ ",p=".toList ++ (Base64.encode clientProof).toList

/-- The signature in a server-final-message. -/
def readVerifier (serverFinalMessage : Text) : Option Bytes :=
  (param (parseScramParams serverFinalMessage) 'v').map fun v => Base64.decode (String.ofList v)

/-! ## The connection -/

structure PgConnectOptions where
  user : Text
  password : Text
  database : Text

structure ScramState where
  clientFirstMessageBare : Text
  clientNonce : Text
  serverFirstMessage : Text := []
  saltedPassword : Bytes := []
  authMessage : Text := []

inductive PgState where
  | connecting
  | authenticating
  | ready
  | query
  | closed
  deriving DecidableEq

def PgState.text : PgState → String
  | .connecting => "connecting"
  | .authenticating => "authenticating"
  | .ready => "ready"
  | .query => "query"
  | .closed => "closed"

/-- The promise that `connect` returns. -/
inductive ConnectPromise where
  | pending
  | resolved
  | rejected (error : String)
  deriving DecidableEq

/-- A promise settles once. -/
def ConnectPromise.settle : ConnectPromise → ConnectPromise → ConnectPromise
  | .pending, outcome => outcome
  | settled, _ => settled

/-- A call on a connection. `query` with no parameters is a simple query. -/
inductive Call where
  | query (sql : Text) (params : List Param)
  | queryStream (sql : Text)

/-- What a call comes to: a query resolves or rejects, a stream ends or is destroyed. -/
inductive Outcome where
  | resolved (result : PgResult)
  | rejected (error : String)
  | finalized
  | destroyed (error : String)
  deriving DecidableEq

/-- A connection with what its callers and the server see of it. Calls are named by their number in
`calls`; `turns` are the calls whose `_acquire` promise has resolved and that have not gone on yet. -/
structure PgConnection where
  state : PgState := .connecting
  fields : List FieldDescriptor := []
  scramState : Option ScramState := none
  queryResolve : Option Nat := none
  queryReject : Option Nat := none
  queryRows : List PgRow := []
  queryCommand : Text := []
  streamTarget : Option Nat := none
  authResolve : Bool := true
  authReject : Bool := true
  busy : Bool := false
  gateWaiters : List Nat := []
  connect : ConnectPromise := .pending
  written : List FrontendMessage := []
  calls : List Call := []
  turns : List Nat := []
  settled : List (Nat × Outcome) := []
  streamed : List (Nat × PgRow) := []

namespace PgConnection

variable (conn : PgConnection)

def write (message : FrontendMessage) : PgConnection :=
  { conn with written := conn.written ++ [message] }

/-- A call settles once; what it comes to later is dropped. -/
def settle (call : Nat) (outcome : Outcome) : PgConnection :=
  if conn.settled.any (·.1 == call) then conn else { conn with settled := conn.settled ++ [(call, outcome)] }

/-- `if (this.authReject) { this.authReject(err); this.authReject = null; }`. -/
def rejectAuth (error : String) : PgConnection :=
  if conn.authReject then { conn with connect := conn.connect.settle (.rejected error), authReject := false }
  else conn

/-- `if (this.queryReject) { this.queryReject(err); this.queryReject = null; }`. -/
def rejectQuery (error : String) : PgConnection :=
  match conn.queryReject with
  | some call => { conn.settle call (.rejected error) with queryReject := none }
  | none => conn

/-- `if (this.streamTarget) { this.streamTarget.finalize(err); this.streamTarget = null; }`. -/
def destroyStream (error : String) : PgConnection :=
  match conn.streamTarget with
  | some call => { conn.settle call (.destroyed error) with streamTarget := none }
  | none => conn

/-! ## The gate -/

/-- `_acquire`, for the call `call`. -/
def acquire (call : Nat) : PgConnection :=
  if conn.busy then { conn with gateWaiters := conn.gateWaiters ++ [call] }
  else { conn with busy := true, turns := conn.turns ++ [call] }

/-- `_release`: the lock goes to the next waiter, or is given up. -/
def release : PgConnection :=
  match conn.gateWaiters with
  | next :: waiters => { conn with gateWaiters := waiters, turns := conn.turns ++ [next] }
  | [] => { conn with busy := false }

/-- `_drainGate`: every waiter is woken. -/
def drainGate : PgConnection :=
  { conn with busy := false, gateWaiters := [], turns := conn.turns ++ conn.gateWaiters }

/-! ## Backend messages -/

/-- The case of AuthenticationSASL: an exchange begins, with the nonce `cNonce`. -/
def handleSASL (opts : PgConnectOptions) (conn : PgConnection) (data : Bytes) (cNonce : Text) : PgConnection :=
  if "SCRAM-SHA-256".toList ∈ parseSASLMechanisms data then
    let clientFirstMessageBare := "n=".toList ++ opts.user ++ ",r=".toList ++ cNonce
    { conn with scramState := some { clientFirstMessageBare, clientNonce := cNonce } }.write
      (.saslInitialResponse "SCRAM-SHA-256".toList ("n,,".toList ++ clientFirstMessageBare))
  else conn.rejectAuth "Server does not advertise SCRAM-SHA-256"

/-- The case of AuthenticationSASLContinue: the server's first message is answered with the proof. -/
def handleSASLContinue (crypto : Crypto) (opts : PgConnectOptions) (conn : PgConnection) (data : Bytes) :
    PgConnection :=
  match conn.scramState with
  | none => conn.rejectAuth "Unexpected SASL continue without prior SASL handshake"
  | some scram =>
    let serverFirstMessage := toText data
    let conn := { conn with scramState := some { scram with serverFirstMessage } }
    match readServerFirst scram.clientNonce serverFirstMessage with
    | .error e => conn.rejectAuth e
    | .ok first =>
      let normalizedPassword := crypto.nfkc opts.password
      if validateSASLprep normalizedPassword then
        let saltedPassword := crypto.pbkdf2 normalizedPassword first.salt first.iterations
        let authMessage := authMessage scram.clientFirstMessageBare serverFirstMessage first.nonce
        { conn with scramState := some { scram with serverFirstMessage, saltedPassword, authMessage } }.write
          (.saslResponse (clientFinalMessage crypto saltedPassword first.nonce authMessage))
      else conn.rejectAuth "Password contains characters prohibited by SASLprep (RFC 4013)"

/-- The case of AuthenticationSASLFinal: a signature that matches closes the exchange. -/
def handleSASLFinal (crypto : Crypto) (conn : PgConnection) (data : Bytes) : PgConnection :=
  match conn.scramState with
  | none => conn.rejectAuth "Unexpected SASL final without prior SASL handshake"
  | some scram =>
    let serverFinalMessage := toText data
    match readVerifier serverFinalMessage with
    | none =>
      conn.rejectAuth ("SCRAM authentication failed: " ++ String.ofList
        (((parseScramParams serverFinalMessage).get ['e']).getD "SCRAM authentication failed (no verifier)".toList))
    | some sigBuf =>
      if sigBuf = serverSignature crypto scram.saltedPassword scram.authMessage then
        { conn with scramState := none }
      else conn.rejectAuth "SCRAM server signature mismatch — possible MITM attack"

/-- `_handleAuth`. A body of fewer than four bytes throws before anything is done. -/
def handleAuth (crypto : Crypto) (opts : PgConnectOptions) (conn : PgConnection) (body : Bytes) (cNonce : Text) :
    PgConnection :=
  match readUInt32BE body 0 with
  | none => conn
  | some authType =>
    if authType = AuthType.Ok then conn
    else if authType = AuthType.CleartextPassword then conn.write (.password opts.password)
    else if authType = AuthType.MD5Password then
      conn.rejectAuth ("Insecure PostgreSQL MD5 authentication is not supported. " ++ "Configure SCRAM-SHA-256 on the server/user.")
    else if authType = AuthType.SASL then conn.handleSASL opts (body.drop 4) cNonce
    else if authType = AuthType.SASLContinue then conn.handleSASLContinue crypto opts (body.drop 4)
    else if authType = AuthType.SASLFinal then conn.handleSASLFinal crypto (body.drop 4)
    else conn.rejectAuth ("Unsupported PostgreSQL auth method: " ++ toString authType)

/-- The end of a command: a stream is finalized, a query resolves with the rows collected. -/
def completeCommand : PgConnection :=
  let done :=
    { conn with
      state := .ready, queryRows := [], queryCommand := [], queryResolve := none, queryReject := none,
      streamTarget := none, fields := [] }
  match conn.streamTarget, conn.queryResolve with
  | some call, _ => done.settle call .finalized
  | none, some call => done.settle call (.resolved (buildResult conn.queryRows conn.queryCommand))
  | none, none => done

/-- `if (this._busy) this._release();`. -/
def releaseHeld : PgConnection := if conn.busy then conn.release else conn

/-- The case of ReadyForQuery: the gate opens also after a command that has failed. -/
def handleReady : PgConnection :=
  if conn.state = .authenticating then
    if conn.authResolve then
      { conn with state := .ready, connect := conn.connect.settle .resolved, authResolve := false }
    else { conn with state := .ready }
  else (if conn.state = .query then conn.completeCommand else conn).releaseHeld

/-- The case of DataRow: the row goes to the stream, or to the rows of the query. -/
def handleRow (body : Bytes) : PgConnection :=
  let row := parseDataRow conn.fields body
  match conn.streamTarget with
  | some call => { conn with streamed := conn.streamed ++ [(call, row)] }
  | none => { conn with queryRows := conn.queryRows ++ [row] }

/-- `if (this.state === 'query') this.state = 'ready';`. -/
def leaveQuery : PgConnection :=
  if conn.state = .query then { conn with state := .ready } else conn

/-- The command fails at once, and stays at the gate until ReadyForQuery. -/
def failCommand (err : String) : PgConnection :=
  { (match conn.streamTarget with
      | some _ => conn.destroyStream err
      | none => conn.rejectQuery err) with queryResolve := none }

/-- The case of ErrorResponse. -/
def handleError (body : Bytes) : PgConnection :=
  if conn.leaveQuery.state = .authenticating then conn.leaveQuery.rejectAuth (parseError body)
  else conn.leaveQuery.failCommand (parseError body)

/-- `_handleMessage`. -/
def handleMessage (crypto : Crypto) (opts : PgConnectOptions) (conn : PgConnection) (m : BackendMessage) (cNonce : Text) : PgConnection :=
  if m.type = BackendMsg.AuthRequest then conn.handleAuth crypto opts m.body cNonce
  else if m.type = BackendMsg.ReadyForQuery then conn.handleReady
  else if m.type = BackendMsg.RowDescription then { conn with fields := parseRowDescription m.body }
  else if m.type = BackendMsg.DataRow then conn.handleRow m.body
  else if m.type = BackendMsg.CommandComplete then { conn with queryCommand := commandTag m.body }
  else if m.type = BackendMsg.EmptyQuery then { conn with queryCommand := [] }
  else if m.type = BackendMsg.ErrorResponse then conn.handleError m.body
  else conn

/-! ## Calls -/

/-- `query` and `queryStream` up to the gate. -/
def call (c : Call) : PgConnection :=
  { conn with calls := conn.calls ++ [c] }.acquire conn.calls.length

/-- What an extended query writes. A Bind message that cannot be built rejects the call from inside
the promise, when the connection is already in state `query`. -/
def queryParams (i : Nat) (sql : Text) (params : List Param) : PgConnection :=
  match buildBindMessage params with
  | .ok values => conn.write (.extendedQuery sql values)
  | .error e => conn.settle i (.rejected e)

/-- `query` past the gate: the command is sent, or the call fails and gives the lock up. -/
def runQuery (i : Nat) (sql : Text) (params : List Param) : PgConnection :=
  if conn.state ≠ .ready then
    conn.release.settle i (.rejected ("Cannot query: connection is in state \"" ++ conn.state.text ++ "\""))
  else
    let conn :=
      { conn with
        state := .query, queryResolve := some i, queryReject := some i, queryRows := [], streamTarget := none }
    if params = [] then conn.write (.query sql) else conn.queryParams i sql params

/-- `queryStream` past the gate. -/
def runStream (i : Nat) (sql : Text) : PgConnection :=
  if conn.state ≠ .ready then
    (conn.settle i (.destroyed ("Cannot query: connection state is \"" ++ conn.state.text ++ "\""))).release
  else
    { conn with
      state := .query, streamTarget := some i, queryResolve := none, queryReject := none,
      queryRows := [] }.write (.query sql)

def goOn (i : Nat) : Call → PgConnection
  | .query sql params => conn.runQuery i sql params
  | .queryStream sql => conn.runStream i sql

/-- The next call that has passed the gate goes on. -/
def turn : PgConnection :=
  match conn.turns with
  | [] => conn
  | i :: turns =>
    match conn.calls[i]? with
    | some c => { conn with turns }.goOn i c
    | none => { conn with turns }

/-! ## Socket events -/

/-- A connection when its socket has connected. -/
def opened (opts : PgConnectOptions) : PgConnection :=
  { state := .authenticating, written := [.startup opts.user opts.database] }

def socketError (error : String) : PgConnection :=
  (({ conn with state := .closed }.rejectAuth error).rejectQuery error |>.destroyStream error).drainGate

def socketClose : PgConnection :=
  let error := "PostgreSQL connection closed unexpectedly"
  ({ conn with state := .closed }.rejectQuery error |>.destroyStream error).drainGate

/-- `close`: the connection says goodbye; the socket closes later. -/
def close : PgConnection :=
  if conn.state = .closed then conn else { conn with state := .closed }.write .terminate

/-- The connect timer fires. -/
def timeout (conn : PgConnection) : PgConnection :=
  { conn with connect := conn.connect.settle (.rejected "PostgreSQL connection timeout") }

/-- A chunk that would take the receive buffer over its limit during the handshake. -/
def oversized : PgConnection :=
  if conn.state = .authenticating then conn.rejectAuth "PostgreSQL auth response too large" else conn

end PgConnection

/-- What happens to a connection whose socket is open, in any order. -/
inductive Event where
  | message (m : BackendMessage) (cNonce : Text)
  | call (c : Call)
  | turn
  | socketError (error : String)
  | socketClose
  | close
  | timeout
  | oversized

def step (crypto : Crypto) (opts : PgConnectOptions) (conn : PgConnection) : Event → PgConnection
  | .message m cNonce => conn.handleMessage crypto opts m cNonce
  | .call c => conn.call c
  | .turn => conn.turn
  | .socketError error => conn.socketError error
  | .socketClose => conn.socketClose
  | .close => conn.close
  | .timeout => conn.timeout
  | .oversized => conn.oversized

end StreetJS.Postgres
