/-
The receive loop of a connection (`_processBuffer` of `postgres/src/wire.ts`, and the `data` listener in front
of it) over the connection's own handler: the messages that it delivers are those of the bytes received,
however they fall into chunks; and the parsers of rows, fields and errors read inside their body only.
-/
import StreetJS.Lib.Runs
import StreetJS.Postgres.Connection

namespace StreetJS.Postgres

open StreetJS.Lib List

/-! ## The loop -/

/-- The message that a buffer begins with, and what is left of it. A declared length below 4 leaves an empty
body, and less than a header is taken off. -/
def nextFrame (buffer : Bytes) : Option (BackendMessage × Bytes) :=
  if buffer.length < 5 then none
  else match buffer[0]?, readUInt32BE buffer 1 with
    | some msgType, some msgLen =>
      let totalLen := 1 + msgLen
      if buffer.length < totalLen then none
      else some ({ type := msgType, body := subarray buffer 5 totalLen }, buffer.drop totalLen)
    | _, _ => none

/-- `_handleAuth` reads the first four bytes of its body unchecked. -/
def throws (m : BackendMessage) : Bool := decide (m.type = BackendMsg.AuthRequest ∧ m.body.length < 4)

/-- A connection with its receive buffer, and the messages handed to `_handleMessage`. What a handler throws
ends the process. -/
structure Receiver where
  conn : PgConnection
  buffer : Bytes := []
  delivered : List BackendMessage := []
  crashed : Bool := false

namespace Receiver

variable (crypto : Crypto) (opts : PgConnectOptions) (nonce : Nat → Text)

/-- One pass of the loop. -/
def pass (r : Receiver) : Receiver :=
  match nextFrame r.buffer with
  | none => r
  | some (m, rest) =>
    if throws m then { r with buffer := rest, delivered := r.delivered ++ [m], crashed := true }
    else
      { r with
        conn := r.conn.handleMessage crypto opts m (nonce r.delivered.length)
        buffer := rest
        delivered := r.delivered ++ [m] }

/-- The loop has come to its end. -/
def Done (r : Receiver) : Prop := r.crashed = true ∨ nextFrame r.buffer = none

/-- `n` passes, or fewer when the loop ends. -/
def passes : Nat → Receiver → Receiver
  | 0, r => r
  | n + 1, r => if r.crashed then r else passes n (r.pass crypto opts nonce)

/-- `_processBuffer`: as many passes as there are bytes are enough. -/
def processBuffer (r : Receiver) : Receiver := r.passes crypto opts nonce r.buffer.length

def maxAuthBuffer : Nat := 64 * 1024

/-- The `data` listener. -/
def data (r : Receiver) (chunk : Bytes) : Receiver :=
  if r.crashed then r
  else if r.conn.state = .authenticating ∧ maxAuthBuffer < r.buffer.length + chunk.length then
    { r with conn := r.conn.oversized }
  else { r with buffer := r.buffer ++ chunk }.processBuffer crypto opts nonce

end Receiver

/-- What happens to a connection: a chunk arrives, or something else, but for the messages that the loop delivers. -/
inductive Arrival where
  | data (chunk : Bytes)
  | other (e : Event)

def Receiver.step (crypto : Crypto) (opts : PgConnectOptions) (nonce : Nat → Text) (r : Receiver) : Arrival → Receiver
  | .data chunk => r.data crypto opts nonce chunk
  | .other (.message _ _) => r
  | .other e => if r.crashed then r else { r with conn := Postgres.step crypto opts r.conn e }

/-- The bytes that arrive. -/
def bytesOf : List Arrival → Bytes
  | [] => []
  | .data chunk :: as => chunk ++ bytesOf as
  | .other _ :: as => bytesOf as

/-! ## Frames of a stream -/

/-- The messages of a stream up to its last complete one, or to the first that makes its handler throw, with
the bytes that are left. -/
inductive Frames : Bytes → List BackendMessage → Bytes → Bool → Prop
  | stop {b : Bytes} (h : nextFrame b = none) : Frames b [] b false
  | crash {b rest : Bytes} {m : BackendMessage} (h : nextFrame b = some (m, rest)) (ht : throws m = true) : Frames b [m] rest true
  | next {b rest rest' : Bytes} {m : BackendMessage} {ms : List BackendMessage} {crashed : Bool}
    (h : nextFrame b = some (m, rest)) (ht : throws m = false) (hs : Frames rest ms rest' crashed) :
    Frames b (m :: ms) rest' crashed

theorem readUInt32BE_append {body : Bytes} {offset n : Nat} (h : readUInt32BE body offset = some n) (more : Bytes) :
    readUInt32BE (body ++ more) offset = some n := by
  unfold readUInt32BE at h ⊢
  split at h
  · rename_i a b c d rest hdrop
    have hle : offset ≤ body.length := by
      by_contra hlt
      rw [drop_eq_nil_of_le (by omega)] at hdrop
      cases hdrop
    rw [drop_append_of_le_length hle, hdrop]
    exact h
  · cases h

variable {b rest : Bytes}

theorem nextFrame_append {m : BackendMessage} (h : nextFrame b = some (m, rest)) (more : Bytes) :
    nextFrame (b ++ more) = some (m, rest ++ more) := by
  unfold nextFrame at h ⊢
  split at h
  · cases h
  · rename_i hheader
    split at h
    · rename_i msgType msgLen htype hlen
      dsimp only at h
      split at h
      · cases h
      · rename_i htotal
        have hle : 1 + msgLen ≤ b.length := by omega
        obtain ⟨rfl, rfl⟩ := Prod.mk.inj (Option.some.inj h)
        have htype' : (b ++ more)[0]? = some msgType := by
          rw [getElem?_append_left (by omega)]
          exact htype
        rw [if_neg (by rw [length_append]; omega), htype', readUInt32BE_append hlen more]
        dsimp only
        rw [if_neg (by rw [length_append]; omega)]
        unfold subarray
        rw [take_append_of_le_length hle, drop_append_of_le_length hle]
    · cases h

theorem nextFrame_lt {m : BackendMessage} (h : nextFrame b = some (m, rest)) : rest.length < b.length := by
  unfold nextFrame at h
  split at h
  · cases h
  · split at h
    · dsimp only at h
      split at h
      · cases h
      · obtain ⟨-, rfl⟩ := Prod.mk.inj (Option.some.inj h)
        rw [length_drop]
        omega
    · cases h

variable {ms : List BackendMessage}

theorem Frames.unique {crashed : Bool} (h : Frames b ms rest crashed) :
    ∀ {ms' : List BackendMessage} {rest' : Bytes} {crashed' : Bool}, Frames b ms' rest' crashed' →
      ms = ms' ∧ rest = rest' ∧ crashed = crashed' := by
  induction h with
  | stop h =>
    intro ms' rest' crashed' h'
    cases h' with
    | stop => exact ⟨rfl, rfl, rfl⟩
    | crash hf => cases h.symm.trans hf
    | next hf => cases h.symm.trans hf
  | crash h ht =>
    intro ms' rest' crashed' h'
    cases h' with
    | stop hf => cases h.symm.trans hf
    | crash hf =>
      cases h.symm.trans hf
      exact ⟨rfl, rfl, rfl⟩
    | next hf ht' =>
      cases h.symm.trans hf
      cases ht.symm.trans ht'
  | next h ht hs ih =>
    intro ms' rest' crashed' h'
    cases h' with
    | stop hf => cases h.symm.trans hf
    | crash hf ht' =>
      cases h.symm.trans hf
      cases ht.symm.trans ht'
    | next hf ht' hs' =>
      cases h.symm.trans hf
      obtain ⟨rfl, rfl, rfl⟩ := ih hs'
      exact ⟨rfl, rfl, rfl⟩

theorem Frames.append {rest' more : Bytes} {ms' : List BackendMessage} {crashed crashed' : Bool}
    (h : Frames b ms rest crashed) (hc : crashed = false) (h' : Frames (rest ++ more) ms' rest' crashed') :
    Frames (b ++ more) (ms ++ ms') rest' crashed' := by
  induction h with
  | stop => exact h'
  | crash => cases hc
  | next h ht hs ih => exact .next (nextFrame_append h more) ht (ih hc h')

/-- Nothing is read after a handler has thrown. -/
theorem Frames.append_crashed {more : Bytes} {crashed : Bool}
    (h : Frames b ms rest crashed) (hc : crashed = true) : Frames (b ++ more) ms (rest ++ more) true := by
  induction h with
  | stop => cases hc
  | crash h ht => exact .crash (nextFrame_append h more) ht
  | next h ht hs ih => exact .next (nextFrame_append h more) ht (ih hc)

/-! ## The handshake is over for good -/

namespace PgConnection

variable {conn : PgConnection}

@[simp] theorem state_settle (conn : PgConnection) (call : Nat) (outcome : Outcome) : (conn.settle call outcome).state = conn.state := by
  unfold settle
  split <;> rfl

@[simp] theorem state_rejectAuth (conn : PgConnection) (error : String) : (conn.rejectAuth error).state = conn.state := by
  unfold rejectAuth
  split <;> rfl

@[simp] theorem state_rejectQuery (conn : PgConnection) (error : String) : (conn.rejectQuery error).state = conn.state := by
  unfold rejectQuery
  split
  · exact state_settle conn _ _
  · rfl

@[simp] theorem state_destroyStream (conn : PgConnection) (error : String) : (conn.destroyStream error).state = conn.state := by
  unfold destroyStream
  split
  · exact state_settle conn _ _
  · rfl

@[simp] theorem state_release (conn : PgConnection) : conn.release.state = conn.state := by
  unfold release
  split <;> rfl

@[simp] theorem state_releaseHeld (conn : PgConnection) : conn.releaseHeld.state = conn.state := by
  unfold releaseHeld
  split
  · exact state_release conn
  · rfl

@[simp] theorem state_drainGate (conn : PgConnection) : conn.drainGate.state = conn.state := rfl

theorem state_handleSASLContinue (crypto : Crypto) (opts : PgConnectOptions) (conn : PgConnection) (data : Bytes) :
    (conn.handleSASLContinue crypto opts data).state = conn.state := by
  unfold handleSASLContinue
  split
  · exact state_rejectAuth conn _
  · dsimp only
    split
    · exact state_rejectAuth _ _
    · split
      · rfl
      · exact state_rejectAuth _ _

theorem state_handleSASLFinal (crypto : Crypto) (conn : PgConnection) (data : Bytes) :
    (conn.handleSASLFinal crypto data).state = conn.state := by
  unfold handleSASLFinal
  split
  · exact state_rejectAuth conn _
  · dsimp only
    split
    · exact state_rejectAuth _ _
    · split
      · rfl
      · exact state_rejectAuth _ _

theorem state_handleSASL (opts : PgConnectOptions) (conn : PgConnection) (data : Bytes) (cNonce : Text) :
    (conn.handleSASL opts data cNonce).state = conn.state := by
  unfold handleSASL
  split
  · rfl
  · exact state_rejectAuth conn _

theorem state_handleAuth (crypto : Crypto) (opts : PgConnectOptions) (conn : PgConnection) (body : Bytes)
    (cNonce : Text) : (conn.handleAuth crypto opts body cNonce).state = conn.state := by
  unfold handleAuth
  split
  · rfl
  · split
    · rfl
    · split
      · rfl
      · split
        · exact state_rejectAuth conn _
        · split
          · exact state_handleSASL opts conn _ cNonce
          · split
            · exact state_handleSASLContinue crypto opts conn _
            · split
              · exact state_handleSASLFinal crypto conn _
              · exact state_rejectAuth conn _

theorem state_completeCommand (conn : PgConnection) : conn.completeCommand.state = .ready := by
  unfold completeCommand
  split
  · exact state_settle _ _ _
  · exact state_settle _ _ _
  · rfl

theorem handleReady_past (h : conn.state ≠ .authenticating) : conn.handleReady.state ≠ .authenticating := by
  unfold handleReady
  rw [if_neg h, state_releaseHeld]
  split
  · rw [state_completeCommand]
    exact nofun
  · exact h

theorem leaveQuery_past (h : conn.state ≠ .authenticating) : conn.leaveQuery.state ≠ .authenticating := by
  unfold leaveQuery
  split
  · exact nofun
  · exact h

theorem handleError_past (h : conn.state ≠ .authenticating) (body : Bytes) : (conn.handleError body).state ≠ .authenticating := by
  have hleft := leaveQuery_past h
  unfold handleError
  rw [if_neg hleft]
  unfold failCommand
  split
  · rw [state_destroyStream]
    exact hleft
  · rw [state_rejectQuery]
    exact hleft

section

variable (h : conn.state ≠ .authenticating)
include h

theorem handleMessage_past (crypto : Crypto) (opts : PgConnectOptions)
    (m : BackendMessage) (cNonce : Text) : (conn.handleMessage crypto opts m cNonce).state ≠ .authenticating := by
  unfold handleMessage
  split
  · rw [state_handleAuth]
    exact h
  · split
    · exact handleReady_past h
    · split
      · exact h
      · split
        · unfold handleRow
          split <;> exact h
        · split
          · exact h
          · split
            · exact h
            · split
              · exact handleError_past h m.body
              · exact h

theorem runQuery_past (i : Nat) (sql : Text) (params : List Param) : (conn.runQuery i sql params).state ≠ .authenticating := by
  unfold runQuery
  split
  · rw [state_settle, state_release]
    exact h
  · split
    · exact nofun
    · unfold queryParams
      split
      · exact nofun
      · rw [state_settle]
        exact nofun

theorem runStream_past (i : Nat) (sql : Text) : (conn.runStream i sql).state ≠ .authenticating := by
  unfold runStream
  split
  · rw [state_release, state_settle]
    exact h
  · exact nofun

theorem turn_past : conn.turn.state ≠ .authenticating := by
  unfold turn
  split
  · exact h
  · split
    · rename_i i turns _ _ c _
      have hrest : ({ conn with turns } : PgConnection).state ≠ .authenticating := h
      cases c with
      | query sql params => exact runQuery_past hrest i sql params
      | queryStream sql => exact runStream_past hrest i sql
    · exact h

end

end PgConnection

/-- And nothing else does. -/
theorem step_past (crypto : Crypto) (opts : PgConnectOptions) {conn : PgConnection} (h : conn.state ≠ .authenticating)
    (e : Event) : (step crypto opts conn e).state ≠ .authenticating := by
  cases e with
  | message m cNonce => exact PgConnection.handleMessage_past h crypto opts m cNonce
  | call c =>
    show (conn.call c).state ≠ _
    unfold PgConnection.call PgConnection.acquire
    split <;> exact h
  | turn => exact PgConnection.turn_past h
  | socketError error =>
    show (conn.socketError error).state ≠ _
    unfold PgConnection.socketError
    simp
  | socketClose =>
    show conn.socketClose.state ≠ _
    unfold PgConnection.socketClose
    simp
  | close =>
    show conn.close.state ≠ _
    unfold PgConnection.close
    split
    · exact h
    · exact nofun
  | timeout => exact h
  | oversized =>
    show conn.oversized.state ≠ _
    unfold PgConnection.oversized
    rw [if_neg h]
    exact h

/-! ## What the loop delivers -/

section

variable (crypto : Crypto) (opts : PgConnectOptions) (nonce : Nat → Text)

variable {r : Receiver}

theorem pass_of_none (h : nextFrame r.buffer = none) : r.pass crypto opts nonce = r := by
  rw [Receiver.pass, h]

theorem passes_of_none {r : Receiver} (h : nextFrame r.buffer = none) : ∀ n, r.passes crypto opts nonce n = r
  | 0 => rfl
  | n + 1 => by
    unfold Receiver.passes
    rw [pass_of_none crypto opts nonce h, passes_of_none h n, ite_self]

/-- **The loop ends**: every pass takes bytes off the buffer, so that as many passes as it has bytes are enough. -/
theorem passes_done : ∀ (n : Nat) (r : Receiver), r.buffer.length ≤ n → (r.passes crypto opts nonce n).Done
  | 0, r, hn => by
    refine .inr ?_
    show nextFrame r.buffer = none
    unfold nextFrame
    rw [if_pos (by omega)]
  | n + 1, r, hn => by
    unfold Receiver.passes
    split
    · rename_i hc
      exact .inl hc
    · cases hf : nextFrame r.buffer with
      | none =>
        rw [pass_of_none crypto opts nonce hf, passes_of_none crypto opts nonce hf]
        exact .inr hf
      | some x =>
        obtain ⟨m, rest⟩ := x
        have hlt := nextFrame_lt hf
        have hbuffer : (r.pass crypto opts nonce).buffer = rest := by
          rw [Receiver.pass, hf]
          dsimp only
          split <;> rfl
        exact passes_done n _ (by rw [hbuffer]; omega)

theorem passes_frames : ∀ (n : Nat) (r : Receiver), r.buffer.length ≤ n → r.crashed = false → r.conn.state ≠ .authenticating → ∃ ms,
      Frames r.buffer ms (r.passes crypto opts nonce n).buffer (r.passes crypto opts nonce n).crashed ∧
      (r.passes crypto opts nonce n).delivered = r.delivered ++ ms ∧
      (r.passes crypto opts nonce n).conn.state ≠ .authenticating
  | 0, r, hn, hc, hs => by
    refine ⟨[], ?_, (append_nil _).symm, hs⟩
    show Frames r.buffer [] r.buffer r.crashed
    rw [hc]
    refine .stop ?_
    unfold nextFrame
    rw [if_pos (by omega)]
  | n + 1, r, hn, hc, hs => by
    unfold Receiver.passes
    rw [if_neg (by rw [hc]; exact Bool.false_ne_true)]
    cases hf : nextFrame r.buffer with
    | none =>
      rw [pass_of_none crypto opts nonce hf, passes_of_none crypto opts nonce hf, hc]
      exact ⟨[], .stop hf, (append_nil _).symm, hs⟩
    | some x =>
      obtain ⟨m, rest⟩ := x
      have hlt := nextFrame_lt hf
      cases ht : throws m with
      | true =>
        have hpass : r.pass crypto opts nonce =
            { r with buffer := rest, delivered := r.delivered ++ [m], crashed := true } := by
          rw [Receiver.pass, hf]
          exact if_pos ht
        have hend : ∀ k, (r.pass crypto opts nonce).passes crypto opts nonce k = r.pass crypto opts nonce := by
          intro k
          cases k with
          | zero => rfl
          | succ k =>
            unfold Receiver.passes
            rw [if_pos (by rw [hpass])]
        rw [hend, hpass]
        exact ⟨[m], .crash hf ht, rfl, hs⟩
      | false =>
        have hpass : r.pass crypto opts nonce = { r with
              conn := r.conn.handleMessage crypto opts m (nonce r.delivered.length)
              buffer := rest
              delivered := r.delivered ++ [m] } := by
          rw [Receiver.pass, hf]
          exact if_neg (by rw [ht]; exact Bool.false_ne_true)
        obtain ⟨ms, hframes, hdelivered, hpast⟩ := passes_frames n (r.pass crypto opts nonce)
          (by rw [hpass]; show rest.length ≤ n; omega) (by rw [hpass]; exact hc)
          (by rw [hpass]; exact PgConnection.handleMessage_past hs crypto opts m _)
        refine ⟨m :: ms, ?_, ?_, hpast⟩
        · rw [show (r.pass crypto opts nonce).buffer = rest by rw [hpass]] at hframes
          exact .next hf ht hframes
        · rw [hdelivered, hpass, append_assoc]
          rfl

/-- What a receiver has delivered of a stream: the frames of all bytes that have arrived. -/
structure Receiver.Has (b : Bytes) (r : Receiver) : Prop where
  past : r.conn.state ≠ .authenticating
  alive : r.crashed = false → Frames b r.delivered r.buffer false
  crashed : r.crashed = true → ∃ rest, Frames b r.delivered rest true

variable {crypto opts nonce}

theorem Receiver.Has.data {b : Bytes} (h : r.Has b) (chunk : Bytes) : (r.data crypto opts nonce chunk).Has (b ++ chunk) := by
  unfold Receiver.data
  split
  · rename_i hc
    obtain ⟨rest, hframes⟩ := h.crashed hc
    refine ⟨h.past, fun ha => ?_, fun _ => ⟨rest ++ chunk, hframes.append_crashed rfl⟩⟩
    rw [hc] at ha
    cases ha
  · rename_i hc
    rw [if_neg fun hauth => h.past hauth.1]
    have hc : r.crashed = false := Bool.eq_false_iff.2 hc
    obtain ⟨ms, hframes, hdelivered, hpast⟩ := passes_frames crypto opts nonce (r.buffer ++ chunk).length
      { r with buffer := r.buffer ++ chunk } le_rfl hc h.past
    have hall := (h.alive hc).append rfl hframes
    refine ⟨hpast, fun ha => ?_, fun ha => ?_⟩
    · unfold Receiver.processBuffer at ha ⊢
      rw [hdelivered]
      rw [ha] at hall
      exact hall
    · unfold Receiver.processBuffer at ha ⊢
      rw [hdelivered]
      rw [ha] at hall
      exact ⟨_, hall⟩

theorem Receiver.Has.step {b : Bytes} (h : r.Has b) (a : Arrival) : (r.step crypto opts nonce a).Has (b ++ bytesOf [a]) := by
  cases a with
  | data chunk =>
    show (r.data crypto opts nonce chunk).Has (b ++ (chunk ++ []))
    rw [append_nil]
    exact h.data chunk
  | other e =>
    show (r.step crypto opts nonce (.other e)).Has (b ++ [])
    rw [append_nil]
    have hother : (if r.crashed then r else { r with conn := Postgres.step crypto opts r.conn e }).Has b := by
      split
      · exact h
      · exact ⟨step_past crypto opts h.past e, h.alive, h.crashed⟩
    cases e with
    | message m cNonce => exact h
    | _ => exact hother

theorem Receiver.Has.run : ∀ (as : List Arrival) {b : Bytes} {r : Receiver}, r.Has b →
    (Lib.run (Receiver.step crypto opts nonce) r as).Has (b ++ bytesOf as)
  | [], b, r, h => by
    rw [show b ++ bytesOf [] = b from append_nil b]
    exact h
  | a :: as, b, r, h => by
    have hstep : (r.step crypto opts nonce a).Has (b ++ bytesOf [a]) := h.step a
    have hrest := Receiver.Has.run as hstep
    have hbytes : bytesOf (a :: as) = bytesOf [a] ++ bytesOf as := by
      cases a with
      | data chunk =>
        show chunk ++ bytesOf as = chunk ++ [] ++ bytesOf as
        rw [append_nil]
      | other e => rfl
    rw [hbytes, ← append_assoc]
    exact hrest

theorem Receiver.Has.unique {b : Bytes} {r' : Receiver} (h : r.Has b) (h' : r'.Has b) : r.delivered = r'.delivered := by
  have hframes : ∀ {r : Receiver}, r.Has b → ∃ rest crashed, Frames b r.delivered rest crashed := by
    intro r h
    cases hc : r.crashed with
    | false => exact ⟨_, _, h.alive hc⟩
    | true =>
      obtain ⟨rest, hrest⟩ := h.crashed hc
      exact ⟨rest, true, hrest⟩
  obtain ⟨rest, crashed, hr⟩ := hframes h
  obtain ⟨rest', crashed', hr'⟩ := hframes h'
  exact (hr.unique hr').1

end

/-! ## The parsers, read by read -/

/-- How a parser would not return: a read past its body, or a loop that goes on. -/
inductive ParseAbort where
  | outside
  | unfinished

def checked {α : Type} : Option α → Except ParseAbort α
  | some x => .ok x
  | none => .error .outside

variable (body : Bytes)

/-- `body.toString('utf8', start, stop)`, inside the body. -/
def checkedText (start stop : Nat) : Except ParseAbort Text :=
  if start ≤ stop ∧ stop ≤ body.length then .ok (toText (subarray body start stop)) else .error .outside

/-- The loop of `_parseRowDescription`. -/
def rowFields (body : Bytes) : Nat → Nat → Except ParseAbort (List FieldDescriptor)
  | 0, _ => .ok []
  | fieldCount + 1, offset =>
    if body.length ≤ offset then .ok []
    else match indexOfZero body offset with
      | none => .ok []
      | some nameEnd =>
        if nameEnd + 1 + 18 > body.length then .ok []
        else do
          let name ← checkedText body offset nameEnd
          let typeOid ← checked (readUInt32BE body (nameEnd + 1 + 6))
          let fields ← rowFields body fieldCount (nameEnd + 1 + 18)
          pure (⟨name, typeOid⟩ :: fields)

def readRowDescription : Except ParseAbort (List FieldDescriptor) :=
  if body.length < 2 then .ok []
  else do
    let fieldCount ← checked (readUInt16BE body 0)
    rowFields body fieldCount 2

/-- The loop of `_parseDataRow`. -/
def rowColumns (fields : List FieldDescriptor) (body : Bytes) : Nat → Nat → Nat → PgRow → Except ParseAbort PgRow
  | 0, _, _, row => .ok row
  | left + 1, i, offset, row =>
    if offset + 4 > body.length then .ok row
    else do
      let len ← checked (readInt32BE body offset)
      if len = -1 then rowColumns fields body left (i + 1) (offset + 4) (row.set (fieldName fields i) none)
      else if len < 0 ∨ offset + 4 + len.toNat > body.length then .ok row
      else do
        let text ← checkedText body (offset + 4) (offset + 4 + len.toNat)
        rowColumns fields body left (i + 1) (offset + 4 + len.toNat) (row.set (fieldName fields i) (some text))

def readDataRow (fields : List FieldDescriptor) (body : Bytes) : Except ParseAbort PgRow :=
  if body.length < 2 then .ok []
  else do
    let colCount ← checked (readUInt16BE body 0)
    rowColumns fields body colCount 0 2 []

/-- The `while` loop of `_parseError`, so many times. -/
def readErrorFields (body : Bytes) : Nat → Nat → OrderedMap Char Text → Except ParseAbort (OrderedMap Char Text)
  | 0, _, _ => .error .unfinished
  | fuel + 1, i, fields =>
    if i < body.length then do
      let code ← checked body[i]?
      if code = 0 then .ok fields
      else match indexOfZero body (i + 1) with
        | none => .ok fields
        | some stop => do
          let text ← checkedText body (i + 1) stop
          readErrorFields body fuel (stop + 1) (fields.set (Char.ofNat code.toNat) text)
    else .ok fields

theorem readUInt16BE_inside (offset : Nat) (h : offset + 2 ≤ body.length) : ∃ n, readUInt16BE body offset = some n := by
  have hlength := length_drop (i := offset) (l := body)
  unfold readUInt16BE
  match hdrop : body.drop offset with
  | a :: b :: rest => exact ⟨_, rfl⟩
  | [a] =>
    rw [hdrop] at hlength
    simp only [length_cons, length_nil] at hlength
    omega
  | [] =>
    rw [hdrop] at hlength
    simp only [length_nil] at hlength
    omega

theorem readUInt32BE_inside (offset : Nat) (h : offset + 4 ≤ body.length) : ∃ n, readUInt32BE body offset = some n := by
  have hlength := length_drop (i := offset) (l := body)
  unfold readUInt32BE
  match hdrop : body.drop offset with
  | a :: b :: c :: d :: rest => exact ⟨_, rfl⟩
  | [a, b, c] | [a, b] | [a] | [] =>
    rw [hdrop] at hlength
    simp only [length_cons, length_nil] at hlength
    omega

theorem indexOfZero_bounds {body : Bytes} {offset stop : Nat} (h : indexOfZero body offset = some stop) :
    offset ≤ stop ∧ stop < body.length := by
  obtain ⟨k, hk, rfl⟩ := Option.map_eq_some_iff.1 h
  have hlt := (findIdx?_eq_some_iff_findIdx_eq.1 hk).1
  rw [length_drop] at hlt
  omega

theorem checkedText_inside {body : Bytes} {start stop : Nat} (h : start ≤ stop) (h' : stop ≤ body.length) :
    checkedText body start stop = .ok (toText (subarray body start stop)) := if_pos ⟨h, h'⟩

theorem rowFields_eq (body : Bytes) : ∀ (n offset : Nat), rowFields body n offset = .ok (fieldsFrom body n offset)
  | 0, _ => rfl
  | n + 1, offset => by
    unfold rowFields fieldsFrom
    split
    · rfl
    · cases hend : indexOfZero body offset with
      | none => rfl
      | some nameEnd =>
        dsimp only
        split
        · rfl
        · rename_i hroom
          obtain ⟨hle, hlt⟩ := indexOfZero_bounds hend
          obtain ⟨typeOid, hoid⟩ := readUInt32BE_inside body (nameEnd + 1 + 6) (by omega)
          rw [checkedText_inside hle (by omega), hoid, rowFields_eq body n]
          rfl

/-- **`_parseRowDescription` reads inside its body.** -/
theorem readRowDescription_eq : readRowDescription body = .ok (parseRowDescription body) := by
  unfold readRowDescription parseRowDescription
  split
  · rename_i hshort
    have hnone : readUInt16BE body 0 = none := by
      match body, hshort with
      | [], _ => rfl
      | [a], _ => rfl
    rw [hnone]
  · obtain ⟨n, hn⟩ := readUInt16BE_inside body 0 (by omega)
    rw [hn]
    exact rowFields_eq body n 2

theorem rowColumns_eq (fields : List FieldDescriptor) (body : Bytes) : ∀ (n i offset : Nat) (row : PgRow),
    rowColumns fields body n i offset row = .ok (columnsFrom fields body n i offset row)
  | 0, _, _, _ => rfl
  | n + 1, i, offset, row => by
    unfold rowColumns columnsFrom
    split
    · rename_i hshort
      have hnone : readUInt32BE body offset = none := by
        have hlength := length_drop (i := offset) (l := body)
        unfold readUInt32BE
        split
        · rename_i a b c d rest hdrop
          rw [hdrop] at hlength
          simp only [length_cons] at hlength
          omega
        · rfl
      rw [readInt32BE, hnone]
      rfl
    · obtain ⟨u, hu⟩ := readUInt32BE_inside body offset (by omega)
      obtain ⟨len, hlen⟩ : ∃ len, readInt32BE body offset = some len := ⟨_, by rw [readInt32BE, hu]; rfl⟩
      rw [hlen]
      simp only [checked, bind, Except.bind]
      by_cases hnull : len = -1
      · rw [if_pos hnull, if_pos hnull]
        exact rowColumns_eq fields body n _ _ _
      · rw [if_neg hnull, if_neg hnull]
        by_cases hbad : len < 0 ∨ offset + 4 + len.toNat > body.length
        · rw [if_pos hbad, if_pos hbad]
        · rw [if_neg hbad, if_neg hbad, checkedText_inside (Nat.le_add_right _ _) (by omega)]
          exact rowColumns_eq fields body n _ _ _

/-- **`_parseDataRow` reads inside its body.** -/
theorem readDataRow_eq (fields : List FieldDescriptor) (body : Bytes) : readDataRow fields body = .ok (parseDataRow fields body) := by
  unfold readDataRow parseDataRow
  split
  · rename_i hshort
    have hnone : readUInt16BE body 0 = none := by
      match body, hshort with
      | [], _ => rfl
      | [a], _ => rfl
    rw [hnone]
  · obtain ⟨n, hn⟩ := readUInt16BE_inside body 0 (by omega)
    rw [hn]
    exact rowColumns_eq fields body n 0 2 []

/-- Its loop ends: every pass takes a byte, and one more pass sees that none is left. -/
theorem readErrorFields_eq : ∀ (n k i : Nat) (fields : OrderedMap Char Text), body.length ≤ n + i →
    body.length ≤ k + i → readErrorFields body (n + 1) i fields = .ok (errorFields body k i fields) := by
  intro n
  induction n with
  | zero =>
    intro k i fields hn hk
    have hnone : body[i]? = none := getElem?_eq_none (by omega)
    unfold readErrorFields
    rw [if_neg (by omega)]
    cases k with
    | zero => rfl
    | succ k =>
      unfold errorFields
      rw [hnone]
  | succ n ih =>
    intro k i fields hn hk
    unfold readErrorFields
    by_cases hi : i < body.length
    · rw [if_pos hi]
      obtain ⟨code, hcode⟩ : ∃ code, body[i]? = some code := ⟨_, getElem?_eq_getElem hi⟩
      obtain ⟨k, rfl⟩ : ∃ k', k = k' + 1 := ⟨k - 1, by omega⟩
      unfold errorFields
      rw [hcode]
      simp only [checked, bind, Except.bind]
      by_cases hzero : code = 0
      · rw [if_pos hzero, if_pos hzero]
      · rw [if_neg hzero, if_neg hzero]
        cases hend : indexOfZero body (i + 1) with
        | none => rfl
        | some stop =>
          obtain ⟨hle, hlt⟩ := indexOfZero_bounds hend
          simp only
          rw [checkedText_inside hle (by omega)]
          exact ih k (stop + 1) _ (by omega) (by omega)
    · rw [if_neg hi]
      have hnone : body[i]? = none := getElem?_eq_none (by omega)
      cases k with
      | zero => rfl
      | succ k =>
        unfold errorFields
        rw [hnone]

/-- `_parseError`, read by read. -/
def readError : Except ParseAbort String := do
  let fields ← readErrorFields body (body.length + 1) 0 []
  let msg := (fields.get 'M').getD "Unknown PostgreSQL error".toList
  let detail := (fields.get 'D').getD []
  pure ("PostgreSQL: " ++ String.ofList msg ++ (if detail = [] then "" else " — " ++ String.ofList detail))

/-- **`_parseError` reads inside its body, and ends.** -/
theorem readError_eq : readError body = .ok (parseError body) := by
  unfold readError parseError
  rw [readErrorFields_eq body body.length body.length 0 [] le_rfl le_rfl]
  rfl

/-! ## Runs -/

/-- **The messages do not depend on the chunks**: past the handshake, two runs in which the same bytes arrive
deliver the same messages, whatever else happens in them; the loop ends on every chunk; and the parsers of
rows, fields and errors return without a read outside their body. -/
theorem delivered_of_bytes (crypto : Crypto) (opts : PgConnectOptions) (nonce : Nat → Text) (r : Receiver)
    (hpast : r.conn.state ≠ .authenticating) (hfresh : r.delivered = []) (halive : r.crashed = false)
    (hrest : nextFrame r.buffer = none) :
    (∀ as as' : List Arrival, bytesOf as = bytesOf as' → (run (Receiver.step crypto opts nonce) r as).delivered =
          (run (Receiver.step crypto opts nonce) r as').delivered) ∧
      (∀ r' : Receiver, (r'.processBuffer crypto opts nonce).Done) ∧
      (∀ body, readRowDescription body = .ok (parseRowDescription body)) ∧
      (∀ fields body, readDataRow fields body = .ok (parseDataRow fields body)) ∧
      ∀ body, readError body = .ok (parseError body) := by
  refine ⟨fun as as' hbytes => ?_, fun r' => passes_done crypto opts nonce _ r' le_rfl, readRowDescription_eq, readDataRow_eq, readError_eq⟩
  have hhas : r.Has r.buffer := by
    refine ⟨hpast, fun _ => ?_, fun hc => ?_⟩
    · rw [hfresh]
      exact .stop hrest
    · rw [halive] at hc
      cases hc
  have hrun : (run (Receiver.step crypto opts nonce) r as).Has (r.buffer ++ bytesOf as) := Receiver.Has.run as hhas
  have hrun' : (run (Receiver.step crypto opts nonce) r as').Has (r.buffer ++ bytesOf as') :=
    Receiver.Has.run as' hhas
  rw [← hbytes] at hrun'
  exact hrun.unique hrun'

/-- A connection between two commands. -/
def idleConnection : Receiver := { conn := { state := .ready, connect := .resolved } }

/-- A frame that declares a length of 3, whose last byte so begins the next one, and a ReadyForQuery. -/
def shortFrame : Bytes := [0x4e, 0, 0, 0, 3, 0, 0, 0, 4, 0x5a, 0, 0, 0, 5, 0x49]

theorem delivered_of_bytes_shortFrame : let crypto : Crypto := { hmac := fun _ _ => [], sha256 := id, pbkdf2 := fun _ _ _ => [], nfkc := id }
    let step := Receiver.step crypto { user := [], password := [], database := [] } fun _ => []
    (run step idleConnection [.data (shortFrame.take 3), .other (.call (.query [] [])), .data (shortFrame.drop 3),
      .other .turn]).delivered = (run step idleConnection [.data shortFrame]).delivered :=
  (delivered_of_bytes _ _ _ idleConnection nofun rfl rfl (by decide)).1 _ _ rfl

end StreetJS.Postgres
