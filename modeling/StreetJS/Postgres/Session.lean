/-
Sessions of one connection: what each response to a command comes to, the well-formed backends, and
the property of serialised commands with the invariant behind it. The invariant says who has the gate:
nobody, a call that has not gone on yet, the one unanswered command, or the calls woken when the
socket closed.
-/
import StreetJS.Postgres.Scram
import Mathlib.Data.List.Nodup

namespace StreetJS.Postgres

open StreetJS.Lib PgConnection List

/-! ## Responses -/

/-- How far a response has come. -/
inductive Phase where
  | opening
  | rows
  | completed
  | failed
  deriving DecidableEq

/-- The message types that answer no command: notices, parameters and the like. -/
def ignorable (type : UInt8) : Prop :=
  type ≠ BackendMsg.AuthRequest ∧ type ≠ BackendMsg.ReadyForQuery ∧ type ≠ BackendMsg.RowDescription ∧
    type ≠ BackendMsg.DataRow ∧ type ≠ BackendMsg.CommandComplete ∧ type ≠ BackendMsg.EmptyQuery ∧
    type ≠ BackendMsg.ErrorResponse

instance (type : UInt8) : Decidable (ignorable type) := by unfold ignorable; infer_instance

/-- A response goes from its description to its rows, and to one ending. -/
def Phase.next (p : Phase) (type : UInt8) : Option Phase :=
  if p = .opening ∧ type = BackendMsg.RowDescription then some .rows
  else if p = .rows ∧ type = BackendMsg.DataRow then some .rows
  else if (p = .opening ∨ p = .rows) ∧ (type = BackendMsg.CommandComplete ∨ type = BackendMsg.EmptyQuery) then
    some .completed
  else if (p = .opening ∨ p = .rows) ∧ type = BackendMsg.ErrorResponse then some .failed
  else none

/-- The phase of the messages received so far, when they begin a well-formed response. -/
def phase (ms : List BackendMessage) : Option Phase := ms.foldlM (fun p m => Phase.next p m.type) .opening

/-- The fields that describe the next row. -/
def fieldsOf (ms : List BackendMessage) : List FieldDescriptor :=
  ms.foldl (fun fields m => if m.type = BackendMsg.RowDescription then parseRowDescription m.body else fields) []

/-- The rows of a response, each read with the description before it. -/
def rowsFrom : List FieldDescriptor → List BackendMessage → List PgRow
  | _, [] => []
  | fields, m :: ms =>
    if m.type = BackendMsg.RowDescription then rowsFrom (parseRowDescription m.body) ms
    else if m.type = BackendMsg.DataRow then parseDataRow fields m.body :: rowsFrom fields ms
    else rowsFrom fields ms

def rowsOf (ms : List BackendMessage) : List PgRow := rowsFrom [] ms

/-- The command tag of a response. -/
def tagOf (ms : List BackendMessage) : Text :=
  ms.foldl (fun tag m =>
    if m.type = BackendMsg.CommandComplete then commandTag m.body
    else if m.type = BackendMsg.EmptyQuery then [] else tag) []

/-- The error of a response. -/
def errorOf (ms : List BackendMessage) : Option String :=
  (ms.find? (·.type = BackendMsg.ErrorResponse)).map fun m => parseError m.body

/-- What a call comes to when its command is answered by `ms`. -/
def Call.reply (ms : List BackendMessage) : Call → Outcome
  | .query _ _ => match errorOf ms with
    | some e => .rejected e
    | none => .resolved (buildResult (rowsOf ms) (tagOf ms))
  | .queryStream _ => match errorOf ms with
    | some e => .destroyed e
    | none => .finalized

/-- The rows that a call is streamed, of the messages received for it. -/
def Call.streamRows (ms : List BackendMessage) : Call → List PgRow
  | .query _ _ => []
  | .queryStream _ => rowsOf ms

/-- The failure of a call that has no answer of its own. -/
def Call.fails : Call → Outcome → Prop
  | .query _ _, o => ∃ e, o = .rejected e
  | .queryStream _, o => ∃ e, o = .destroyed e

/-- The command of a call, when it can be written. -/
def Call.command : Call → Option FrontendMessage
  | .query sql params =>
    if params = [] then some (.query sql)
    else match buildBindMessage params with
      | .ok values => some (.extendedQuery sql values)
      | .error _ => none
  | .queryStream sql => some (.query sql)

section

variable (ms : List BackendMessage) (m : BackendMessage)
include ms m

theorem phase_concat : phase (ms ++ [m]) = (phase ms).bind fun p => p.next m.type := by
  unfold phase
  rw [foldlM_append]
  cases List.foldlM (fun p m => Phase.next p m.type) Phase.opening ms with
  | none => rfl
  | some p => simp

theorem fieldsOf_concat : fieldsOf (ms ++ [m]) = if m.type = BackendMsg.RowDescription then parseRowDescription m.body else fieldsOf ms := by
  simp only [fieldsOf, foldl_append, foldl_cons, foldl_nil]

theorem tagOf_concat : tagOf (ms ++ [m]) = if m.type = BackendMsg.CommandComplete then commandTag m.body
      else if m.type = BackendMsg.EmptyQuery then [] else tagOf ms := by
  simp only [tagOf, foldl_append, foldl_cons, foldl_nil]

end

theorem rowsFrom_concat (m : BackendMessage) : ∀ (fields : List FieldDescriptor) (ms : List BackendMessage),
      rowsFrom fields (ms ++ [m]) = rowsFrom fields ms ++ if m.type = BackendMsg.DataRow then
          [parseDataRow (ms.foldl (fun fields m =>
            if m.type = BackendMsg.RowDescription then parseRowDescription m.body else fields) fields) m.body]
        else []
  | fields, [] => by
    have hne : BackendMsg.DataRow ≠ BackendMsg.RowDescription := by decide
    by_cases hd : m.type = BackendMsg.DataRow
    · simp [rowsFrom, hd, hne]
    · simp [rowsFrom, hd]
  | fields, n :: ms => by
    simp only [cons_append, rowsFrom, foldl_cons]
    by_cases ht : n.type = BackendMsg.RowDescription
    · simp only [ht, if_true, rowsFrom_concat m (parseRowDescription n.body) ms]
    · simp only [ht, if_false]
      split
      · rw [rowsFrom_concat m fields ms, cons_append]
      · exact rowsFrom_concat m fields ms

theorem rowsOf_concat (ms : List BackendMessage) (m : BackendMessage) : rowsOf (ms ++ [m]) = rowsOf ms ++
      if m.type = BackendMsg.DataRow then [parseDataRow (fieldsOf ms) m.body] else [] :=
  rowsFrom_concat m [] ms

theorem errorOf_concat {ms : List BackendMessage} (h : errorOf ms = none) (m : BackendMessage) :
    errorOf (ms ++ [m]) = if m.type = BackendMsg.ErrorResponse then some (parseError m.body) else none := by
  unfold errorOf at h ⊢
  rw [Option.map_eq_none_iff] at h
  rw [find?_append, h]
  by_cases hm : m.type = BackendMsg.ErrorResponse <;> simp [hm]

/-! ## Sessions -/

def FrontendMessage.isCommand : FrontendMessage → Bool
  | .query _ | .extendedQuery _ _ => true
  | _ => false

/-- The commands written so far. -/
def PgConnection.commands (conn : PgConnection) : List FrontendMessage :=
  conn.written.filter FrontendMessage.isCommand

/-- A connection with what its server has sent: the responses that a ReadyForQuery has closed, and
the messages since. -/
structure Session where
  conn : PgConnection
  answered : List (List BackendMessage) := []
  current : List BackendMessage := []
  socketOpen : Bool := true

namespace Session

/-- The messages received for the `i`-th command. -/
def response (s : Session) (i : Nat) : List BackendMessage := ((s.answered ++ [s.current])[i]?).getD []

/-- The server's side of an event. -/
def observe (s : Session) : Event → Session
  | .message m _ =>
    if m.type = BackendMsg.ReadyForQuery then { s with answered := s.answered ++ [s.current], current := [] }
    else if ignorable m.type then s
    else { s with current := s.current ++ [m] }
  | .socketError _ | .socketClose => { s with socketOpen := false }
  | _ => s

def step (crypto : Crypto) (opts : PgConnectOptions) (s : Session) (e : Event) : Session :=
  { s.observe e with conn := Postgres.step crypto opts s.conn e }

/-- A message that a well-formed backend may send now: one that answers nothing, the next message of
the response to the one unanswered command, or the ReadyForQuery that closes it. -/
def MaySend (s : Session) (m : BackendMessage) : Prop :=
  s.socketOpen = true ∧ (ignorable m.type ∨ s.answered.length < s.conn.commands.length ∧ ∃ p, phase s.current = some p ∧
        if m.type = BackendMsg.ReadyForQuery then p = .completed ∨ p = .failed else (p.next m.type).isSome)

/-- The events of a session whose backend is well formed. -/
def WellFormed (s : Session) : Event → Prop
  | .message m _ => s.MaySend m
  | _ => True

/-- The command of a call that goes on from a ready connection can be written: its parameters have
texts, and their count fits a Bind message. -/
def Writable (s : Session) : Event → Prop
  | .turn => s.conn.state = .ready → ∀ i rest c, s.conn.turns = i :: rest → s.conn.calls[i]? = some c → c.command.isSome
  | _ => True

/-- The outcome `o` is what the command of the `i`-th call was answered. -/
def Replied (s : Session) (i : Nat) (o : Outcome) : Prop :=
  ∃ c, s.conn.calls[i]? = some c ∧ o = c.reply (s.response i) ∧ (i < s.answered.length ∨ i = s.answered.length ∧ errorOf s.current ≠ none)

/-- The outcome `o` is a failure of the connection, not of the command of the `i`-th call. -/
def Dropped (s : Session) (i : Nat) (o : Outcome) : Prop :=
  s.conn.state = .closed ∧ ∃ c, s.conn.calls[i]? = some c ∧ c.fails o

def Settled (s : Session) (i : Nat) : Prop := ∃ o, (i, o) ∈ s.conn.settled

/-- Command serialisation. -/
structure Serialised (s : Session) : Prop where
  /-- Commands are sent in call order. -/
  sent : (s.conn.calls.take s.conn.commands.length).map Call.command = s.conn.commands.map some
  /-- At most one is unanswered. -/
  outstanding : s.conn.commands.length ≤ s.answered.length + 1
  /-- A call settles once, -/
  once : (s.conn.settled.map Prod.fst).Nodup
  /-- with its own reply, or with a failure on a closed connection. -/
  own : ∀ i o, (i, o) ∈ s.conn.settled → s.Replied i o ∨ s.Dropped i o
  /-- A stream is given the rows of its own command, in order. -/
  rows : ∀ i c, s.conn.calls[i]? = some c → (s.conn.streamed.filter (·.1 == i)).map Prod.snd = c.streamRows (s.response i)
  /-- A command that has been answered has settled its call. -/
  settled : s.conn.state ≠ .closed → ∀ i < s.answered.length, s.Settled i
  /-- When every command is answered and no call is on its way, every call has settled. -/
  quiet : s.conn.state ≠ .closed → s.conn.turns = [] → s.conn.commands.length = s.answered.length → ∀ i < s.conn.calls.length, s.Settled i
  /-- After the socket has closed, every call has settled once the calls on their way have gone on. -/
  closed : s.socketOpen = false → s.conn.turns = [] → ∀ i < s.conn.calls.length, s.Settled i

end Session

/-! ## What a session keeps -/

/-- The calls that have not gone on are the last ones, in order: those at the gate after those past it. -/
structure Order (calls : List Call) (turns waiters : List Nat) (k : Nat) : Prop where
  le : k ≤ calls.length
  queue : turns ++ waiters = List.range' k (calls.length - k)

/-- The commands sent are those of the first calls, at most one more than were answered. -/
structure Sent (calls : List Call) (commands : List FrontendMessage) (answered : Nat) (current : List BackendMessage) (k : Nat) : Prop where
  le : commands.length ≤ k
  sent : (calls.take commands.length).map Call.command = commands.map some
  answeredLe : answered ≤ commands.length
  outstanding : commands.length ≤ answered + 1
  resting : commands.length = answered → current = []

/-- Streams have been given the rows received for them. -/
structure Streams (calls : List Call) (streamed : List (Nat × PgRow)) (response : Nat → List BackendMessage) (k : Nat) : Prop where
  lt : ∀ p ∈ streamed, p.1 < k
  rows : ∀ i c, calls[i]? = some c → (streamed.filter (·.1 == i)).map Prod.snd = c.streamRows (response i)

namespace Session

/-- Every call that has gone on has settled, rightly, or is held in the slot of its kind. -/
structure Outcomes (s : Session) (k : Nat) : Prop where
  once : (s.conn.settled.map Prod.fst).Nodup
  lt : ∀ p ∈ s.conn.settled, p.1 < k
  own : ∀ i o, (i, o) ∈ s.conn.settled → s.Replied i o ∨ s.Dropped i o
  accounted : ∀ i < k, s.Settled i ∨ s.conn.queryReject = some i ∨ s.conn.streamTarget = some i
  rejectSlot : ∀ j, s.conn.queryReject = some j → j < k ∧ ∃ sql params, s.conn.calls[j]? = some (.query sql params)
  streamSlot : ∀ j, s.conn.streamTarget = some j → j < k ∧ ∃ sql, s.conn.calls[j]? = some (.queryStream sql)

/-- The call `n` holds the connection while its response comes in. -/
def Holds (s : Session) (n : Nat) : Call → Prop
  | .query _ _ =>
    s.conn.queryResolve = some n ∧ s.conn.queryReject = some n ∧ s.conn.streamTarget = none ∧ s.conn.queryRows = rowsOf s.current
  | .queryStream _ => s.conn.queryResolve = none ∧ s.conn.queryReject = none ∧ s.conn.streamTarget = some n

/-- No call holds the connection. -/
def Vacant (s : Session) : Prop :=
  s.conn.queryResolve = none ∧ s.conn.queryReject = none ∧ s.conn.streamTarget = none

/-- The response to the command of call `n` is coming in. -/
structure Answering (s : Session) (n : Nat) (c : Call) (p : Phase) : Prop where
  phase : phase s.current = some p
  fields : p = .rows → s.conn.fields = fieldsOf s.current
  tag : p = .completed → s.conn.queryCommand = tagOf s.current
  intact : p ≠ .failed → errorOf s.current = none ∧ s.Holds n c ∧ (s.conn.state = .query ∨ s.conn.state = .closed)
  failed : p = .failed → errorOf s.current ≠ none ∧ s.Vacant ∧ s.Settled n ∧ (s.conn.state = .ready ∨ s.conn.state = .closed)

/-- Between commands, an open connection is ready and every call that has gone on was sent. -/
def Resting (s : Session) (k : Nat) : Prop :=
  s.conn.state ≠ .closed → s.conn.state = .ready ∧ k = s.conn.commands.length ∧ s.Vacant

/-- Who has the gate: nobody, a call that has not gone on, the unanswered command, or, after the
socket has closed, the calls that were woken. -/
inductive Lane (s : Session) (k : Nat) : Prop where
  | idle (hopen : s.socketOpen = true) (hbusy : s.conn.busy = false) (hturns : s.conn.turns = [])
      (hwaiters : s.conn.gateWaiters = []) (hsent : s.conn.commands.length = s.answered.length) (hrest : s.Resting k)
  | granted (hopen : s.socketOpen = true) (hbusy : s.conn.busy = true) (hturns : s.conn.turns = [k])
      (hsent : s.conn.commands.length = s.answered.length) (hrest : s.Resting k)
  | answering (hopen : s.socketOpen = true) (hbusy : s.conn.busy = true) (hturns : s.conn.turns = [])
      (hk : k = s.answered.length + 1) (hsent : s.conn.commands.length = s.answered.length + 1) (c : Call)
      (hc : s.conn.calls[s.answered.length]? = some c) (p : Phase) (h : s.Answering s.answered.length c p)
  | closed (hopen : s.socketOpen = false) (hstate : s.conn.state = .closed) (hrest : s.conn.queryReject = none)
      (hstream : s.conn.streamTarget = none) (hbusy : s.conn.busy = true → s.conn.turns ≠ [])
      (hwaiters : s.conn.busy = false → s.conn.gateWaiters = [])

/-- What every step keeps; `k` calls have gone on. -/
structure Kept (s : Session) (k : Nat) : Prop where
  order : Order s.conn.calls s.conn.turns s.conn.gateWaiters k
  sent : Sent s.conn.calls s.conn.commands s.answered.length s.current k
  streams : Streams s.conn.calls s.conn.streamed s.response k
  outcomes : s.Outcomes k
  lane : s.Lane k

end Session

/-! ## From the invariant to serialisation -/

section

variable {s : Session} {k : Nat}

theorem Order.head {calls : List Call} {turns waiters : List Nat} {i : Nat} {rest : List Nat}
    (h : Order calls turns waiters k) (ht : turns = i :: rest) : i = k ∧ k < calls.length ∧
      rest ++ waiters = List.range' (k + 1) (calls.length - (k + 1)) := by
  have hq := h.queue
  rw [ht] at hq
  cases hn : calls.length - k with
  | zero => rw [hn] at hq; cases hq
  | succ n =>
    rw [hn, List.range'_succ, cons_append, List.cons.injEq] at hq
    have hn' : calls.length - (k + 1) = n := by omega
    exact ⟨hq.1, by omega, by rw [hn']; exact hq.2⟩

theorem Order.drained {calls : List Call} {turns waiters : List Nat} (h : Order calls turns waiters k)
    (ht : turns = []) (hw : waiters = []) : k = calls.length := by
  have hq := congrArg List.length h.queue
  have := h.le
  rw [ht, hw, length_range'] at hq
  simp only [append_nil, length_nil] at hq
  omega

theorem Session.Outcomes.settled_of_vacant (h : s.Outcomes k) (hr : s.conn.queryReject = none)
    (hs : s.conn.streamTarget = none) : ∀ i < k, s.Settled i := by
  intro i hi
  rcases h.accounted i hi with h | h | h
  · exact h
  · rw [hr] at h; cases h
  · rw [hs] at h; cases h

theorem Session.Kept.serialised (h : s.Kept k) : s.Serialised := by
  obtain ⟨horder, hsent, hstreams, hout, hlane⟩ := h
  refine ⟨hsent.sent, hsent.outstanding, hout.once, hout.own, hstreams.rows, ?_, ?_, ?_⟩
  · intro hstate i hi
    have hik : i < k := by have := hsent.answeredLe; have := hsent.le; omega
    cases hlane with
    | idle _ _ _ _ _ hrest => exact hout.settled_of_vacant (hrest hstate).2.2.2.1 (hrest hstate).2.2.2.2 i hik
    | granted _ _ _ _ hrest => exact hout.settled_of_vacant (hrest hstate).2.2.2.1 (hrest hstate).2.2.2.2 i hik
    | answering _ _ _ _ _ c _ p ha =>
      rcases hout.accounted i hik with h | h | h
      · exact h
      all_goals
        by_cases hp : p = .failed
        · have hv := (ha.failed hp).2.1
          simp [hv.2.1, hv.2.2] at h
        · have hh := (ha.intact hp).2.1
          cases c <;> simp [Session.Holds] at hh <;> simp [hh] at h <;> omega
    | closed _ hc => exact absurd hc hstate
  · intro hstate hturns hall i hi
    cases hlane with
    | idle _ _ _ hwaiters _ hrest =>
      rw [← horder.drained hturns hwaiters] at hi
      exact hout.settled_of_vacant (hrest hstate).2.2.2.1 (hrest hstate).2.2.2.2 i hi
    | granted _ _ ht => rw [ht] at hturns; cases hturns
    | answering _ _ _ _ hlen => omega
    | closed _ hc => exact absurd hc hstate
  · intro hopen hturns i hi
    cases hlane with
    | idle ho => rw [hopen] at ho; cases ho
    | granted ho => rw [hopen] at ho; cases ho
    | answering ho => rw [hopen] at ho; cases ho
    | closed _ _ hr hs hbusy hwaiters =>
      have hb : s.conn.busy = false := by
        cases hb : s.conn.busy with
        | false => rfl
        | true => exact absurd hturns (hbusy hb)
      rw [← horder.drained hturns (hwaiters hb)] at hi
      exact hout.settled_of_vacant hr hs i hi

end

end StreetJS.Postgres
