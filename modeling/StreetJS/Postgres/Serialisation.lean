/-
Command serialisation on one connection, over every interleaving of calls with a well-formed backend
stream: each sent command is answered by its rows and one ending, then one ReadyForQuery. Commands are
sent in call order with at most one unanswered, and a call settles with what its own command was
answered. A parameter that cannot be written into a Bind message leaves the gate shut behind its call:
nothing was sent, so no ReadyForQuery comes, and the calls after it wait until the socket closes.
-/
import StreetJS.Postgres.Gate

namespace StreetJS.Postgres

open StreetJS.Lib PgConnection List

/-! ## The step of a message -/

theorem handleMessage_ignorable (crypto : Crypto) (opts : PgConnectOptions) (conn : PgConnection)
    {m : BackendMessage} (h : ignorable m.type) (cNonce : Text) : conn.handleMessage crypto opts m cNonce = conn := by
  obtain ⟨h1, h2, h3, h4, h5, h6, h7⟩ := h
  simp only [handleMessage, h1, h2, h3, h4, h5, h6, h7, if_false]

theorem Sent.receive {calls : List Call} {commands : List FrontendMessage} {answered k : Nat}
    {current : List BackendMessage} (h : Sent calls commands answered current k)
    (hl : commands.length = answered + 1) (current' : List BackendMessage) :
    Sent calls commands answered current' k :=
  ⟨h.le, h.sent, h.answeredLe, h.outstanding, fun heq => by omega⟩

namespace Session

variable {s s' : Session} {k : Nat}

theorem response_lt {i : Nat} (hi : i < s.answered.length) : s.response i = s.answered[i] := by
  unfold response
  rw [getElem?_append_left hi, getElem?_eq_getElem hi]
  rfl

variable {m : BackendMessage}

theorem response_receive {conn : PgConnection} {i : Nat} (hi : i ≠ s.answered.length) :
    ({ s with conn, current := s.current ++ [m] } : Session).response i = s.response i := by
  rcases Nat.lt_or_gt_of_ne hi with hlt | hgt
  · rw [response_lt hlt]
    exact response_lt (s := { s with conn, current := s.current ++ [m] }) hlt
  · rw [response_unanswered hgt]
    exact response_unanswered (s := { s with conn, current := s.current ++ [m] }) hgt

theorem response_receive_self (s : Session) (m : BackendMessage) (conn : PgConnection) :
    ({ s with conn, current := s.current ++ [m] } : Session).response s.answered.length = s.current ++ [m] :=
  response_current _

theorem Replied.receive {i : Nat} {o : Outcome} (h : s.Replied i o) (he : errorOf s.current = none)
    (m : BackendMessage) {conn : PgConnection} (hcalls : conn.calls = s.conn.calls) :
    ({ s with conn, current := s.current ++ [m] } : Session).Replied i o := by
  obtain ⟨c, hc, ho, hi | ⟨-, hne⟩⟩ := h
  · refine ⟨c, ?_, ?_, .inl hi⟩
    · exact hcalls ▸ hc
    · rw [response_receive (Nat.ne_of_lt hi)]; exact ho
  · exact absurd he hne

theorem streams_receive (h : Streams s.conn.calls s.conn.streamed s.response k) (hm : m.type ≠ BackendMsg.DataRow) (conn : PgConnection) :
    Streams s.conn.calls s.conn.streamed ({ s with conn, current := s.current ++ [m] } : Session).response k := by
  refine ⟨h.lt, fun i c hc => ?_⟩
  by_cases hi : i = s.answered.length
  · subst hi
    rw [h.rows _ c hc, response_current, response_receive_self]
    cases c with
    | query sql params => rfl
    | queryStream sql => simp only [Call.streamRows, rowsOf_concat, if_neg hm, append_nil]
  · rw [response_receive hi]; exact h.rows i c hc

theorem Kept.receive (h : s.Kept k) (hsent : s.conn.commands.length = s.answered.length + 1)
    (hopen : s.socketOpen = true) (hbusy : s.conn.busy = true) (hturns : s.conn.turns = [])
    (hk : k = s.answered.length + 1) {c : Call} (hc : s.conn.calls[s.answered.length]? = some c) {p p' : Phase}
    (ha : s.Answering s.answered.length c p) (hp : p ≠ .failed) (hnext : p.next m.type = some p')
    (hp' : p' ≠ .failed) (hm : m.type ≠ BackendMsg.ErrorResponse) {fields : List FieldDescriptor}
    {rows : List PgRow} {tag : Text} {streamed : List (Nat × PgRow)}
    (hfields : p' = .rows → fields = fieldsOf (s.current ++ [m]))
    (htag : p' = .completed → tag = tagOf (s.current ++ [m]))
    (hrows : ∀ sql params, c = .query sql params → rows = rowsOf (s.current ++ [m]))
    (hstreams : Streams s.conn.calls streamed ({ s with current := s.current ++ [m] } : Session).response k) :
    Kept { s with
      conn := { s.conn with fields, queryRows := rows, queryCommand := tag, streamed }
      current := s.current ++ [m] } k := by
  obtain ⟨horder, hsnt, -, hout, -⟩ := h
  obtain ⟨hphase, -, -, hintact, -⟩ := ha
  obtain ⟨herr, hholds, hstate⟩ := hintact hp
  refine ⟨horder, hsnt.receive hsent _, hstreams, ?_, ?_⟩
  · exact hout.grow rfl ⟨[], (append_nil _).symm⟩ rfl rfl id fun i o hr => hr.receive herr m rfl
  · refine .answering hopen hbusy hturns hk hsent c hc p'
      ⟨by rw [phase_concat, hphase]; exact hnext, hfields, htag, fun _ => ⟨?_, ?_, hstate⟩, fun hf => absurd hf hp'⟩
    · rw [errorOf_concat herr, if_neg hm]
    · cases c with
      | query sql params => exact ⟨hholds.1, hholds.2.1, hholds.2.2.1, hrows sql params rfl⟩
      | queryStream sql => exact hholds

theorem streams_row (h : Streams s.conn.calls s.conn.streamed s.response k) {n : Nat} (hn : n = s.answered.length)
    (hk : n < k) {sql : Text} (hc : s.conn.calls[n]? = some (.queryStream sql))
    (hm : m.type = BackendMsg.DataRow) :
    Streams s.conn.calls (s.conn.streamed ++ [(n, parseDataRow (fieldsOf s.current) m.body)])
      ({ s with current := s.current ++ [m] } : Session).response k := by
  refine ⟨?_, fun i c hi => ?_⟩
  · intro p hp
    rcases mem_append.1 hp with hp | hp
    · exact h.lt p hp
    · rw [mem_singleton.1 hp]; exact hk
  · rw [filter_append, map_append, h.rows i c hi]
    by_cases hin : i = n
    · subst hin
      rw [hc] at hi
      cases hi
      have hr : ({ s with current := s.current ++ [m] } : Session).response s.answered.length = s.current ++ [m] :=
        response_receive_self s m s.conn
      rw [hn, hr, response_current]
      simp [Call.streamRows, rowsOf_concat, hm]
    · have hr : ({ s with current := s.current ++ [m] } : Session).response i = s.response i :=
        response_receive (hn ▸ hin)
      rw [hr]
      simp [Ne.symm hin]

theorem streams_query_row (h : Streams s.conn.calls s.conn.streamed s.response k) {sql : Text} {params : List Param}
    (hc : s.conn.calls[s.answered.length]? = some (.query sql params)) (m : BackendMessage) :
    Streams s.conn.calls s.conn.streamed ({ s with current := s.current ++ [m] } : Session).response k := by
  refine ⟨h.lt, fun i c hi => ?_⟩
  rw [h.rows i c hi]
  by_cases hin : i = s.answered.length
  · subst hin
    rw [hc] at hi
    cases hi
    rfl
  · have hr : ({ s with current := s.current ++ [m] } : Session).response i = s.response i := response_receive hin
    rw [hr]

end Session

/-! ## Endings of a response -/

theorem Phase.next_cases {p p' : Phase} {type : UInt8} (h : p.next type = some p') : p ≠ .failed ∧ p ≠ .completed ∧
      (type = BackendMsg.RowDescription ∧ p' = .rows ∨ type = BackendMsg.DataRow ∧ p = .rows ∧ p' = .rows ∨
        (type = BackendMsg.CommandComplete ∨ type = BackendMsg.EmptyQuery) ∧ p' = .completed ∨
        type = BackendMsg.ErrorResponse ∧ p' = .failed) := by
  unfold Phase.next at h
  split at h
  · rename_i hc
    cases h
    rw [hc.1]
    exact ⟨nofun, nofun, .inl ⟨hc.2, rfl⟩⟩
  · split at h
    · rename_i hc
      cases h
      rw [hc.1]
      exact ⟨nofun, nofun, .inr (.inl ⟨hc.2, rfl, rfl⟩)⟩
    · split at h
      · rename_i hc
        cases h
        exact ⟨by rcases hc.1 with h | h <;> rw [h] <;> nofun, by rcases hc.1 with h | h <;> rw [h] <;> nofun, .inr (.inr (.inl ⟨hc.2, rfl⟩))⟩
      · split at h
        · rename_i hc
          cases h
          exact ⟨by rcases hc.1 with h | h <;> rw [h] <;> nofun, by rcases hc.1 with h | h <;> rw [h] <;> nofun,
            .inr (.inr (.inr ⟨hc.2, rfl⟩))⟩
        · cases h

/-- What a call comes to by an error. -/
def Call.failure (e : String) : Call → Outcome
  | .query _ _ => .rejected e
  | .queryStream _ => .destroyed e

namespace Session

variable {s s' : Session} {k n : Nat} {c : Call}

theorem handleError_spec (hh : s.Holds n c) (hstate : s.conn.state = .query ∨ s.conn.state = .closed) (body : Bytes) :
    s.conn.handleError body = { s.conn.settle n (c.failure (parseError body)) with
      state := if s.conn.state = .query then .ready else s.conn.state
      queryResolve := none, queryReject := none, streamTarget := none } := by
  have hleave : s.conn.leaveQuery = { s.conn with state := if s.conn.state = .query then .ready else s.conn.state } := by
    unfold leaveQuery
    split <;> rfl
  have hauth : s.conn.leaveQuery.state ≠ .authenticating := by
    rw [hleave]
    rcases hstate with h | h <;> simp [h]
  unfold handleError
  rw [if_neg hauth, hleave]
  cases c with
  | query sql params =>
    obtain ⟨-, hr, hst, -⟩ := hh
    simp only [failCommand, hst, rejectQuery, hr]
    unfold settle
    by_cases hset : s.conn.settled.any (·.1 == n) = true <;> simp [hset, hst, Call.failure]
  | queryStream sql =>
    obtain ⟨-, hr, hst⟩ := hh
    simp only [failCommand, hst, destroyStream]
    unfold settle
    by_cases hset : s.conn.settled.any (·.1 == n) = true <;> simp [hset, hr, Call.failure]

theorem completeCommand_spec (hh : s.Holds n c) (hcmd : s.conn.queryCommand = tagOf s.current) (herr : errorOf s.current = none) :
    s.conn.completeCommand = { s.conn.settle n (c.reply s.current) with
      state := .ready, queryRows := [], queryCommand := [], queryResolve := none, queryReject := none
      streamTarget := none, fields := [] } := by
  cases c with
  | query sql params =>
    obtain ⟨hres, hr, hst, hrows⟩ := hh
    simp only [completeCommand, hst, hres, Call.reply, herr, hrows, hcmd]
    unfold settle
    split <;> rfl
  | queryStream sql =>
    obtain ⟨hres, hr, hst⟩ := hh
    simp only [completeCommand, hst, Call.reply, herr]
    unfold settle
    split <;> rfl

end Session

namespace Session

variable {s s' : Session} {k : Nat} {c : Call}

theorem Holds.reject_eq {n j : Nat} (h : s.Holds n c) (hj : s.conn.queryReject = some j) : j = n := by
  cases c with
  | query sql params => rw [h.2.1] at hj; cases hj; rfl
  | queryStream sql => rw [h.2.1] at hj; cases hj

theorem Holds.stream_eq {n j : Nat} (h : s.Holds n c) (hj : s.conn.streamTarget = some j) : j = n := by
  cases c with
  | query sql params => rw [h.2.2.1] at hj; cases hj
  | queryStream sql => rw [h.2.2] at hj; cases hj; rfl

theorem Kept.error (h : s.Kept k) (hsent : s.conn.commands.length = s.answered.length + 1)
    (hopen : s.socketOpen = true) (hbusy : s.conn.busy = true) (hturns : s.conn.turns = [])
    (hk : k = s.answered.length + 1) (hc : s.conn.calls[s.answered.length]? = some c) {p : Phase}
    (ha : s.Answering s.answered.length c p) (hp : p ≠ .failed) {m : BackendMessage}
    (hnext : p.next m.type = some .failed) (hm : m.type = BackendMsg.ErrorResponse) :
    Kept { s with conn := s.conn.handleError m.body, current := s.current ++ [m] } k := by
  obtain ⟨horder, hsnt, hstreams, hout, -⟩ := h
  obtain ⟨hphase, -, -, hintact, -⟩ := ha
  obtain ⟨herr, hholds, hstate⟩ := hintact hp
  have herr' : errorOf (s.current ++ [m]) = some (parseError m.body) := by rw [errorOf_concat herr, if_pos hm]
  have hreply : c.failure (parseError m.body) = c.reply (s.current ++ [m]) := by
    cases c <;> simp only [Call.failure, Call.reply, herr']
  rw [handleError_spec hholds hstate]
  obtain ⟨l, hl, hadds⟩ := settle_spec s.conn s.answered.length (c.failure (parseError m.body))
  rw [hl]
  refine ⟨horder, hsnt.receive hsent _, ?_, ?_, ?_⟩
  · exact streams_receive hstreams (by rw [hm]; decide) _
  · refine hout.settle (i := s.answered.length) hadds (by omega) (Nat.le_refl k) (fun j hj => .inl hj) rfl
      (.inl ⟨c, hc, ?_, .inr ⟨rfl, ?_⟩⟩) (fun j hj => .inr (hholds.reject_eq hj)) (by simp)
      (fun j hj => .inr (hholds.stream_eq hj)) (by simp) (fun hcl => ?_) (fun i o hr => hr.receive herr m rfl)
    · rw [hreply, response_receive_self]
    · intro hnone
      rw [show errorOf (s.current ++ [m]) = none from hnone] at herr'
      cases herr'
    · simp only [hcl, reduceCtorEq, if_false]
  · refine .answering hopen hbusy hturns hk hsent c hc .failed
      ⟨by rw [phase_concat, hphase]; exact hnext, by simp, by simp, fun hf => absurd rfl hf, fun _ => ⟨?_, ⟨rfl, rfl, rfl⟩, hadds.self, ?_⟩⟩
    · rw [herr']; simp
    · rcases hstate with hq | hcl
      · exact .inl (by simp only [hq, if_true])
      · exact .inr (by simp only [hcl, reduceCtorEq, if_false])

theorem response_close (s : Session) (conn : PgConnection) (i : Nat) :
    ({ s with conn, answered := s.answered ++ [s.current], current := [] } : Session).response i = s.response i := by
  unfold response
  simp only
  by_cases hi : i < (s.answered ++ [s.current]).length
  · rw [getElem?_append_left hi]
  · rw [getElem?_append_right (Nat.le_of_not_lt hi), getElem?_eq_none (Nat.le_of_not_lt hi)]
    cases h : i - (s.answered ++ [s.current]).length <;> rfl

theorem Replied.close {i : Nat} {o : Outcome} (h : s.Replied i o) {conn : PgConnection} (hcalls : conn.calls = s.conn.calls) :
    ({ s with conn, answered := s.answered ++ [s.current], current := [] } : Session).Replied i o := by
  obtain ⟨c, hc, ho, hi⟩ := h
  refine ⟨c, hcalls ▸ hc, by rw [response_close]; exact ho, .inl ?_⟩
  rw [length_append, length_singleton]
  rcases hi with hi | ⟨rfl, -⟩
  · exact Nat.lt_succ_of_lt hi
  · exact Nat.lt_succ_self _

theorem Kept.release {conn : PgConnection} (hopen : s.socketOpen = true) (hbusy : conn.busy = true)
    (hturns : conn.turns = []) (horder : Order conn.calls conn.turns conn.gateWaiters k)
    (hsent : Sent conn.calls conn.commands s.answered.length s.current k)
    (hlen : conn.commands.length = s.answered.length)
    (hstreams : Streams conn.calls conn.streamed s.response k) (hout : Outcomes { s with conn } k)
    (hrest : Resting { s with conn } k) : Kept { s with conn := conn.release } k := by
  rw [release_spec, hturns]
  refine ⟨⟨horder.le, ?_⟩, hsent, hstreams, ?_, ?_⟩
  · have hq := horder.queue
    rw [hturns, nil_append] at hq
    simp only [nil_append, take_append_drop]
    exact hq
  · exact hout.grow rfl ⟨[], (append_nil _).symm⟩ rfl rfl id fun i o hr => hr.same rfl rfl rfl
  · have hq := horder.queue
    rw [hturns, nil_append] at hq
    cases hw : conn.gateWaiters with
    | nil => exact .idle hopen (by simp) (by simp) (by simp) hlen hrest
    | cons w ws =>
      rw [hw] at hq
      have hwk : w = k := by
        cases hn : conn.calls.length - k with
        | zero => rw [hn] at hq; cases hq
        | succ n => rw [hn, List.range'_succ] at hq; exact (List.cons.inj hq).1
      exact .granted hopen (by simpa using hbusy) (by simp [hwk]) hlen hrest

theorem Kept.ready (h : s.Kept k) (hsent : s.conn.commands.length = s.answered.length + 1)
    (hopen : s.socketOpen = true) (hbusy : s.conn.busy = true) (hturns : s.conn.turns = [])
    (hk : k = s.answered.length + 1) (hc : s.conn.calls[s.answered.length]? = some c) {p : Phase}
    (ha : s.Answering s.answered.length c p) (hp : p = .completed ∨ p = .failed) :
    Kept { s with conn := s.conn.handleReady, answered := s.answered ++ [s.current], current := [] } k := by
  obtain ⟨horder, hsnt, hstreams, hout, -⟩ := h
  have hlen : (s.answered ++ [s.current]).length = s.answered.length + 1 := by
    rw [length_append, length_singleton]
  have hsent' : Sent s.conn.calls s.conn.commands (s.answered ++ [s.current]).length [] k :=
    ⟨hsnt.le, hsnt.sent, by omega, by omega, fun _ => rfl⟩
  have hstreams' : ∀ conn : PgConnection, Streams s.conn.calls s.conn.streamed
      ({ s with conn, answered := s.answered ++ [s.current], current := [] } : Session).response k :=
    fun conn => ⟨hstreams.lt, fun i c hi => by rw [response_close]; exact hstreams.rows i c hi⟩
  by_cases hq : s.conn.state = .query
  · -- only a completed command is still in state `query`
    have hpc : p = .completed := by
      rcases hp with hp | hp
      · exact hp
      · rcases (ha.failed hp).2.2.2 with h | h <;> rw [h] at hq <;> cases hq
    obtain ⟨herr, hholds, -⟩ := ha.intact (by rw [hpc]; nofun)
    have hready : s.conn.handleReady = s.conn.completeCommand.release := by
      unfold handleReady
      rw [if_neg (by rw [hq]; nofun), if_pos hq, completeCommand_spec hholds (ha.tag hpc) herr]
      unfold releaseHeld
      obtain ⟨l, hl, -⟩ := settle_spec s.conn s.answered.length (c.reply s.current)
      rw [hl, if_pos hbusy]
    rw [hready, completeCommand_spec hholds (ha.tag hpc) herr]
    obtain ⟨l, hl, hadds⟩ := settle_spec s.conn s.answered.length (c.reply s.current)
    rw [hl]
    refine Kept.release (s := { s with answered := s.answered ++ [s.current], current := [] }) hopen hbusy hturns horder
      hsent' (hsent.trans hlen.symm) (hstreams' s.conn) ?_ (fun _ => ⟨rfl, hk.trans hsent.symm, rfl, rfl, rfl⟩)
    refine hout.settle (i := s.answered.length) hadds (by omega) (Nat.le_refl k) (fun j hj => .inl hj) rfl
      (.inl ⟨c, hc, ?_, .inl ?_⟩) (fun j hj => .inr (hholds.reject_eq hj)) nofun
      (fun j hj => .inr (hholds.stream_eq hj)) nofun (fun hcl => by rw [hcl] at hq; cases hq)
      (fun i o hr => hr.close rfl)
    · rw [response_close, response_current]
    · rw [hlen]; exact Nat.lt_succ_self _
  · have hready : s.conn.handleReady = s.conn.release := by
      have hauth : s.conn.state ≠ .authenticating := by
        by_cases hf : p = .failed
        · rcases (ha.failed hf).2.2.2 with h | h <;> rw [h] <;> nofun
        · rcases (ha.intact hf).2.2 with h | h <;> rw [h] <;> nofun
      unfold handleReady
      rw [if_neg hauth, if_neg hq, releaseHeld, if_pos hbusy]
    rw [hready]
    refine Kept.release (s := { s with answered := s.answered ++ [s.current], current := [] }) hopen hbusy hturns horder
      hsent' (hsent.trans hlen.symm) (hstreams' s.conn) ?_ ?_
    · exact hout.grow rfl ⟨[], (append_nil _).symm⟩ rfl rfl id fun i o hr => hr.close rfl
    · intro hcl
      have hf : p = .failed := by
        by_contra hf
        rcases (ha.intact hf).2.2 with h | h
        · exact hq h
        · exact hcl h
      obtain ⟨-, hv, -, hst⟩ := ha.failed hf
      rcases hst with h | h
      · exact ⟨h, hk.trans hsent.symm, hv⟩
      · exact absurd h hcl

end Session

variable {conn : PgConnection}

theorem handleRow_query (h : conn.streamTarget = none) (body : Bytes) :
    conn.handleRow body = { conn with queryRows := conn.queryRows ++ [parseDataRow conn.fields body] } := by
  unfold handleRow
  rw [h]

theorem handleRow_stream {i : Nat} (h : conn.streamTarget = some i) (body : Bytes) :
    conn.handleRow body = { conn with streamed := conn.streamed ++ [(i, parseDataRow conn.fields body)] } := by
  unfold handleRow
  rw [h]

namespace Session

variable {s s' : Session} {k : Nat}

theorem Kept.message (h : s.Kept k) (crypto : Crypto) (opts : PgConnectOptions) {m : BackendMessage} {cNonce : Text}
    (hm : s.MaySend m) : (s.step crypto opts (.message m cNonce)).Kept k := by
  obtain ⟨hopen, hm⟩ := hm
  by_cases hi : ignorable m.type
  · have hstep : s.step crypto opts (.message m cNonce) = s := by
      simp only [step, observe, Postgres.step, handleMessage_ignorable crypto opts s.conn hi cNonce, hi.2.1, hi, if_true, if_false]
    rw [hstep]
    exact h
  · obtain ⟨hlen, p, hp, hnext⟩ := hm.resolve_left hi
    have hlane := h.lane
    cases hlane with
    | idle _ _ _ _ hs => omega
    | granted _ _ _ hs => omega
    | closed hclosed => rw [hopen] at hclosed; cases hclosed
    | answering _ hbusy hturns hk hs c hc q ha =>
      obtain rfl : q = p := Option.some.inj (ha.phase.symm.trans hp)
      by_cases hz : m.type = BackendMsg.ReadyForQuery
      · have hstep : s.step crypto opts (.message m cNonce) =
            { s with conn := s.conn.handleReady, answered := s.answered ++ [s.current], current := [] } := by
          simp only [step, observe, Postgres.step, handleMessage, hz, if_true]
          rfl
        rw [hstep]
        exact h.ready hs hopen hbusy hturns hk hc ha (by simpa only [hz, if_true] using hnext)
      · rw [if_neg hz] at hnext
        obtain ⟨q', hq'⟩ := Option.isSome_iff_exists.1 hnext
        obtain ⟨hqf, hqc, htype⟩ := Phase.next_cases hq'
        obtain ⟨herr, hholds, -⟩ := ha.intact hqf
        have hstep : s.step crypto opts (.message m cNonce) =
            { s with conn := s.conn.handleMessage crypto opts m cNonce, current := s.current ++ [m] } := by
          simp only [step, observe, Postgres.step, if_neg hz, if_neg hi]
        rw [hstep]
        rcases htype with ⟨ht, rfl⟩ | ⟨ht, hrows, rfl⟩ | ⟨ht, rfl⟩ | ⟨ht, rfl⟩
        · -- RowDescription
          have hconn : s.conn.handleMessage crypto opts m cNonce =
              { s.conn with fields := parseRowDescription m.body } := by
            simp only [handleMessage, ht]; rfl
          rw [hconn]
          refine h.receive hs hopen hbusy hturns hk hc ha hqf hq' (by simp) (by rw [ht]; decide) (fun _ => ?_) (by simp) ?_
            (streams_receive h.streams (by rw [ht]; decide) s.conn)
          · rw [fieldsOf_concat, if_pos ht]
          · rintro sql params rfl
            rw [rowsOf_concat, if_neg (by rw [ht]; decide), append_nil]
            exact hholds.2.2.2
        · -- DataRow
          have hfields := ha.fields hrows
          have hconn : s.conn.handleMessage crypto opts m cNonce = s.conn.handleRow m.body := by
            simp only [handleMessage, ht]; rfl
          have hne : m.type ≠ BackendMsg.ErrorResponse := by rw [ht]; decide
          rw [hconn]
          cases c with
          | query sql params =>
            rw [handleRow_query hholds.2.2.1]
            refine h.receive hs hopen hbusy hturns hk hc ha hqf hq' (by simp) hne (fun _ => ?_) (by simp) ?_ (streams_query_row h.streams hc m)
            · rw [fieldsOf_concat, if_neg (by rw [ht]; decide)]; exact hfields
            · intro _ _ _
              rw [rowsOf_concat, if_pos ht, ← hfields, hholds.2.2.2]
          | queryStream sql =>
            rw [handleRow_stream hholds.2.2]
            refine h.receive hs hopen hbusy hturns hk hc ha hqf hq' (by simp) hne (fun _ => ?_) (by simp) (by simp) ?_
            · rw [fieldsOf_concat, if_neg (by rw [ht]; decide)]; exact hfields
            · rw [hfields]
              exact streams_row h.streams rfl (by omega) hc ht
        · -- CommandComplete and EmptyQuery
          have hconn : s.conn.handleMessage crypto opts m cNonce =
              { s.conn with queryCommand := tagOf (s.current ++ [m]) } := by
            rw [tagOf_concat]
            rcases ht with ht | ht <;> simp only [handleMessage, ht] <;> rfl
          have hne : m.type ≠ BackendMsg.DataRow := by rcases ht with ht | ht <;> rw [ht] <;> decide
          rw [hconn]
          refine h.receive hs hopen hbusy hturns hk hc ha hqf hq' (by simp)
            (by rcases ht with ht | ht <;> rw [ht] <;> decide) (by simp) (fun _ => rfl) ?_
            (streams_receive h.streams hne s.conn)
          rintro sql params rfl
          rw [rowsOf_concat, if_neg hne, append_nil]
          exact hholds.2.2.2
        · -- ErrorResponse
          have hconn : s.conn.handleMessage crypto opts m cNonce = s.conn.handleError m.body := by
            simp only [handleMessage, ht]; rfl
          rw [hconn]
          exact h.error hs hopen hbusy hturns hk hc ha hqf hq' ht

end Session

/-! ## The end of a connection -/

/-- `rejectQuery` as one update. -/
theorem rejectQuery_spec (conn : PgConnection) (e : String) :
    ∃ l, conn.rejectQuery e = { conn with settled := l, queryReject := none } ∧ (conn.queryReject = none → l = conn.settled) ∧
      ∀ j, conn.queryReject = some j → Adds conn.settled l j (.rejected e) := by
  unfold rejectQuery
  split
  · rename_i i hi
    obtain ⟨l, hl, ha⟩ := settle_spec conn i (.rejected e)
    exact ⟨l, by rw [hl], (fun h => by rw [hi] at h; cases h), fun j hj => by rw [hi] at hj; cases hj; exact ha⟩
  · rename_i hi
    exact ⟨conn.settled, by rw [← hi], fun _ => rfl, (fun j hj => by rw [hi] at hj; cases hj)⟩

/-- `destroyStream` as one update. -/
theorem destroyStream_spec (conn : PgConnection) (e : String) :
    ∃ l, conn.destroyStream e = { conn with settled := l, streamTarget := none } ∧ (conn.streamTarget = none → l = conn.settled) ∧
      ∀ j, conn.streamTarget = some j → Adds conn.settled l j (.destroyed e) := by
  unfold destroyStream
  split
  · rename_i i hi
    obtain ⟨l, hl, ha⟩ := settle_spec conn i (.destroyed e)
    exact ⟨l, by rw [hl], (fun h => by rw [hi] at h; cases h), fun j hj => by rw [hi] at hj; cases hj; exact ha⟩
  · rename_i hi
    exact ⟨conn.settled, by rw [← hi], fun _ => rfl, (fun j hj => by rw [hi] at hj; cases hj)⟩

theorem rejectAuth_spec (conn : PgConnection) (e : String) : ∃ connect authReject, conn.rejectAuth e = { conn with connect, authReject } := by
  unfold PgConnection.rejectAuth
  split
  · exact ⟨_, _, rfl⟩
  · exact ⟨conn.connect, conn.authReject, rfl⟩

namespace Session

variable {s s' : Session} {k : Nat}

theorem Outcomes.rejectQuery (h : s.Outcomes k) (hstate : s.conn.state = .closed) (e : String) :
    Outcomes { s with conn := s.conn.rejectQuery e } k := by
  obtain ⟨l, hl, hnone, hadds⟩ := rejectQuery_spec s.conn e
  rw [hl]
  cases hr : s.conn.queryReject with
  | none =>
    rw [hnone hr, ← hr]
    exact h
  | some j =>
    obtain ⟨hlt, sql, params, hc⟩ := h.rejectSlot j hr
    exact h.settle (hadds j hr) hlt (Nat.le_refl k) (fun i hi => .inl hi) rfl (.inr ⟨hstate, _, hc, e, rfl⟩)
      (fun i hi => by rw [hr] at hi; cases hi; exact .inr rfl) nofun (fun _ => .inl) (fun _ => id) id
      (fun i o hrep => hrep.same rfl rfl rfl)

theorem Outcomes.destroyStream (h : s.Outcomes k) (hstate : s.conn.state = .closed) (e : String) :
    Outcomes { s with conn := s.conn.destroyStream e } k := by
  obtain ⟨l, hl, hnone, hadds⟩ := destroyStream_spec s.conn e
  rw [hl]
  cases hr : s.conn.streamTarget with
  | none =>
    rw [hnone hr, ← hr]
    exact h
  | some j =>
    obtain ⟨hlt, sql, hc⟩ := h.streamSlot j hr
    exact h.settle (hadds j hr) hlt (Nat.le_refl k) (fun i hi => .inl hi) rfl (.inr ⟨hstate, _, hc, e, rfl⟩)
      (fun _ => .inl) (fun _ => id) (fun i hi => by rw [hr] at hi; cases hi; exact .inr rfl) nofun id
      (fun i o hrep => hrep.same rfl rfl rfl)

/-- When the socket fails or closes, the call that holds the connection is rejected and every waiting
call is woken. -/
theorem Kept.disconnect (h : s.Kept k) (e : String) (connect : ConnectPromise) (authReject : Bool) : Kept { s with
      conn := (({ s.conn with state := .closed, connect, authReject }.rejectQuery e).destroyStream e).drainGate
      socketOpen := false } k := by
  obtain ⟨horder, hsent, hstreams, hout, -⟩ := h
  have hout₁ : Outcomes { s with conn := { s.conn with state := .closed, connect, authReject } } k :=
    hout.grow rfl ⟨[], (append_nil _).symm⟩ rfl rfl (fun _ => rfl) fun i o hr => hr.same rfl rfl rfl
  have hout₂ := hout₁.rejectQuery rfl e
  obtain ⟨l₁, hl₁, -⟩ := rejectQuery_spec { s.conn with state := .closed, connect, authReject } e
  have hout₃ := hout₂.destroyStream (by simp only [hl₁]) e
  simp only [hl₁] at hout₃ ⊢
  obtain ⟨l₂, hl₂, -⟩ := destroyStream_spec
    { s.conn with state := .closed, connect, authReject, settled := l₁, queryReject := none } e
  rw [hl₂] at hout₃ ⊢
  refine ⟨⟨horder.le, ?_⟩, hsent, hstreams, ?_, .closed rfl rfl rfl rfl nofun fun _ => rfl⟩
  · simp only [drainGate, append_nil]
    exact horder.queue
  · exact hout₃.grow rfl ⟨[], (append_nil _).symm⟩ rfl rfl id fun i o hr => hr.same rfl rfl rfl

theorem Kept.close (h : s.Kept k) : Kept { s with conn := s.conn.close } k := by
  obtain ⟨horder, hsent, hstreams, hout, hlane⟩ := h
  unfold PgConnection.close
  split
  · exact ⟨horder, hsent, hstreams, hout, hlane⟩
  · have hcommands : ({ s.conn with state := .closed }.write .terminate).commands = s.conn.commands := by
      simp [commands, write, filter_append, FrontendMessage.isCommand]
    refine ⟨horder, by rw [hcommands]; exact hsent, hstreams,
      hout.grow rfl ⟨[], (append_nil _).symm⟩ rfl rfl (fun _ => rfl) fun i o hr => hr.same rfl rfl rfl, ?_⟩
    cases hlane with
    | idle hopen hbusy hturns hwaiters hs hrest =>
      exact .idle hopen hbusy hturns hwaiters (by rw [hcommands]; exact hs) (fun hne => absurd rfl hne)
    | granted hopen hbusy hturns hs hrest =>
      exact .granted hopen hbusy hturns (by rw [hcommands]; exact hs) (fun hne => absurd rfl hne)
    | answering hopen hbusy hturns hk hs c hc p ha =>
      refine .answering hopen hbusy hturns hk (by rw [hcommands]; exact hs) c hc p ⟨ha.phase, ha.fields, ha.tag, fun hp => ?_, fun hp => ?_⟩
      · obtain ⟨he, hh, -⟩ := ha.intact hp
        exact ⟨he, by cases c <;> exact hh, .inr rfl⟩
      · obtain ⟨he, hv, hs, -⟩ := ha.failed hp
        exact ⟨he, hv, hs, .inr rfl⟩
    | closed hopen hstate hr hst hbusy hwaiters => exact .closed hopen rfl hr hst hbusy hwaiters

theorem Kept.handshake (h : s.Kept k) (connect : ConnectPromise) (authReject : Bool) :
    Kept { s with conn := { s.conn with connect, authReject } } k := by
  obtain ⟨horder, hsent, hstreams, hout, hlane⟩ := h
  refine ⟨horder, hsent, hstreams, hout.grow rfl ⟨[], (append_nil _).symm⟩ rfl rfl id fun i o hr => hr.same rfl rfl rfl, ?_⟩
  cases hlane with
  | idle hopen hbusy hturns hwaiters hs hrest => exact .idle hopen hbusy hturns hwaiters hs hrest
  | granted hopen hbusy hturns hs hrest => exact .granted hopen hbusy hturns hs hrest
  | answering hopen hbusy hturns hk hs c hc p ha =>
    refine .answering hopen hbusy hturns hk hs c hc p ⟨ha.phase, ha.fields, ha.tag, fun hp => ?_, ha.failed⟩
    obtain ⟨he, hh, hst⟩ := ha.intact hp
    exact ⟨he, by cases c <;> exact hh, hst⟩
  | closed hopen hstate hr hst hbusy hwaiters => exact .closed hopen hstate hr hst hbusy hwaiters

theorem Kept.step (h : s.Kept k) (crypto : Crypto) (opts : PgConnectOptions) {e : Event} (hw : s.WellFormed e)
    (hp : s.Writable e) : ∃ k', (s.step crypto opts e).Kept k' := by
  cases e with
  | message m cNonce => exact ⟨k, h.message crypto opts hw⟩
  | call c => exact ⟨k, h.call c⟩
  | turn => exact h.turn hp
  | socketError error =>
    obtain ⟨connect, authReject, ha⟩ := rejectAuth_spec { s.conn with state := .closed } error
    have hd := h.disconnect error connect authReject
    refine ⟨k, ?_⟩
    simp only [Session.step, observe, Postgres.step, socketError, ha]
    exact hd
  | socketClose => exact ⟨k, h.disconnect _ s.conn.connect s.conn.authReject⟩
  | close => exact ⟨k, h.close⟩
  | timeout => exact ⟨k, h.handshake _ s.conn.authReject⟩
  | oversized =>
    refine ⟨k, ?_⟩
    simp only [Session.step, observe, Postgres.step, oversized]
    split
    · obtain ⟨connect, authReject, ha⟩ := rejectAuth_spec s.conn "PostgreSQL auth response too large"
      rw [ha]
      exact h.handshake connect authReject
    · exact h

end Session

/-! ## Serialisation -/

/-- A connection as `connect` returns it: ready, and no call made on it yet. -/
structure Fresh (conn : PgConnection) : Prop where
  ready : conn.state = .ready
  calls : conn.calls = []
  commands : conn.commands = []
  gate : conn.busy = false ∧ conn.turns = [] ∧ conn.gateWaiters = []
  slots : conn.queryResolve = none ∧ conn.queryReject = none ∧ conn.streamTarget = none
  outcomes : conn.settled = [] ∧ conn.streamed = []

theorem Fresh.kept (h : Fresh conn) : Session.Kept { conn } 0 := by
  obtain ⟨hready, hcalls, hcommands, ⟨hbusy, hturns, hwaiters⟩, hslots, hsettled, hstreamed⟩ := h
  refine ⟨⟨Nat.zero_le _, ?_⟩, ⟨?_, ?_, Nat.zero_le _, ?_, fun _ => rfl⟩, ⟨?_, ?_⟩, ⟨?_, ?_, ?_, nofun, ?_, ?_⟩, ?_⟩
  · simp [hturns, hwaiters, hcalls]
  · simp [hcommands]
  · simp [hcalls, hcommands]
  · simp [hcommands]
  · simp [hstreamed]
  · simp [hcalls]
  · simp [hsettled]
  · simp [hsettled]
  · simp [hsettled]
  · simp [hslots.2.1]
  · simp [hslots.2.2]
  · exact .idle rfl hbusy hturns hwaiters (by simp [hcommands]) (fun _ => ⟨hready, by simp [hcommands], hslots⟩)

theorem kept_run (crypto : Crypto) (opts : PgConnectOptions) {s : Session} (hs : ∃ k, s.Kept k) (es : List Event)
    (h : Guarded (Session.step crypto opts) (fun s e => s.WellFormed e ∧ s.Writable e) s es) :
    ∃ k, (run (Session.step crypto opts) s es).Kept k :=
  run_invariant_of_guarded (Session.step crypto opts) (P := fun s => ∃ k, s.Kept k)
    (fun _ _ ⟨_, hk⟩ hg => hk.step crypto opts hg.1 hg.2) es h hs

/-- One query and its answer. -/
def answeredQuery : List Event :=
  [.call (.query "SELECT 1".toList []), .turn, .message ⟨BackendMsg.CommandComplete, [83, 69, 84, 0]⟩ [], readyForQuery]

/-- A query with an invalid date among its parameters, and another query after it. -/
def unwritableQuery : List Event :=
  [.call (.query "SELECT $1".toList [.date (.error "Invalid time value")]), .turn, .call (.query "SELECT 1".toList [])]

end StreetJS.Postgres
