/-
The gate of a connection: a call takes its place, goes on when the command before it has been
answered, and takes the connection with its command, or fails when the connection has closed.
-/
import StreetJS.Postgres.Session

namespace StreetJS.Postgres

open StreetJS.Lib PgConnection List

/-! ## Settling and waiting -/

/-- What `settle` does to the settled calls: one is added, unless its call has settled already. -/
structure Adds (l l' : List (Nat × Outcome)) (i : Nat) (o : Outcome) : Prop where
  once : (l.map Prod.fst).Nodup → (l'.map Prod.fst).Nodup
  old : ∀ p ∈ l, p ∈ l'
  new : ∀ p ∈ l', p ∈ l ∨ p = (i, o)
  self : ∃ o', (i, o') ∈ l'

variable (conn : PgConnection)

theorem settle_spec (i : Nat) (o : Outcome) : ∃ l, conn.settle i o = { conn with settled := l } ∧ Adds conn.settled l i o := by
  unfold settle
  split
  · rename_i h
    refine ⟨conn.settled, rfl, id, fun _ => id, fun _ => .inl, ?_⟩
    obtain ⟨p, hp, hi⟩ := any_eq_true.1 h
    rw [beq_iff_eq] at hi
    exact ⟨p.2, hi ▸ hp⟩
  · rename_i h
    refine ⟨_, rfl, ?_, fun p hp => mem_append_left _ hp, ?_, o, mem_append_right _ mem_cons_self⟩
    · intro hn
      rw [map_append, nodup_append]
      refine ⟨hn, by simp, ?_⟩
      intro a ha b hb hab
      obtain ⟨p, hp, rfl⟩ := mem_map.1 ha
      simp only [map_cons, map_nil, mem_singleton] at hb
      exact h (any_eq_true.2 ⟨p, hp, by simp [hab, hb]⟩)
    · intro p hp
      simpa using hp

theorem getElem?_append_of_some {α : Type} {l : List α} {i : Nat} {a : α} (h : l[i]? = some a) (l' : List α) : (l ++ l')[i]? = some a := by
  obtain ⟨hi, rfl⟩ := List.getElem?_eq_some_iff.1 h
  rw [getElem?_append_left hi, getElem?_eq_getElem hi]

theorem acquire_spec (i : Nat) : conn.acquire i = { conn with
      busy := true
      turns := if conn.busy then conn.turns else conn.turns ++ [i]
      gateWaiters := if conn.busy then conn.gateWaiters ++ [i] else conn.gateWaiters } := by
  unfold acquire
  split <;> rename_i hb <;> simp [hb]

section

variable {k : Nat}

theorem Order.call {calls : List Call} {turns waiters : List Nat} (h : Order calls turns waiters k) (c : Call)
    {turns' waiters' : List Nat} (hq : turns' ++ waiters' = turns ++ waiters ++ [calls.length]) :
    Order (calls ++ [c]) turns' waiters' k := by
  refine ⟨?_, ?_⟩
  · rw [length_append]; have := h.le; omega
  · have hl : (calls ++ [c]).length - k = calls.length - k + 1 := by
      rw [length_append, length_singleton]; have := h.le; omega
    have hk : calls.length = k + (calls.length - k) := by have := h.le; omega
    rw [hq, h.queue, hl, List.range'_concat, Nat.one_mul, ← hk]

theorem streamRows_nil (c : Call) : c.streamRows [] = [] := by cases c <;> rfl

theorem Sent.call {calls : List Call} {commands : List FrontendMessage} {answered : Nat}
    {current : List BackendMessage} (h : Sent calls commands answered current k) (hk : k ≤ calls.length) (c : Call) :
    Sent (calls ++ [c]) commands answered current k := by
  refine ⟨h.le, ?_, h.answeredLe, h.outstanding, h.resting⟩
  rw [take_append_of_le_length (le_trans h.le hk)]
  exact h.sent

theorem Streams.call {calls : List Call} {streamed : List (Nat × PgRow)} {response : Nat → List BackendMessage}
    (h : Streams calls streamed response k) (hk : k ≤ calls.length) (hr : response calls.length = []) (c : Call) :
    Streams (calls ++ [c]) streamed response k := by
  refine ⟨h.lt, ?_⟩
  intro i d hd
  by_cases hi : i < calls.length
  · rw [getElem?_append_left hi] at hd
    exact h.rows i d hd
  · obtain ⟨hlt, -⟩ := List.getElem?_eq_some_iff.1 hd
    rw [length_append, length_singleton] at hlt
    have hi' : i = calls.length := by omega
    rw [hi', hr, streamRows_nil, map_eq_nil_iff, filter_eq_nil_iff]
    intro p hp
    have := h.lt p hp
    simp only [beq_iff_eq]
    omega

end

namespace Session

variable {s s' : Session} {k : Nat}

theorem Replied.append_calls {i : Nat} {o : Outcome} (h : s.Replied i o) (hr : s'.answered = s.answered)
    (hc : s'.current = s.current) (cs : List Call) (hcalls : s'.conn.calls = s.conn.calls ++ cs) :
    s'.Replied i o := by
  obtain ⟨c, hci, ho, hi⟩ := h
  refine ⟨c, by rw [hcalls]; exact getElem?_append_of_some hci cs, ?_, ?_⟩
  · unfold response; rw [hr, hc]; exact ho
  · rw [hr, hc]; exact hi

/-! ## The step of a call -/

theorem response_current (s : Session) : s.response s.answered.length = s.current := by
  simp [response]

theorem response_unanswered {i : Nat} (hi : s.answered.length < i) : s.response i = [] := by
  unfold response
  rw [getElem?_eq_none (by simp only [length_append, length_singleton]; omega)]
  rfl

theorem Outcomes.grow (h : s.Outcomes k) (hset : s'.conn.settled = s.conn.settled)
    (hcalls : ∃ cs, s'.conn.calls = s.conn.calls ++ cs) (hrej : s'.conn.queryReject = s.conn.queryReject)
    (hstr : s'.conn.streamTarget = s.conn.streamTarget)
    (hst : s.conn.state = .closed → s'.conn.state = .closed)
    (hrep : ∀ i o, s.Replied i o → s'.Replied i o) : s'.Outcomes k := by
  obtain ⟨cs, hcalls⟩ := hcalls
  refine ⟨hset ▸ h.once, hset ▸ h.lt, ?_, ?_, ?_, ?_⟩
  · intro i o hio
    rw [hset] at hio
    rcases h.own i o hio with hr | ⟨hclosed, c, hc, hf⟩
    · exact .inl (hrep i o hr)
    · exact .inr ⟨hst hclosed, c, by rw [hcalls]; exact getElem?_append_of_some hc cs, hf⟩
  · intro i hi
    unfold Settled
    rw [hset, hrej, hstr]
    exact h.accounted i hi
  · intro j hj
    rw [hrej] at hj
    obtain ⟨hlt, sql, params, hc⟩ := h.rejectSlot j hj
    exact ⟨hlt, sql, params, by rw [hcalls]; exact getElem?_append_of_some hc cs⟩
  · intro j hj
    rw [hstr] at hj
    obtain ⟨hlt, sql, hc⟩ := h.streamSlot j hj
    exact ⟨hlt, sql, by rw [hcalls]; exact getElem?_append_of_some hc cs⟩

theorem Lane.waiters_nil (h : s.Lane k) (hb : s.conn.busy = false) : s.conn.gateWaiters = [] := by
  cases h with
  | idle _ _ _ hwaiters => exact hwaiters
  | granted _ hbusy => rw [hb] at hbusy; cases hbusy
  | answering _ hbusy => rw [hb] at hbusy; cases hbusy
  | closed _ _ _ _ _ hwaiters => exact hwaiters hb

theorem Kept.call (h : s.Kept k) (c : Call) : Kept { s with conn := s.conn.call c } k := by
  obtain ⟨horder, hsent, hstreams, hout, hlane⟩ := h
  have hcall : s.conn.call c = _ := acquire_spec { s.conn with calls := s.conn.calls ++ [c] } s.conn.calls.length
  rw [hcall]
  have hresp : s.response s.conn.calls.length = [] := by
    have hle := horder.le
    have hsle := hsent.le
    have hale := hsent.answeredLe
    by_cases hlt : s.answered.length < s.conn.calls.length
    · exact response_unanswered hlt
    · have heq : s.conn.calls.length = s.answered.length := by omega
      rw [heq, response_current]
      exact hsent.resting (by omega)
  refine ⟨?_, hsent.call horder.le c, hstreams.call horder.le hresp c,
    hout.grow rfl ⟨[c], rfl⟩ rfl rfl id fun i o hr => hr.append_calls rfl rfl [c] rfl, ?_⟩
  · apply horder.call
    cases hb : s.conn.busy with
    | true => simp
    | false => simp [hlane.waiters_nil hb]
  · cases hlane with
    | idle hopen hbusy hturns hwaiters hs hrest =>
      refine .granted hopen rfl ?_ hs hrest
      simp only [hbusy, hturns, Bool.false_eq_true, if_false, nil_append]
      rw [horder.drained hturns hwaiters]
    | granted hopen hbusy hturns hs hrest =>
      exact .granted hopen rfl (by simp only [hbusy, if_true, hturns]) hs hrest
    | answering hopen hbusy hturns hk hs d hd p ha =>
      refine .answering hopen rfl (by simp only [hbusy, if_true, hturns]) hk hs d (getElem?_append_of_some hd [c]) p ?_
      obtain ⟨hphase, hfields, htag, hintact, hfailed⟩ := ha
      refine ⟨hphase, hfields, htag, fun hp => ?_, hfailed⟩
      obtain ⟨he, hh, hst⟩ := hintact hp
      exact ⟨he, by cases d <;> exact hh, hst⟩
    | closed hopen hstate hr hst hbusy hwaiters =>
      refine .closed hopen hstate hr hst ?_ nofun
      intro _
      cases hb : s.conn.busy with
      | true => simpa [hb] using hbusy hb
      | false => simp

end Session

/-! ## The step of a call that has passed the gate -/

theorem release_spec : conn.release = { conn with
      busy := if conn.gateWaiters = [] then false else conn.busy
      turns := conn.turns ++ conn.gateWaiters.take 1
      gateWaiters := conn.gateWaiters.drop 1 } := by
  unfold release
  split <;> rename_i hw <;> simp [hw]

theorem settle_release (i : Nat) (o : Outcome) : (conn.settle i o).release = conn.release.settle i o := by
  rw [release_spec, release_spec]
  unfold settle
  split <;> rfl

theorem goOn_closed (h : conn.state = .closed) (i : Nat) (c : Call) : ∃ o, c.fails o ∧ conn.goOn i c = conn.release.settle i o := by
  cases c with
  | query sql params => exact ⟨_, ⟨_, rfl⟩, by simp [goOn, runQuery, h]; rfl⟩
  | queryStream sql => exact ⟨_, ⟨_, rfl⟩, by simp [goOn, runStream, h, settle_release]; rfl⟩

/-- What a call takes of a ready connection. -/
def PgConnection.taken (i : Nat) : Call → PgConnection
  | .query _ _ =>
    { conn with state := .query, queryResolve := some i, queryReject := some i, queryRows := [], streamTarget := none }
  | .queryStream _ =>
    { conn with state := .query, streamTarget := some i, queryResolve := none, queryReject := none, queryRows := [] }

theorem goOn_ready (h : conn.state = .ready) (i : Nat) {c : Call} {m : FrontendMessage}
    (hm : c.command = some m) : conn.goOn i c = (conn.taken i c).write m ∧ m.isCommand = true := by
  cases c with
  | query sql params =>
    simp only [Call.command] at hm
    simp only [goOn, runQuery, h, ne_eq, not_true_eq_false, if_false, taken]
    split at hm
    · cases hm
      rename_i hp
      exact ⟨by rw [if_pos hp], rfl⟩
    · rename_i hp
      cases hb : buildBindMessage params with
      | error e => rw [hb] at hm; cases hm
      | ok values =>
        rw [hb] at hm
        cases hm
        exact ⟨by rw [if_neg hp, queryParams, hb], rfl⟩
  | queryStream sql =>
    cases hm
    exact ⟨by simp only [goOn, runStream, h, ne_eq, not_true_eq_false, if_false, taken], rfl⟩

theorem turn_eq {conn : PgConnection} {i : Nat} {rest : List Nat} (ht : conn.turns = i :: rest) {c : Call}
    (hc : conn.calls[i]? = some c) : conn.turn = { conn with turns := rest }.goOn i c := by
  unfold turn
  rw [ht]
  simp only [hc]

theorem commands_write {conn : PgConnection} {m : FrontendMessage} (hm : m.isCommand = true) :
    (conn.write m).commands = conn.commands ++ [m] := by
  simp [commands, write, filter_append, hm]

section

variable {k : Nat}

theorem Sent.dispatch {calls : List Call} {commands : List FrontendMessage} {answered : Nat}
    {current : List BackendMessage} (h : Sent calls commands answered current k) (hk : k = commands.length)
    (ha : commands.length = answered) {c : Call} {m : FrontendMessage} (hc : calls[k]? = some c)
    (hm : c.command = some m) : Sent calls (commands ++ [m]) answered current (k + 1) := by
  have hl : (commands ++ [m]).length = commands.length + 1 := by simp
  refine ⟨by omega, ?_, by omega, by omega, by omega⟩
  rw [hl, take_add_one, ← hk, hc, map_append, hk, h.sent]
  simp [hm]

end

namespace Session

variable {s s' : Session} {k : Nat}

theorem Outcomes.settle (h : s.Outcomes k) {i : Nat} {o : Outcome} {k' : Nat}
    (ha : Adds s.conn.settled s'.conn.settled i o) (hi : i < k') (hk : k ≤ k') (hk' : ∀ j < k', j < k ∨ j = i)
    (hcalls : s'.conn.calls = s.conn.calls) (ho : s'.Replied i o ∨ s'.Dropped i o)
    (hrej : ∀ j, s.conn.queryReject = some j → s'.conn.queryReject = some j ∨ j = i)
    (hrej' : ∀ j, s'.conn.queryReject = some j → s.conn.queryReject = some j)
    (hstr : ∀ j, s.conn.streamTarget = some j → s'.conn.streamTarget = some j ∨ j = i)
    (hstr' : ∀ j, s'.conn.streamTarget = some j → s.conn.streamTarget = some j)
    (hst : s.conn.state = .closed → s'.conn.state = .closed)
    (hrep : ∀ i o, s.Replied i o → s'.Replied i o) : s'.Outcomes k' := by
  have hself : s'.Settled i := ha.self
  refine ⟨ha.once h.once, ?_, ?_, ?_, ?_, ?_⟩
  · intro p hp
    rcases ha.new p hp with hp | rfl
    · exact lt_of_lt_of_le (h.lt p hp) hk
    · exact hi
  · intro j o' hjo
    rcases ha.new _ hjo with hjo | hjo
    · rcases h.own j o' hjo with hr | ⟨hclosed, c, hc, hf⟩
      · exact .inl (hrep j o' hr)
      · exact .inr ⟨hst hclosed, c, by rw [hcalls]; exact hc, hf⟩
    · cases hjo; exact ho
  · intro j hj
    rcases hk' j hj with hj | rfl
    · rcases h.accounted j hj with ⟨o', ho'⟩ | hr | hs
      · exact .inl ⟨o', ha.old _ ho'⟩
      · rcases hrej j hr with hr | rfl
        · exact .inr (.inl hr)
        · exact .inl hself
      · rcases hstr j hs with hs | rfl
        · exact .inr (.inr hs)
        · exact .inl hself
    · exact .inl hself
  · intro j hj
    obtain ⟨hlt, hc⟩ := h.rejectSlot j (hrej' j hj)
    exact ⟨lt_of_lt_of_le hlt hk, by rw [hcalls]; exact hc⟩
  · intro j hj
    obtain ⟨hlt, hc⟩ := h.streamSlot j (hstr' j hj)
    exact ⟨lt_of_lt_of_le hlt hk, by rw [hcalls]; exact hc⟩

theorem Replied.same {i : Nat} {o : Outcome} (h : s.Replied i o) (hr : s'.answered = s.answered)
    (hc : s'.current = s.current) (hcalls : s'.conn.calls = s.conn.calls) : s'.Replied i o :=
  h.append_calls hr hc [] (by rw [hcalls, append_nil])

theorem Kept.turn_closed (h : s.Kept k) {rest : List Nat} (ht : s.conn.turns = k :: rest)
    (hstate : s.conn.state = .closed) : Kept { s with conn := s.conn.turn } (k + 1) := by
  obtain ⟨horder, hsent, hstreams, hout, hlane⟩ := h
  obtain ⟨-, hlt, hrest⟩ := horder.head ht
  have hc : s.conn.calls[k]? = some s.conn.calls[k] := getElem?_eq_getElem hlt
  obtain ⟨o, hfail, hgo⟩ := goOn_closed { s.conn with turns := rest } hstate k s.conn.calls[k]
  rw [turn_eq ht hc, hgo, release_spec]
  obtain ⟨l, hl, ha⟩ := settle_spec { s.conn with
    turns := rest ++ s.conn.gateWaiters.take 1, gateWaiters := s.conn.gateWaiters.drop 1
    busy := if s.conn.gateWaiters = [] then false else s.conn.busy } k o
  rw [hl]
  refine ⟨⟨hlt, ?_⟩, ⟨Nat.le_succ_of_le hsent.le, hsent.sent, hsent.answeredLe, hsent.outstanding,
    hsent.resting⟩, ⟨fun p hp => Nat.lt_succ_of_lt (hstreams.lt p hp), hstreams.rows⟩, ?_, ?_⟩
  · simp only [append_assoc, take_append_drop]
    exact hrest
  · exact hout.settle (i := k) (o := o) ha (Nat.lt_succ_self k) (Nat.le_succ k) (fun j hj => by omega) rfl
      (.inr ⟨hstate, _, hc, hfail⟩) (fun j => .inl) (fun j => id) (fun j => .inl) (fun j => id) id
      (fun i o hr => hr.same rfl rfl rfl)
  · cases hlane with
    | idle _ _ hturns => rw [hturns] at ht; cases ht
    | granted hopen hbusy hturns hs =>
      rw [hturns] at ht
      cases ht
      cases hw : s.conn.gateWaiters with
      | nil => exact .idle hopen (by simp) (by simp) (by simp) hs (fun hne => absurd hstate hne)
      | cons w ws =>
        rw [hw] at hrest
        have hwk : w = k + 1 := by
          have hpos : s.conn.calls.length - (k + 1) ≠ 0 := by
            intro h0; rw [h0] at hrest; cases hrest
          obtain ⟨n, hn⟩ := Nat.exists_eq_succ_of_ne_zero hpos
          rw [hn, List.range'_succ] at hrest
          exact (List.cons.inj hrest).1
        exact .granted hopen (by simpa using hbusy) (by simp [hwk]) hs (fun hne => absurd hstate hne)
    | answering _ _ hturns => rw [hturns] at ht; cases ht
    | closed hopen _ hr hst hbusy hwaiters =>
      refine .closed hopen hstate hr hst ?_ ?_
      · cases hw : s.conn.gateWaiters with
        | nil => simp
        | cons w ws => simp
      · cases hw : s.conn.gateWaiters with
        | nil => simp
        | cons w ws =>
          intro hb
          rw [hwaiters hb] at hw
          cases hw

end Session

namespace Session

variable {s s' : Session} {k : Nat}

theorem Outcomes.dispatch (h : s.Outcomes k) (hstate : s.conn.state ≠ .closed) (hsettled : ∀ i < k, s.Settled i)
    {c : Call} (hc : s.conn.calls[k]? = some c) {m : FrontendMessage}
    (hs' : s' = { s with conn := ({ s.conn with turns := [] }.taken k c).write m }) : s'.Outcomes (k + 1) := by
  subst hs'
  have hown : ∀ {conn : PgConnection}, conn.calls = s.conn.calls → ∀ i o, (i, o) ∈ s.conn.settled →
      Replied { s with conn } i o ∨ Dropped { s with conn } i o := by
    intro conn hcalls i o hio
    rcases h.own i o hio with hr | ⟨hcl, -⟩
    · exact .inl (hr.same rfl rfl hcalls)
    · exact absurd hcl hstate
  have hlt : ∀ p ∈ s.conn.settled, p.1 < k + 1 := fun p hp => Nat.lt_succ_of_lt (h.lt p hp)
  cases c with
  | query sql params =>
    refine ⟨h.once, hlt, hown rfl, ?_, ?_, nofun⟩
    · intro i hi
      rcases Nat.lt_succ_iff_lt_or_eq.1 hi with hi | rfl
      · exact .inl (hsettled i hi)
      · exact .inr (.inl rfl)
    · intro j hj
      cases hj
      exact ⟨Nat.lt_succ_self k, sql, params, hc⟩
  | queryStream sql =>
    refine ⟨h.once, hlt, hown rfl, ?_, nofun, ?_⟩
    · intro i hi
      rcases Nat.lt_succ_iff_lt_or_eq.1 hi with hi | rfl
      · exact .inl (hsettled i hi)
      · exact .inr (.inr rfl)
    · intro j hj
      cases hj
      exact ⟨Nat.lt_succ_self k, sql, hc⟩

theorem Kept.turn_ready (h : s.Kept k) {rest : List Nat} (ht : s.conn.turns = k :: rest)
    (hstate : s.conn.state ≠ .closed) (hw : s.Writable .turn) : Kept { s with conn := s.conn.turn } (k + 1) := by
  obtain ⟨horder, hsent, hstreams, hout, hlane⟩ := h
  obtain ⟨-, hlt, hrest⟩ := horder.head ht
  obtain ⟨c, hc⟩ : ∃ c, s.conn.calls[k]? = some c := ⟨_, getElem?_eq_getElem hlt⟩
  cases hlane with
  | idle _ _ hturns => rw [hturns] at ht; cases ht
  | answering _ _ hturns => rw [hturns] at ht; cases ht
  | closed _ hclosed => exact absurd hclosed hstate
  | granted hopen hbusy hturns hs hresting =>
    obtain ⟨hready, hk, hvacant⟩ := hresting hstate
    obtain ⟨m, hm⟩ := Option.isSome_iff_exists.1 (hw hready k rest c ht hc)
    rw [hturns] at ht
    cases ht
    obtain ⟨hgo, hcmd⟩ := goOn_ready { s.conn with turns := [] } hready k hm
    rw [turn_eq hturns hc, hgo]
    obtain rfl : k = s.answered.length := by omega
    have hcommands : (({ s.conn with turns := [] }.taken s.answered.length c).write m).commands = s.conn.commands ++ [m] := by
      rw [commands_write hcmd]; cases c <;> rfl
    have hcalls : (({ s.conn with turns := [] }.taken s.answered.length c).write m).calls = s.conn.calls := by
      cases c <;> rfl
    have hsettled : ∀ i < s.answered.length, s.Settled i := hout.settled_of_vacant hvacant.2.1 hvacant.2.2
    have hcur : s.current = [] := hsent.resting hs
    refine ⟨?_, ?_, ?_, ?_, ?_⟩
    · rw [hcalls]
      refine ⟨hlt, ?_⟩
      cases c <;> exact hrest
    · rw [hcalls, hcommands]
      exact hsent.dispatch hk hs hc hm
    · cases c <;> exact ⟨fun p hp => Nat.lt_succ_of_lt (hstreams.lt p hp), hstreams.rows⟩
    · exact hout.dispatch hstate hsettled hc rfl
    · have ha : Answering { s with conn := ({ s.conn with turns := [] }.taken s.answered.length c).write m }
          s.answered.length c .opening := by
        refine ⟨by rw [hcur]; rfl, nofun, nofun, fun _ => ⟨by rw [hcur]; rfl, ?_, ?_⟩, nofun⟩
        · cases c with
          | query sql params => exact ⟨rfl, rfl, rfl, by rw [hcur]; rfl⟩
          | queryStream sql => exact ⟨rfl, rfl, rfl⟩
        · cases c <;> exact .inl rfl
      refine .answering hopen ?_ ?_ rfl ?_ c ?_ .opening ha
      · cases c <;> exact hbusy
      · cases c <;> rfl
      · rw [hcommands, length_append, length_singleton, hs]
      · rw [hcalls]; exact hc

theorem Kept.turn (h : s.Kept k) (hw : s.Writable .turn) : ∃ k', Kept { s with conn := s.conn.turn } k' := by
  cases ht : s.conn.turns with
  | nil =>
    have hturn : s.conn.turn = s.conn := by unfold PgConnection.turn; rw [ht]
    exact ⟨k, by rw [hturn]; exact h⟩
  | cons i rest =>
    obtain ⟨rfl, -, -⟩ := h.order.head ht
    by_cases hstate : s.conn.state = .closed
    · exact ⟨i + 1, h.turn_closed ht hstate⟩
    · exact ⟨i + 1, h.turn_ready ht hstate hw⟩

end Session

end StreetJS.Postgres
