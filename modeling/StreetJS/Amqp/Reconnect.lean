/-
The consumer consumes again: as long as a reconnect finds the callback of each consumer with the manager, or the
consumer on another connection, and no two calls of a kind are outstanding, each registered consumer is started on a
live connection.
-/
import StreetJS.Amqp.Consumer
import StreetJS.Amqp.DeliveryOrder

namespace StreetJS.Amqp

open StreetJS.Lib List
open Option (any_some bind_some map_eq_some_iff map_some some.injEq)

namespace ConsumerWorld

variable {w : ConsumerWorld}

/-! ## What is promised -/

/-- A start of the consumer on a live connection that has not failed. -/
def Alive (w : ConsumerWorld) (c : Nat) : Prop :=
  ∃ s ∈ w.starts, s.consumer = c ∧ s.phase ≠ .failed ∧ w.connected s.k = true

def Registered (w : ConsumerWorld) (c : Nat) : Prop :=
  ∃ consumer, w.consumers[c]? = some consumer ∧ consumer.phase = .registered

/-- Everything has gone on, the broker has answered all that is sent, and every lost connection has been noticed. -/
def Quiet (w : ConsumerWorld) : Prop :=
  w.idle = true ∧ ∀ L ∈ w.links, if L.rpc.conn.connected then L.rpc.conn.sent = [] else L.disconnected = true

/-- When there is a connection again and everything is quiet, each registered consumer is consuming. -/
def Consuming (w : ConsumerWorld) : Prop :=
  w.Quiet → w.manager.conn ≠ none → ∀ c, w.Registered c → ∃ s ∈ w.starts, s.consumer = c ∧ s.phase = .done ∧ w.connected s.k = true

/-- A new connection finds the callback of each registered consumer that has no other connection; and the broker
answers a call when no other of its kind is outstanding. -/
def Reconnecting (w : ConsumerWorld) : ConsumerEvent → Prop
  | .opened _ => ∀ c, w.Registered c → c ∈ w.manager.onReady ∨ w.Alive c
  | .serve k args => (w.links[k]?.getD {}).rpc.OneOfAKind (.serve args)
  | _ => True

/-! ## Connections -/

structure LinkOk (L : ManagedLink) : Prop where
  rpc : L.rpc.Inv
  accepted : L.rpc.conn.connected = true → ∀ call ∈ L.rpc.conn.calls, call.outcome ≠ .rejected
  micro : L.rpc.conn.microtasks ≠ [] → L.rpc.conn.connected = true
  seen : L.disconnected = true → L.rpc.conn.connected = false

theorem LinkOk.init : LinkOk {} := ⟨RpcWorld.inv_init, by simp, by simp, by simp⟩

theorem LinkOk.call {L : ManagedLink} (h : LinkOk L) (op : Op) : LinkOk { L with rpc := L.rpc.step (.call op) } := by
  obtain ⟨o, waiters, sent, hcall, ho, -⟩ := L.rpc.conn.call_eq op
  refine ⟨RpcWorld.inv_step (e := .call op) h.rpc trivial, ?_, ?_, ?_⟩
  · simp only [RpcWorld.step, hcall]
    intro hc call hmem
    rw [mem_append, mem_singleton] at hmem
    rcases hmem with hmem | rfl
    · exact h.accepted hc call hmem
    · exact ho hc
  · simp only [RpcWorld.step, hcall]
    exact h.micro
  · simp only [RpcWorld.step, hcall]
    exact h.seen

theorem LinkOk.serve {L : ManagedLink} (h : LinkOk L) {args : Bytes} (hone : L.rpc.OneOfAKind (.serve args)) :
    LinkOk { L with rpc := L.rpc.step (.serve args) } := by
  refine ⟨RpcWorld.inv_step h.rpc hone, ?_, ?_, ?_⟩
  all_goals
    simp only [RpcWorld.step]
    split
  · next hc =>
    split
    · exact h.accepted
    · exact h.accepted
    · unfold AmqpConnection.handleReply
      split
      · intro _ call hmem
        obtain ⟨j, hj⟩ := mem_iff_getElem?.1 hmem
        rw [RpcWorld.getElem?_settleCall] at hj
        split at hj
        · obtain ⟨call₀, hcall₀, rfl⟩ := Option.map_eq_some_iff.1 hj
          have hne := h.accepted hc call₀ (mem_of_getElem? hcall₀)
          cases ho : call₀.outcome <;> simp_all [Outcome.settle]
        · exact h.accepted hc call (mem_of_getElem? hj)
      · exact h.accepted
  · exact h.accepted
  · next hc =>
    intro _
    split
    · exact hc
    · exact hc
    · unfold AmqpConnection.handleReply
      split <;> exact hc
  · exact h.micro
  · next hc =>
    intro hseen
    rw [h.seen hseen] at hc
    cases hc
  · exact h.seen

theorem LinkOk.continue {L : ManagedLink} (h : LinkOk L) : LinkOk { L with rpc := L.rpc.step .continue } := by
  obtain ⟨microtasks, confirmEnabled, consumers, hconn⟩ := L.rpc.conn.runMicrotask_eq
  refine ⟨RpcWorld.inv_step (e := .continue) h.rpc trivial, ?_, ?_, ?_⟩
  · simp only [RpcWorld.step, hconn]
    exact h.accepted
  · intro hne
    have hne' : L.rpc.conn.microtasks ≠ [] := by
      intro hnil
      simp [RpcWorld.step, AmqpConnection.runMicrotask, hnil] at hne
    simp only [RpcWorld.step, hconn]
    exact h.micro hne'
  · simp only [RpcWorld.step, hconn]
    exact h.seen

theorem LinkOk.destroy {L : ManagedLink} (h : LinkOk L) (hidle : L.rpc.conn.microtasks = []) : LinkOk { L with rpc := L.rpc.step .destroy } :=
  ⟨RpcWorld.inv_step (e := .destroy) h.rpc trivial, by simp [RpcWorld.step], fun hne => absurd hidle hne, fun _ => rfl⟩

/-! ## Starts -/

/-- A start that can go on does so on a live connection. -/
structure StartOk (w : ConsumerWorld) (s : Start) : Prop where
  known : ∀ i rest, s.phase = .waiting i rest → ∃ L, w.links[s.k]? = some L ∧ i < L.rpc.conn.calls.length
  ready : ∀ i rest, s.phase = .waiting i rest → w.settled s.k i = some true → w.connected s.k = true

structure Base (w : ConsumerWorld) : Prop where
  links : ∀ (k : Nat) L, w.links[k]? = some L → LinkOk L
  starts : ∀ s ∈ w.starts, w.StartOk s

theorem getElem?_onLink (w : ConsumerWorld) (k : Nat) (e : RpcEvent) (j : Nat) : (w.onLink k e).links[j]? =
    if k = j then w.links[j]?.map fun L => { L with rpc := L.rpc.step e } else w.links[j]? := by
  simp only [onLink, getElem?_modify]
  by_cases hkj : k = j
  · simp [hkj]
  · simp [hkj]

theorem Base.call (h : Base w) (k : Nat) (op : Op) : Base (w.onLink k (.call op)) ∧
    (∀ j, (w.onLink k (.call op)).connected j = w.connected j) := by
  have hconnected : ∀ j, (w.onLink k (.call op)).connected j = w.connected j := by
    intro j
    unfold connected
    rw [getElem?_onLink]
    split
    · cases w.links[j]? with
      | none => rfl
      | some L =>
        obtain ⟨o, waiters, sent, hcall, -⟩ := L.rpc.conn.call_eq op
        simp [RpcWorld.step, hcall]
    · rfl
  refine ⟨⟨fun j L hL => ?_, fun s hs => ⟨fun i rest hphase => ?_, fun i rest hphase hsettled => ?_⟩⟩, hconnected⟩
  · rw [getElem?_onLink] at hL
    split at hL
    · obtain ⟨L₀, hL₀, rfl⟩ := Option.map_eq_some_iff.1 hL
      exact (h.links j L₀ hL₀).call op
    · exact h.links j L hL
  · obtain ⟨L, hL, hi⟩ := (h.starts s hs).known i rest hphase
    rw [getElem?_onLink, hL]
    split
    · obtain ⟨o, waiters, sent, hcall, -⟩ := L.rpc.conn.call_eq op
      refine ⟨_, rfl, ?_⟩
      simp only [RpcWorld.step, hcall, length_append]
      omega
    · exact ⟨L, rfl, hi⟩
  · obtain ⟨L, hL, hi⟩ := (h.starts s hs).known i rest hphase
    rw [hconnected]
    refine (h.starts s hs).ready i rest hphase ?_
    rw [← hsettled]
    unfold settled
    rw [getElem?_onLink, hL]
    split
    · exact (L.rpc.conn.settled_call hi op).symm
    · rfl

theorem length_onLink (w : ConsumerWorld) (k : Nat) (e : RpcEvent) : (w.onLink k e).links.length = w.links.length := by
  simp [onLink]

theorem startOk_operate (h : Base w) {k : Nat} (hk : k < w.links.length) (ops : List Op)
    (hops : ∀ op rest, ops = op :: rest → op ≠ .enableConfirms ∨ w.connected k = true) (c : Nat) (first : Bool) :
    StartOk (w.operate k ops).1 { consumer := c, k, first, phase := (w.operate k ops).2 } := by
  cases ops with
  | nil => exact ⟨fun i rest hi => StartPhase.noConfusion hi, fun i rest hi => StartPhase.noConfusion hi⟩
  | cons op tail =>
    have hL := getElem?_eq_getElem hk
    obtain ⟨o, waiters, sent, hcall, -, hreplied, hresolved⟩ := w.links[k].rpc.conn.call_eq op
    have hnext : w.nextCall k = w.links[k].rpc.conn.calls.length := by simp [nextCall, hL]
    have hL' : (w.onLink k (.call op)).links[k]? = some { w.links[k] with rpc := w.links[k].rpc.step (.call op) } := by
      rw [getElem?_onLink, if_pos rfl, hL]
      rfl
    constructor
    · intro i rest hi
      simp only [operate, StartPhase.waiting.injEq] at hi
      refine ⟨_, hL', ?_⟩
      simp only [RpcWorld.step, hcall, length_append, length_singleton]
      omega
    · intro i rest hi hsettled
      simp only [operate, StartPhase.waiting.injEq] at hi
      simp only [operate] at hsettled ⊢
      rw [(h.call k op).2]
      rcases hops op tail rfl with hop | hc
      · exfalso
        rw [← hi.1, hnext, settled, hL'] at hsettled
        simp only [bind_some, RpcWorld.step, AmqpConnection.settled, hcall, getElem?_concat_length] at hsettled
        cases o with
        | pending => simp at hsettled
        | rejected => simp at hsettled
        | resolved => exact hop (hresolved rfl)
        | replied args => exact hreplied args rfl
      · exact hc

theorem base_operate (h : Base w) (k : Nat) (ops : List Op) : Base (w.operate k ops).1 ∧
    (∀ j, (w.operate k ops).1.connected j = w.connected j) := by
  cases ops with
  | nil => exact ⟨h, fun _ => rfl⟩
  | cons op tail => exact h.call k op

/-- What the operations of a start leave. -/
theorem operate_eq (w : ConsumerWorld) (k : Nat) (ops : List Op) : ∃ links,
    (w.operate k ops).1 = { w with links } ∧ links.length = w.links.length := by
  cases ops with
  | nil => exact ⟨w.links, rfl, rfl⟩
  | cons op tail => exact ⟨_, rfl, length_onLink w k (.call op)⟩

theorem base_start (h : Base w) {k : Nat} (hk : k < w.links.length) (c : Nat) (options : ConsumerOptions) (first : Bool) :
    Base (w.start c options k first) ∧ (∀ j, (w.start c options k first).connected j = w.connected j) ∧
      ∃ s, (w.start c options k first).starts = w.starts ++ [s] ∧ s.consumer = c ∧ s.k = k ∧ s.phase ≠ .failed := by
  obtain ⟨links, hlinks, -⟩ := w.operate_eq k (options.setup c)
  obtain ⟨hbase, hconnected⟩ := base_operate h k (options.setup c)
  have hstarts : (w.operate k (options.setup c)).1.starts = w.starts := by rw [hlinks]
  have hok := startOk_operate h hk (options.setup c) (fun op rest hop => .inl (by cases hop; simp)) c first
  refine ⟨⟨hbase.links, fun s hs => ?_⟩, hconnected, { consumer := c, k, first, phase := (w.operate k (options.setup c)).2 },
    ?_, rfl, rfl, ?_⟩
  · rcases mem_append.1 hs with hs | hs
    · have hold := hbase.starts s hs
      exact ⟨hold.known, hold.ready⟩
    · rw [mem_singleton] at hs
      subst hs
      exact ⟨hok.known, hok.ready⟩
  · simp only [start, hstarts]
  · simp [operate, ConsumerOptions.setup]

/-! ## The invariant -/

/-- While there is a connection, each registered consumer has a live start, or a lost connection is not yet noticed. -/
structure Inv (w : ConsumerWorld) : Prop where
  base : Base w
  alive : w.manager.conn ≠ none → (∀ c, w.Registered c → w.Alive c) ∨ ∃ L ∈ w.links, L.rpc.conn.connected = false ∧ L.disconnected = false

theorem inv_init : Inv {} where
  base := ⟨by simp, by simp⟩
  alive := by simp

theorem done_of_quiet (h : Base w) (hquiet : w.Quiet) {s : Start} (hs : s ∈ w.starts) (hlive : w.connected s.k = true)
    (hfailed : s.phase ≠ .failed) : s.phase = .done := by
  cases hphase : s.phase with
  | done => rfl
  | failed => exact absurd hphase hfailed
  | waiting i rest =>
    exfalso
    obtain ⟨L, hL, hi⟩ := (h.starts s hs).known i rest hphase
    have hmem := mem_of_getElem? hL
    have hconn : L.rpc.conn.connected = true := by
      unfold connected at hlive
      rw [hL] at hlive
      exact hlive
    have hidle := hquiet.1
    simp only [idle, Bool.and_eq_true, all_eq_true] at hidle
    have hmicro : L.rpc.conn.microtasks = [] := by simpa using hidle.1 L hmem
    have hwaits := hidle.2 s hs
    rw [hphase] at hwaits
    simp only [settled, hL, bind_some] at hwaits
    have hsent := hquiet.2 L hmem
    rw [if_pos hconn] at hsent
    obtain ⟨⟨op, o⟩, hcall⟩ : ∃ call, L.rpc.conn.calls[i]? = some call := ⟨_, getElem?_eq_getElem hi⟩
    unfold AmqpConnection.settled at hwaits
    rw [hcall] at hwaits
    cases o with
    | pending =>
      have hqueued := ((h.links s.k L hL).rpc.queued i op).1 hcall
      rw [hsent] at hqueued
      simp at hqueued
    | replied args => simp [hmicro] at hwaits
    | resolved => simp at hwaits
    | rejected => simp at hwaits

theorem Inv.consuming (h : Inv w) : w.Consuming := by
  intro hquiet hconn c hc
  rcases h.alive hconn with halive | ⟨L, hL, hlost, hunseen⟩
  · obtain ⟨s, hs, hsc, hfailed, hlive⟩ := halive c hc
    exact ⟨s, hs, hsc, done_of_quiet h.base hquiet hs hlive hfailed, hlive⟩
  · have := hquiet.2 L hL
    rw [hlost] at this
    simp [hunseen] at this

/-! ## Steps -/

def Lost (w : ConsumerWorld) : Prop := ∃ L ∈ w.links, L.rpc.conn.connected = false ∧ L.disconnected = false

theorem Inv.step (h : Inv w) {w' : ConsumerWorld} (hbase : Base w') (hconn : w'.manager.conn = w.manager.conn)
    (hregistered : ∀ c, w'.Registered c → w.Registered c ∨ w'.Alive c) (halive : ∀ c, w.Alive c → w'.Alive c)
    (hlost : w.Lost → w'.Lost) : Inv w' where
  base := hbase
  alive := by
    rw [hconn]
    intro hc
    rcases h.alive hc with hw | hw
    · refine .inl fun c hc' => ?_
      rcases hregistered c hc' with hold | hnew
      · exact halive c (hw c hold)
      · exact hnew
    · exact .inr (hlost hw)

theorem Alive.mono {w' : ConsumerWorld} {c : Nat} (h : w.Alive c) (hconnected : ∀ j, w'.connected j = w.connected j)
    (hstarts : ∀ s ∈ w.starts, s.phase ≠ .failed → w.connected s.k = true →
      ∃ s' ∈ w'.starts, s'.consumer = s.consumer ∧ s'.k = s.k ∧ s'.phase ≠ .failed) : w'.Alive c := by
  obtain ⟨s, hs, hsc, hfailed, hlive⟩ := h
  obtain ⟨s', hs', hconsumer, hk, hfailed'⟩ := hstarts s hs hfailed hlive
  exact ⟨s', hs', hconsumer.trans hsc, hfailed', by rw [hk, hconnected, hlive]⟩

theorem Lost.onLink (h : w.Lost) (k : Nat) {e : RpcEvent}
    (he : ∀ L ∈ w.links, (L.rpc.step e).conn.connected = L.rpc.conn.connected) : (w.onLink k e).Lost := by
  obtain ⟨L, hL, hdead, hunseen⟩ := h
  obtain ⟨j, hj⟩ := mem_iff_getElem?.1 hL
  have hj' := getElem?_onLink w k e j
  rw [hj] at hj'
  by_cases hkj : k = j
  · rw [if_pos hkj] at hj'
    exact ⟨_, mem_of_getElem? hj', by rw [he L hL]; exact hdead, hunseen⟩
  · rw [if_neg hkj] at hj'
    exact ⟨L, mem_of_getElem? hj', hdead, hunseen⟩

theorem connected_call (L : ManagedLink) (op : Op) : (L.rpc.step (.call op)).conn.connected = L.rpc.conn.connected := by
  obtain ⟨o, waiters, sent, hcall, -⟩ := L.rpc.conn.call_eq op
  simp only [RpcWorld.step, hcall]

theorem Lost.operate (h : w.Lost) (k : Nat) (ops : List Op) : (w.operate k ops).1.Lost := by
  cases ops with
  | nil => exact h
  | cons op tail => exact h.onLink k fun L _ => connected_call L op

theorem mem_set_of_ne {ss : List Start} {x y : Nat} {s t : Start} (hy : ss[y]? = some s) (hxy : y ≠ x) : s ∈ ss.set x t :=
  mem_of_getElem? (by rw [getElem?_set_ne (Ne.symm hxy), hy])

theorem inv_proceed (h : Inv w) {x : Nat} {s : Start} (hx : w.starts[x]? = some s) : Inv (w.proceed x s) := by
  have hs := mem_of_getElem? hx
  have hlt := (lt_length hx)
  unfold proceed
  split
  case h_2 => exact h
  next i rest hphase =>
  split
  · next hsettled =>
    have hlive := (h.base.starts s hs).ready i rest hphase hsettled
    obtain ⟨L, hL, -⟩ := (h.base.starts s hs).known i rest hphase
    have hk := (lt_length hL)
    obtain ⟨links, hlinks, -⟩ := w.operate_eq s.k rest
    obtain ⟨hbase, hconnected⟩ := base_operate h.base s.k rest
    have hok := startOk_operate h.base hk rest (fun _ _ _ => .inr hlive) s.consumer s.first
    have hfailed : (w.operate s.k rest).2 ≠ .failed := by cases rest <;> simp [operate]
    have hstarts : (w.operate s.k rest).1.starts = w.starts := by rw [hlinks]
    obtain ⟨w₁, hw₁⟩ : ∃ w₁, w₁ = { (w.operate s.k rest).1 with
        starts := (w.operate s.k rest).1.starts.set x { s with phase := (w.operate s.k rest).2 } } := ⟨_, rfl⟩
    have hconnected₁ : ∀ j, w₁.connected j = w.connected j := by
      intro j
      rw [hw₁]
      exact hconnected j
    have hnew : { s with phase := (w.operate s.k rest).2 } ∈ w₁.starts := by
      rw [hw₁, hstarts]
      exact mem_of_getElem? (getElem?_set_self hlt)
    have halive : ∀ c, w.Alive c → w₁.Alive c := by
      intro c hc
      refine hc.mono hconnected₁ fun t ht hne hlive' => ?_
      obtain ⟨y, hy⟩ := mem_iff_getElem?.1 ht
      by_cases hyx : y = x
      · subst hyx
        rw [hx, some.injEq] at hy
        subst hy
        exact ⟨_, hnew, rfl, rfl, hfailed⟩
      · exact ⟨t, by rw [hw₁, hstarts]; exact mem_set_of_ne hy hyx, rfl, rfl, hne⟩
    have hself : w₁.Alive s.consumer := ⟨_, hnew, rfl, hfailed, by rw [hconnected₁]; exact hlive⟩
    have hinv : Inv w₁ := by
      refine h.step ⟨?_, fun t ht => ?_⟩ ?_ ?_ halive ?_
      · rw [hw₁]
        exact hbase.links
      · rw [hw₁, hstarts] at ht
        obtain ⟨y, hy⟩ := mem_iff_getElem?.1 ht
        rcases getElem?_set_cases hy with ⟨-, rfl⟩ | ⟨-, hy⟩
        · rw [hw₁]
          exact ⟨hok.known, hok.ready⟩
        · have hold := hbase.starts t (by rw [hstarts]; exact mem_of_getElem? hy)
          rw [hw₁]
          exact ⟨hold.known, hold.ready⟩
      · rw [hw₁, hlinks]
      · intro c hc
        rw [hw₁, hlinks] at hc
        exact .inl hc
      · intro hlost
        rw [hw₁]
        exact hlost.operate s.k rest
    simp only [← hw₁]
    split
    · split
      · refine hinv.step ⟨hinv.base.links, fun t ht => ⟨(hinv.base.starts t ht).known, (hinv.base.starts t ht).ready⟩⟩ rfl
          (fun c hc => ?_) (fun _ hc => hc) id
        obtain ⟨consumer, hconsumer, hregistered⟩ := hc
        simp only [register, setConsumer, getElem?_modify] at hconsumer
        obtain ⟨consumer₀, hconsumer₀, rfl⟩ := Option.map_eq_some_iff.1 hconsumer
        by_cases hsc : s.consumer = c
        · exact .inr (hsc ▸ hself)
        · rw [if_neg hsc] at hregistered
          exact .inl ⟨consumer₀, hconsumer₀, hregistered⟩
      · exact hinv
    · exact hinv
  · next hsettled =>
    obtain ⟨L, hL, hi⟩ := (h.base.starts s hs).known i rest hphase
    -- a call is rejected on a connection that is lost
    have hdead : w.connected s.k ≠ true := by
      intro hc
      simp only [connected, hL, any_some] at hc
      simp only [settled, hL, bind_some] at hsettled
      obtain ⟨⟨op, o⟩, hcall⟩ : ∃ call, L.rpc.conn.calls[i]? = some call := ⟨_, getElem?_eq_getElem hi⟩
      have hne := (h.base.links s.k L hL).accepted hc _ (mem_of_getElem? hcall)
      unfold AmqpConnection.settled at hsettled
      rw [hcall] at hsettled
      cases o with
      | rejected => exact hne rfl
      | replied args => split at hsettled <;> simp_all
      | _ => simp at hsettled
    refine h.step ⟨h.base.links, fun t ht => ?_⟩ rfl (fun _ hc => .inl hc) (fun c hc => ?_) id
    · obtain ⟨y, hy⟩ := mem_iff_getElem?.1 ht
      rcases getElem?_set_cases hy with ⟨-, rfl⟩ | ⟨-, hy⟩
      · exact ⟨fun i rest hi => StartPhase.noConfusion hi, fun i rest hi => StartPhase.noConfusion hi⟩
      · have hold := h.base.starts t (mem_of_getElem? hy)
        exact ⟨hold.known, hold.ready⟩
    · refine hc.mono (fun _ => rfl) fun t ht hne hlive => ?_
      obtain ⟨y, hy⟩ := mem_iff_getElem?.1 ht
      have hyx : y ≠ x := by
        rintro rfl
        rw [hx, some.injEq] at hy
        subst hy
        exact hdead hlive
      exact ⟨t, mem_set_of_ne hy hyx, rfl, rfl, hne⟩
  · exact h

theorem conn_get (m : RabbitMqConnectionManager) (connected : Nat → Bool) : (m.get connected).1.conn = m.conn := by
  unfold RabbitMqConnectionManager.get
  split <;> rfl

theorem inv_setConsumer (h : Inv w) (c : Nat) {phase : ConsumePhase} (hphase : phase ≠ .registered) : Inv (w.setConsumer c phase) := by
  refine h.step ⟨h.base.links, fun s hs => ⟨(h.base.starts s hs).known, (h.base.starts s hs).ready⟩⟩ rfl
    (fun c' hc => .inl ?_) (fun _ hc => hc) id
  obtain ⟨consumer, hconsumer, hregistered⟩ := hc
  simp only [setConsumer, getElem?_modify] at hconsumer
  obtain ⟨consumer₀, hconsumer₀, rfl⟩ := Option.map_eq_some_iff.1 hconsumer
  by_cases hcc : c = c'
  · rw [if_pos hcc] at hregistered
    exact absurd hregistered hphase
  · rw [if_neg hcc] at hregistered
    exact ⟨consumer₀, hconsumer₀, hregistered⟩

theorem inv_resume (h : Inv w) (c : Nat) (consumer : RabbitMqConsumer) : Inv (w.resume c consumer) := by
  unfold resume
  split
  · split
    · exact inv_setConsumer h c (by simp)
    · exact h
  · next k _ =>
    split
    · next hk =>
      have h' : Inv (w.setConsumer c .starting) := inv_setConsumer h c (by simp)
      obtain ⟨hbase, hconnected, s, hstarts, -⟩ := base_start h'.base hk c consumer.options true
      obtain ⟨links, hlinks, -⟩ := (w.setConsumer c .starting).operate_eq k (consumer.options.setup c)
      refine h'.step hbase ?_ (fun c' hc => .inl ?_) (fun c' hc => ?_) fun hlost => ?_
      · simp only [start, hlinks]
      · exact hc
      · refine hc.mono hconnected fun t ht hne _ => ⟨t, ?_, rfl, rfl, hne⟩
        exact mem_append_left _ ht
      · exact hlost.operate k (consumer.options.setup c)
    · exact h
  · exact h

theorem settled_of_idle (h : w.idle = true) {s : Start} (hs : s ∈ w.starts) {i : Nat} {rest : List Op}
    (hphase : s.phase = .waiting i rest) : w.settled s.k i = none := by
  simp only [idle, Bool.and_eq_true, all_eq_true] at h
  have hwaits := h.2 s hs
  rw [hphase] at hwaits
  simpa using hwaits

theorem base_onLink (h : Base w) (k : Nat) {e : RpcEvent} (hok : ∀ L, w.links[k]? = some L → LinkOk { L with rpc := L.rpc.step e })
    (hlength : ∀ L, w.links[k]? = some L → L.rpc.conn.calls.length ≤ (L.rpc.step e).conn.calls.length)
    (hready : ∀ s ∈ w.starts, ∀ i rest, s.phase = .waiting i rest → s.k = k → (w.onLink k e).settled k i = some true →
      (w.onLink k e).connected k = true) : Base (w.onLink k e) where
  links := by
    intro j L hL
    rw [getElem?_onLink] at hL
    split at hL
    · next hkj =>
      obtain ⟨L₀, hL₀, rfl⟩ := Option.map_eq_some_iff.1 hL
      exact hok L₀ (hkj ▸ hL₀)
    · exact h.links j L hL
  starts := by
    intro s hs
    refine ⟨fun i rest hphase => ?_, fun i rest hphase hsettled => ?_⟩
    · obtain ⟨L, hL, hi⟩ := (h.starts s hs).known i rest hphase
      rw [getElem?_onLink, hL]
      split
      · next hks => exact ⟨_, rfl, lt_of_lt_of_le hi (hlength L (hks ▸ hL))⟩
      · exact ⟨L, rfl, hi⟩
    · by_cases hks : s.k = k
      · rw [hks] at hsettled ⊢
        exact hready s hs i rest hphase hks hsettled
      · have hsame : (w.onLink k e).links[s.k]? = w.links[s.k]? := by rw [getElem?_onLink, if_neg (Ne.symm hks)]
        unfold connected settled at *
        rw [hsame] at hsettled ⊢
        exact (h.starts s hs).ready i rest hphase hsettled

theorem inv_onLink (h : Inv w) (k : Nat) {e : RpcEvent} (hok : ∀ L, w.links[k]? = some L → LinkOk { L with rpc := L.rpc.step e })
    (hlength : ∀ L, w.links[k]? = some L → L.rpc.conn.calls.length ≤ (L.rpc.step e).conn.calls.length)
    (hsame : ∀ L ∈ w.links, (L.rpc.step e).conn.connected = L.rpc.conn.connected)
    (hlive : ∀ L, w.links[k]? = some L → L.rpc.step e = L.rpc ∨ L.rpc.conn.connected = true) : Inv (w.onLink k e) := by
  have hconnected : ∀ j, (w.onLink k e).connected j = w.connected j := by
    intro j
    unfold connected
    rw [getElem?_onLink]
    split
    · cases hj : w.links[j]? with
      | none => rfl
      | some L => simpa using hsame L (mem_of_getElem? hj)
    · rfl
  refine h.step (base_onLink h.base k hok hlength fun s hs i rest hphase hks hsettled => ?_) rfl (fun _ hc => .inl hc)
    (fun c hc => hc.mono hconnected fun t ht hne _ => ⟨t, ht, rfl, rfl, hne⟩) fun hlost => hlost.onLink k hsame
  obtain ⟨L, hL, -⟩ := (h.base.starts s hs).known i rest hphase
  rw [hks] at hL
  rw [hconnected]
  rcases hlive L hL with hstep | hc
  · have hready := (h.base.starts s hs).ready i rest hphase
    rw [hks] at hready
    apply hready
    rw [← hsettled]
    unfold settled
    rw [getElem?_onLink, if_pos rfl, hL]
    simp only [map_some, bind_some, hstep]
  · simp only [connected, hL, any_some, hc]

theorem restarts_spec (k : Nat) : ∀ (cs : List Nat) {w : ConsumerWorld}, Base w → k < w.links.length →
    Base (cs.foldl (restart k) w) ∧ (∀ j, (cs.foldl (restart k) w).connected j = w.connected j) ∧
      (cs.foldl (restart k) w).consumers = w.consumers ∧ (cs.foldl (restart k) w).manager = w.manager ∧
      (∀ s ∈ w.starts, s ∈ (cs.foldl (restart k) w).starts) ∧
      ∀ c ∈ cs, (w.consumers[c]?).isSome = true → ∃ s ∈ (cs.foldl (restart k) w).starts, s.consumer = c ∧ s.k = k ∧ s.phase ≠ .failed
  | [], w, h, _ => ⟨h, fun _ => rfl, rfl, rfl, fun _ hs => hs, fun c hc => by cases hc⟩
  | c :: cs, w, h, hk => by
    rw [foldl_cons]
    cases hc : w.consumers[c]? with
    | none =>
      have hsame : restart k w c = w := by
        unfold restart
        rw [hc]
      rw [hsame]
      obtain ⟨hbase, hconnected, hconsumers, hmanager, hstarts, hnew⟩ := restarts_spec k cs h hk
      refine ⟨hbase, hconnected, hconsumers, hmanager, hstarts, fun c' hc' hsome => ?_⟩
      rcases mem_cons.1 hc' with rfl | hc'
      · rw [hc] at hsome
        cases hsome
      · exact hnew c' hc' hsome
    | some consumer =>
      have hrestart : restart k w c = w.start c consumer.options k false := by
        unfold restart
        rw [hc]
      obtain ⟨hbase₁, hconnected₁, s, hstarts₁, hsc, hsk, hfailed⟩ := base_start h hk c consumer.options false
      obtain ⟨links, hlinks, hlength⟩ := w.operate_eq k (consumer.options.setup c)
      have hconsumers₁ : (w.start c consumer.options k false).consumers = w.consumers := by simp only [start, hlinks]
      have hmanager₁ : (w.start c consumer.options k false).manager = w.manager := by simp only [start, hlinks]
      have hk₁ : k < (w.start c consumer.options k false).links.length := by
        simp only [start, hlinks]
        omega
      rw [hrestart]
      obtain ⟨hbase, hconnected, hconsumers, hmanager, hstarts, hnew⟩ := restarts_spec k cs hbase₁ hk₁
      refine ⟨hbase, fun j => (hconnected j).trans (hconnected₁ j), hconsumers.trans hconsumers₁, hmanager.trans hmanager₁,
        fun t ht => hstarts t (by rw [hstarts₁]; exact mem_append_left _ ht), fun c' hc' hsome => ?_⟩
      rcases mem_cons.1 hc' with rfl | hc'
      · exact ⟨s, hstarts s (by rw [hstarts₁]; exact mem_append_right _ (mem_singleton.2 rfl)), hsc, hsk, hfailed⟩
      · exact hnew c' hc' (by rw [hconsumers₁]; exact hsome)

/-- A new connection: each registered consumer is started on it, or goes on elsewhere. -/
theorem inv_opened (h : Inv w) {a : Nat} (he : Reconnecting w (.opened a)) : Inv (step w (.opened a)) := by
  simp only [step]
  split
  case h_2 => exact h
  next hidle hattempt =>
  obtain ⟨w₁, hw₁⟩ : ∃ w₁ : ConsumerWorld, w₁ = { w with
      links := w.links ++ [{}], manager := (w.manager.ready a w.links.length).1 } := ⟨_, rfl⟩
  have hlinks : ∀ (j : Nat) L, w.links[j]? = some L → w₁.links[j]? = some L := fun j L hj => by
    rw [hw₁]
    exact getElem?_concat_iff.2 (.inl hj)
  have hnew : w₁.links[w.links.length]? = some {} := by
    rw [hw₁]
    exact getElem?_concat_length
  have hconnected : ∀ j, w.connected j = true → w₁.connected j = true := by
    intro j hj
    unfold connected at *
    cases hL : w.links[j]? with
    | none =>
      rw [hL] at hj
      simp at hj
    | some L =>
      rw [hL] at hj
      rw [hlinks j L hL]
      exact hj
  have hbase : Base w₁ := by
    refine ⟨fun j L hL => ?_, fun s hs => ⟨fun i rest hphase => ?_, fun i rest hphase hsettled => ?_⟩⟩
    · rw [hw₁] at hL
      rcases getElem?_concat_cases hL with hL | ⟨-, rfl⟩
      · exact h.base.links j L hL
      · exact LinkOk.init
    all_goals
      rw [hw₁] at hs
      obtain ⟨L, hL, hi⟩ := (h.base.starts s hs).known i rest hphase
    · exact ⟨L, hlinks s.k L hL, hi⟩
    · have hnone := settled_of_idle hidle hs hphase
      unfold settled at hnone hsettled
      rw [hL] at hnone
      rw [hlinks s.k L hL, hnone] at hsettled
      cases hsettled
  have hlength : w.links.length < w₁.links.length := by
    rw [hw₁, length_append]
    simp
  obtain ⟨hbase', hconnected', hconsumers, hmanager, hstarts, hcallbacks⟩ :=
    restarts_spec w.links.length (w.manager.ready a w.links.length).2 hbase hlength
  simp only [← hw₁]
  refine ⟨hbase', fun _ => .inl fun c hc => ?_⟩
  have hregistered : w.Registered c := by
    unfold Registered at hc ⊢
    rw [hconsumers, hw₁] at hc
    exact hc
  rcases he c hregistered with hmem | ⟨s, hs, hsc, hfailed, hlive⟩
  · obtain ⟨consumer, hconsumer, -⟩ := hregistered
    obtain ⟨s, hs, hsc, hsk, hfailed⟩ := hcallbacks c hmem (by rw [hw₁, hconsumer]; rfl)
    refine ⟨s, hs, hsc, hfailed, ?_⟩
    rw [hsk, hconnected']
    simp [connected, hnew]
  · exact ⟨s, hstarts s (by rw [hw₁]; exact hs), hsc, hfailed, by rw [hconnected']; exact hconnected s.k hlive⟩

theorem inv_destroy (h : Inv w) (k : Nat) (hidle : w.idle = true) : Inv (w.onLink k .destroy) := by
  have hmicro : ∀ L ∈ w.links, L.rpc.conn.microtasks = [] := by
    simp only [idle, Bool.and_eq_true, all_eq_true] at hidle
    intro L hL
    simpa using hidle.1 L hL
  have hbase : Base (w.onLink k .destroy) := by
    refine base_onLink h.base k (fun L hL => (h.base.links k L hL).destroy (hmicro L (mem_of_getElem? hL)))
      (fun L _ => le_rfl) fun s hs i rest hphase hks hsettled => ?_
    obtain ⟨L, hL, -⟩ := (h.base.starts s hs).known i rest hphase
    have hnone := settled_of_idle hidle hs hphase
    rw [hks] at hL
    rw [hks, settled, hL] at hnone
    unfold settled at hsettled
    rw [getElem?_onLink, if_pos rfl, hL] at hsettled
    have hsame : (L.rpc.step .destroy).conn.settled i = L.rpc.conn.settled i := rfl
    simp only [map_some, bind_some, hsame] at hsettled hnone
    rw [hnone] at hsettled
    cases hsettled
  refine ⟨hbase, fun hconn => ?_⟩
  by_cases hk : w.connected k = true
  · -- the connection is lost, and that is not yet noticed
    unfold connected at hk
    cases hL : w.links[k]? with
    | none =>
      rw [hL] at hk
      simp at hk
    | some L =>
      rw [hL, any_some] at hk
      have hlost : (w.onLink k .destroy).links[k]? = some { L with rpc := L.rpc.step .destroy } := by
        rw [getElem?_onLink, if_pos rfl, hL]
        rfl
      refine .inr ⟨_, mem_of_getElem? hlost, rfl, ?_⟩
      cases hseen : L.disconnected with
      | false => rfl
      | true =>
        rw [(h.base.links k L hL).seen hseen] at hk
        cases hk
  · have hsame : w.onLink k .destroy = w := by
      have hlinks : (w.onLink k .destroy).links = w.links := by
        apply ext_getElem?
        intro j
        rw [getElem?_onLink]
        split
        · next hkj =>
          subst hkj
          cases hL : w.links[k]? with
          | none => rfl
          | some L =>
            simp only [connected, hL, any_some, Bool.not_eq_true] at hk
            rw [map_some, RpcWorld.step, ← hk]
        · rfl
      calc w.onLink k .destroy = { w with links := (w.onLink k .destroy).links } := rfl
        _ = w := by rw [hlinks]
    rw [hsame]
    exact h.alive hconn

theorem inv_disconnect (h : Inv w) {k : Nat} (hk : (w.links[k]?.any fun L => !L.rpc.conn.connected && !L.disconnected) = true) : Inv { w with
      manager := w.manager.onDisconnect w.connected
      links := w.links.modify k fun L => { L with disconnected := true } } := by
  have hget : ∀ j, (w.links.modify k fun L => { L with disconnected := true })[j]? =
      if k = j then w.links[j]?.map fun L => { L with disconnected := true } else w.links[j]? := by
    intro j
    rw [getElem?_modify]
    split <;> simp
  have hrpc : ∀ (j : Nat) L, w.links[j]? = some L →
      ∃ L', (w.links.modify k fun L => { L with disconnected := true })[j]? = some L' ∧ L'.rpc = L.rpc := by
    intro j L hj
    rw [hget, hj]
    split
    · exact ⟨_, rfl, rfl⟩
    · exact ⟨L, rfl, rfl⟩
  refine ⟨⟨fun j L hL => ?_, fun s hs => ⟨fun i rest hphase => ?_, fun i rest hphase hsettled => ?_⟩⟩, fun hconn => ?_⟩
  · simp only [hget] at hL
    split at hL
    · next hkj =>
      obtain ⟨L₀, hL₀, rfl⟩ := Option.map_eq_some_iff.1 hL
      have hold := h.base.links j L₀ hL₀
      rw [hkj, hL₀, any_some, Bool.and_eq_true, Bool.not_eq_true'] at hk
      exact ⟨hold.rpc, hold.accepted, hold.micro, fun _ => hk.1⟩
    · exact h.base.links j L hL
  · obtain ⟨L, hL, hi⟩ := (h.base.starts s hs).known i rest hphase
    obtain ⟨L', hL', hsame⟩ := hrpc s.k L hL
    exact ⟨L', hL', by rw [hsame]; exact hi⟩
  · obtain ⟨L, hL, -⟩ := (h.base.starts s hs).known i rest hphase
    obtain ⟨L', hL', hsame⟩ := hrpc s.k L hL
    have hready := (h.base.starts s hs).ready i rest hphase
    simp only [settled, connected, hL, hL', hsame, bind_some, any_some] at hready hsettled ⊢
    exact hready hsettled
  · exfalso
    apply hconn
    simp only [RabbitMqConnectionManager.onDisconnect]
    split
    · rfl
    · rw [conn_get]

/-! ## Runs -/

theorem inv_step {e : ConsumerEvent} (h : Inv w) (he : Reconnecting w e) : Inv (step w e) := by
  cases e with
  | consume options =>
    refine h.step ⟨h.base.links, fun s hs => ⟨(h.base.starts s hs).known, (h.base.starts s hs).ready⟩⟩ (conn_get _ _)
      (fun c hc => .inl ?_) (fun _ hc => hc) id
    obtain ⟨consumer, hconsumer, hregistered⟩ := hc
    rcases getElem?_concat_cases hconsumer with hold | ⟨-, rfl⟩
    · exact ⟨consumer, hold, hregistered⟩
    · split at hregistered <;> cases hregistered
  | resume c =>
    simp only [step]
    cases hc : w.consumers[c]? with
    | none => exact h
    | some consumer => exact inv_resume h c consumer
  | proceed x =>
    simp only [step]
    cases hx : w.starts[x]? with
    | none => exact h
    | some s => exact inv_proceed h hx
  | opened a => exact inv_opened h he
  | retry a =>
    have hconn : (w.manager.retry a).conn = w.manager.conn := by
      unfold RabbitMqConnectionManager.retry
      split <;> rfl
    exact h.step ⟨h.base.links, fun s hs => ⟨(h.base.starts s hs).known, (h.base.starts s hs).ready⟩⟩ hconn
      (fun _ hc => .inl hc) (fun _ hc => hc) id
  | call k op =>
    obtain ⟨hbase, hconnected⟩ := h.base.call k op
    exact h.step hbase rfl (fun _ hc => .inl hc) (fun c hc => hc.mono hconnected fun t ht hne _ => ⟨t, ht, rfl, rfl, hne⟩)
      fun hlost => hlost.onLink k fun L _ => connected_call L op
  | serve k args =>
    simp only [step]
    split
    · have hone : ∀ L, w.links[k]? = some L → L.rpc.OneOfAKind (.serve args) := by
        intro L hL
        simpa only [Reconnecting, hL, Option.getD_some] using he
      refine inv_onLink h k (fun L hL => (h.base.links k L hL).serve (hone L hL)) (fun L _ => ?_) (fun L _ => ?_) fun L _ => ?_
      · simp only [RpcWorld.step]
        split
        · split <;> simp [AmqpConnection.handleReply, AmqpConnection.settleCall]
          split <;> simp
        · exact le_rfl
      · simp only [RpcWorld.step]
        split
        · split <;> simp [AmqpConnection.handleReply, AmqpConnection.settleCall]
          split <;> simp
        · rfl
      · cases hc : L.rpc.conn.connected with
        | true => exact .inr rfl
        | false => exact .inl (by simp [RpcWorld.step, hc])
    · exact h
  | «continue» k =>
    refine inv_onLink h k (fun L hL => (h.base.links k L hL).continue) (fun L _ => ?_) (fun L _ => ?_) fun L hL => ?_
    · obtain ⟨microtasks, confirmEnabled, consumers, hconn⟩ := L.rpc.conn.runMicrotask_eq
      simp only [RpcWorld.step, hconn]
      exact le_rfl
    · obtain ⟨microtasks, confirmEnabled, consumers, hconn⟩ := L.rpc.conn.runMicrotask_eq
      simp only [RpcWorld.step, hconn]
    · by_cases hnil : L.rpc.conn.microtasks = []
      · refine .inl ?_
        simp only [RpcWorld.step, AmqpConnection.runMicrotask, hnil]
      · exact .inr ((h.base.links k L hL).micro hnil)
  | destroy k =>
    simp only [step]
    split
    · next hidle => exact inv_destroy h k hidle
    · exact h
  | disconnect k =>
    simp only [step]
    split
    · next hk => exact inv_disconnect h (by simpa using (Bool.and_eq_true _ _ ▸ hk).2)
    · exact h

theorem consuming_of_reconnecting (es : List ConsumerEvent) (h : Guarded step Reconnecting {} es) : (run step {} es).Consuming :=
  (run_invariant_of_guarded step (fun _ _ hw he => inv_step hw he) es h inv_init).consuming

end ConsumerWorld

/-! ## Consumers -/

/-- The deliveries of an orderly run are handled as far as they have come; and after each reconnect that finds its
callback a consumer consumes again. -/
theorem consumers_of_orderly (es : List DeliveryEvent) (hes : Guarded DeliveryWorld.step DeliveryWorld.Orderly {} es)
    (fs : List ConsumerEvent) (hfs : Guarded ConsumerWorld.step ConsumerWorld.Reconnecting {} fs) :
    (run DeliveryWorld.step {} es).Handled ∧ (run ConsumerWorld.step {} fs).Consuming :=
  ⟨DeliveryWorld.handled_of_orderly es hes, ConsumerWorld.consuming_of_reconnecting fs hfs⟩

/-- A delivery in two chunks behind the Consume-Ok, and a consumer that is started again after a reconnect. -/
theorem consumers_of_orderly_restarted :
    (run DeliveryWorld.step {} [.call (.consume 7), .serve [116], .data 100, .deliver [116] ⟨1, false, [], [107]⟩,
      .header 2 [0, 0], .body [104, 105], .data 9, .data 100]).Handled ∧
    (run ConsumerWorld.step {} [.consume { routingKeys := 0 }, .opened 0, .resume 0, .resume 0, .serve 0 [], .continue 0,
      .proceed 0, .serve 0 [], .continue 0, .proceed 0, .serve 0 [], .continue 0, .proceed 0, .serve 0 [1, 116], .continue 0,
      .proceed 0, .destroy 0, .disconnect 0, .opened 1, .serve 1 [], .continue 1, .proceed 1]).Consuming := by
  refine consumers_of_orderly _ ?_ _ ?_
  · refine ⟨?_, trivial, ?_, trivial, trivial, trivial, ?_, ?_, trivial⟩
    · intro _ call hcall
      cases hcall
    all_goals
      change ∀ done ∈ _, _ ∉ _
      decide
  · refine ⟨trivial, ?_, trivial, trivial, ?_, trivial, trivial, ?_, trivial, trivial, ?_, trivial, trivial, ?_, trivial, trivial,
      trivial, trivial, ?_, ?_, trivial, trivial, trivial⟩
    · rintro c ⟨consumer, hconsumer, hregistered⟩
      cases c with
      | zero =>
        cases hconsumer
        cases hregistered
      | succ c => cases hconsumer
    · exact RpcWorld.oneOfAKind_of_last [] rfl (by decide)
    · exact RpcWorld.oneOfAKind_of_last [] rfl (by decide)
    · exact RpcWorld.oneOfAKind_of_last [] rfl (by decide)
    · exact RpcWorld.oneOfAKind_of_last [] rfl (by decide)
    · rintro c ⟨consumer, hconsumer, -⟩
      cases c with
      | zero => exact .inl mem_cons_self
      | succ c => cases hconsumer
    · exact RpcWorld.oneOfAKind_of_last [] rfl (by decide)

/-- A delivery in the chunk of its Consume-Ok is dropped; and after a second reconnect the consumer is not started. -/
theorem consumer_counterexample : (¬ ∀ es, (run DeliveryWorld.step {} es).Handled) ∧ ¬ ∀ es, (run ConsumerWorld.step {} es).Consuming := by
  constructor
  · intro h
    exact absurd (h [.call (.consume 7), .serve [116], .deliver [116] ⟨1, false, [], [107]⟩, .header 0 [0, 0], .data 100]) (by
        unfold DeliveryWorld.Handled
        decide)
  · intro h
    obtain ⟨w, hw⟩ : ∃ w, w = run ConsumerWorld.step {} [.consume { routingKeys := 0 }, .opened 0, .resume 0, .resume 0,
      .serve 0 [], .continue 0, .proceed 0, .serve 0 [], .continue 0, .proceed 0, .serve 0 [], .continue 0, .proceed 0,
      .serve 0 [1, 116], .continue 0, .proceed 0, .destroy 0, .disconnect 0, .opened 1,
      .serve 1 [], .continue 1, .proceed 1, .serve 1 [], .continue 1, .proceed 1, .serve 1 [], .continue 1, .proceed 1,
      .serve 1 [1, 117], .continue 1, .proceed 1, .destroy 1, .disconnect 1, .opened 2] := ⟨_, rfl⟩
    have hdead : ∀ s ∈ w.starts, w.connected s.k = false := by
      rw [hw]
      decide
    have hquiet : w.Quiet := by
      rw [hw]
      exact ⟨by decide, by decide⟩
    have hconsuming : w.Consuming := by
      rw [hw]
      exact h _
    obtain ⟨s, hs, -, -, hlive⟩ := hconsuming hquiet (by rw [hw]; decide) 0 (by rw [hw]; exact ⟨_, rfl, rfl⟩)
    rw [hdead s hs] at hlive
    cases hlive

end StreetJS.Amqp
