/-
Calls and replies: a call is completed by the reply to its own request, and none is left when the socket has closed,
exactly when no reply comes while a second call of its kind is outstanding, and the socket closes with nothing
outstanding.
-/
import StreetJS.Lib.Runs
import StreetJS.Lib.ListSet
import StreetJS.Amqp.Connection

namespace StreetJS.Amqp

open StreetJS.Lib List OrderedMap
open AmqpConnection (call handleReply publish rpc settleCall)

/-! ## A connection and its broker -/

/-- A connection, what the broker has answered, and whether the socket has closed. -/
structure RpcWorld where
  conn : AmqpConnection := {}
  answered : List (Nat × Bytes) := []
  closed : Bool := false

inductive RpcEvent where
  | call (op : Op)
  | publish
  /-- The broker takes the oldest frame; a request is answered with these arguments. -/
  | serve (args : Bytes)
  | continue
  | confirm (tag : Nat) (multiple nack : Bool)
  /-- The socket is destroyed. -/
  | destroy
  /-- `_onClose`, which settles nothing. -/
  | close

namespace RpcWorld

variable {w : RpcWorld}

def step (w : RpcWorld) : RpcEvent → RpcWorld
  | .call op => { w with conn := w.conn.call op }
  | .publish => { w with conn := w.conn.publish }
  | .serve args =>
    if w.conn.connected then
      match w.conn.sent with
      | [] => w
      | .publish _ :: rest => { w with conn := { w.conn with sent := rest } }
      | .request i op :: rest =>
        { w with
          conn := { w.conn with sent := rest }.handleReply op.expects args
          answered := w.answered ++ [(i, args)] }
    else w
  | .continue => { w with conn := w.conn.runMicrotask }
  | .confirm tag multiple nack => if w.conn.connected then { w with conn := w.conn.confirm tag multiple nack } else w
  | .destroy => { w with conn := { w.conn with connected := false } }
  | .close => if w.conn.connected then w else { w with closed := true }

/-- Nothing waits. -/
def Settled (w : RpcWorld) : Prop :=
  (∀ call ∈ w.conn.calls, call.outcome ≠ .pending) ∧ ∀ o ∈ w.conn.publishes, o ≠ .pending

/-- A call has a reply when its own request is answered, and with that answer; behind the close of the socket nothing
waits. -/
structure Matched (w : RpcWorld) : Prop where
  own : ∀ i args, (∃ op, w.conn.calls[i]? = some { op, outcome := .replied args }) ↔ (i, args) ∈ w.answered
  close : w.closed = true → w.Settled

/-- The broker answers a call when no other of its kind is outstanding, and the socket closes when nothing waits. -/
def OneOfAKind (w : RpcWorld) : RpcEvent → Prop
  | .serve _ => w.conn.connected = true → ∀ i op rest, w.conn.sent = .request i op :: rest →
      ∀ j op', w.conn.calls[j]? = some { op := op', outcome := .pending } → op'.expects = op.expects → j = i
  | .close => w.conn.connected = false → w.Settled
  | _ => True

variable {op : Op}

theorem oneOfAKind_of_last (args : Bytes) (hsent : w.conn.sent = [.request (w.conn.calls.length - 1) op])
    (hlast : ∀ call ∈ w.conn.calls.dropLast, call.outcome ≠ .pending) : OneOfAKind w (.serve args) := by
  rintro - i op' rest hi j op'' hj -
  rw [hsent, List.cons.injEq, ClientFrame.request.injEq] at hi
  by_contra hne
  have hlt := (lt_length hj)
  have hdrop : w.conn.calls.dropLast[j]? = some { op := op'', outcome := .pending } := by
    rw [getElem?_dropLast, if_pos (by omega), hj]
  exact hlast _ (mem_of_getElem? hdrop) rfl

/-! ## What the broker has not answered -/

/-- The requests among the frames. -/
def requests (frames : List ClientFrame) : List (Nat × Op) :=
  frames.filterMap fun
    | .request i op => some (i, op)
    | .publish _ => none

@[simp] theorem requests_append (fs gs : List ClientFrame) : requests (fs ++ gs) = requests fs ++ requests gs :=
  filterMap_append

@[simp] theorem requests_publish (m : Nat) (fs : List ClientFrame) : requests (.publish m :: fs) = requests fs := rfl

@[simp] theorem requests_request (i : Nat) (op : Op) (fs : List ClientFrame) : requests (.request i op :: fs) = (i, op) :: requests fs := rfl

@[simp] theorem requests_nil : requests [] = [] := rfl

/-- The calls in their order wait in the queue of the broker, and the waiter of a method is the last call that waits
for it. -/
structure Inv (w : RpcWorld) : Prop where
  matched : w.Matched
  queued : ∀ i op, w.conn.calls[i]? = some { op, outcome := .pending } ↔ (i, op) ∈ requests w.conn.sent
  order : (requests w.conn.sent).Pairwise fun r s => r.1 < s.1
  waits : w.conn.connected = true → ∀ i op, (i, op) ∈ requests w.conn.sent → ∃ j op',
    w.conn.waiters.get op.expects = some j ∧ (j, op') ∈ requests w.conn.sent ∧ op'.expects = op.expects ∧ i ≤ j
  waiter : w.conn.connected = true → ∀ key j, w.conn.waiters.get key = some j → ∃ op, (j, op) ∈ requests w.conn.sent ∧ op.expects = key
  closed : w.closed = true → w.conn.connected = false

theorem inv_init : Inv {} where
  matched := ⟨by simp, by simp⟩
  queued := by simp
  order := List.Pairwise.nil
  waits := by simp
  waiter := by simp
  closed := by simp

theorem Inv.frame (h : w.Inv) {w' : RpcWorld} (hcalls : w'.conn.calls = w.conn.calls)
    (hwaiters : w'.conn.waiters = w.conn.waiters) (hanswered : w'.answered = w.answered)
    (hrequests : requests w'.conn.sent = requests w.conn.sent)
    (hconnected : w'.conn.connected = true → w.conn.connected = true)
    (hclosed : w'.closed = true → w'.conn.connected = false)
    (hsettled : w'.closed = true → w'.Settled) : w'.Inv where
  matched := ⟨by rw [hcalls, hanswered]; exact h.matched.own, hsettled⟩
  queued := by rw [hcalls, hrequests]; exact h.queued
  order := by rw [hrequests]; exact h.order
  waits := by
    intro hc
    rw [hwaiters, hrequests]
    exact h.waits (hconnected hc)
  waiter := by
    intro hc
    rw [hwaiters, hrequests]
    exact h.waiter (hconnected hc)
  closed := hclosed

/-! ## Calls -/

theorem fresh_request (h : w.Inv) {i : Nat} (hi : (i, op) ∈ requests w.conn.sent) : i < w.conn.calls.length :=
  (List.getElem?_eq_some_iff.1 ((h.queued i op).2 hi)).1

theorem Inv.settledCall (h : w.Inv) {w' : RpcWorld} (call : Call) (hpending : call.outcome ≠ .pending)
    (hreplied : ∀ args, call.outcome ≠ .replied args) (hcalls : w'.conn.calls = w.conn.calls ++ [call])
    (hpublishes : w'.conn.publishes = w.conn.publishes) (hsent : w'.conn.sent = w.conn.sent)
    (hwaiters : w'.conn.connected = true → w'.conn.waiters = w.conn.waiters)
    (hconnected : w'.conn.connected = w.conn.connected) (hanswered : w'.answered = w.answered)
    (hclosed : w'.closed = w.closed) : w'.Inv where
  matched := by
    constructor
    · intro i args
      rw [hcalls, hanswered, ← h.matched.own i args]
      constructor
      · rintro ⟨op, hop⟩
        rcases getElem?_concat_cases hop with hop | ⟨-, rfl⟩
        · exact ⟨op, hop⟩
        · exact absurd rfl (hreplied args)
      · rintro ⟨op, hop⟩
        exact ⟨op, getElem?_concat_iff.2 (.inl hop)⟩
    · intro hc
      have hs := h.matched.close (hclosed ▸ hc)
      refine ⟨fun c hcall => ?_, by rw [hpublishes]; exact hs.2⟩
      rw [hcalls, mem_append, mem_singleton] at hcall
      rcases hcall with hcall | rfl
      · exact hs.1 c hcall
      · exact hpending
  queued := by
    intro i op
    rw [hcalls, hsent, ← h.queued i op, getElem?_concat_iff]
    constructor
    · rintro (hop | ⟨-, rfl⟩)
      · exact hop
      · exact absurd rfl hpending
    · exact .inl
  order := by rw [hsent]; exact h.order
  waits := by
    intro hc
    rw [hwaiters hc, hsent]
    exact h.waits (hconnected ▸ hc)
  waiter := by
    intro hc
    rw [hwaiters hc, hsent]
    exact h.waiter (hconnected ▸ hc)
  closed := by rw [hclosed, hconnected]; exact h.closed

theorem inv_sentCall (h : w.Inv) (hc : w.conn.connected = true) : Inv { w with conn := w.conn.rpc op } := by
  have hclosed : w.closed ≠ true := by
    intro hcl
    rw [h.closed hcl] at hc
    cases hc
  have hrequests : requests (w.conn.rpc op).sent = requests w.conn.sent ++ [(w.conn.calls.length, op)] := by
    simp [rpc, hc]
  have hcalls : (w.conn.rpc op).calls = w.conn.calls ++ [{ op, outcome := .pending }] := by simp [rpc, hc]
  have hwaiters : (w.conn.rpc op).waiters = w.conn.waiters.set op.expects w.conn.calls.length := by
    simp [rpc, hc]
  refine ⟨⟨fun i args => ?_, fun hcl => absurd hcl hclosed⟩, fun i op' => ?_, ?_, fun _ i op' hi => ?_,
    fun _ key j hj => ?_, fun hcl => absurd hcl hclosed⟩
  · rw [hcalls, ← h.matched.own i args]
    constructor
    · rintro ⟨op', hop⟩
      rcases getElem?_concat_cases hop with hop | ⟨-, hop⟩
      · exact ⟨op', hop⟩
      · simp at hop
    · rintro ⟨op', hop⟩
      exact ⟨op', getElem?_concat_iff.2 (.inl hop)⟩
  · rw [hcalls, hrequests, getElem?_concat_iff, h.queued, mem_append, mem_singleton, Prod.mk.injEq]
    simp
  · rw [hrequests, pairwise_append]
    refine ⟨h.order, pairwise_singleton _ _, fun r hr s hs => ?_⟩
    rw [mem_singleton] at hs
    subst hs
    exact fresh_request h hr
  · rw [hrequests, mem_append, mem_singleton] at hi
    simp only [hwaiters, hrequests, get_set, mem_append, mem_singleton]
    by_cases hkey : op'.expects = op.expects
    · refine ⟨w.conn.calls.length, op, by rw [if_pos hkey], .inr rfl, hkey.symm, ?_⟩
      rcases hi with hi | hi
      · exact le_of_lt (fresh_request h hi)
      · rw [Prod.mk.injEq] at hi
        omega
    · rcases hi with hi | hi
      · obtain ⟨j, op'', hj, hmem, hexp, hle⟩ := h.waits hc i op' hi
        exact ⟨j, op'', by rw [if_neg hkey]; exact hj, .inl hmem, hexp, hle⟩
      · rw [Prod.mk.injEq] at hi
        exact absurd (congrArg Op.expects hi.2) hkey
  · simp only [hrequests, mem_append, mem_singleton]
    rw [hwaiters, get_set] at hj
    by_cases hkey : key = op.expects
    · rw [if_pos hkey, Option.some.injEq] at hj
      exact ⟨op, .inr (by rw [hj]), hkey.symm⟩
    · rw [if_neg hkey] at hj
      obtain ⟨op', hmem, hexp⟩ := h.waiter hc key j hj
      exact ⟨op', .inl hmem, hexp⟩

theorem inv_call (h : w.Inv) (op : Op) : Inv { w with conn := w.conn.call op } := by
  unfold call
  split
  · exact h.settledCall { op, outcome := .resolved } (by simp) (by simp) rfl rfl rfl (fun _ => rfl) rfl rfl rfl
  · cases hc : w.conn.connected with
    | true => exact inv_sentCall h hc
    | false =>
      refine h.settledCall { op, outcome := .rejected } (by simp) (by simp) ?_ ?_ ?_ ?_ ?_ rfl rfl
      all_goals simp [rpc, hc]

/-! ## Replies -/

theorem Inv.waiterOf (h : w.Inv) (hc : w.conn.connected = true) {j : Nat} (hj : w.conn.calls[j]? = some { op, outcome := .pending }) :
    ∃ m op', w.conn.waiters.get op.expects = some m ∧ w.conn.calls[m]? = some { op := op', outcome := .pending } ∧
      op'.expects = op.expects ∧ j ≤ m := by
  obtain ⟨m, op', hget, hmem, hexp, hle⟩ := h.waits hc j op ((h.queued j op).1 hj)
  exact ⟨m, op', hget, (h.queued m op').2 hmem, hexp, hle⟩

variable {rest : List ClientFrame}

theorem Inv.oldest (h : w.Inv) {i : Nat} (hsent : w.conn.sent = .request i op :: rest)
    {j : Nat} {op' : Op} (hj : (j, op') ∈ requests rest) : i < j := by
  have horder := h.order
  rw [hsent, requests_request, pairwise_cons] at horder
  exact horder.1 (j, op') hj

theorem getElem?_settleCall (c : AmqpConnection) (i : Nat) (o : Outcome) (j : Nat) : (c.settleCall i o).calls[j]? =
      if i = j then c.calls[j]?.map fun call => { call with outcome := call.outcome.settle o } else c.calls[j]? := by
  simp only [settleCall, getElem?_modify]
  cases hj : c.calls[j]? with
  | none => simp
  | some call => by_cases hij : i = j <;> simp [hij]

theorem inv_reply (h : w.Inv) (hc : w.conn.connected = true) {i : Nat} (hsent : w.conn.sent = .request i op :: rest) (args : Bytes)
    (hone : ∀ j op', w.conn.calls[j]? = some { op := op', outcome := .pending } → op'.expects = op.expects → j = i) :
    Inv { w with
          conn := { w.conn with sent := rest }.handleReply op.expects args
          answered := w.answered ++ [(i, args)] } := by
  have hi : w.conn.calls[i]? = some { op, outcome := .pending } :=
    (h.queued i op).2 (by rw [hsent]; exact mem_cons_self)
  have hget : w.conn.waiters.get op.expects = some i := by
    obtain ⟨m, op', hget, hm, hexp, -⟩ := h.waiterOf hc hi
    rw [hget, hone m op' hm hexp]
  have hclosed : w.closed ≠ true := by
    intro hcl
    rw [h.closed hcl] at hc
    cases hc
  obtain ⟨c, hcdef⟩ : ∃ c, c = { w.conn with sent := rest }.handleReply op.expects args := ⟨_, rfl⟩
  have hcalls : ∀ j, c.calls[j]? = if i = j then some { op, outcome := .replied args } else w.conn.calls[j]? := by
    intro j
    rw [hcdef]
    simp only [handleReply, hget, getElem?_settleCall]
    by_cases hij : i = j
    · subst hij
      simp [hi, Outcome.settle]
    · simp [hij]
  have hrest : c.sent = rest := by
    rw [hcdef]
    simp [handleReply, hget, settleCall]
  have hwaiters : c.waiters = w.conn.waiters.delete op.expects := by
    rw [hcdef]
    simp [handleReply, hget]
  have hold : ∀ j op', (j, op') ∈ requests rest → (j, op') ∈ requests w.conn.sent := fun j op' hj => by
    rw [hsent]
    exact mem_cons_of_mem _ hj
  -- a call that is still in the queue is of another kind
  have hkinds : ∀ j op', (j, op') ∈ requests rest → op'.expects ≠ op.expects := by
    intro j op' hj hexp
    have hlt := h.oldest hsent hj
    have heq := hone j op' ((h.queued j op').2 (hold j op' hj)) hexp
    omega
  rw [← hcdef]
  refine ⟨⟨fun j args' => ?_, fun hcl => absurd hcl hclosed⟩, fun j op' => ?_, ?_, fun _ j op' hj => ?_,
    fun _ key j hj => ?_, fun hcl => absurd hcl hclosed⟩
  · simp only [hcalls, mem_append, mem_singleton, Prod.mk.injEq, ← h.matched.own j args']
    by_cases hij : i = j
    · subst hij
      simp [hi, eq_comm]
    · have hji : j ≠ i := fun hji => hij hji.symm
      simp [hij, hji]
  · simp only [hcalls, hrest]
    by_cases hij : i = j
    · subst hij
      simp only [if_true, Option.some.injEq, Call.mk.injEq, reduceCtorEq, and_false, false_iff]
      intro hmem
      exact absurd (h.oldest hsent hmem) (by omega)
    · rw [if_neg hij, h.queued j op', hsent, requests_request, mem_cons, Prod.mk.injEq]
      constructor
      · rintro (⟨rfl, -⟩ | hmem)
        · exact absurd rfl hij
        · exact hmem
      · exact .inr
  · have horder := h.order
    rw [hsent, requests_request, pairwise_cons] at horder
    simpa only [hrest] using horder.2
  · simp only [hrest] at hj ⊢
    obtain ⟨m, op'', hm, hmem, hexp, hle⟩ := h.waits hc j op' (hold j op' hj)
    refine ⟨m, op'', ?_, ?_, hexp, hle⟩
    · rw [hwaiters, get_delete, if_neg (hkinds j op' hj), hm]
    · rw [hsent, requests_request, mem_cons] at hmem
      rcases hmem with hmem | hmem
      · rw [Prod.mk.injEq] at hmem
        exact absurd (hmem.2 ▸ hexp).symm (hkinds j op' hj)
      · exact hmem
  · simp only [hwaiters, get_delete] at hj
    simp only [hrest]
    by_cases hkey : key = op.expects
    · simp [hkey] at hj
    · rw [if_neg hkey] at hj
      obtain ⟨op', hmem, hexp⟩ := h.waiter hc key j hj
      refine ⟨op', ?_, hexp⟩
      rw [hsent, requests_request, mem_cons, Prod.mk.injEq] at hmem
      rcases hmem with ⟨-, rfl⟩ | hmem
      · exact absurd hexp.symm hkey
      · exact hmem

theorem oneOfAKind_of_matched (h : w.Inv) (hc : w.conn.connected = true) {i : Nat}
    (hsent : w.conn.sent = .request i op :: rest) {args : Bytes} (hmatched : (step w (.serve args)).Matched)
    {j : Nat} {op' : Op} (hj : w.conn.calls[j]? = some { op := op', outcome := .pending })
    (hexp : op'.expects = op.expects) : j = i := by
  obtain ⟨m, op'', hget, hm, -, hle⟩ := h.waiterOf hc hj
  rw [hexp] at hget
  have hreplied : ∃ o, (step w (.serve args)).conn.calls[m]? = some { op := o, outcome := .replied args } := by
    refine ⟨op'', ?_⟩
    simp only [step, hc, hsent, if_true, handleReply, hget, getElem?_settleCall]
    simp [hm, Outcome.settle]
  have hanswered : (step w (.serve args)).answered = w.answered ++ [(i, args)] := by simp [step, hc, hsent]
  have hmem := (hmatched.own m args).1 hreplied
  rw [hanswered, mem_append, mem_singleton, Prod.mk.injEq] at hmem
  rcases hmem with hmem | ⟨rfl, -⟩
  · obtain ⟨o, ho⟩ := (h.matched.own m args).2 hmem
    rw [hm] at ho
    simp at ho
  · have hqueued := (h.queued j op').1 hj
    rw [hsent, requests_request, mem_cons, Prod.mk.injEq] at hqueued
    rcases hqueued with ⟨rfl, -⟩ | hqueued
    · rfl
    · exact absurd (h.oldest hsent hqueued) (by omega)

/-! ## Publishes and confirms -/

theorem inv_publish (h : w.Inv) : Inv { w with conn := w.conn.publish } := by
  have hcalls : w.conn.publish.calls = w.conn.calls := by
    unfold publish
    split_ifs <;> rfl
  have hwaiters : w.conn.publish.waiters = w.conn.waiters := by
    unfold publish
    split_ifs <;> rfl
  have hconn : w.conn.publish.connected = w.conn.connected := by
    unfold publish
    split_ifs <;> rfl
  refine h.frame hcalls hwaiters rfl ?_ (fun hc => hconn ▸ hc) (fun hc => hconn.trans (h.closed hc)) fun hcl => ?_
  · unfold publish
    split_ifs <;> simp
  · have hs := h.matched.close hcl
    refine ⟨by rw [hcalls]; exact hs.1, fun o ho => ?_⟩
    have hpublishes : w.conn.publish.publishes = w.conn.publishes ++ [.rejected] := by
      simp [publish, h.closed hcl]
    rw [hpublishes, mem_append, mem_singleton] at ho
    rcases ho with ho | rfl
    · exact hs.2 o ho
    · simp

/-! ## Runs -/

theorem inv_step {e : RpcEvent} (h : w.Inv) (he : OneOfAKind w e) : Inv (step w e) := by
  cases e with
  | call op => exact inv_call h op
  | publish => exact inv_publish h
  | serve args =>
    simp only [step]
    split
    case isFalse => exact h
    case isTrue hc =>
      split
      · exact h
      · next m rest hsent =>
        refine h.frame rfl rfl rfl ?_ id h.closed fun hcl => h.matched.close hcl
        simp [hsent]
      · next i op rest hsent => exact inv_reply h hc hsent args (he hc i op rest hsent)
  | «continue» =>
    obtain ⟨microtasks, confirmEnabled, consumers, hconn⟩ := w.conn.runMicrotask_eq
    simp only [step, hconn]
    exact h.frame rfl rfl rfl rfl id h.closed h.matched.close
  | confirm tag multiple nack =>
    simp only [step]
    split
    case isFalse => exact h
    case isTrue hc =>
      obtain ⟨publishes, confirmWaiters, hconn⟩ := w.conn.confirm_eq tag multiple nack
      have hopen : w.closed ≠ true := by
        intro hcl
        rw [h.closed hcl] at hc
        cases hc
      rw [hconn]
      exact h.frame rfl rfl rfl rfl id (fun hcl => absurd hcl hopen) fun hcl => absurd hcl hopen
  | destroy => exact h.frame rfl rfl rfl rfl (fun hc => by cases hc) (fun _ => rfl) fun hcl => h.matched.close hcl
  | close =>
    simp only [step]
    split
    · exact h
    · next hc =>
      rw [Bool.not_eq_true] at hc
      exact h.frame rfl rfl rfl rfl (fun hc' => hc') (fun _ => hc) fun _ => he hc

theorem guard_of_matched {e : RpcEvent} (h : w.Inv) (hmatched : (step w e).Matched) : OneOfAKind w e := by
  cases e with
  | serve args => exact fun hc i op rest hsent j op' hj hexp => oneOfAKind_of_matched h hc hsent hmatched hj hexp
  | close =>
    intro hc
    have hstep : step w .close = { w with closed := true } := by simp [step, hc]
    rw [hstep] at hmatched
    exact hmatched.close rfl
  | _ => trivial

/-- Every state of a run is matched exactly when each reply is to the only call of its kind and the socket closes with
nothing outstanding. -/
theorem matched_iff_oneOfAKind (es : List RpcEvent) : (∀ n, (run step {} (es.take n)).Matched) ↔ Guarded step OneOfAKind {} es :=
  forall_take_iff_guarded (D := fun _ _ => True) step (fun _ h => h.matched) (fun _ _ h _ he => inv_step h he)
    (fun _ _ h _ hm => guard_of_matched h hm) es inv_init (guarded_of_forall step (fun _ _ => trivial) _ es)

/-- Two queues are declared at once: the reply to the first goes to the second. -/
theorem rpc_counterexample : ¬ (∀ es, (run step {} es).Matched) ∧ ¬ (run step {} [.call .setQos, .destroy, .close]).Matched := by
  constructor
  · intro h
    have hown := ((h [.call .declareQueue, .call .declareQueue, .serve [1, 97]]).own 1 [1, 97]).1 ⟨.declareQueue, rfl⟩
    exact absurd hown (by decide)
  · intro h
    exact (h.close rfl).1 { op := .setQos } (by decide) rfl

end RpcWorld

end StreetJS.Amqp
