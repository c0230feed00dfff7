/-
Deliveries are not dropped: where no Consume-Ok comes in one chunk with the end of a delivery for its tag, and one
consumer is started at a time, each delivery whose last frame has come has been given to the handler of its tag, once
and in order, with the bytes of its body.
-/
import StreetJS.Lib.Runs
import StreetJS.Lib.ListSet
import StreetJS.Amqp.Deliveries

namespace StreetJS.Amqp

open StreetJS.Lib List OrderedMap
open BigEndian (encode)

/-! ## The frames of the broker -/

namespace AmqpConnection

variable (c : AmqpConnection)

theorem handleFrame_reply (op : Op) (args : Bytes) : c.handleFrame (Signal.method op.expects args) = c.handleReply op.expects args := by
  have hread : readMethodHeader (Signal.method op.expects args).payload = some (op.expects, args) := by
    apply readMethodHeader_write
    all_goals cases op <;> simp [Op.expects]
  unfold handleFrame
  rw [hread]
  cases op <;> rfl

theorem handleFrame_confirm {tag : Nat} (htag : tag < 256 ^ 8) (multiple nack : Bool) :
    c.handleFrame (Signal.confirm tag multiple nack).frame = c.confirm tag multiple nack := by
  have hread : ∀ nack : Bool, readMethodHeader (Signal.confirm tag multiple nack).frame.payload =
      some (⟨60, if nack then 120 else 80⟩, encode 8 tag ++ (encode 1 multiple.toNat ++ [])) := by
    intro nack
    apply readMethodHeader_write
    all_goals cases nack <;> decide
  have htag' : longLong (encode 8 tag ++ (encode 1 multiple.toNat ++ [])) =
      some (tag, encode 1 multiple.toNat ++ []) := readUIntBE_encode htag _
  unfold handleFrame
  rw [hread]
  cases nack
  all_goals
    simp only [Signal.frame, Signal.method, FRAME_METHOD, FRAME_HEARTBEAT, FRAME_HEADER, FRAME_BODY, handleMethod, htag', bit_write]
    rfl

theorem beginDelivery_write {tag : Bytes} {msg : MessageFields} (h : (Signal.deliver tag msg).FieldsFit) :
    beginDelivery (Signal.deliverArgs tag msg) = some { tag, msg } := by
  obtain ⟨htag, hdelivery, hexchange, hkey⟩ := h
  unfold beginDelivery Signal.deliverArgs longLong
  rw [shortStr_write htag]
  simp only [Option.bind_eq_bind, Option.bind_some]
  rw [readUIntBE_encode hdelivery]
  simp only [Option.bind_some, bit_write]
  rw [shortStr_write hexchange]
  simp only [Option.bind_some]
  rw [shortStr_write hkey]
  rfl

theorem handleFrame_deliver {tag : Bytes} {msg : MessageFields} (h : (Signal.deliver tag msg).FieldsFit) :
    c.handleFrame (Signal.deliver tag msg).frame = { c with pendingDelivery := some { tag, msg } } := by
  have hread : readMethodHeader (Signal.deliver tag msg).frame.payload = some (⟨60, 60⟩, Signal.deliverArgs tag msg) :=
    readMethodHeader_write (by decide) (by decide) _
  have hbegin := beginDelivery_write h
  unfold handleFrame
  rw [hread]
  simp only [Signal.frame, Signal.method, FRAME_METHOD, FRAME_HEARTBEAT, FRAME_HEADER, FRAME_BODY, handleMethod, hbegin]
  rfl

theorem handleFrame_header {size : Nat} (h : size < 256 ^ 8) (properties : Bytes) (done : Option Completion)
    {pending : PendingDelivery} (hpending : c.pendingDelivery = some pending) :
    c.handleFrame (Signal.header size properties done).frame = if size = 0 then c.finishDelivery { pending with bodySize := size }
      else { c with pendingDelivery := some { pending with bodySize := size } } := by
  have hread : longLong ((Signal.header size properties done).frame.payload.drop 4) = some (size, properties) := by
    simp only [Signal.frame]
    exact readUIntBE_encode h properties
  change c.handleHeader _ = _
  unfold handleHeader
  rw [hpending, hread]

theorem handleFrame_body (bytes : Bytes) (done : Option Completion) : c.handleFrame (Signal.body bytes done).frame = c.handleBody bytes := rfl

theorem handleFrame_heartbeat : c.handleFrame Signal.heartbeat.frame = c := rfl

/-! ## The frames of a chunk -/

theorem onData_frames {ss : List Signal} (hfits : ∀ s ∈ ss, s.Fits) {rest : Bytes} (hrest : next rest = .wait)
    {fuel : Nat} (hfuel : ss.length ≤ fuel) (c : AmqpConnection) :
    onData fuel c (ss.flatMap Signal.bytes ++ rest) = (ss.foldl (fun c s => c.handleFrame s.frame) c, rest) := by
  induction ss generalizing fuel c with
  | nil =>
    cases fuel with
    | zero => rfl
    | succ fuel =>
      rw [flatMap_nil, nil_append, onData, hrest]
      rfl
  | cons s ss ih =>
    cases fuel with
    | zero => simp at hfuel
    | succ fuel =>
      have hs := (hfits s mem_cons_self).1
      rw [flatMap_cons, append_assoc, onData, Signal.bytes, next_buildFrame hs]
      exact ih (fun s' hs' => hfits s' (mem_cons_of_mem _ hs')) (by simpa using hfuel) _

/-! ## What goes on behind a chunk -/

/-- What the reply to a call adds to the consumers. -/
def addConsumer (m : OrderedMap Bytes Nat) (op : Op) (args : Bytes) : OrderedMap Bytes Nat :=
  match op, shortStr args with
  | .consume handler, some (tag, _) => m.set tag handler
  | _, _ => m

def register (calls : List Call) (m : OrderedMap Bytes Nat) (i : Nat) : OrderedMap Bytes Nat :=
  match calls[i]? with
  | some { op, outcome := .replied args } => addConsumer m op args
  | _ => m

theorem continueCall_eq (i : Nat) : ∃ confirmEnabled,
    c.continueCall i = { c with confirmEnabled, consumers := register c.calls c.consumers i } := by
  unfold continueCall register addConsumer
  cases hi : c.calls[i]? with
  | none => exact ⟨c.confirmEnabled, rfl⟩
  | some call =>
    obtain ⟨op, o⟩ := call
    cases o
    case replied args =>
      cases op
      case consume handler =>
        refine ⟨c.confirmEnabled, ?_⟩
        cases hargs : shortStr args <;> simp [hargs]
      all_goals exact ⟨_, rfl⟩
    all_goals cases op <;> exact ⟨_, rfl⟩

theorem runMicrotasks_eq : ∃ confirmEnabled, c.runMicrotasks =
    { c with microtasks := [], confirmEnabled, consumers := c.microtasks.foldl (register c.calls) c.consumers } := by
  have hfold : ∀ (is : List Nat) (c : AmqpConnection), ∃ confirmEnabled, is.foldl (fun c i => c.continueCall i) c =
      { c with confirmEnabled, consumers := is.foldl (register c.calls) c.consumers } := by
    intro is
    induction is with
    | nil => exact fun c => ⟨c.confirmEnabled, rfl⟩
    | cons i is ih =>
      intro c
      obtain ⟨confirmEnabled, hi⟩ := c.continueCall_eq i
      obtain ⟨confirmEnabled', his⟩ := ih (c.continueCall i)
      refine ⟨confirmEnabled', ?_⟩
      rw [foldl_cons, his, hi]
      rfl
  exact hfold c.microtasks { c with microtasks := [] }

theorem sent_handleFrame (frame : RawFrame) : (c.handleFrame frame).sent = c.sent := by
  have hreply : ∀ key args, (c.handleReply key args).sent = c.sent := by
    intro key args
    unfold handleReply settleCall
    split <;> rfl
  have hconfirm : ∀ tag multiple nack, (c.confirm tag multiple nack).sent = c.sent := by
    intro tag multiple nack
    obtain ⟨publishes, confirmWaiters, h⟩ := c.confirm_eq tag multiple nack
    rw [h]
  have hfinish : ∀ pending, (c.finishDelivery pending).sent = c.sent := by
    intro pending
    unfold finishDelivery
    split <;> rfl
  have hheader : ∀ payload, (c.handleHeader payload).sent = c.sent := by
    intro payload
    unfold handleHeader
    split
    · split_ifs
      · exact hfinish _
      · rfl
    · rfl
  have hbody : ∀ payload, (c.handleBody payload).sent = c.sent := by
    intro payload
    unfold handleBody
    split
    · simp only
      split_ifs
      · exact hfinish _
      · rfl
    · rfl
  unfold handleFrame handleMethod
  repeat' split
  all_goals simp only [hreply, hconfirm, hheader, hbody]

theorem sent_handleFrames (ss : List Signal) : (ss.foldl (fun c s => c.handleFrame s.frame) c).sent = c.sent := by
  induction ss generalizing c with
  | nil => rfl
  | cons s ss ih => rw [foldl_cons, ih, sent_handleFrame]

/-! ## Replies -/

/-- A waiter is a call that is pending, and what is to go on has its reply. -/
structure Ok (c : AmqpConnection) : Prop where
  connected : c.connected = true
  waiter : ∀ key i, c.waiters.get key = some i → ∃ op, c.calls[i]? = some { op, outcome := .pending } ∧ op.expects = key
  microtask : ∀ i ∈ c.microtasks, ∃ op args, c.calls[i]? = some { op, outcome := .replied args }

/-- The consumers when all that is to go on has gone on. -/
def settledConsumers (c : AmqpConnection) : OrderedMap Bytes Nat := c.microtasks.foldl (register c.calls) c.consumers

theorem foldl_register_congr {calls calls' : List Call} {is : List Nat} (h : ∀ i ∈ is, calls'[i]? = calls[i]?) (m : OrderedMap Bytes Nat) :
    is.foldl (register calls') m = is.foldl (register calls) m := by
  apply foldl_ext
  intro m i hi
  unfold register
  rw [h i hi]

variable {c}

theorem handleReply_waiter (h : Ok c) {key : MethodKey} {i : Nat} (hi : c.waiters.get key = some i) (args : Bytes) :
    ∃ op, c.calls[i]? = some { op, outcome := .pending } ∧ op.expects = key ∧ Ok (c.handleReply key args) ∧
      (c.handleReply key args).settledConsumers = addConsumer c.settledConsumers op args ∧
      (c.handleReply key args).waiters = c.waiters.delete key ∧
      ∀ j, j ≠ i → (c.handleReply key args).calls[j]? = c.calls[j]? := by
  obtain ⟨op, hop, hexp⟩ := h.waiter key i hi
  have hcalls : ∀ j, (c.handleReply key args).calls[j]? = if i = j then some { op, outcome := .replied args } else c.calls[j]? := by
    intro j
    simp only [handleReply, hi, settleCall, getElem?_modify]
    by_cases hij : i = j
    · subst hij
      simp [hop, Outcome.settle]
    · simp [hij]
  have hmicrotasks : (c.handleReply key args).microtasks = c.microtasks ++ [i] := by simp [handleReply, hi]
  have hwaiters : (c.handleReply key args).waiters = c.waiters.delete key := by simp [handleReply, hi]
  have hconsumers : (c.handleReply key args).consumers = c.consumers := by simp [handleReply, hi, settleCall]
  have hother : ∀ j, j ≠ i → (c.handleReply key args).calls[j]? = c.calls[j]? := fun j hj => by
    rw [hcalls, if_neg (Ne.symm hj)]
  -- what is already to go on has another reply
  have hne : ∀ j ∈ c.microtasks, j ≠ i := by
    rintro j hj rfl
    obtain ⟨op', args', hj'⟩ := h.microtask j hj
    rw [hop] at hj'
    simp at hj'
  refine ⟨op, hop, hexp, ⟨?_, fun key' j hj => ?_, fun j hj => ?_⟩, ?_, hwaiters, hother⟩
  · simpa [handleReply, hi, settleCall] using h.connected
  · rw [hwaiters, get_delete] at hj
    split at hj
    · cases hj
    · next hkey =>
      obtain ⟨op', hop', hexp'⟩ := h.waiter key' j hj
      have hji : j ≠ i := by
        rintro rfl
        rw [hop, Option.some.injEq, Call.mk.injEq] at hop'
        exact hkey (by rw [← hexp', ← hop'.1, hexp])
      exact ⟨op', by rw [hother j hji, hop'], hexp'⟩
  · rw [hmicrotasks, mem_append, mem_singleton] at hj
    rcases hj with hj | rfl
    · rw [hother j (hne j hj)]
      exact h.microtask j hj
    · exact ⟨op, args, by rw [hcalls, if_pos rfl]⟩
  · unfold settledConsumers
    rw [hmicrotasks, hconsumers, foldl_append, foldl_register_congr fun j hj => hother j (hne j hj)]
    simp only [foldl_cons, foldl_nil]
    unfold register
    rw [hcalls, if_pos rfl]

theorem handleReply_none {key : MethodKey} (hkey : c.waiters.get key = none) (args : Bytes) : c.handleReply key args = c := by
  unfold handleReply
  rw [hkey]

end AmqpConnection

/-! ## What the connection knows -/

/-- The consumers and the delivery that is being put together. -/
structure View where
  consumers : OrderedMap Bytes Nat := []
  pending : Option PendingDelivery := none

namespace View

def receive (v : View) : Signal → View
  | .consumeOk tag handler => { v with consumers := v.consumers.set tag handler }
  | .deliver tag msg => { v with pending := some { tag, msg } }
  | .header size _ done =>
    { v with pending := if done.isSome then none else v.pending.map fun pending => { pending with bodySize := size } }
  | .body bytes done =>
    { v with pending := if done.isSome then none else v.pending.map fun pending => { pending with chunks := pending.chunks ++ [bytes] } }
  | _ => v

/-- A delivery ends when its body is whole, and it is that of the handler of its tag. -/
def Completes (v : View) (pending : PendingDelivery) (whole : Bool) (done : Option Completion) : Prop :=
  if whole then ∃ handler, v.consumers.get pending.tag = some handler ∧
    done = some (pending.tag, handler, { msg := pending.msg, body := pending.chunks.flatten })
  else done = none

/-- The frame follows what is known. -/
def Accepts (v : View) : Signal → Prop
  | .reply op _ => op.expects ≠ ⟨60, 21⟩
  | .header size _ done => ∃ pending, v.pending = some pending ∧ v.Completes { pending with bodySize := size } (size = 0) done
  | .body bytes done => ∃ pending, v.pending = some pending ∧ v.Completes { pending with chunks := pending.chunks ++ [bytes] }
        (decide (pending.bodySize ≤ ((pending.chunks ++ [bytes]).map List.length).sum)) done
  | _ => True

/-- The frames follow one another up to what the broker knows. -/
def Follows : View → List Signal → View → Prop
  | v, [], v' => v = v'
  | v, s :: ss, v' => v.Accepts s ∧ Follows (v.receive s) ss v'

theorem Follows.concat {v v' : View} {ss : List Signal} {s : Signal} (h : Follows v ss v') (hs : v'.Accepts s) :
    Follows v (ss ++ [s]) (v'.receive s) := by
  induction ss generalizing v with
  | nil =>
    subst h
    exact ⟨hs, rfl⟩
  | cons s' ss ih => exact ⟨h.1, ih h.2⟩

theorem Follows.split {v v' : View} {ss ss' : List Signal} (h : Follows v (ss ++ ss') v') :
    Follows v ss (ss.foldl receive v) ∧ Follows (ss.foldl receive v) ss' v' := by
  induction ss generalizing v with
  | nil => exact ⟨rfl, h⟩
  | cons s ss ih =>
    obtain ⟨hs, hss⟩ := h
    exact ⟨⟨hs, (ih hss).1⟩, (ih hss).2⟩

end View

/-! ## A chunk -/

/-- The handlers of the consume calls whose Consume-Ok is still to come: at most one, and it is waited for. -/
def Waits (c : AmqpConnection) (handlers : List Nat) : Prop :=
  handlers = [] ∨ ∃ handler i, handlers = [handler] ∧ c.waiters.get ⟨60, 21⟩ = some i ∧
    c.calls[i]? = some { op := .consume handler, outcome := .pending }

/-- A connection within a chunk: the tags of this chunk have no handler yet. -/
structure InChunk (c : AmqpConnection) (v : View) (fresh : List Bytes) (handlers : List Nat) : Prop where
  ok : c.Ok
  settled : c.settledConsumers = v.consumers
  current : ∀ tag, tag ∉ fresh → c.consumers.get tag = v.consumers.get tag
  pending : c.pendingDelivery = v.pending
  waits : Waits c handlers

namespace InChunk

variable {c : AmqpConnection} {v : View} {fresh : List Bytes} {handlers : List Nat}

theorem frame (h : InChunk c v fresh handlers) {c' : AmqpConnection} {v' : View} (hcalls : c'.calls = c.calls)
    (hwaiters : c'.waiters = c.waiters) (hmicrotasks : c'.microtasks = c.microtasks) (hconsumers : c'.consumers = c.consumers)
    (hconnected : c'.connected = c.connected) (hv : v'.consumers = v.consumers) (hpending : c'.pendingDelivery = v'.pending) :
    InChunk c' v' fresh handlers where
  ok := ⟨by rw [hconnected]; exact h.ok.connected, by rw [hwaiters, hcalls]; exact h.ok.waiter,
    by rw [hmicrotasks, hcalls]; exact h.ok.microtask⟩
  settled := by
    unfold AmqpConnection.settledConsumers
    rw [hmicrotasks, hcalls, hconsumers, hv]
    exact h.settled
  current := by rw [hconsumers, hv]; exact h.current
  pending := hpending
  waits := by
    unfold Waits
    rw [hwaiters, hcalls]
    exact h.waits

theorem reply (h : InChunk c v fresh handlers) {op : Op} (hop : op.expects ≠ ⟨60, 21⟩) (args : Bytes) :
    InChunk (c.handleReply op.expects args) v fresh handlers ∧ (c.handleReply op.expects args).handled = c.handled := by
  cases hi : c.waiters.get op.expects with
  | none =>
    rw [AmqpConnection.handleReply_none hi]
    exact ⟨h, rfl⟩
  | some i =>
    obtain ⟨op', hop', hexp, hok, hsettled, hwaiters, hother⟩ := AmqpConnection.handleReply_waiter h.ok hi args
    have hkind : AmqpConnection.addConsumer v.consumers op' args = v.consumers := by
      cases op' with
      | consume handler => exact absurd hexp.symm hop
      | _ => rfl
    refine ⟨⟨hok, ?_, ?_, ?_, ?_⟩, ?_⟩
    · rw [hsettled, h.settled, hkind]
    · simpa [AmqpConnection.handleReply, hi, AmqpConnection.settleCall] using h.current
    · simpa [AmqpConnection.handleReply, hi, AmqpConnection.settleCall] using h.pending
    · rcases h.waits with hnil | ⟨handler, j, hone, hj, hcall⟩
      · exact .inl hnil
      · refine .inr ⟨handler, j, hone, ?_, ?_⟩
        · rw [hwaiters, get_delete, if_neg hop.symm, hj]
        · rw [hother j ?_, hcall]
          rintro rfl
          rw [hop', Option.some.injEq, Call.mk.injEq] at hcall
          rw [hcall.1] at hexp
          exact hop hexp.symm
    · simp [AmqpConnection.handleReply, hi, AmqpConnection.settleCall]

theorem consumeOk {handler : Nat} (h : InChunk c v fresh (handler :: handlers)) {tag : Bytes} (htag : tag.length < 256) :
    InChunk (c.handleReply ⟨60, 21⟩ (writeShortStr tag ++ [])) { v with consumers := v.consumers.set tag handler }
      (fresh ++ [tag]) handlers ∧ (c.handleReply ⟨60, 21⟩ (writeShortStr tag ++ [])).handled = c.handled := by
  rcases h.waits with hnil | ⟨handler', i, hone, hi, hcall⟩
  · cases hnil
  obtain ⟨rfl, rfl⟩ := hone
  obtain ⟨op', hop', hexp, hok, hsettled, hwaiters, hother⟩ :=
    AmqpConnection.handleReply_waiter h.ok hi (writeShortStr tag ++ [])
  rw [hcall, Option.some.injEq, Call.mk.injEq] at hop'
  obtain ⟨rfl, -⟩ := hop'
  have hadd : AmqpConnection.addConsumer v.consumers (.consume handler) (writeShortStr tag ++ []) = v.consumers.set tag handler := by
    unfold AmqpConnection.addConsumer
    rw [shortStr_write htag]
  refine ⟨⟨hok, ?_, ?_, ?_, .inl rfl⟩, ?_⟩
  · rw [hsettled, h.settled, hadd]
  · intro tag' htag'
    rw [mem_append, mem_singleton, not_or] at htag'
    rw [get_set, if_neg htag'.2, ← h.current tag' htag'.1]
    simp [AmqpConnection.handleReply, hi, AmqpConnection.settleCall]
  · simpa [AmqpConnection.handleReply, hi, AmqpConnection.settleCall] using h.pending
  · simp [AmqpConnection.handleReply, hi, AmqpConnection.settleCall]

theorem finishDelivery (h : InChunk c v fresh handlers) (pending : PendingDelivery) {handler : Nat}
    (hget : v.consumers.get pending.tag = some handler) (hfresh : pending.tag ∉ fresh) :
    InChunk (c.finishDelivery pending) { v with pending := none } fresh handlers ∧
      (c.finishDelivery pending).handled = c.handled ++ [(handler, { msg := pending.msg, body := pending.chunks.flatten })] := by
  have hconsumer : c.consumers.get pending.tag = some handler := (h.current _ hfresh).trans hget
  unfold AmqpConnection.finishDelivery
  rw [hconsumer]
  exact ⟨h.frame rfl rfl rfl rfl rfl rfl rfl, rfl⟩

end InChunk

/-- The handler of a Consume-Ok, and its tag. -/
def Signal.okHandlers (s : Signal) : List Nat := (s.subscribes.map Prod.snd).toList

def Signal.okTags (s : Signal) : List Bytes := (s.subscribes.map Prod.fst).toList

variable {c : AmqpConnection} {fresh : List Bytes} {handlers : List Nat}

theorem InChunk.signal {v : View} {s : Signal} (h : InChunk c v fresh (s.okHandlers ++ handlers)) (hfits : s.Fits) (haccepts : v.Accepts s)
    (hfresh : ∀ done, s.completes = some done → done.1 ∉ fresh) :
    InChunk (c.handleFrame s.frame) (v.receive s) (fresh ++ s.okTags) handlers ∧
      (c.handleFrame s.frame).handled = c.handled ++ (s.completes.map DeliveryWorld.handling).toList := by
  cases s with
  | heartbeat =>
    have h' : InChunk c v fresh handlers := h
    rw [AmqpConnection.handleFrame_heartbeat]
    simpa [View.receive, Signal.okTags, Signal.subscribes, Signal.completes] using h'
  | reply op args =>
    have h' : InChunk c v fresh handlers := h
    have hreply := h'.reply haccepts args
    simp only [Signal.frame, AmqpConnection.handleFrame_reply]
    simpa [View.receive, Signal.okTags, Signal.subscribes, Signal.completes] using hreply
  | consumeOk tag handler =>
    have h' : InChunk c v fresh (handler :: handlers) := h
    have hok := h'.consumeOk hfits.2
    have hframe := c.handleFrame_reply (.consume handler) (writeShortStr tag ++ [])
    simp only [Op.expects] at hframe
    simp only [Signal.frame, hframe]
    simpa [View.receive, Signal.okTags, Signal.subscribes, Signal.completes] using hok
  | confirm tag multiple nack =>
    have h' : InChunk c v fresh handlers := h
    obtain ⟨publishes, confirmWaiters, hconfirm⟩ := c.confirm_eq tag multiple nack
    have hframe : InChunk (c.confirm tag multiple nack) v fresh handlers := by
      rw [hconfirm]
      exact h'.frame rfl rfl rfl rfl rfl rfl h'.pending
    rw [c.handleFrame_confirm hfits.2]
    refine ⟨by simpa [View.receive, Signal.okTags, Signal.subscribes] using hframe, ?_⟩
    simp [Signal.completes, hconfirm]
  | deliver tag msg =>
    have h' : InChunk c v fresh handlers := h
    have hframe : InChunk { c with pendingDelivery := some { tag, msg } } { v with pending := some { tag, msg } } fresh handlers :=
      h'.frame rfl rfl rfl rfl rfl rfl rfl
    rw [c.handleFrame_deliver hfits.2]
    refine ⟨by simpa [View.receive, Signal.okTags, Signal.subscribes] using hframe, ?_⟩
    simp [Signal.completes]
  | header size properties done =>
    have h' : InChunk c v fresh handlers := h
    obtain ⟨pending, hpending, hcompletes⟩ := haccepts
    rw [c.handleFrame_header hfits.2 properties done (h.pending.trans hpending)]
    by_cases hsize : size = 0
    · simp only [View.Completes, hsize, decide_true, if_true] at hcompletes ⊢
      obtain ⟨handler, hget, rfl⟩ := hcompletes
      have hfinish := h'.finishDelivery { pending with bodySize := 0 } hget (hfresh _ rfl)
      simpa [View.receive, Signal.okTags, Signal.subscribes, Signal.completes, DeliveryWorld.handling] using hfinish
    · simp only [View.Completes, hsize, decide_false, Bool.false_eq_true, if_false] at hcompletes ⊢
      subst hcompletes
      have hframe : InChunk { c with pendingDelivery := some { pending with bodySize := size } }
          { v with pending := some { pending with bodySize := size } } fresh handlers := h'.frame rfl rfl rfl rfl rfl rfl rfl
      refine ⟨by simpa [View.receive, hpending, Signal.okTags, Signal.subscribes] using hframe, ?_⟩
      simp [Signal.completes]
  | body bytes done =>
    have h' : InChunk c v fresh handlers := h
    obtain ⟨pending, hpending, hcompletes⟩ := haccepts
    rw [c.handleFrame_body bytes done]
    unfold AmqpConnection.handleBody
    rw [h.pending.trans hpending]
    by_cases hwhole : pending.bodySize ≤ ((pending.chunks ++ [bytes]).map List.length).sum
    · simp only [View.Completes, hwhole, decide_true, if_true] at hcompletes ⊢
      obtain ⟨handler, hget, rfl⟩ := hcompletes
      have hfinish := h'.finishDelivery { pending with chunks := pending.chunks ++ [bytes] } hget (hfresh _ rfl)
      simpa [View.receive, Signal.okTags, Signal.subscribes, Signal.completes, DeliveryWorld.handling] using hfinish
    · simp only [View.Completes, hwhole, decide_false, Bool.false_eq_true, if_false] at hcompletes ⊢
      subst hcompletes
      have hframe : InChunk { c with pendingDelivery := some { pending with chunks := pending.chunks ++ [bytes] } }
          { v with pending := some { pending with chunks := pending.chunks ++ [bytes] } } fresh handlers :=
        h'.frame rfl rfl rfl rfl rfl rfl rfl
      refine ⟨by simpa [View.receive, hpending, Signal.okTags, Signal.subscribes] using hframe, ?_⟩
      simp [Signal.completes]

theorem InChunk.signals {ss : List Signal} {v v' : View}
    (h : InChunk c v fresh (ss.flatMap Signal.okHandlers ++ handlers)) (hfits : ∀ s ∈ ss, s.Fits) (hfollows : v.Follows ss v')
    (hfresh : ∀ s ∈ ss, ∀ done, s.completes = some done → done.1 ∉ fresh ++ ss.flatMap Signal.okTags) :
    InChunk (ss.foldl (fun c s => c.handleFrame s.frame) c) v' (fresh ++ ss.flatMap Signal.okTags) handlers ∧
      (ss.foldl (fun c s => c.handleFrame s.frame) c).handled = c.handled ++ (ss.filterMap Signal.completes).map DeliveryWorld.handling := by
  induction ss generalizing c v fresh with
  | nil =>
    subst hfollows
    simpa using h
  | cons s ss ih =>
    obtain ⟨haccepts, hrest⟩ := hfollows
    rw [flatMap_cons, append_assoc] at h
    have hnot : ∀ s' ∈ s :: ss, ∀ done, s'.completes = some done → done.1 ∉ (fresh ++ s.okTags) ++ ss.flatMap Signal.okTags := by
      intro s' hs' done hdone
      rw [append_assoc, ← flatMap_cons]
      exact hfresh s' hs' done hdone
    obtain ⟨hs, hhandled⟩ := h.signal (hfits s mem_cons_self) haccepts fun done hdone hmem =>
      hfresh s mem_cons_self done hdone (mem_append_left _ hmem)
    obtain ⟨hss, hhandled'⟩ := ih hs (fun s' hs' => hfits s' (mem_cons_of_mem _ hs')) hrest fun s' hs' => hnot s' (mem_cons_of_mem _ hs')
    rw [append_assoc, ← flatMap_cons] at hss
    refine ⟨hss, ?_⟩
    rw [foldl_cons, hhandled', hhandled]
    cases hdone : s.completes <;> simp [hdone]

theorem InChunk.behind {v : View} (h : InChunk c v fresh handlers) : InChunk c.runMicrotasks v [] handlers ∧ c.runMicrotasks.microtasks = [] ∧
      c.runMicrotasks.consumers = v.consumers ∧ c.runMicrotasks.handled = c.handled ∧ c.runMicrotasks.sent = c.sent := by
  obtain ⟨confirmEnabled, hrun⟩ := c.runMicrotasks_eq
  have hsettled : c.microtasks.foldl (AmqpConnection.register c.calls) c.consumers = v.consumers := h.settled
  rw [hrun, hsettled]
  exact ⟨⟨⟨h.ok.connected, h.ok.waiter, by simp⟩, rfl, fun _ _ => rfl, h.pending, h.waits⟩, rfl, rfl, rfl, rfl⟩

namespace DeliveryWorld

variable {w : DeliveryWorld}

/-! ## What is promised -/

/-- The deliveries that have been written are those that have been handled, in order, and those that end with a frame
that has not come as a whole. -/
def Handled (w : DeliveryWorld) : Prop :=
  w.delivered = w.conn.handled ++ (w.signals.filterMap Signal.completes).map handling

/-- One consumer is started at a time, and the chunk in which its Consume-Ok comes has no end of a delivery for its
tag. -/
def Orderly (w : DeliveryWorld) : DeliveryEvent → Prop
  | .call op => op.expects = ⟨60, 21⟩ → ∀ call ∈ w.conn.calls, call.op.expects = ⟨60, 21⟩ → call.outcome ≠ .pending
  | .data n =>
    let came := (splitSignals (w.buf ++ w.pipe.take n).length w.signals).1
    ∀ done ∈ came.filterMap Signal.completes, done.1 ∉ came.flatMap Signal.okTags
  | _ => True

/-- The handlers of the requests to consume. -/
def asked (frames : List ClientFrame) : List Nat :=
  frames.filterMap fun
    | .request _ (.consume handler) => some handler
    | _ => none

/-- The delivery that is being written is the one that is put together. -/
def Matches (subscribed : OrderedMap Bytes Nat) (pending : Option PendingDelivery) : Option Content → Prop
  | none => True
  | some content => ∃ p, pending = some p ∧ p.tag = content.tag ∧ p.msg = content.msg ∧ p.chunks.flatten = content.body ∧
      (subscribed.get content.tag).isSome = true ∧
      (match content.size with
        | none => content.body = []
        | some size => p.bodySize = size ∧ content.body.length < size)

structure Inv (w : DeliveryWorld) : Prop where
  handled : w.Handled
  bytes : w.buf ++ w.pipe = w.signals.flatMap Signal.bytes
  fits : ∀ s ∈ w.signals, s.Fits
  first : ∀ s ss, w.signals = s :: ss → w.buf.length < s.bytes.length
  view : ∃ v, View.Follows { consumers := w.conn.consumers, pending := w.conn.pendingDelivery } w.signals v ∧
    v.consumers = w.subscribed ∧ Matches w.subscribed v.pending w.content
  conn : InChunk w.conn { consumers := w.conn.consumers, pending := w.conn.pendingDelivery } []
    (w.signals.flatMap Signal.okHandlers ++ asked w.conn.sent)
  idle : w.conn.microtasks = []

theorem inv_init : Inv {} where
  handled := rfl
  bytes := rfl
  fits := by simp
  first := by simp
  view := ⟨{}, rfl, rfl, trivial⟩
  conn := ⟨⟨rfl, by simp, by simp⟩, rfl, fun _ _ => rfl, rfl, .inl rfl⟩
  idle := rfl

theorem length_bytes_pos (s : Signal) : 0 < s.bytes.length := by
  rw [Signal.bytes, length_buildFrame]
  omega

theorem length_le_bytes (ss : List Signal) : ss.length ≤ (ss.flatMap Signal.bytes).length := by
  induction ss with
  | nil => exact le_rfl
  | cons s ss ih =>
    have := length_bytes_pos s
    rw [flatMap_cons, length_append, length_cons]
    omega

/-! ## What the broker writes -/

theorem Inv.write (h : Inv w) {s : Signal} (hfits : s.Fits) (rest : List ClientFrame) (content : Option Content)
    (subscribed : OrderedMap Bytes Nat) (hasked : s.okHandlers ++ asked rest = asked w.conn.sent)
    (hview : ∀ v : View, v.consumers = w.subscribed → Matches w.subscribed v.pending w.content →
      v.Accepts s ∧ (v.receive s).consumers = subscribed ∧ Matches subscribed (v.receive s).pending content) :
    Inv { w.write s with conn := { w.conn with sent := rest }, content, subscribed } := by
  obtain ⟨v, hfollows, hsub, hcontent⟩ := h.view
  obtain ⟨haccepts, hsub', hcontent'⟩ := hview v hsub hcontent
  refine ⟨?_, ?_, fun s' hs' => ?_, fun s' ss hs' => ?_, ⟨v.receive s, hfollows.concat haccepts, hsub', hcontent'⟩, ?_, h.idle⟩
  · have hhandled := h.handled
    change w.delivered ++ _ = w.conn.handled ++ ((w.signals ++ [s]).filterMap Signal.completes).map handling
    rw [hhandled, filterMap_append, map_append, append_assoc]
    cases hdone : s.completes <;> simp [hdone]
  · change w.buf ++ (w.pipe ++ s.bytes) = (w.signals ++ [s]).flatMap Signal.bytes
    rw [← append_assoc, h.bytes, flatMap_append]
    simp
  · rcases mem_append.1 hs' with hs' | hs'
    · exact h.fits s' hs'
    · rw [mem_singleton] at hs'
      rwa [hs']
  · change w.signals ++ [s] = s' :: ss at hs'
    cases hsignals : w.signals with
    | nil =>
      have hbytes := h.bytes
      rw [hsignals, flatMap_nil, append_eq_nil_iff] at hbytes
      change w.buf.length < _
      rw [hbytes.1]
      exact length_bytes_pos s'
    | cons s₀ ss₀ =>
      rw [hsignals, cons_append, List.cons.injEq] at hs'
      exact hs'.1 ▸ h.first s₀ ss₀ hsignals
  · have hlist : (w.signals ++ [s]).flatMap Signal.okHandlers ++ asked rest = w.signals.flatMap Signal.okHandlers ++ asked w.conn.sent := by
      rw [flatMap_append, append_assoc, ← hasked]
      simp
    have hframe : InChunk { w.conn with sent := rest } { consumers := w.conn.consumers, pending := w.conn.pendingDelivery } []
        (w.signals.flatMap Signal.okHandlers ++ asked w.conn.sent) := h.conn.frame rfl rfl rfl rfl rfl rfl rfl
    rw [← hlist] at hframe
    exact hframe

theorem inv_serve (h : Inv w) (reply : Bytes) : Inv (w.broker (.serve reply)) := by
  simp only [broker]
  split
  · next m rest hcontent hsent =>
    have hasked : asked rest = asked w.conn.sent := by rw [hsent]; rfl
    have hframe : InChunk { w.conn with sent := rest } { consumers := w.conn.consumers, pending := w.conn.pendingDelivery } []
        (w.signals.flatMap Signal.okHandlers ++ asked w.conn.sent) := h.conn.frame rfl rfl rfl rfl rfl rfl rfl
    rw [← hasked] at hframe
    exact ⟨h.handled, h.bytes, h.fits, h.first, h.view, hframe, h.idle⟩
  · next i handler rest hcontent hsent =>
    split
    · next hs =>
      refine h.write hs.1 rest w.content (w.subscribed.set reply handler) (by rw [hsent]; rfl) fun v hsub _ => ?_
      refine ⟨trivial, by rw [← hsub]; rfl, ?_⟩
      rw [hcontent]
      trivial
    · exact h
  · next i op rest hnot hcontent hsent =>
    have hop : op.expects ≠ ⟨60, 21⟩ := by
      intro hop
      cases op with
      | consume handler => exact hnot handler rfl
      | _ => simp [Op.expects] at hop
    have hasked : asked rest = asked w.conn.sent := by
      rw [hsent]
      cases op with
      | consume handler => exact absurd rfl hop
      | _ => rfl
    split
    · next hs =>
      refine h.write hs rest w.content w.subscribed hasked fun v hsub hmatches => ⟨hop, hsub, ?_⟩
      exact hmatches
    · exact h
  · exact h

theorem inv_confirm (h : Inv w) (tag : Nat) (multiple nack : Bool) : Inv (w.broker (.confirm tag multiple nack)) := by
  simp only [broker]
  split
  · next hs => exact h.write hs.2 w.conn.sent w.content w.subscribed rfl fun v hsub hmatches => ⟨trivial, hsub, hmatches⟩
  · exact h

theorem inv_deliver (h : Inv w) (tag : Bytes) (msg : MessageFields) : Inv (w.broker (.deliver tag msg)) := by
  simp only [broker]
  split
  · next hs =>
    refine h.write hs.2.1 w.conn.sent (some { tag, msg }) w.subscribed rfl fun v hsub _ => ⟨trivial, hsub, ?_⟩
    exact ⟨_, rfl, rfl, rfl, rfl, hs.2.2, rfl⟩
  · exact h

theorem completes_completion {v : View} (hsub : v.consumers = w.subscribed) {content : Content}
    (hget : (w.subscribed.get content.tag).isSome = true) {p : PendingDelivery} (htag : p.tag = content.tag)
    (hmsg : p.msg = content.msg) (hbody : p.chunks.flatten = content.body) {size : Nat} {whole : Bool}
    (hwhole : whole = true ↔ size ≤ content.body.length) : v.Completes p whole (w.completion content size) := by
  obtain ⟨handler, hhandler⟩ := Option.isSome_iff_exists.1 hget
  unfold View.Completes completion
  by_cases hsize : size ≤ content.body.length
  · rw [if_pos (hwhole.2 hsize), if_pos hsize, hsub, htag, hmsg, hbody, hhandler]
    exact ⟨handler, rfl, rfl⟩
  · rw [if_neg (mt hwhole.1 hsize), if_neg hsize]

theorem inv_header (h : Inv w) (size : Nat) (properties : Bytes) : Inv (w.broker (.header size properties)) := by
  simp only [broker]
  split
  · next tag msg body hcontent =>
    split
    · next hs =>
      refine h.write hs w.conn.sent _ w.subscribed rfl fun v hsub hmatches => ?_
      rw [hcontent] at hmatches
      obtain ⟨p, hp, htag, hmsg, hbody, hget, hempty⟩ := hmatches
      subst hempty
      refine ⟨⟨p, hp, ?_⟩, hsub, ?_⟩
      · exact completes_completion hsub hget htag hmsg hbody (by simp)
      · by_cases hsize : size = 0
        · rw [if_pos hsize]
          trivial
        · have hnone : w.completion { tag, msg, size := some size, body := [] } size = none := by
            unfold completion
            rw [if_neg (by simpa using hsize)]
          rw [if_neg hsize]
          simp only [View.receive, hnone, hp]
          exact ⟨_, rfl, htag, hmsg, hbody, hget, rfl, by simpa using Nat.pos_of_ne_zero hsize⟩
    · exact h
  · exact h

theorem inv_body (h : Inv w) (bytes : Bytes) : Inv (w.broker (.body bytes)) := by
  simp only [broker]
  split
  · next tag msg size body hcontent =>
    split
    · next hs =>
      refine h.write hs.1 w.conn.sent _ w.subscribed rfl fun v hsub hmatches => ?_
      rw [hcontent] at hmatches
      obtain ⟨p, hp, htag, hmsg, hbody, hget, hsize, -⟩ := hmatches
      simp only at htag hmsg hbody hget hsize
      have hflatten : (p.chunks ++ [bytes]).flatten = body ++ bytes := by simp [hbody]
      have hlength : ((p.chunks ++ [bytes]).map List.length).sum = (body ++ bytes).length := by
        rw [← hflatten, length_flatten]
      refine ⟨⟨p, hp, ?_⟩, hsub, ?_⟩
      · refine completes_completion hsub hget htag hmsg hflatten ?_
        rw [hlength, hsize, decide_eq_true_eq]
      · by_cases hwhole : (body ++ bytes).length = size
        · simp only [hwhole, if_true]
          trivial
        · have hlt : (body ++ bytes).length < size := by
            omega
          have hnone : w.completion { tag, msg, size := some size, body := body ++ bytes } size = none := by
            unfold completion
            rw [if_neg (by simpa using hlt)]
          simp only [View.receive, hnone, hp, hwhole, if_false]
          exact ⟨_, rfl, htag, hmsg, hflatten, hget, hsize, hlt⟩
    · exact h
  · exact h

/-! ## Calls -/

theorem inv_call (h : Inv w) {op : Op} (hone : Orderly w (.call op)) : Inv { w with conn := w.conn.call op } := by
  have hview : ∀ {c : AmqpConnection}, InChunk c { consumers := c.consumers, pending := c.pendingDelivery } []
      (w.signals.flatMap Signal.okHandlers ++ asked c.sent) → c.consumers = w.conn.consumers →
      c.pendingDelivery = w.conn.pendingDelivery → c.handled = w.conn.handled → c.microtasks = w.conn.microtasks →
      Inv { w with conn := c } := by
    intro c hc hconsumers hpending hhandled hmicrotasks
    refine ⟨?_, h.bytes, h.fits, h.first, ?_, hc, hmicrotasks.trans h.idle⟩
    · change w.delivered = c.handled ++ _
      rw [hhandled]
      exact h.handled
    · rw [hconsumers, hpending]
      exact h.view
  -- a call that is added leaves those that wait
  have hok : ∀ {o : Outcome} (i : Nat) (op' : Op), w.conn.calls[i]? = some { op := op', outcome := .pending } →
      (w.conn.calls ++ [{ op, outcome := o }])[i]? = some { op := op', outcome := .pending } :=
    fun i op' hi => getElem?_concat_iff.2 (.inl hi)
  have hidle := h.idle
  unfold AmqpConnection.call
  split
  · refine hview ⟨⟨h.conn.ok.connected, fun key i hi => ?_, ?_⟩, ?_, fun _ _ => rfl, rfl, ?_⟩ rfl rfl rfl rfl
    · obtain ⟨op', hop', hexp⟩ := h.conn.ok.waiter key i hi
      exact ⟨op', hok i op' hop', hexp⟩
    · simp [hidle]
    · simp [AmqpConnection.settledConsumers, hidle]
    · exact h.conn.waits.imp id fun ⟨handler, i, hlist, hi, hcall⟩ => ⟨handler, i, hlist, hi, hok i _ hcall⟩
  · have hc := h.conn.ok.connected
    unfold AmqpConnection.rpc
    rw [if_pos hc]
    refine hview ⟨⟨hc, fun key i hi => ?_, ?_⟩, ?_, fun _ _ => rfl, rfl, ?_⟩ rfl rfl rfl rfl
    · simp only [get_set] at hi
      by_cases hkey : key = op.expects
      · rw [if_pos hkey, Option.some.injEq] at hi
        exact ⟨op, getElem?_concat_iff.2 (.inr ⟨hi.symm, rfl⟩), hkey.symm⟩
      · rw [if_neg hkey] at hi
        obtain ⟨op', hop', hexp⟩ := h.conn.ok.waiter key i hi
        exact ⟨op', hok i op' hop', hexp⟩
    · simp [hidle]
    · simp [AmqpConnection.settledConsumers, hidle]
    · by_cases hop : op.expects = ⟨60, 21⟩
      · obtain ⟨handler, rfl⟩ : ∃ handler, op = .consume handler := by
          cases op with
          | consume handler => exact ⟨handler, rfl⟩
          | _ => simp [Op.expects] at hop
        -- no other Consume-Ok is to come
        have hnone : w.signals.flatMap Signal.okHandlers ++ asked w.conn.sent = [] := by
          rcases h.conn.waits with hnil | ⟨handler', i, -, -, hcall⟩
          · exact hnil
          · exact absurd rfl (hone rfl _ (mem_of_getElem? hcall) rfl)
        rw [append_eq_nil_iff] at hnone
        refine .inr ⟨handler, w.conn.calls.length, ?_, ?_, getElem?_concat_length⟩
        · simp only [asked, filterMap_append] at hnone ⊢
          rw [hnone.1, hnone.2]
          rfl
        · simp [Op.expects]
      · have hasked : asked (w.conn.sent ++ [.request w.conn.calls.length op]) = asked w.conn.sent := by
          cases op with
          | consume handler => exact absurd rfl hop
          | _ => simp [asked]
        simp only [hasked]
        refine h.conn.waits.imp id fun ⟨handler, i, hlist, hi, hcall⟩ => ⟨handler, i, hlist, ?_, hok i _ hcall⟩
        simp only [get_set]
        rw [if_neg (Ne.symm hop), hi]

theorem inv_publish (h : Inv w) : Inv { w with conn := w.conn.publish } := by
  obtain ⟨nextPublishTag, confirmWaiters, publishes, sent, hpublish, hasked⟩ : ∃ nextPublishTag confirmWaiters publishes sent,
      w.conn.publish = { w.conn with nextPublishTag, confirmWaiters, publishes, sent } ∧ asked sent = asked w.conn.sent := by
    unfold AmqpConnection.publish
    split_ifs
    all_goals refine ⟨_, _, _, _, rfl, ?_⟩
    all_goals simp [asked]
  have hframe : InChunk w.conn.publish { consumers := w.conn.consumers, pending := w.conn.pendingDelivery } []
      (w.signals.flatMap Signal.okHandlers ++ asked w.conn.sent) := by
    rw [hpublish]
    exact h.conn.frame rfl rfl rfl rfl rfl rfl rfl
  rw [← hasked] at hframe
  rw [hpublish] at hframe ⊢
  exact ⟨h.handled, h.bytes, h.fits, h.first, h.view, hframe, h.idle⟩

/-! ## Chunks -/

/-- The frames that are there as a whole are a prefix, and the next one is longer than what is left. -/
theorem splitSignals_spec (n : Nat) (ss : List Signal) : ss = (splitSignals n ss).1 ++ (splitSignals n ss).2 ∧
    ((splitSignals n ss).1.flatMap Signal.bytes).length ≤ n ∧ ∀ s rest, (splitSignals n ss).2 = s :: rest →
      n < ((splitSignals n ss).1.flatMap Signal.bytes).length + s.bytes.length := by
  induction ss generalizing n with
  | nil => exact ⟨rfl, Nat.zero_le _, fun s rest hs => by cases hs⟩
  | cons s ss ih =>
    unfold splitSignals
    split
    · next hle =>
      obtain ⟨hsplit, hlen, hnext⟩ := ih (n - s.bytes.length)
      refine ⟨?_, ?_, fun s' rest hs' => ?_⟩
      · rw [cons_append, ← hsplit]
      · rw [flatMap_cons, length_append]
        omega
      · have := hnext s' rest hs'
        rw [flatMap_cons, length_append]
        omega
    · next hle =>
      refine ⟨rfl, Nat.zero_le _, fun s' rest hs' => ?_⟩
      obtain ⟨rfl, rfl⟩ := hs'
      simp
      omega

/-- The frames of a chunk have been handled, and the decoder keeps less than the next one. -/
theorem inv_data (h : Inv w) {n : Nat} (hdata : Orderly w (.data n)) : Inv (step w (.data n)) := by
  obtain ⟨chunk, hchunk⟩ : ∃ chunk, chunk = w.buf ++ w.pipe.take n := ⟨_, rfl⟩
  obtain ⟨hsplit, hlen, hnext⟩ := splitSignals_spec chunk.length w.signals
  obtain ⟨came, hcame⟩ : ∃ came, came = (splitSignals chunk.length w.signals).1 := ⟨_, rfl⟩
  obtain ⟨rest, hrest⟩ : ∃ rest, rest = (splitSignals chunk.length w.signals).2 := ⟨_, rfl⟩
  simp only [Orderly, ← hchunk, ← hcame] at hdata
  rw [← hcame, ← hrest] at hsplit
  rw [← hcame] at hlen
  rw [← hcame, ← hrest] at hnext
  -- the bytes of the chunk: those of the frames that have come, and a part of the next one
  have hbytes : chunk ++ w.pipe.drop n = came.flatMap Signal.bytes ++ rest.flatMap Signal.bytes := by
    rw [← flatMap_append, ← hsplit, ← h.bytes, hchunk, append_assoc, take_append_drop]
  obtain ⟨tail, htail, hpipe⟩ : ∃ tail, chunk = came.flatMap Signal.bytes ++ tail ∧ rest.flatMap Signal.bytes = tail ++ w.pipe.drop n := by
    rcases append_eq_append_iff.1 hbytes with ⟨as, hcame', hdrop⟩ | ⟨tail, htail, hrest'⟩
    · have has : as = [] := by
        rw [hcame', length_append] at hlen
        exact length_eq_zero_iff.1 (by omega)
      subst has
      rw [append_nil] at hcame'
      exact ⟨[], by rw [hcame', append_nil], by simpa using hdrop.symm⟩
    · exact ⟨tail, htail, hrest'⟩
  have hfitsCame : ∀ s ∈ came, s.Fits := fun s hs => h.fits s (by rw [hsplit]; exact mem_append_left _ hs)
  have hfitsRest : ∀ s ∈ rest, s.Fits := fun s hs => h.fits s (by rw [hsplit]; exact mem_append_right _ hs)
  have hshort : ∀ s ss, rest = s :: ss → tail.length < s.bytes.length := by
    intro s ss hs
    have := hnext s ss hs
    rw [htail, length_append] at this
    omega
  have hwait : next tail = .wait := by
    cases hr : rest with
    | nil =>
      rw [hr, flatMap_nil, eq_comm, append_eq_nil_iff] at hpipe
      rw [hpipe.1]
      exact next_nil
    | cons s ss =>
      have hlt := hshort s ss hr
      rw [hr, flatMap_cons] at hpipe
      rcases append_eq_append_iff.1 hpipe with ⟨as, has, -⟩ | ⟨as, has, -⟩
      · rw [has, length_append] at hlt
        omega
      · exact next_wait (hfitsRest s (by rw [hr]; exact mem_cons_self)).1 has.symm hlt
  have hcount : came.length ≤ chunk.length := by
    exact le_trans (length_le_bytes came) hlen
  have hdecode := w.conn.onData_frames hfitsCame hwait hcount
  rw [← htail] at hdecode
  obtain ⟨v, hfollows, hsub, hmatches⟩ := h.view
  rw [hsplit] at hfollows
  obtain ⟨hbefore, hafter⟩ := hfollows.split
  have hconn := h.conn
  rw [hsplit, flatMap_append, append_assoc] at hconn
  obtain ⟨hin, hhandled⟩ := hconn.signals hfitsCame hbefore fun s hs done hdone => by
    exact hdata done (mem_filterMap.2 ⟨s, hs, hdone⟩)
  obtain ⟨hbehind, hmicrotasks, hconsumers, hhandled', hsent⟩ := hin.behind
  have hsame : (came.foldl (fun c s => c.handleFrame s.frame) w.conn).runMicrotasks.sent = w.conn.sent := by
    rw [hsent, AmqpConnection.sent_handleFrames]
  have hstep : step w (.data n) = { w with
      conn := (came.foldl (fun c s => c.handleFrame s.frame) w.conn).runMicrotasks, buf := tail, pipe := w.pipe.drop n
      signals := rest } := by
    simp only [step, ← hchunk, hdecode, ← hrest]
  rw [hstep]
  refine ⟨?_, hpipe.symm, hfitsRest, hshort, ⟨v, ?_, hsub, hmatches⟩, ?_, hmicrotasks⟩
  · have hdelivered := h.handled
    unfold Handled at hdelivered ⊢
    simp only [hhandled', hhandled]
    rw [hdelivered, hsplit, filterMap_append, map_append, append_assoc]
  · simp only [hconsumers, hbehind.pending]
    exact hafter
  · simp only [hconsumers, hbehind.pending, hsame]
    exact hbehind

/-! ## Runs -/

theorem inv_step {e : DeliveryEvent} (h : Inv w) (he : Orderly w e) : Inv (step w e) := by
  cases e with
  | call op => exact inv_call h he
  | publish => exact inv_publish h
  | heartbeat =>
    exact h.write (s := .heartbeat) (by decide) w.conn.sent w.content w.subscribed rfl fun v hsub hmatches =>
      ⟨trivial, hsub, hmatches⟩
  | serve reply => exact inv_serve h reply
  | confirm tag multiple nack => exact inv_confirm h tag multiple nack
  | deliver tag msg => exact inv_deliver h tag msg
  | header size properties => exact inv_header h size properties
  | body bytes => exact inv_body h bytes
  | data n => exact inv_data h he

theorem handled_of_orderly (es : List DeliveryEvent) (h : Guarded step Orderly {} es) : (run step {} es).Handled :=
  (run_invariant_of_guarded step (fun _ _ hw he => inv_step hw he) es h inv_init).handled

end DeliveryWorld

end StreetJS.Amqp
