/-
Connections that closed while bound: what backs a member after the close is a join that the handler of a `subscribe`
takes back before it ends.
-/
import StreetJS.Realtime.Admission

namespace StreetJS.Realtime

open StreetJS.Lib StreetJS.WebSocket RealtimeFacade List

variable {w w' : RealtimeFacade}

/-! ## Joins that are taken back -/

/-- The handler of a frame has joined, and will leave if the connection is closed. -/
def cleans (channel memberId : String) (conn : ConnId) : Call → Bool
  | ⟨.frame _ _, .join channel' member conn' .publishing⟩ => channel' = channel ∧ member.id = memberId ∧ conn' = conn
  | ⟨.frame _ _, .joined channel' member conn'⟩ => channel' = channel ∧ member.id = memberId ∧ conn' = conn
  | ⟨.frame _ _, .leave channel' member conn' .waiting⟩ => channel' = channel ∧ member.id = memberId ∧ conn' = conn
  | _ => false

def Cleaning (w : RealtimeFacade) (channel memberId : String) (conn : ConnId) : Prop :=
  w.ready = some true ∧ ∃ call ∈ w.calls, cleans channel memberId conn call = true

/-- No join of the application reaches the hub for a connection that closed while bound, a leave names no connection
that backs another member of the channel, and no presence of a join for a closed connection fails to be published. -/
def Orderly (w : RealtimeFacade) : Event → Prop
  | .advance i =>
    match w.calls[i]? with
    | some ⟨.room, .join channel _ conn .waiting⟩ =>
      w.ready = some true → w.authorizers.get channel = none → conn ∉ w.left
    | some ⟨_, .leave channel member conn .waiting⟩ =>
      ∀ e ∈ (w.hub.stateOf channel).members, e.1 ≠ member.id → conn ∉ e.2
    | _ => True
  | .answer i true =>
    match w.calls[i]? with
    | some ⟨.room, .join _ _ conn (.authorizing _)⟩ => conn ∉ w.left
    | _ => True
  | .published i false =>
    match w.calls[i]? with
    | some ⟨.frame _ _, .join _ _ conn .publishing⟩ => conn ∉ w.left
    | _ => True
  | _ => True

structure Departed (w : RealtimeFacade) : Prop where
  inv : w.hub.Inv
  left : ∀ conn ∈ w.left, conn ∈ w.closed
  gone : ∀ conn ∈ w.left, conn ∈ w.hub.gone ∨ ∀ channel memberId, conn ∈ w.hub.backers channel memberId → Cleaning w channel memberId conn

theorem Departed.shrinks (h : Departed w) (hinv : w'.hub.Inv) (hs : ChannelHub.Shrinks w.hub w'.hub)
    (hleft : w'.left = w.left) (hclosed : w'.closed = w.closed)
    (hclean : ∀ channel memberId, ∀ conn ∈ w.left, conn ∈ w'.hub.backers channel memberId →
      Cleaning w channel memberId conn → Cleaning w' channel memberId conn) : Departed w' := by
  constructor
  · exact hinv
  · rw [hleft, hclosed]
    exact h.left
  · intro conn hl
    rw [hleft] at hl
    rcases h.gone conn hl with hg | hb
    · exact .inl (hs.gone conn hg)
    · refine .inr fun channel memberId hback => hclean channel memberId conn hl hback ?_
      exact hb channel memberId (hs.backers channel memberId conn hback)

variable {i : Nat}

theorem Departed.go (h : Departed w) {call call' : Call} (hi : w.calls[i]? = some call)
    (hk : ∀ channel memberId, ∀ conn ∈ w.left, w.ready = some true → cleans channel memberId conn call = true →
      cleans channel memberId conn call' = true) : Departed (w.go i call') := by
  refine h.shrinks h.inv (.refl _) rfl rfl fun channel memberId conn hl _ hc => ⟨hc.1, ?_⟩
  exact exists_mem_set hi (hk channel memberId conn hl hc.1) hc.2

theorem Departed.same (h : Departed w) (hhub : w'.hub = w.hub) (hleft : w'.left = w.left) (hclosed : w'.closed = w.closed)
    (hready : w.ready = some true → w'.ready = some true) (hcalls : ∀ call ∈ w.calls, call ∈ w'.calls) :
    Departed w' := by
  refine h.shrinks (hhub ▸ h.inv) (hhub ▸ .refl _) hleft hclosed fun channel memberId conn _ _ hc => ?_
  obtain ⟨hr, call, hcall, hclean⟩ := hc
  exact ⟨hready hr, call, hcalls call hcall, hclean⟩

/-! ## Steps -/

theorem Departed.begin_ (h : Departed w) (call : Call) : Departed (w.begin_ call) :=
  h.same rfl rfl rfl id fun _ hc => mem_append_left _ hc

theorem Departed.room (h : Departed w) (name : String) (task : Task) : Departed (w.room name task) := by
  unfold RealtimeFacade.room
  split
  · exact h
  · exact h.begin_ _

theorem Departed.secure (h : Departed w) (name : String) : Departed (w.secure name) := by
  unfold RealtimeFacade.secure
  split
  · exact h
  · exact h.same rfl rfl rfl id fun _ => id

theorem Departed.close (h : Departed w) (conn : ConnId) : Departed (w.close conn) := by
  unfold RealtimeFacade.close
  split
  · exact h
  · have hs := ChannelHub.shrinks_disconnect w.hub conn
    simp only
    split
    · constructor
      · exact h.inv.disconnect conn
      · intro conn' hl
        rcases mem_append.1 hl with hold | hnew
        · exact mem_append_left _ (h.left conn' hold)
        · exact mem_append_right _ hnew
      · intro conn' hl
        rcases mem_append.1 hl with hold | hnew
        · rcases h.gone conn' hold with hg | hb
          · exact .inl (hs.gone conn' hg)
          · exact .inr fun channel memberId hback => hb channel memberId (hs.backers channel memberId conn' hback)
        · rw [mem_singleton.1 hnew]
          exact .inl (ChannelHub.mem_gone_disconnect w.hub conn)
    · constructor
      · exact h.inv
      · exact fun conn' hl => mem_append_left _ (h.left conn' hl)
      · exact h.gone

variable {origin : Origin} {channel : String} {member : Member} {conn : ConnId}

section

variable (h : Departed w)
include h

theorem Departed.joinHub (hquiet : w.hub.stack = []) (hready : w.ready = some true)
    {call : Call} (hi : w.calls[i]? = some call) (hno : ∀ channel memberId conn, cleans channel memberId conn call = false)
    (grounds : Grounds)
    (hopen : origin = .room → conn ∉ w.left) : Departed (w.joinHub i origin channel member conn grounds) := by
  have hnever : ∀ {ch m c} {P : Prop}, cleans ch m c call = true → P := fun hc => by
    rw [hno] at hc
    cases hc
  unfold RealtimeFacade.joinHub
  split
  · exact h.go hi fun _ _ _ _ _ => hnever
  case isFalse hname =>
    obtain ⟨hch, hm⟩ := not_or.1 hname
    have hold : ∀ {ch m c call'}, Cleaning w ch m c → Cleaning (w.go i call') ch m c := fun hc =>
      ⟨hc.1, exists_mem_set hi hnever hc.2⟩
    constructor
    · exact h.inv.join hquiet channel member.id conn
    · exact h.left
    · intro conn' hl
      by_cases hcn : conn' = conn
      · subst hcn
        refine .inr fun ch m hback => ?_
        rcases ChannelHub.mem_backers_join hch hm hback with hb | ⟨rfl, rfl, -⟩
        · rcases h.gone conn' hl with hg | hclean
          · -- what is gone backs no member between operations
            exact absurd hb (h.inv.1.not_gone hquiet hg ch m)
          · exact hold (hclean ch m hb)
        · refine ⟨hready, _, mem_iff_getElem?.2 ⟨i, getElem?_set_self (lt_length hi)⟩, ?_⟩
          cases origin with
          | room => exact absurd hl (hopen rfl)
          | frame c action =>
            simp only [afterJoin]
            split <;> simp [cleans]
      · rcases h.gone conn' hl with hg | hclean
        · exact .inl (ChannelHub.mem_gone_join hcn hg)
        · refine .inr fun ch m hback => ?_
          rcases ChannelHub.mem_backers_join hch hm hback with hb | ⟨-, -, heq⟩
          · exact hold (hclean ch m hb)
          · exact absurd heq hcn

theorem Departed.stepJoin (hquiet : w.hub.stack = []) (hi : w.calls[i]? = some ⟨origin, .join channel member conn .waiting⟩)
    (hopen : origin = .room → w.ready = some true → w.authorizers.get channel = none → conn ∉ w.left) :
    Departed (w.stepJoin i origin channel member conn) := by
  have hno : ∀ ch m c, cleans ch m c ⟨origin, .join channel member conn .waiting⟩ = false := fun ch m c => by
    cases origin <;> rfl
  have hnever : ∀ {ch m c} {P : Prop}, cleans ch m c ⟨origin, .join channel member conn .waiting⟩ = true → P :=
    fun hc => by
      rw [hno] at hc
      cases hc
  unfold RealtimeFacade.stepJoin
  split
  · exact h
  · exact h.go hi fun _ _ _ _ _ => hnever
  case h_3 hready =>
    split
    · exact h.go hi fun _ _ _ _ _ => hnever
    case h_2 hnone => exact h.joinHub hquiet hready hi hno _ fun horigin => hopen horigin hready hnone

theorem Departed.afterLeave {call : Call} (hi : w.calls[i]? = some call) (origin : Origin)
    (channel : String) (hk : ∀ ch m, ∀ c ∈ w.left, w.ready = some true → cleans ch m c call = false) :
    Departed (w.afterLeave i origin channel) := by
  have hsettle : Departed (w.settle i origin) := h.go hi fun ch m c hl hr hc => by
    rw [hk ch m c hl hr] at hc
    cases hc
  unfold RealtimeFacade.afterLeave
  split
  · exact hsettle.same rfl rfl rfl id fun _ => id
  · exact hsettle

theorem Departed.stepLeave (hquiet : w.hub.stack = []) (hi : w.calls[i]? = some ⟨origin, .leave channel member conn .waiting⟩)
    (hmatched : ∀ m, m ≠ member.id → conn ∉ w.hub.backers channel m) :
    Departed (w.stepLeave i origin channel member conn) := by
  unfold RealtimeFacade.stepLeave
  split
  · exact h
  case h_2 hready =>
    refine h.go hi fun _ _ _ _ hr => ?_
    rw [hready] at hr
    cases hr
  case h_3 hready =>
    have hs := ChannelHub.shrinks_leave w.hub channel member.id conn
    have hinv := h.inv.leave hquiet hmatched
    -- the connection does not back the member any more, so this call has nothing to take back
    have hothers : ∀ {call'} ch m, ∀ c, c ∈ (w.hub.leave channel member.id conn).backers ch m → Cleaning w ch m c →
        ∃ call ∈ w.calls.set i call', cleans ch m c call = true := by
      intro call' ch m c hback hc
      refine exists_mem_set hi (fun hclean => ?_) hc.2
      cases origin with
      | room => cases hclean
      | frame c' action =>
        obtain ⟨rfl, rfl, rfl⟩ := of_decide_eq_true hclean
        exact absurd hback (ChannelHub.not_mem_leave _ _ _ _)
    simp only
    split
    · exact h.shrinks hinv hs rfl rfl fun ch m c _ hback hc => ⟨hc.1, hothers ch m c hback hc⟩
    · unfold RealtimeFacade.afterLeave
      split
      · exact h.shrinks hinv hs rfl rfl fun ch m c _ hback hc => ⟨hc.1, hothers ch m c hback hc⟩
      · exact h.shrinks hinv hs rfl rfl fun ch m c _ hback hc => ⟨hc.1, hothers ch m c hback hc⟩

theorem Departed.stepJoined (hi : w.calls[i]? = some ⟨origin, .joined channel member conn⟩) :
    Departed (w.stepJoined i origin channel member conn) := by
  unfold RealtimeFacade.stepJoined
  split
  · refine h.go hi fun ch m c _ _ hclean => ?_
    cases origin with
    | room => cases hclean
    | frame c' action => exact hclean
  case isFalse hopen =>
    have hsettle : Departed (w.settle i origin) := h.go hi fun ch m c hl _ hclean => by
      cases origin with
      | room => cases hclean
      | frame c' action =>
        obtain ⟨-, -, rfl⟩ := of_decide_eq_true hclean
        exact absurd (h.left _ hl) hopen
    exact hsettle.same rfl rfl rfl id fun _ => id

theorem Departed.stepBroadcast {options : PublishOptions} (hi : w.calls[i]? = some ⟨origin, .broadcast channel options .waiting⟩) :
    Departed (w.stepBroadcast i origin channel options) := by
  have hgo : ∀ call', Departed (w.go i call') := fun call' => h.go hi fun _ _ _ _ _ hc => by
    cases origin <;> cases hc
  unfold RealtimeFacade.stepBroadcast
  split
  · exact h
  · exact hgo _
  · split
    · exact hgo _
    · split
      · exact hgo _
      · exact hgo _

end

theorem matched_of_members {memberId : String} (h : ∀ e ∈ (w.hub.stateOf channel).members, e.1 ≠ memberId → conn ∉ e.2) :
    ∀ m, m ≠ memberId → conn ∉ w.hub.backers channel m := by
  intro m hm hb
  unfold ChannelHub.backers at hb
  cases hget : (w.hub.stateOf channel).members.get m with
  | none =>
    rw [hget] at hb
    cases hb
  | some conns =>
    rw [hget] at hb
    exact h (m, conns) (OrderedMap.get_mem hget) hm hb

theorem Departed.advance (h : Departed w) (hquiet : w.hub.stack = []) (ho : Orderly w (.advance i)) : Departed (w.advance i) := by
  unfold RealtimeFacade.advance
  split
  case h_1 conn action channel hi =>
    split
    · exact h.go hi fun _ _ _ _ _ hc => by cases hc
    · exact h
  case h_2 origin channel member conn hi =>
    refine h.stepJoin hquiet hi fun horigin => ?_
    subst horigin
    simpa only [Orderly, hi] using ho
  case h_3 origin channel member conn hi => exact h.stepJoined hi
  case h_4 origin channel member conn hi =>
    refine h.stepLeave hquiet hi (matched_of_members ?_)
    simpa only [Orderly, hi] using ho
  case h_5 origin channel options hi => exact h.stepBroadcast hi
  case h_6 => exact h

theorem Departed.answer (h : Departed w) (hquiet : w.hub.stack = []) {allowed : Bool}
    (ha : Admitted w) (ho : Orderly w (.answer i allowed)) : Departed (w.answer i allowed) := by
  unfold RealtimeFacade.answer
  split
  case h_1 origin channel member conn rule hi =>
    have hno : ∀ ch m c, cleans ch m c ⟨origin, .join channel member conn (.authorizing rule)⟩ = false := fun ch m c => by
      cases origin <;> rfl
    split
    case isTrue hallowed =>
      subst hallowed
      have h' : Departed { w with answers := w.answers ++ [⟨rule, channel, member, .join⟩] } :=
        h.same rfl rfl rfl id fun _ => id
      refine h'.joinHub hquiet (ha.tasks _ (mem_of_getElem? hi)).2 hi hno _ fun horigin => ?_
      subst horigin
      simpa only [Orderly, hi] using ho
    case isFalse =>
      refine h.go hi fun _ _ _ _ _ hc => ?_
      rw [hno] at hc
      cases hc
  case h_2 origin channel options rule sender hi =>
    have hno : ∀ ch m c, cleans ch m c ⟨origin, .broadcast channel options (.authorizing rule sender)⟩ = false :=
      fun ch m c => by cases origin <;> rfl
    have hgo : ∀ call', Departed (w.go i call') := fun call' => h.go hi fun _ _ _ _ _ hc => by
      rw [hno] at hc
      cases hc
    split
    · exact (hgo _).same rfl rfl rfl id fun _ => id
    · exact hgo _
  case h_3 => exact h

theorem Departed.consumed (h : Departed w) (i : Nat) (allowed : Bool) : Departed (w.consumed i allowed) := by
  unfold RealtimeFacade.consumed
  split
  case h_1 origin channel options sender grounds hi =>
    have hgo : ∀ call', Departed (w.go i call') := fun call' => h.go hi fun _ _ _ _ _ hc => by
      cases origin <;> cases hc
    split
    · refine (hgo ⟨origin, .broadcast channel options .publishing⟩).shrinks (h.inv.publish _ _ _)
        (ChannelHub.shrinks_publish _ _ _ _) rfl rfl fun _ _ _ _ _ hc => ⟨hc.1, hc.2⟩
    · exact hgo _
  case h_2 => exact h

theorem Departed.published (h : Departed w) {done : Bool} (ho : Orderly w (.published i done)) : Departed (w.published i done) := by
  unfold RealtimeFacade.published
  split
  case h_1 origin channel member conn hi =>
    split
    case isTrue =>
      refine h.go hi fun ch m c _ _ hc => ?_
      cases origin with
      | room => cases hc
      | frame c' action => exact hc
    case isFalse hdone =>
      obtain rfl : done = false := by simpa using hdone
      refine h.go hi fun ch m c hl _ hc => ?_
      cases origin with
      | room => cases hc
      | frame c' action =>
        obtain ⟨-, -, rfl⟩ := of_decide_eq_true hc
        simp only [Orderly, hi] at ho
        exact absurd hl ho
  case h_2 origin channel member conn hi =>
    have hno : ∀ ch m c, cleans ch m c ⟨origin, .leave channel member conn .publishing⟩ = false := fun ch m c => by
      cases origin <;> rfl
    split
    · exact h.afterLeave hi origin channel fun ch m c _ _ => hno ch m c
    · refine h.go hi fun _ _ _ _ _ hc => ?_
      rw [hno] at hc
      cases hc
  case h_3 origin channel options hi =>
    refine h.go hi fun _ _ _ _ _ hc => ?_
    cases origin <;> cases hc
  case h_4 => exact h

/-! ## Runs -/

theorem departed_new (typingTtlMs : Nat) : Departed (.new typingTtlMs) :=
  ⟨ChannelHub.inv_new typingTtlMs, nofun, nofun⟩

theorem Departed.step (h : Departed w) (ha : Admitted w) {event : Event} (ho : Orderly w event) : Departed (step w event) := by
  unfold Realtime.step
  split
  · exact h
  case isFalse hstack =>
    have hquiet : event ≠ .proceed → w.hub.stack = [] := fun hne => not_not.1 fun hs => hstack ⟨hs, hne⟩
    cases event with
    | initialized done =>
      simp only [perform]
      split
      case isTrue hnone =>
        refine h.same rfl rfl rfl (fun hr => ?_) fun _ => id
        rw [hnone] at hr
        cases hr
      case isFalse => exact h
    | secure name => exact h.secure name
    | join channel member conn => exact h.room _ _
    | leave channel member conn => exact h.room _ _
    | broadcast channel options => exact h.room _ _
    | bind conn member => exact h.same rfl rfl rfl id fun _ => id
    | frame conn action channel =>
      simp only [perform, RealtimeFacade.frame]
      split
      · exact h.begin_ _
      · exact h
    | close conn => exact h.close conn
    | advance i => exact h.advance (hquiet (by simp)) ho
    | answer i allowed => exact h.answer (hquiet (by simp)) ha ho
    | consumed i allowed => exact h.consumed i allowed
    | published i done => exact h.published ho
    | proceed =>
      exact h.shrinks (h.inv.proceed none) (ChannelHub.shrinks_proceed w.hub) rfl rfl fun _ _ _ _ _ => id

/-- All calls have settled, between operations of the hub. -/
def Quiet (w : RealtimeFacade) : Prop := w.hub.stack = [] ∧ ∀ call ∈ w.calls, call.task = .settled

theorem Departed.quiet (h : Departed w) (hq : Quiet w) : ∀ conn ∈ w.left, ∀ channel memberId, conn ∉ w.hub.backers channel memberId := by
  intro conn hl channel memberId hb
  rcases h.gone conn hl with hg | hclean
  · exact h.inv.1.not_gone hq.1 hg channel memberId hb
  · obtain ⟨-, ⟨origin, task⟩, hcall, hc⟩ := hclean channel memberId hb
    obtain rfl : task = .settled := hq.2 _ hcall
    cases origin <;> cases hc

instance (w : RealtimeFacade) (event : Event) : Decidable (Orderly w event) := by
  unfold Orderly
  repeat' split
  all_goals infer_instance

def ann : Member := ⟨"a", []⟩

/-- A connection subscribes to a secured channel, and closes while the rule is asked. -/
def closing : List Event :=
  [.initialized true, .secure "x", .bind "c" (some ann), .frame "c" .subscribe (some "x"), .advance 0, .advance 0,
    .close "c", .proceed, .answer 0 true, .proceed, .published 0 true, .advance 0, .advance 0, .proceed, .proceed,
    .published 0 true]

/-- A join of the application that waits for the adapter while its connection closes. -/
def joinedLate : List Event :=
  [.bind "c" (some ann), .join "x" ann "c", .close "c", .initialized true, .advance 0, .proceed, .published 0 true]

/-- A channel is secured after a connection joined it, and while a publish waits for the rate limiter. -/
def securedLate : List Event :=
  [.initialized true, .join "x" ann "c", .advance 0, .proceed, .published 0 true, .broadcast "x" ⟨none, none⟩,
    .advance 1, .secure "x", .consumed 1 true, .proceed, .proceed]

end StreetJS.Realtime
