/-
Who is let into a secured channel, and what is delivered there: every admission and every delivery rests on a check made
before the channel was secured, or on a rule of the channel that returned true.
-/
import StreetJS.Realtime.Facade
import StreetJS.WebSocket.Membership
import StreetJS.Lib.ListSet

namespace StreetJS.Realtime

open StreetJS.Lib StreetJS.WebSocket RealtimeFacade List OrderedMap

variable {w w' : RealtimeFacade}

/-! ## Grounds -/

/-- The check was passed: none of the rules there were then is of the channel, or one of the channel returned true. -/
def Passed (w : RealtimeFacade) (channel : String) (member : Member) (asked : Asked) : Grounds → Prop
  | .unsecured n => n ≤ w.rules.length ∧ channel ∉ w.rules.take n
  | .answered rule => w.rules[rule]? = some channel ∧ ⟨rule, channel, member, asked⟩ ∈ w.answers

/-- The rule answered about the member bound to the connection that the broadcast named as its sender. -/
def DeliveryOk (w : RealtimeFacade) (d : Delivery) : Prop :=
  match d.grounds with
  | .unsecured n => n ≤ w.rules.length ∧ d.channel ∉ w.rules.take n
  | .answered rule => ∃ conn sender, d.conn = some conn ∧ d.sender = some sender ∧ (conn, sender) ∈ w.bindings ∧
    w.rules[rule]? = some d.channel ∧ ⟨rule, d.channel, sender, .broadcast⟩ ∈ w.answers

def TaskOk (w : RealtimeFacade) : Task → Prop
  | .join channel _ _ (.authorizing rule) => w.rules[rule]? = some channel ∧ w.ready = some true
  | .broadcast channel options (.authorizing rule sender) => w.rules[rule]? = some channel ∧
    ∃ conn, options.exceptConnId = some conn ∧ (conn, sender) ∈ w.bindings
  | .broadcast channel options (.limiting sender grounds) => DeliveryOk w ⟨channel, options.exceptConnId, sender, grounds⟩
  | _ => True

/-- More rules, answers and bindings. -/
structure Grows (w w' : RealtimeFacade) : Prop where
  rules : w.rules <+: w'.rules
  ready : w.ready = some true → w'.ready = some true
  answers : ∀ a ∈ w.answers, a ∈ w'.answers
  bindings : ∀ b ∈ w.bindings, b ∈ w'.bindings

theorem Grows.rule (h : Grows w w') {rule : Nat} {channel : String} (hr : w.rules[rule]? = some channel) :
    w'.rules[rule]? = some channel := by
  obtain ⟨more, hmore⟩ := h.rules
  rw [← hmore, getElem?_append_left (lt_length hr)]
  exact hr

theorem Grows.unsecured (h : Grows w w') {n : Nat} {channel : String}
    (hn : n ≤ w.rules.length ∧ channel ∉ w.rules.take n) : n ≤ w'.rules.length ∧ channel ∉ w'.rules.take n := by
  obtain ⟨more, hmore⟩ := h.rules
  constructor
  · rw [← hmore, length_append]
    exact Nat.le_add_right_of_le hn.1
  · rw [← hmore, take_append_of_le_length hn.1]
    exact hn.2

theorem Passed.mono (h : Grows w w') {channel : String} {member : Member} {asked : Asked} {grounds : Grounds}
    (hp : Passed w channel member asked grounds) : Passed w' channel member asked grounds := by
  cases grounds with
  | unsecured n => exact h.unsecured hp
  | answered rule => exact ⟨h.rule hp.1, h.answers _ hp.2⟩

theorem DeliveryOk.mono (h : Grows w w') {d : Delivery} (hd : DeliveryOk w d) : DeliveryOk w' d := by
  unfold DeliveryOk at hd ⊢
  split
  case h_1 n hg =>
    rw [hg] at hd
    exact h.unsecured hd
  case h_2 rule hg =>
    rw [hg] at hd
    obtain ⟨conn, sender, hconn, hsender, hbound, hrule, hanswer⟩ := hd
    exact ⟨conn, sender, hconn, hsender, h.bindings _ hbound, h.rule hrule, h.answers _ hanswer⟩

theorem TaskOk.mono (h : Grows w w') {task : Task} (ht : TaskOk w task) : TaskOk w' task := by
  cases task with
  | join channel member conn phase =>
    cases phase with
    | authorizing rule => exact ⟨h.rule ht.1, h.ready ht.2⟩
    | _ => trivial
  | broadcast channel options phase =>
    cases phase with
    | authorizing rule sender =>
      obtain ⟨hrule, conn, hconn, hbound⟩ := ht
      exact ⟨h.rule hrule, conn, hconn, h.bindings _ hbound⟩
    | limiting sender grounds => exact DeliveryOk.mono h ht
    | _ => trivial
  | _ => trivial

/-! ## The invariant -/

structure Admitted (w : RealtimeFacade) : Prop where
  authorizers : ∀ channel rule, w.authorizers.get channel = some rule → w.rules[rule]? = some channel
  unsecured : ∀ channel, w.authorizers.get channel = none → channel ∉ w.rules
  members : ∀ conn member, w.members.get conn = some member → (conn, member) ∈ w.bindings
  tasks : ∀ call ∈ w.calls, TaskOk w call.task
  conns : ∀ channel, ∀ conn ∈ w.hub.conns channel, ∃ a ∈ w.admissions, a.channel = channel ∧ a.conn = conn
  admissions : ∀ a ∈ w.admissions, Passed w a.channel a.member .join a.grounds
  deliveries : ∀ d ∈ w.deliveries, DeliveryOk w d

theorem admitted_new (typingTtlMs : Nat) : Admitted (.new typingTtlMs) := by
  constructor
  · exact nofun
  · intro channel _ h
    cases h
  · exact nofun
  · exact nofun
  · intro channel conn h
    cases h
  · exact nofun
  · exact nofun

/-- No rule is registered, and what is new is in order. -/
theorem Admitted.update (h : Admitted w) (hauthorizers : w'.authorizers = w.authorizers) (hrules : w'.rules = w.rules)
    (hready : w.ready = some true → w'.ready = some true)
    (hanswers : ∀ a ∈ w.answers, a ∈ w'.answers) (hbindings : ∀ b ∈ w.bindings, b ∈ w'.bindings)
    (hmembers : ∀ conn member, w'.members.get conn = some member → w.members.get conn = some member ∨ (conn, member) ∈ w'.bindings)
    (hcalls : ∀ call ∈ w'.calls, call ∈ w.calls ∨ TaskOk w' call.task)
    (hconns : ∀ channel, ∀ conn ∈ w'.hub.conns channel, conn ∈ w.hub.conns channel ∨ ∃ a ∈ w'.admissions, a.channel = channel ∧ a.conn = conn)
    (hkept : ∀ a ∈ w.admissions, a ∈ w'.admissions)
    (hadmissions : ∀ a ∈ w'.admissions, a ∈ w.admissions ∨ Passed w' a.channel a.member .join a.grounds)
    (hdeliveries : ∀ d ∈ w'.deliveries, d ∈ w.deliveries ∨ DeliveryOk w' d) : Admitted w' := by
  have hgrows : Grows w w' := ⟨hrules ▸ prefix_refl _, hready, hanswers, hbindings⟩
  constructor
  · rw [hauthorizers, hrules]
    exact h.authorizers
  · rw [hauthorizers, hrules]
    exact h.unsecured
  · intro conn member hm
    exact (hmembers conn member hm).elim (fun hold => hbindings _ (h.members conn member hold)) id
  · intro call hcall
    exact (hcalls call hcall).elim (fun hold => (h.tasks call hold).mono hgrows) id
  · intro channel conn hc
    rcases hconns channel conn hc with hold | hnew
    · obtain ⟨a, ha, hch, hcn⟩ := h.conns channel conn hold
      exact ⟨a, hkept a ha, hch, hcn⟩
    · exact hnew
  · intro a ha
    exact (hadmissions a ha).elim (fun hold => (h.admissions a hold).mono hgrows) id
  · intro d hd
    exact (hdeliveries d hd).elim (fun hold => (h.deliveries d hold).mono hgrows) id

theorem Admitted.calls (h : Admitted w) (hhub : ∀ channel, ∀ conn ∈ w'.hub.conns channel, conn ∈ w.hub.conns channel)
    (hauthorizers : w'.authorizers = w.authorizers) (hrules : w'.rules = w.rules)
    (hready : w.ready = some true → w'.ready = some true) (hanswers : w'.answers = w.answers)
    (hbindings : w'.bindings = w.bindings)
    (hmembers : ∀ conn member, w'.members.get conn = some member → w.members.get conn = some member)
    (hadmissions : w'.admissions = w.admissions) (hdeliveries : w'.deliveries = w.deliveries)
    (hcalls : ∀ call ∈ w'.calls, call ∈ w.calls ∨ TaskOk w' call.task) : Admitted w' := by
  refine h.update hauthorizers hrules hready (fun a ha => hanswers ▸ ha) (fun b hb => hbindings ▸ hb)
    (fun conn member hm => .inl (hmembers conn member hm)) hcalls (fun channel conn hc => .inl (hhub channel conn hc))
    (fun a ha => hadmissions ▸ ha) (fun a ha => .inl ?_) fun d hd => .inl ?_
  · rw [hadmissions] at ha
    exact ha
  · rw [hdeliveries] at hd
    exact hd

theorem mem_go {i : Nat} {call call' : Call} (h : call ∈ (w.go i call').calls) : call ∈ w.calls ∨ call = call' :=
  mem_or_eq_of_mem_set h

theorem Admitted.go (h : Admitted w) {i : Nat} {call : Call} (hok : TaskOk w call.task) : Admitted (w.go i call) := by
  refine h.calls (fun _ _ => id) rfl rfl id rfl rfl (fun _ _ => id) rfl rfl fun call' hc => ?_
  rcases mem_go hc with hold | rfl
  · exact .inl hold
  · exact .inr hok

theorem Admitted.begin_ (h : Admitted w) {call : Call} (hok : TaskOk w call.task) : Admitted (w.begin_ call) := by
  refine h.calls (fun _ _ => id) rfl rfl id rfl rfl (fun _ _ => id) rfl rfl fun call' hc => ?_
  rcases mem_append.1 hc with hold | hnew
  · exact .inl hold
  · rw [mem_singleton.1 hnew]
    exact .inr hok

theorem Admitted.settle (h : Admitted w) (i : Nat) (origin : Origin) : Admitted (w.settle i origin) := h.go trivial

/-! ## Steps -/

theorem Admitted.secure (h : Admitted w) (name : String) : Admitted (w.secure name) := by
  unfold RealtimeFacade.secure
  split
  · exact h
  · have hgrows : Grows w { w with authorizers := w.authorizers.set name w.rules.length, rules := w.rules ++ [name] } :=
      ⟨prefix_append _ _, id, fun _ => id, fun _ => id⟩
    constructor
    · intro channel rule hr
      simp only [get_set] at hr
      split at hr
      case isTrue heq =>
        obtain rfl := Option.some.inj hr
        rw [heq]
        exact getElem?_concat_length
      case isFalse => exact hgrows.rule (h.authorizers channel rule hr)
    · intro channel hr
      simp only [get_set] at hr
      split at hr
      case isTrue => cases hr
      case isFalse hne =>
        intro hmem
        rcases mem_append.1 hmem with hold | hnew
        · exact h.unsecured channel hr hold
        · exact hne (mem_singleton.1 hnew)
    · exact h.members
    · exact fun call hc => (h.tasks call hc).mono hgrows
    · exact h.conns
    · exact fun a ha => (h.admissions a ha).mono hgrows
    · exact fun d hd => (h.deliveries d hd).mono hgrows

theorem taskOk_afterJoin (origin : Origin) (channel : String) (member : Member) (conn : ConnId) :
    TaskOk w (afterJoin origin channel member conn) := by
  cases origin <;> trivial

theorem Admitted.joinHub (h : Admitted w) {i : Nat} {origin : Origin} {channel : String} {member : Member}
    {conn : ConnId} {grounds : Grounds} (hp : Passed w channel member .join grounds) :
    Admitted (w.joinHub i origin channel member conn grounds) := by
  unfold RealtimeFacade.joinHub
  split
  · exact h.settle i origin
  case isFalse hname =>
    obtain ⟨hch, hm⟩ := not_or.1 hname
    refine h.update rfl rfl id (fun _ => id) (fun _ => id) (fun _ _ => .inl) ?_ ?_ (fun a ha => mem_append_left _ ha) ?_ fun _ => .inl
    · intro call hc
      rcases mem_go hc with hold | rfl
      · exact .inl hold
      · refine .inr ?_
        simp only
        split
        · trivial
        · exact taskOk_afterJoin origin channel member conn
    · intro channel' conn' hc
      rcases ChannelHub.mem_conns_join hch hm hc with hold | ⟨rfl, rfl⟩
      · exact .inl hold
      · exact .inr ⟨_, mem_append_right _ (mem_singleton.2 rfl), rfl, rfl⟩
    · intro a ha
      rcases mem_append.1 ha with hold | hnew
      · exact .inl hold
      · rw [mem_singleton.1 hnew]
        exact .inr hp

theorem Admitted.stepJoin (h : Admitted w) (i : Nat) (origin : Origin) (channel : String) (member : Member)
    (conn : ConnId) : Admitted (w.stepJoin i origin channel member conn) := by
  unfold RealtimeFacade.stepJoin
  split
  · exact h
  · exact h.settle i origin
  case h_3 hready =>
    split
    case h_1 rule hr => exact h.go ⟨h.authorizers channel rule hr, hready⟩
    case h_2 hnone =>
      refine h.joinHub ⟨le_rfl, ?_⟩
      rw [take_length]
      exact h.unsecured channel hnone

theorem Admitted.afterLeave (h : Admitted w) (i : Nat) (origin : Origin) (channel : String) : Admitted (w.afterLeave i origin channel) := by
  unfold RealtimeFacade.afterLeave
  split
  · exact (h.settle i _).calls (fun _ _ => id) rfl rfl id rfl rfl (fun _ _ => id) rfl rfl fun _ => .inl
  · exact h.settle i origin

theorem Admitted.hub (h : Admitted w) {hub : ChannelHub} (hs : ChannelHub.Shrinks w.hub hub) : Admitted { w with hub := hub } :=
  h.calls hs.conns rfl rfl id rfl rfl (fun _ _ => id) rfl rfl fun _ => .inl

theorem Admitted.stepLeave (h : Admitted w) (i : Nat) (origin : Origin) (channel : String) (member : Member)
    (conn : ConnId) : Admitted (w.stepLeave i origin channel member conn) := by
  have hleft := h.hub (ChannelHub.shrinks_leave w.hub channel member.id conn)
  unfold RealtimeFacade.stepLeave
  split
  · exact h
  · exact h.settle i origin
  · simp only
    split
    · exact hleft.go trivial
    · exact hleft.afterLeave i origin channel

theorem Admitted.senderOf (h : Admitted w) {options : PublishOptions} {sender : Member}
    (hs : w.senderOf options = some sender) : ∃ conn, options.exceptConnId = some conn ∧ (conn, sender) ∈ w.bindings := by
  unfold RealtimeFacade.senderOf at hs
  split at hs
  · cases hs
  case h_2 conn hconn =>
    split at hs
    · cases hs
    · exact ⟨conn, hconn, h.members conn sender hs⟩

theorem Admitted.stepBroadcast (h : Admitted w) (i : Nat) (origin : Origin) (channel : String)
    (options : PublishOptions) : Admitted (w.stepBroadcast i origin channel options) := by
  unfold RealtimeFacade.stepBroadcast
  split
  · exact h
  · exact h.settle i origin
  · split
    case h_1 hnone =>
      refine h.go ⟨le_rfl, ?_⟩
      rw [take_length]
      exact h.unsecured channel hnone
    case h_2 rule hr =>
      split
      · exact h.settle i origin
      case h_2 sender hs => exact h.go ⟨h.authorizers channel rule hr, h.senderOf hs⟩

theorem Admitted.bind (h : Admitted w) (conn : ConnId) (member : Option Member) : Admitted (w.bind conn member) := by
  refine h.update rfl rfl id (fun _ => id) (fun b hb => mem_append_left _ hb) ?_ (fun _ => .inl) (fun _ _ => .inl)
    (fun _ => id) (fun _ => .inl) fun _ => .inl
  intro conn' member' hm
  cases member with
  | none =>
    simp only [RealtimeFacade.bind, get_delete] at hm
    split at hm
    · cases hm
    · exact .inl hm
  | some m =>
    simp only [RealtimeFacade.bind, get_set] at hm
    split at hm
    case isTrue heq =>
      obtain rfl := Option.some.inj hm
      rw [heq]
      exact .inr (mem_append_right _ (mem_singleton.2 rfl))
    case isFalse => exact .inl hm

theorem Admitted.close (h : Admitted w) (conn : ConnId) : Admitted (w.close conn) := by
  unfold RealtimeFacade.close
  split
  · exact h
  · simp only
    split
    · refine h.calls (ChannelHub.shrinks_disconnect w.hub conn).conns rfl rfl id rfl rfl ?_ rfl rfl fun _ => .inl
      intro conn' member hm
      simp only [RealtimeFacade.handleClose, get_delete] at hm
      split at hm
      · cases hm
      · exact hm
    · exact h.calls (fun _ _ => id) rfl rfl id rfl rfl (fun _ _ => id) rfl rfl fun _ => .inl

theorem taskOk_handle (conn : ConnId) (channel : Option String) (action : Action) : TaskOk w (w.handle conn channel action) := by
  cases action with
  | subscribe =>
    simp only [RealtimeFacade.handle, RealtimeFacade.handleClientSubscribe]
    repeat' split
    all_goals trivial
  | unsubscribe =>
    simp only [RealtimeFacade.handle, RealtimeFacade.handleClientUnsubscribe]
    repeat' split
    all_goals trivial
  | publish =>
    simp only [RealtimeFacade.handle, RealtimeFacade.handleClientPublish]
    repeat' split
    all_goals trivial

section

variable (h : Admitted w)
include h

theorem Admitted.stepJoined (i : Nat) (origin : Origin) (channel : String) (member : Member)
    (conn : ConnId) : Admitted (w.stepJoined i origin channel member conn) := by
  unfold RealtimeFacade.stepJoined
  split
  · exact h.go trivial
  · exact (h.settle i origin).calls (fun _ _ => id) rfl rfl id rfl rfl (fun _ _ => id) rfl rfl fun _ => .inl

theorem Admitted.advance (i : Nat) : Admitted (w.advance i) := by
  unfold RealtimeFacade.advance
  split
  · split
    · exact h.go (taskOk_handle _ _ _)
    · exact h
  · exact h.stepJoin i _ _ _ _
  · exact h.stepJoined i _ _ _ _
  · exact h.stepLeave i _ _ _ _
  · exact h.stepBroadcast i _ _ _
  · exact h

theorem Admitted.answered (a : Answer) : Admitted { w with answers := w.answers ++ [a] } :=
  h.update rfl rfl id (fun _ ha => mem_append_left _ ha) (fun _ => id) (fun _ _ => .inl) (fun _ => .inl)
    (fun _ _ => .inl) (fun _ => id) (fun _ => .inl) fun _ => .inl

theorem Admitted.answer (i : Nat) (allowed : Bool) : Admitted (w.answer i allowed) := by
  unfold RealtimeFacade.answer
  split
  case h_1 origin channel member conn rule hi =>
    have hok := h.tasks _ (mem_of_getElem? hi)
    split
    · exact (h.answered _).joinHub ⟨hok.1, mem_append_right _ (mem_singleton.2 rfl)⟩
    · exact h.settle i origin
  case h_2 origin channel options rule sender hi =>
    obtain ⟨hrule, conn, hconn, hbound⟩ := h.tasks _ (mem_of_getElem? hi)
    split
    · exact (h.answered _).go ⟨conn, sender, hconn, rfl, hbound, hrule, mem_append_right _ (mem_singleton.2 rfl)⟩
    · exact h.settle i origin
  case h_3 => exact h

theorem Admitted.consumed (i : Nat) (allowed : Bool) : Admitted (w.consumed i allowed) := by
  unfold RealtimeFacade.consumed
  split
  case h_1 origin channel options sender grounds hi =>
    have hok := h.tasks _ (mem_of_getElem? hi)
    have hs := ChannelHub.shrinks_publish w.hub channel options.exceptConnId options.exceptMemberId
    split
    · refine h.update rfl rfl id (fun _ => id) (fun _ => id) (fun _ _ => .inl) ?_ (fun ch c hc => .inl (hs.conns ch c hc))
        (fun _ => id) (fun _ => .inl) ?_
      · intro call hc
        rcases mem_go hc with hold | rfl
        · exact .inl hold
        · exact .inr trivial
      · intro d hd
        rcases mem_append.1 hd with hold | hnew
        · exact .inl hold
        · rw [mem_singleton.1 hnew]
          exact .inr hok
    · exact h.settle i origin
  case h_2 => exact h

theorem Admitted.published (i : Nat) (done : Bool) : Admitted (w.published i done) := by
  unfold RealtimeFacade.published
  split
  · split
    · exact h.go (taskOk_afterJoin _ _ _ _)
    · exact h.settle i _
  · split
    · exact h.afterLeave i _ _
    · exact h.settle i _
  · exact h.settle i _
  · exact h

theorem Admitted.room {name : String} {task : Task} (hok : TaskOk w task) : Admitted (w.room name task) := by
  unfold RealtimeFacade.room
  split
  · exact h
  · exact h.begin_ hok

end

theorem Admitted.step (h : Admitted w) (event : Event) : Admitted (step w event) := by
  unfold Realtime.step
  split
  · exact h
  · cases event with
    | initialized done =>
      simp only [perform]
      split
      case isTrue hnone =>
        refine h.calls (fun _ _ => id) rfl rfl (fun hr => ?_) rfl rfl (fun _ _ => id) rfl rfl fun _ => .inl
        rw [hnone] at hr
        cases hr
      case isFalse => exact h
    | secure name => exact h.secure name
    | join channel member conn => exact h.room trivial
    | leave channel member conn => exact h.room trivial
    | broadcast channel options => exact h.room trivial
    | bind conn member => exact h.bind conn member
    | frame conn action channel =>
      simp only [perform, RealtimeFacade.frame]
      split
      · exact h.begin_ trivial
      · exact h
    | close conn => exact h.close conn
    | advance i => exact h.advance i
    | answer i allowed => exact h.answer i allowed
    | consumed i allowed => exact h.consumed i allowed
    | published i done => exact h.published i done
    | proceed => exact h.hub (ChannelHub.shrinks_proceed w.hub)

end StreetJS.Realtime
