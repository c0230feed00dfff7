/-
`RealtimeFacade`: rooms over one hub, with the calls of the application, the frames of the connections and the closing
of connections in any order between the points where a call awaits something.
-/
import StreetJS.WebSocket.ChannelHub

namespace StreetJS.Realtime

open StreetJS.Lib StreetJS.WebSocket

structure Member where
  id : String
  roles : List String
  deriving DecidableEq

structure PublishOptions where
  exceptConnId : Option ConnId
  exceptMemberId : Option String
  deriving DecidableEq

/-! ## Calls in flight -/

/-- What an authorizer is asked. -/
inductive Asked
  | join
  | broadcast
  deriving DecidableEq

/-- What a check was passed on: no rule for the channel among the first ones, or the answer of a rule. -/
inductive Grounds
  | unsecured (rules : Nat)
  | answered (rule : Nat)
  deriving DecidableEq

/-- What a call awaits: that the adapter is ready, an answer, the limiter, or the adapter's publish. -/
inductive Joining
  | waiting
  | authorizing (rule : Nat)
  | publishing
  deriving DecidableEq

inductive Leaving
  | waiting
  | publishing
  deriving DecidableEq

inductive Broadcasting
  | waiting
  | authorizing (rule : Nat) (sender : Member)
  | limiting (sender : Option Member) (grounds : Grounds)
  | publishing
  deriving DecidableEq

inductive Action
  | subscribe
  | unsubscribe
  | publish
  deriving DecidableEq

/-- Who awaits the task: the application, or the handler of a frame. -/
inductive Origin
  | room
  | frame (conn : ConnId) (action : Action)
  deriving DecidableEq

/-- In `queued` the handler of a frame has not begun; in `joined` it goes on after its join. -/
inductive Task
  | queued (channel : Option String)
  | join (channel : String) (member : Member) (conn : ConnId) (phase : Joining)
  | joined (channel : String) (member : Member) (conn : ConnId)
  | leave (channel : String) (member : Member) (conn : ConnId) (phase : Leaving)
  | broadcast (channel : String) (options : PublishOptions) (phase : Broadcasting)
  | settled
  deriving DecidableEq

structure Call where
  origin : Origin
  task : Task
  deriving DecidableEq

/-! ## Records that no call reads -/

/-- A rule returned true. -/
structure Answer where
  rule : Nat
  channel : String
  member : Member
  asked : Asked
  deriving DecidableEq

structure Admission where
  channel : String
  member : Member
  conn : ConnId
  grounds : Grounds
  deriving DecidableEq

structure Delivery where
  channel : String
  conn : Option ConnId
  sender : Option Member
  grounds : Grounds
  deriving DecidableEq

/-! ## The facade -/

/-- `authorizers` has the rule of each secured channel, and `rules` the channels of all rules in the order in which they
were registered. `bindings`, `answers`, `admissions`, `deliveries` and `left`, the connections that closed while bound,
are records. -/
structure RealtimeFacade where
  hub : ChannelHub
  ready : Option Bool
  members : OrderedMap ConnId Member
  bound : List ConnId
  listening : List ConnId
  protocolSubscriptions : OrderedMap ConnId (OrderedMap String Member)
  authorizers : OrderedMap String Nat
  rules : List String
  closed : List ConnId
  calls : List Call
  bindings : List (ConnId × Member)
  answers : List Answer
  admissions : List Admission
  deliveries : List Delivery
  left : List ConnId
  deriving DecidableEq

namespace RealtimeFacade

def new (typingTtlMs : Nat) : RealtimeFacade :=
  ⟨.new typingTtlMs, none, [], [], [], [], [], [], [], [], [], [], [], [], []⟩

variable (w : RealtimeFacade)

variable (i : Nat)

def go (call : Call) : RealtimeFacade := { w with calls := w.calls.set i call }

def begin_ (call : Call) : RealtimeFacade := { w with calls := w.calls ++ [call] }

variable (origin : Origin)

def settle : RealtimeFacade := w.go i ⟨origin, .settled⟩

/-! ## Rooms -/

/-- `room(name)` rejects an empty name. -/
def room (name : String) (task : Task) : RealtimeFacade :=
  if name = "" then w else w.begin_ ⟨.room, task⟩

def secure (name : String) : RealtimeFacade :=
  if name = "" then w
  else { w with authorizers := w.authorizers.set name w.rules.length, rules := w.rules ++ [name] }

variable (channel : String)

variable (member : Member)

/-- What follows a join: the handler of a `subscribe` goes on. -/
def afterJoin (conn : ConnId) : Task :=
  match origin with
  | .room => .settled
  | .frame _ _ => .joined channel member conn

/-- The part of `join` after its check. -/
def joinHub (conn : ConnId) (grounds : Grounds) : RealtimeFacade :=
  if channel = "" ∨ member.id = "" then w.settle i origin
  else
    let newlyPresent := w.hub.backers channel member.id = []
    { w.go i ⟨origin, if newlyPresent then .join channel member conn .publishing
        else afterJoin origin channel member conn⟩ with
      hub := w.hub.join channel member.id conn,
      admissions := w.admissions ++ [⟨channel, member, conn, grounds⟩] }

/-- A join goes on when the adapter is ready. -/
def stepJoin (conn : ConnId) :
    RealtimeFacade :=
  match w.ready with
  | none => w
  | some false => w.settle i origin
  | some true =>
    match w.authorizers.get channel with
    | some rule => w.go i ⟨origin, .join channel member conn (.authorizing rule)⟩
    | none => w.joinHub i origin channel member conn (.unsecured w.rules.length)

/-- What follows a leave: the handler of an `unsubscribe` forgets the subscription. -/
def afterLeave : RealtimeFacade :=
  match origin with
  | .frame conn .unsubscribe =>
    { w.settle i origin with
      protocolSubscriptions := match w.protocolSubscriptions.get conn with
        | none => w.protocolSubscriptions
        | some subscriptions => w.protocolSubscriptions.set conn (subscriptions.delete channel) }
  | _ => w.settle i origin

def stepLeave (conn : ConnId) :
    RealtimeFacade :=
  match w.ready with
  | none => w
  | some false => w.settle i origin
  | some true =>
    let backers := w.hub.backers channel member.id
    let nowAbsent := conn ∈ backers ∧ ChannelHub.remove backers conn = []
    let w' : RealtimeFacade := { w with hub := w.hub.leave channel member.id conn }
    if nowAbsent then w'.go i ⟨origin, .leave channel member conn .publishing⟩ else w'.afterLeave i origin channel

/-- The member bound to the sender that a broadcast names. -/
def senderOf (options : PublishOptions) : Option Member :=
  match options.exceptConnId with
  | none => none
  | some conn => if conn = "" then none else w.members.get conn

def stepBroadcast (options : PublishOptions) :
    RealtimeFacade :=
  match w.ready with
  | none => w
  | some false => w.settle i origin
  | some true =>
    match w.authorizers.get channel with
    | none => w.go i ⟨origin, .broadcast channel options (.limiting none (.unsecured w.rules.length))⟩
    | some rule =>
      match w.senderOf options with
      | none => w.settle i origin
      | some sender => w.go i ⟨origin, .broadcast channel options (.authorizing rule sender)⟩

/-! ## Connections -/

variable (conn : ConnId)

def bind (member : Option Member) : RealtimeFacade :=
  { w with
    members := match member with
      | some m => w.members.set conn m
      | none => w.members.delete conn,
    bindings := w.bindings ++ (member.map fun m => (conn, m)).toList,
    bound := ChannelHub.add w.bound conn,
    listening := ChannelHub.add w.listening conn,
    protocolSubscriptions := match w.protocolSubscriptions.get conn with
      | some _ => w.protocolSubscriptions
      | none => w.protocolSubscriptions.set conn [] }

def handleClose : RealtimeFacade :=
  { w with
    hub := w.hub.disconnect conn,
    members := w.members.delete conn,
    protocolSubscriptions := w.protocolSubscriptions.delete conn,
    bound := ChannelHub.remove w.bound conn,
    left := w.left ++ [conn] }

def close : RealtimeFacade :=
  if conn ∈ w.closed then w
  else
    let w' : RealtimeFacade := { w with closed := w.closed ++ [conn] }
    if conn ∈ w.bound then w'.handleClose conn else w'

/-! ## Frames -/

def frame (action : Action) (channel : Option String) : RealtimeFacade :=
  if conn ∈ w.listening then w.begin_ ⟨.frame conn action, .queued channel⟩ else w

def handleClientSubscribe (channel : Option String) : Task :=
  if conn ∈ w.closed then .settled
  else
    match channel, w.members.get conn, w.protocolSubscriptions.get conn with
    | some channel, some member, some subscriptions =>
      if channel = "" ∨ (subscriptions.get channel).isSome then .settled else .join channel member conn .waiting
    | _, _, _ => .settled

def handleClientUnsubscribe (channel : Option String) : Task :=
  if conn ∈ w.closed then .settled
  else
    match channel, w.protocolSubscriptions.get conn with
    | some channel, some subscriptions =>
      match subscriptions.get channel with
      | some member => if channel = "" then .settled else .leave channel member conn .waiting
      | none => .settled
    | _, _ => .settled

def handleClientPublish (channel : Option String) : Task :=
  if conn ∈ w.closed then .settled
  else
    match channel, w.protocolSubscriptions.get conn with
    | some channel, some subscriptions =>
      if channel = "" ∨ subscriptions.get channel = none then .settled
      else .broadcast channel ⟨some conn, none⟩ .waiting
    | _, _ => .settled

def handle (channel : Option String) : Action → Task
  | .subscribe => w.handleClientSubscribe conn channel
  | .unsubscribe => w.handleClientUnsubscribe conn channel
  | .publish => w.handleClientPublish conn channel

/-- The queue of a connection: the frames before this one are done. -/
def first : Bool :=
  (w.calls.take i).all fun call =>
    match call.origin with
    | .room => true
    | .frame conn' _ => conn' ≠ conn || call.task = .settled

/-- The handler of a `subscribe` after its join. -/
def stepJoined (conn : ConnId) :
    RealtimeFacade :=
  if conn ∈ w.closed then w.go i ⟨origin, .leave channel member conn .waiting⟩
  else
    { w.settle i origin with
      protocolSubscriptions := match w.protocolSubscriptions.get conn with
        | none => w.protocolSubscriptions
        | some subscriptions => w.protocolSubscriptions.set conn (subscriptions.set channel member) }

/-! ## Going on -/

def advance : RealtimeFacade :=
  match w.calls[i]? with
  | some ⟨.frame conn action, .queued channel⟩ =>
    if w.first i conn then w.go i ⟨.frame conn action, w.handle conn channel action⟩ else w
  | some ⟨origin, .join channel member conn .waiting⟩ => w.stepJoin i origin channel member conn
  | some ⟨origin, .joined channel member conn⟩ => w.stepJoined i origin channel member conn
  | some ⟨origin, .leave channel member conn .waiting⟩ => w.stepLeave i origin channel member conn
  | some ⟨origin, .broadcast channel options .waiting⟩ => w.stepBroadcast i origin channel options
  | _ => w

/-- The authorizer answers; one that throws denies. -/
def answer (allowed : Bool) : RealtimeFacade :=
  match w.calls[i]? with
  | some ⟨origin, .join channel member conn (.authorizing rule)⟩ =>
    if allowed then
      let w' : RealtimeFacade := { w with answers := w.answers ++ [⟨rule, channel, member, .join⟩] }
      w'.joinHub i origin channel member conn (.answered rule)
    else w.settle i origin
  | some ⟨origin, .broadcast channel options (.authorizing rule sender)⟩ =>
    if allowed then
      let w' : RealtimeFacade := { w with answers := w.answers ++ [⟨rule, channel, sender, .broadcast⟩] }
      w'.go i ⟨origin, .broadcast channel options (.limiting (some sender) (.answered rule))⟩
    else w.settle i origin
  | _ => w

/-- The rate limiter answers. -/
def consumed (allowed : Bool) : RealtimeFacade :=
  match w.calls[i]? with
  | some ⟨origin, .broadcast channel options (.limiting sender grounds)⟩ =>
    if allowed then
      { w.go i ⟨origin, .broadcast channel options .publishing⟩ with
        hub := w.hub.publish channel options.exceptConnId options.exceptMemberId,
        deliveries := w.deliveries ++ [⟨channel, options.exceptConnId, sender, grounds⟩] }
    else w.settle i origin
  | _ => w

/-- The adapter has published, or failed to. -/
def published (done : Bool) : RealtimeFacade :=
  match w.calls[i]? with
  | some ⟨origin, .join channel member conn .publishing⟩ =>
    if done then w.go i ⟨origin, afterJoin origin channel member conn⟩ else w.settle i origin
  | some ⟨origin, .leave channel _ _ .publishing⟩ => if done then w.afterLeave i origin channel else w.settle i origin
  | some ⟨origin, .broadcast _ _ .publishing⟩ => w.settle i origin
  | _ => w

end RealtimeFacade

/-! ## Runs -/

inductive Event
  | initialized (done : Bool)
  | secure (name : String)
  | join (channel : String) (member : Member) (conn : ConnId)
  | leave (channel : String) (member : Member) (conn : ConnId)
  | broadcast (channel : String) (options : PublishOptions)
  | bind (conn : ConnId) (member : Option Member)
  | frame (conn : ConnId) (action : Action) (channel : Option String)
  | close (conn : ConnId)
  | advance (call : Nat)
  | answer (call : Nat) (allowed : Bool)
  | consumed (call : Nat) (allowed : Bool)
  | published (call : Nat) (done : Bool)
  | proceed
  deriving DecidableEq

/-- What an event does where the hub is between operations. -/
def perform (w : RealtimeFacade) : Event → RealtimeFacade
  | .initialized done => if w.ready = none then { w with ready := some done } else w
  | .secure name => w.secure name
  | .join channel member conn => w.room channel (.join channel member conn .waiting)
  | .leave channel member conn => w.room channel (.leave channel member conn .waiting)
  | .broadcast channel options => w.room channel (.broadcast channel options .waiting)
  | .bind conn member => w.bind conn member
  | .frame conn action channel => w.frame conn action channel
  | .close conn => w.close conn
  | .advance i => w.advance i
  | .answer i allowed => w.answer i allowed
  | .consumed i allowed => w.consumed i allowed
  | .published i done => w.published i done
  | .proceed => { w with hub := w.hub.proceed none }

/-- An operation of the hub runs to its end before anything else happens. -/
def step (w : RealtimeFacade) (event : Event) : RealtimeFacade :=
  if w.hub.stack ≠ [] ∧ event ≠ .proceed then w else perform w event

end StreetJS.Realtime
