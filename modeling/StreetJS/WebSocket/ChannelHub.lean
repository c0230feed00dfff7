/-
`ChannelHub`: named channels with members, their connections, typing indicators and presence events.
An operation runs to its end before the next one starts, but each `emit` to a connection may call
`disconnect` before it returns; the rest of an operation that is broadcasting is kept on a stack.
-/
import StreetJS.Lib.OrderedMap
import StreetJS.Lib.Runs

namespace StreetJS.WebSocket

open StreetJS.Lib

abbrev ConnId := String

/-- The state of one channel: the connections of each member, the connections it delivers to, and the
auto-clear timer of each typing member. -/
structure ChannelState where
  members : OrderedMap String (List ConnId)
  conns : List ConnId
  typing : OrderedMap String (Option Nat)
  deriving DecidableEq

def ChannelState.empty : ChannelState := ⟨[], [], []⟩

/-- What is left of an operation while its events are delivered. -/
inductive Frame
  /-- the loop of `broadcast`, with the connections still to visit -/
  | broadcast (channel : String) (todo : List ConnId)
  /-- the end of `removeConnFromChannel` -/
  | dropIfEmpty (channel : String)
  /-- the inner loop of `disconnect`, with the members still to visit -/
  | backed (conn : ConnId) (channel : String) (todo : List String)
  /-- the outer loop of `disconnect`, with the channels still to visit -/
  | disconnecting (conn : ConnId) (todo : List String)
  deriving DecidableEq

/-- A `PresenceJoin` (`joined`) or `PresenceLeave` event. -/
structure PresenceEvent where
  joined : Bool
  channel : String
  memberId : String
  deriving DecidableEq

/-- A hub. `presence` lists the presence events in the order they were broadcast and `gone` the connections
disconnected and not joined again; no operation reads them. -/
structure ChannelHub where
  typingTtlMs : Nat
  channels : OrderedMap String ChannelState
  connChannels : OrderedMap ConnId (List String)
  timers : List (Nat × String × String)
  nextTimer : Nat
  stack : List Frame
  presence : List PresenceEvent
  gone : List ConnId
  deriving DecidableEq

namespace ChannelHub

def new (typingTtlMs : Nat) : ChannelHub := ⟨typingTtlMs, [], [], [], 0, [], [], []⟩

/-! ## What a hub says -/

variable (h : ChannelHub)

/-- `getOrCreate`, without the write. -/
def stateOf (channel : String) : ChannelState := (h.channels.get channel).getD .empty

/-- The connections a channel delivers to. -/
def conns (channel : String) : List ConnId := (h.stateOf channel).conns

variable (channel memberId : String)

/-- The connections of a member in a channel. -/
def backers : List ConnId :=
  ((h.stateOf channel).members.get memberId).getD []

/-- The channels a connection is listed in. -/
def joined (conn : ConnId) : List String := (h.connChannels.get conn).getD []

/-! ## Sets in insertion order -/

/-- `Set.add`. -/
def add (xs : List String) (x : String) : List String := if x ∈ xs then xs else xs ++ [x]

/-- `Set.delete`. -/
def remove (xs : List String) (x : String) : List String := xs.filter fun y => y ≠ x

/-! ## Operations -/

/-- `broadcast` to the connections of a channel: the loop, to be run. -/
def broadcast (channel : String) (deliver : ConnId → Bool) : ChannelHub :=
  { h with stack := .broadcast channel ((h.conns channel).filter deliver) :: h.stack }

def join (conn : ConnId) : ChannelHub :=
  if channel = "" ∨ memberId = "" then h
  else
    let state := h.stateOf channel
    let newlyPresent := h.backers channel memberId = []
    let state' : ChannelState :=
      { state with conns := add state.conns conn,
                   members := state.members.set memberId (add (h.backers channel memberId) conn) }
    let h' : ChannelHub :=
      { h with channels := h.channels.set channel state',
               connChannels := h.connChannels.set conn (add (h.joined conn) channel),
               gone := remove h.gone conn }
    if newlyPresent then
      let h'' : ChannelHub := { h' with presence := h'.presence ++ [⟨true, channel, memberId⟩] }
      h''.broadcast channel fun c => c ≠ conn
    else h'

/-- `removeConnFromChannel`, up to the broadcast; the check for an empty channel is left on the stack. -/
def removeConnFromChannel (conn : ConnId) : ChannelHub :=
  match h.channels.get channel with
  | none => h
  | some state =>
    let state' : ChannelState := { state with conns := remove state.conns conn }
    let connChannels' :=
      match h.connChannels.get conn with
      | none => h.connChannels
      | some chans => h.connChannels.set conn (remove chans channel)
    if conn ∉ h.backers channel memberId then
      { h with channels := h.channels.set channel state', connChannels := connChannels' }
    else
      let left := remove (h.backers channel memberId) conn
      if left = [] then
        let timer := (state.typing.get memberId).join
        { h with
            channels := h.channels.set channel
              { state' with members := state.members.delete memberId, typing := state.typing.delete memberId },
            connChannels := connChannels',
            timers := h.timers.filter fun t => timer ≠ some t.1,
            presence := h.presence ++ [⟨false, channel, memberId⟩],
            stack := .broadcast channel state'.conns :: .dropIfEmpty channel :: h.stack }
      else
        { h with
            channels := h.channels.set channel { state' with members := state.members.set memberId left },
            connChannels := connChannels',
            stack := .dropIfEmpty channel :: h.stack }

def leave (conn : ConnId) : ChannelHub :=
  match h.channels.get channel with
  | none => h
  | some _ => h.removeConnFromChannel channel memberId conn

def disconnect (conn : ConnId) : ChannelHub :=
  let h' : ChannelHub := { h with gone := add h.gone conn }
  match h.connChannels.get conn with
  | none => h'
  | some chans => { h' with stack := .disconnecting conn chans :: h.stack }

/-- `publish`, leaving out a connection and the connections of a member. -/
def publish (channel : String) (exceptConnId : Option ConnId) (exceptMemberId : Option String) :
    ChannelHub :=
  match h.channels.get channel with
  | none => h
  | some _ =>
    h.broadcast channel fun c =>
      some c ≠ exceptConnId && (exceptMemberId.all fun memberId => c ∉ h.backers channel memberId)

def setTyping (typing : Bool) (conn : Option ConnId) : ChannelHub :=
  if channel = "" ∨ memberId = "" then h
  else
    let state := h.stateOf channel
    let existing := (state.typing.get memberId).join
    let timers := h.timers.filter fun t => existing ≠ some t.1
    let h' : ChannelHub :=
      if typing then
        if h.typingTtlMs > 0 then
          { h with channels := h.channels.set channel { state with typing := state.typing.set memberId (some h.nextTimer) },
                   timers := timers ++ [(h.nextTimer, channel, memberId)],
                   nextTimer := h.nextTimer + 1 }
        else
          { h with channels := h.channels.set channel { state with typing := state.typing.set memberId none },
                   timers := timers }
      else
        { h with channels := h.channels.set channel { state with typing := state.typing.delete memberId },
                 timers := timers }
    h'.broadcast channel fun c => some c ≠ conn

/-- The timer `id` goes off: `setTyping(ch, member, false)`. -/
def timeout (id : Nat) : ChannelHub :=
  match h.timers.find? fun t => t.1 = id with
  | none => h
  | some t =>
    let h' : ChannelHub := { h with timers := h.timers.filter fun t => t.1 ≠ id }
    h'.setTyping t.2.1 t.2.2 false none

/-- The next step of the operation under way. Delivering to a connection may call `disconnect` of `closing`
before it returns; a closed connection is skipped, and an error of `emit` is ignored. -/
def proceed (closing : Option ConnId) : ChannelHub :=
  match h.stack with
  | [] => h
  | .broadcast _ [] :: rest => { h with stack := rest }
  | .broadcast channel (c :: todo) :: rest =>
    let h' : ChannelHub := { h with stack := .broadcast channel todo :: rest }
    -- a connection deleted meanwhile is not visited
    if c ∉ h.conns channel then h'
    else
      match closing with
      | none => h'
      | some d => h'.disconnect d
  | .dropIfEmpty channel :: rest =>
    let h' : ChannelHub := { h with stack := rest }
    if (h.stateOf channel).conns = [] ∧ (h.stateOf channel).members = [] then
      { h' with channels := h.channels.delete channel }
    else h'
  | .backed _ _ [] :: rest => { h with stack := rest }
  | .backed c channel (memberId :: todo) :: rest =>
    let h' : ChannelHub := { h with stack := .backed c channel todo :: rest }
    if c ∈ h.backers channel memberId then h'.removeConnFromChannel channel memberId c else h'
  | .disconnecting c [] :: rest => { h with stack := rest, connChannels := h.connChannels.delete c }
  | .disconnecting c (channel :: todo) :: rest =>
    { h with stack := .backed c channel ((h.stateOf channel).members.map Prod.fst) :: .disconnecting c todo :: rest }

end ChannelHub

/-! ## Runs -/

inductive Event
  | join (channel memberId : String) (conn : ConnId)
  | leave (channel memberId : String) (conn : ConnId)
  | disconnect (conn : ConnId)
  | publish (channel : String) (exceptConnId : Option ConnId) (exceptMemberId : Option String)
  | setTyping (channel memberId : String) (typing : Bool) (conn : Option ConnId)
  | timeout (id : Nat)
  | proceed (closing : Option ConnId)

/-- An operation starts only when the one before it has ended. -/
def step (h : ChannelHub) : Event → ChannelHub
  | .proceed closing => h.proceed closing
  | e =>
    if h.stack ≠ [] then h
    else match e with
      | .join channel memberId conn => h.join channel memberId conn
      | .leave channel memberId conn => h.leave channel memberId conn
      | .disconnect conn => h.disconnect conn
      | .publish channel exceptConnId exceptMemberId => h.publish channel exceptConnId exceptMemberId
      | .setTyping channel memberId typing conn => h.setTyping channel memberId typing conn
      | .timeout id => h.timeout id
      | .proceed _ => h

end StreetJS.WebSocket
