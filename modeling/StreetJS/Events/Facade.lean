/-
The subscription registry and the facade: `publish` dispatches at once, `emit` on a queue, and `replay` delivers
stored events again. A dispatch delivers to its listeners one after another and waits for each. Whatever runs while
a listener or an error handler does is a step of its own; middleware, close and the counters are left out.
-/
import StreetJS.Events.Matcher
import StreetJS.Lib.StableSort
import StreetJS.Lib.OrderedMap
import StreetJS.Lib.Runs

namespace StreetJS.Events

open StreetJS.Lib

/-! ## Emitter -/

structure Subscription where
  key : String
  once : Bool
  active : Bool
  deriving DecidableEq

/-- A subscription is named by its `order`, its place among all that were made. -/
structure Emitter where
  subs : List Subscription
  exact : OrderedMap String (List Nat)
  wildcards : List Nat
  deriving DecidableEq

namespace Emitter

variable (m : Emitter)

def isActive (s : Nat) : Bool := m.subs[s]?.any Subscription.active

/-- The key of the subscription stands for the name. -/
def covers (name : String) (s : Nat) : Bool := m.subs[s]?.any fun sub => matchesPattern name sub.key

def add (key : String) (once : Bool) : Emitter :=
  let order := m.subs.length
  if isWildcard key then { m with subs := m.subs ++ [⟨key, once, true⟩], wildcards := m.wildcards ++ [order] }
  else
    { m with
      subs := m.subs ++ [⟨key, once, true⟩]
      exact := m.exact.set key ((m.exact.get key).getD [] ++ [order]) }

/-- Cancels a subscription. -/
def remove (s : Nat) : Emitter :=
  match m.subs[s]? with
  | none => m
  | some sub =>
    if sub.active = false then m
    else
      let m' := { m with subs := m.subs.set s { sub with active := false } }
      if isWildcard sub.key then { m' with wildcards := m.wildcards.erase s }
      else
        match m.exact.get sub.key with
        | none => m'
        | some set =>
          if set.erase s = [] then { m' with exact := m.exact.delete sub.key }
          else { m' with exact := m.exact.set sub.key (set.erase s) }

/-- The active subscriptions matching a name, in registration order. -/
def resolve (name : String) : List Nat :=
  sortOn id (((m.exact.get name).getD []).filter m.isActive ++ m.wildcards.filter fun s => m.isActive s && m.covers name s)

/-- Every active subscription. -/
def active : List Nat := (List.range m.subs.length).filter m.isActive

end Emitter

/-! ## Dispatches -/

/-- Where an envelope comes from: a call of `publish`, an emitted event by its place in the queue, or a replay. Calls
of `publish` and `emit` are numbered. -/
inductive Origin
  | published (call : Nat)
  | emitted (job call : Nat)
  | replayed (replay : Nat)
  deriving DecidableEq

inductive DispatchPhase
  /-- waits for `store.append` -/
  | persisting
  | opening
  /-- at the head of the loop, with the subscriptions that are left -/
  | delivering (rest : List Nat)
  /-- waits for a listener -/
  | listening (sub : Nat) (rest : List Nat)
  | done
  | rejected
  deriving DecidableEq

def DispatchPhase.isSettled : DispatchPhase → Bool
  | .done => true
  | .rejected => true
  | _ => false

/-- One dispatch, with what it resolved. -/
structure Dispatch where
  name : String
  seq : Nat
  origin : Origin
  snapshot : List Nat
  phase : DispatchPhase
  deriving DecidableEq

inductive ReplayPhase
  | reading
  /-- the names and numbers of the stored events that are left, and the dispatch it waits for -/
  | replaying (rest : List (String × Nat)) (current : Option Nat)
  | done
  | rejected
  deriving DecidableEq

structure Job where
  name : String
  call : Nat
  deriving DecidableEq

/-- What a listener does in the end. `serializeError` reads the error that is thrown, and may throw itself. -/
inductive Outcome
  | returned
  | threw (serializable : Bool)
  deriving DecidableEq

inductive Entry
  /-- the dispatch resolves, with the subscriptions that are active -/
  | opened (dispatch : Nat) (active : List Nat)
  /-- a subscription has its turn, and is invoked where it is active -/
  | turn (dispatch sub : Nat) (active : Bool)
  | settled (dispatch sub : Nat)
  deriving DecidableEq

/-- The facade, its async queue and the log of what the dispatches did. `jobs` are all that were emitted, and `begun`
of them are off the queue. -/
structure EventsFacade where
  emitter : Emitter
  store : Bool
  persist : Bool
  seq : Nat
  calls : Nat
  jobs : List Job
  begun : Nat
  emitting : Option Nat
  dispatches : List Dispatch
  replays : List ReplayPhase
  log : List Entry
  deriving DecidableEq

namespace EventsFacade

def new (store persist : Bool) : EventsFacade := ⟨⟨[], [], []⟩, store, persist, 0, 0, [], 0, none, [], [], []⟩

variable (w : EventsFacade)

/-- `dispatch`, up to its first await. -/
def dispatch (origin : Origin) (name : String) : EventsFacade :=
  { w with
    seq := w.seq + 1
    dispatches := w.dispatches ++ [⟨name, w.seq, origin, [], if w.store && w.persist then .persisting else .opening⟩] }

def publish (name : String) : EventsFacade :=
  { w.dispatch (.published w.calls) name with calls := w.calls + 1 }

def publishAsync (name : String) : EventsFacade :=
  { w with jobs := w.jobs ++ [⟨name, w.calls⟩], calls := w.calls + 1 }

def isSettled (d : Nat) : Bool := w.dispatches[d]?.any fun dispatch => dispatch.phase.isSettled

/-- The tail of the queue goes on to the next event once the dispatch before it has settled. -/
def begin : EventsFacade :=
  match w.jobs[w.begun]? with
  | none => w
  | some job =>
    if w.emitting.all w.isSettled then
      { w.dispatch (.emitted w.begun job.call) job.name with
        begun := w.begun + 1
        emitting := some w.dispatches.length }
    else w

def setDispatch (d : Nat) (dispatch : Dispatch) : EventsFacade :=
  { w with dispatches := w.dispatches.set d dispatch }

def write (entry : Entry) : EventsFacade := { w with log := w.log ++ [entry] }

/-- A subscription's turn. A one-shot subscription is removed before it is invoked. -/
def turn (d : Nat) (dispatch : Dispatch) (s : Nat) (rest : List Nat) : EventsFacade :=
  if w.emitter.isActive s then
    let emitter := if w.emitter.subs[s]?.any Subscription.once then w.emitter.remove s else w.emitter
    { w.setDispatch d { dispatch with phase := .listening s rest } with
      emitter := emitter
      log := w.log ++ [.turn d s true] }
  else
    (w.setDispatch d { dispatch with phase := .delivering rest }).write (.turn d s false)

/-- `deliverEnvelope` goes on to its next await. -/
def goOn (d : Nat) (dispatch : Dispatch) : EventsFacade :=
  match dispatch.phase with
  | .opening =>
    let subs := w.emitter.resolve dispatch.name
    (w.setDispatch d { dispatch with snapshot := subs, phase := .delivering subs }).write (.opened d w.emitter.active)
  | .delivering [] => w.setDispatch d { dispatch with phase := .done }
  | .delivering (s :: rest) => w.turn d dispatch s rest
  | _ => w

/-- A listener settles. The catch block serializes the error before it reports it. -/
def settle (d : Nat) (dispatch : Dispatch) (outcome : Outcome) : EventsFacade :=
  match dispatch.phase with
  | .listening s rest =>
    match outcome with
    | .threw false => (w.setDispatch d { dispatch with phase := .rejected }).write (.settled d s)
    | _ => (w.setDispatch d { dispatch with phase := .delivering rest }).write (.settled d s)
  | _ => w

/-- `store.append` settles; an error is reported and delivery goes on. -/
def stored (d : Nat) (dispatch : Dispatch) : EventsFacade :=
  match dispatch.phase with
  | .persisting => w.setDispatch d { dispatch with phase := .opening }
  | _ => w

/-- `replay`, up to `store.read`. -/
def replay : EventsFacade :=
  if w.store then { w with replays := w.replays ++ [.reading] } else w

/-- The loop of `replay`. Its dispatches are not persisted and take no new number. -/
def replayOn (r : Nat) : ReplayPhase → EventsFacade
  | .replaying rest current =>
    if current.any fun d => w.dispatches[d]?.any fun dispatch => dispatch.phase = .rejected then
      { w with replays := w.replays.set r .rejected }
    else if current.all w.isSettled then
      match rest with
      | [] => { w with replays := w.replays.set r .done }
      | (name, seq) :: rest =>
        { w with
          dispatches := w.dispatches ++ [⟨name, seq, .replayed r, [], .opening⟩]
          replays := w.replays.set r (.replaying rest (some w.dispatches.length)) }
    else w
  | _ => w

end EventsFacade

/-! ## Runs -/

inductive Event
  | subscribe (key : String) (once : Bool)
  | unsubscribe (s : Nat)
  | publish (name : String)
  | emit (name : String)
  | begin
  | stored (d : Nat)
  | goOn (d : Nat)
  | settle (d : Nat) (outcome : Outcome)
  | replay
  | read (r : Nat) (envelopes : List (String × Nat))
  | replayOn (r : Nat)
  deriving DecidableEq

def stepFacade (w : EventsFacade) : Event → EventsFacade
  | .subscribe key once => { w with emitter := w.emitter.add key once }
  | .unsubscribe s => { w with emitter := w.emitter.remove s }
  | .publish name => w.publish name
  | .emit name => w.publishAsync name
  | .begin => w.begin
  | .stored d =>
    match w.dispatches[d]? with
    | some dispatch => w.stored d dispatch
    | none => w
  | .goOn d =>
    match w.dispatches[d]? with
    | some dispatch => w.goOn d dispatch
    | none => w
  | .settle d outcome =>
    match w.dispatches[d]? with
    | some dispatch => w.settle d dispatch outcome
    | none => w
  | .replay => w.replay
  | .read r envelopes =>
    match w.replays[r]? with
    | some .reading => { w with replays := w.replays.set r (.replaying envelopes none) }
    | _ => w
  | .replayOn r =>
    match w.replays[r]? with
    | some phase => w.replayOn r phase
    | none => w

end StreetJS.Events
