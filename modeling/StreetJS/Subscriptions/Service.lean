/-
`SubscriptionService`: plans, subscriptions, recurring charges and seats. Every operation loads a copy of the
subscription, works on it across its awaits and writes the whole record back. Ids are numbers that the service
gives out, times are milliseconds.
-/
import StreetJS.Lib.Calendar
import StreetJS.Lib.OrderedMap
import StreetJS.Lib.Runs

namespace StreetJS.Subscriptions

open StreetJS.Lib

inductive BillingInterval
  | month
  | year
  deriving DecidableEq

inductive SubscriptionStatus
  | trialing
  | active
  | pastDue
  | canceled
  deriving DecidableEq

/-- `seats: none` means unlimited seats. -/
structure Plan where
  id : Nat
  priceCents : Nat
  currency : String
  interval : BillingInterval
  seats : Option Nat
  trialDays : Nat
  active : Bool
  deriving DecidableEq

structure Subscription where
  id : Nat
  planId : Nat
  customerId : String
  status : SubscriptionStatus
  seats : Option Nat
  usedSeats : Nat
  currentPeriodStart : Int
  currentPeriodEnd : Int
  cancelAtPeriodEnd : Bool
  lastPaymentId : Option Nat
  createdAt : Int
  canceledAt : Option Int
  deriving DecidableEq

def dayMs : Int := 24 * 60 * 60 * 1000

def months : BillingInterval → Int
  | .month => 1
  | .year => 12

/-- `addInterval`: the same day and time of the next month or year, counted on from the first of that month. -/
def addInterval (epochMs : Int) (interval : BillingInterval) : Int :=
  let day := epochMs / dayMs + Calendar.yearStart 1970
  let month := Calendar.monthOf day
  let day' := Calendar.firstOfMonth (month + months interval) + (day - Calendar.firstOfMonth month)
  (day' - Calendar.yearStart 1970) * dayMs + epochMs % dayMs

inductive SubscriptionError
  | notFound (id : Nat)
  | isCanceled (id : Nat)
  | planNotFound (id : Nat)
  | planNotActive (id : Nat)
  | invalidSeats
  | noSeats (id : Nat) (status : SubscriptionStatus)
  | seatLimit (id seats : Nat)
  | declined
  | gateway
  deriving DecidableEq

/-- What the gateway makes of a charge: a payment, a `PaymentError`, or another error. -/
inductive GatewayAnswer
  | charged
  | declined
  | failed
  deriving DecidableEq

/-- A payment that the gateway took, for the period that starts at `period`, asked for at `askedAt`. -/
structure Charge where
  reference : Nat
  amountCents : Nat
  currency : String
  period : Int
  askedAt : Int
  deriving DecidableEq

inductive Operation
  | subscribe (planId : Nat) (customerId : String) (seats : Option (Option Nat))
  | renew (id : Nat)
  | cancel (id : Nat) (immediately : Bool)
  | changePlan (id newPlanId : Nat)
  | assignSeat (id : Nat)
  | releaseSeat (id : Nat)
  deriving DecidableEq

/-- What a call waits for. -/
inductive Phase
  /-- The subscription, of which it has a copy. -/
  | loading (sub : Option Subscription)
  /-- The plan, in `subscribe` -/
  | subscribing (plan : Option Plan)
  /-- The plan, in `renew` and `changePlan` -/
  | planning (sub : Subscription) (plan : Option Plan)
  /-- The gateway, in `subscribe` -/
  | charging (plan : Plan) (seats : Option Nat) (id : Nat) (start : Int)
  /-- The gateway, in `renew` -/
  | renewing (sub : Subscription) (plan : Plan) (askedAt : Int)
  /-- The answer of the gateway, on its way to the call -/
  | charged (plan : Plan) (seats : Option Nat) (id : Nat) (start : Int) (answer : Except SubscriptionError Nat)
  | renewed (sub : Subscription) (plan : Plan) (answer : Except SubscriptionError Nat)
  /-- The store, which has taken the record up. -/
  | writing (sub : Subscription)
  | done (result : Except SubscriptionError Subscription)
  deriving DecidableEq

structure Call where
  operation : Operation
  phase : Phase
  deriving DecidableEq

inductive SeatChange
  | assigned
  | released
  deriving DecidableEq

/-- The store, the clock, the gateway's payments and the calls. `everCanceled`, `cancellations` and `seatChanges`
record what was written; no operation reads them. -/
structure World where
  plans : OrderedMap Nat Plan
  subs : OrderedMap Nat Subscription
  now : Int
  nextId : Nat
  charges : List Charge
  calls : List Call
  everCanceled : List Nat
  cancellations : List (Nat × Bool)
  seatChanges : List (Nat × SeatChange)
  deriving DecidableEq

namespace World

variable (w : World)

variable (i : Nat)

variable (c : Call)

def setCall (phase : Phase) : World :=
  { w with calls := w.calls.set i { c with phase := phase } }

def finish (result : Except SubscriptionError Subscription) : World :=
  w.setCall i c (.done result)

variable (sub : Subscription)

/-- `insertSubscription` and `updateSubscription`. -/
def store : World :=
  { w with
    subs := w.subs.set sub.id sub
    everCanceled := if sub.status = .canceled then w.everCanceled ++ [sub.id] else w.everCanceled }

/-- The record is written and the call waits for the store. -/
def write : World := (w.store sub).setCall i c (.writing sub)

def load (id : Nat) : Phase := .loading (w.subs.get id)

/-! ## The operations, from one await to the next -/

/-- The first part of an operation, up to its first await. -/
def start (operation : Operation) : World :=
  let phase := match operation with
    | .subscribe planId _ _ => .subscribing (w.plans.get planId)
    | .renew id => w.load id
    | .cancel id _ => w.load id
    | .changePlan id _ => w.load id
    | .assignSeat id => w.load id
    | .releaseSeat id => w.load id
  { w with calls := w.calls ++ [⟨operation, phase⟩] }

/-- The seat allowance of `subscribe`: the caller's, or the plan's. -/
def allowance (plan : Plan) (seats : Option (Option Nat)) : Option Nat := seats.getD plan.seats

/-- `subscribe` with its plan. A trial defers the first charge. -/
def subscribeTo (planId : Nat) (customerId : String) (seats : Option (Option Nat)) : Option Plan → World
  | none => w.finish i c (.error (.planNotFound planId))
  | some plan =>
    if plan.active = false then w.finish i c (.error (.planNotActive plan.id))
    else if allowance plan seats = some 0 then w.finish i c (.error .invalidSeats)
    else
      let w' := { w with nextId := w.nextId + 1 }
      if 0 < plan.trialDays then
        w'.write i c ⟨w.nextId, plan.id, customerId, .trialing, allowance plan seats, 0, w.now,
          w.now + plan.trialDays * dayMs, false, none, w.now, none⟩
      else w'.setCall i c (.charging plan (allowance plan seats) w.nextId w.now)

/-- `subscribe` after its charge. -/
def subscribed (plan : Plan) (customerId : String) (seats : Option Nat) (id : Nat) (start : Int) : Except SubscriptionError Nat → World
  | .error e => w.finish i c (.error e)
  | .ok paymentId =>
    w.write i c ⟨id, plan.id, customerId, .active, seats, 0, start, addInterval start plan.interval, false, some paymentId, start, none⟩

/-- `renew` with its subscription and plan. -/
def renewWith : Option Plan → World
  | none => w.finish i c (.error (.planNotFound sub.planId))
  | some plan =>
    if sub.cancelAtPeriodEnd then w.write i c { sub with status := .canceled, canceledAt := some w.now }
    else w.setCall i c (.renewing sub plan w.now)

/-- `renew` after its charge: a declined one is a `PaymentError`, which is caught. -/
def renewed (plan : Plan) : Except SubscriptionError Nat → World
  | .ok paymentId =>
    w.write i c { sub with
      lastPaymentId := some paymentId
      currentPeriodStart := sub.currentPeriodEnd
      currentPeriodEnd := addInterval sub.currentPeriodEnd plan.interval
      status := .active }
  | .error .declined => w.write i c { sub with status := .pastDue }
  | .error e => w.finish i c (.error e)

/-- `cancel` with its subscription. -/
def cancelWith (immediately : Bool) : World :=
  if sub.status = .canceled then w.finish i c (.ok sub)
  else
    let sub' := if immediately then { sub with status := .canceled, canceledAt := some w.now }
      else { sub with cancelAtPeriodEnd := true }
    { w.write i c sub' with cancellations := w.cancellations ++ [(sub.id, immediately)] }

/-- `changePlan` with its subscription and the new plan. -/
def changeTo (newPlanId : Nat) : Option Plan → World
  | none => w.finish i c (.error (.planNotFound newPlanId))
  | some plan =>
    if plan.active = false then w.finish i c (.error (.planNotActive plan.id))
    else
      match plan.seats with
      | some n =>
        if n < sub.usedSeats then w.finish i c (.error (.seatLimit sub.id n))
        else w.write i c { sub with planId := plan.id, seats := plan.seats }
      | none => w.write i c { sub with planId := plan.id, seats := plan.seats }

/-- `assignSeat` with its subscription. -/
def assignWith : World :=
  if sub.status = .canceled ∨ sub.status = .pastDue then w.finish i c (.error (.noSeats sub.id sub.status))
  else
    match sub.seats with
    | some n =>
      if n ≤ sub.usedSeats then w.finish i c (.error (.seatLimit sub.id n))
      else
        { w.write i c { sub with usedSeats := sub.usedSeats + 1 } with
          seatChanges := w.seatChanges ++ [(sub.id, .assigned)] }
    | none =>
      { w.write i c { sub with usedSeats := sub.usedSeats + 1 } with
        seatChanges := w.seatChanges ++ [(sub.id, .assigned)] }

/-- `releaseSeat` with its subscription, floored at 0: where no seat is assigned none is released. -/
def releaseWith : World :=
  { w.write i c { sub with usedSeats := sub.usedSeats - 1 } with
    seatChanges := if 0 < sub.usedSeats then w.seatChanges ++ [(sub.id, .released)] else w.seatChanges }

/-- The part of an operation that follows `requireSubscription`. -/
def loaded : World :=
  match c.operation with
  | .subscribe _ _ _ => w
  | .renew _ =>
    if sub.status = .canceled then w.finish i c (.error (.isCanceled sub.id))
    else w.setCall i c (.planning sub (w.plans.get sub.planId))
  | .cancel _ immediately => w.cancelWith i c sub immediately
  | .changePlan _ newPlanId =>
    if sub.status = .canceled then w.finish i c (.error (.isCanceled sub.id))
    else w.setCall i c (.planning sub (w.plans.get newPlanId))
  | .assignSeat _ => w.assignWith i c sub
  | .releaseSeat _ => w.releaseWith i c sub

/-- The id that an operation names. -/
def target : Operation → Nat
  | .subscribe planId _ _ => planId
  | .renew id => id
  | .cancel id _ => id
  | .changePlan id _ => id
  | .assignSeat id => id
  | .releaseSeat id => id

/-- A call goes on from what it waited for to its next await. A call that waits for the gateway stays. -/
def proceed : World :=
  match c.phase with
  | .loading none => w.finish i c (.error (.notFound (target c.operation)))
  | .loading (some sub) => w.loaded i c sub
  | .subscribing plan =>
    match c.operation with
    | .subscribe planId customerId seats => w.subscribeTo i c planId customerId seats plan
    | _ => w
  | .planning sub plan =>
    match c.operation with
    | .renew _ => w.renewWith i c sub plan
    | .changePlan _ newPlanId => w.changeTo i c sub newPlanId plan
    | _ => w
  | .charging _ _ _ _ => w
  | .renewing _ _ _ => w
  | .charged plan seats id start answer =>
    match c.operation with
    | .subscribe _ customerId _ => w.subscribed i c plan customerId seats id start answer
    | _ => w
  | .renewed sub plan answer => w.renewed i c sub plan answer
  | .writing sub => w.finish i c (.ok sub)
  | .done _ => w

/-- The gateway's answer; a payment gets the next payment id. -/
def answered : GatewayAnswer → Except SubscriptionError Nat
  | .charged => .ok w.charges.length
  | .declined => .error .declined
  | .failed => .error .gateway

/-- The gateway deals with the charge that a call waits for. -/
def charge (answer : GatewayAnswer) : World :=
  match c.phase with
  | .charging plan seats id start =>
    let w' := w.setCall i c (.charged plan seats id start (w.answered answer))
    match answer with
    | .charged => { w' with charges := w.charges ++ [⟨id, plan.priceCents, plan.currency, start, start⟩] }
    | _ => w'
  | .renewing sub plan askedAt =>
    let w' := w.setCall i c (.renewed sub plan (w.answered answer))
    match answer with
    | .charged =>
      { w' with charges := w.charges ++ [⟨sub.id, plan.priceCents, plan.currency, sub.currentPeriodEnd, askedAt⟩] }
    | _ => w'
  | _ => w

end World

/-! ## Runs -/

inductive Event
  /-- `createPlan`, or another write of a plan -/
  | setPlan (plan : Plan)
  | clock (now : Int)
  | start (operation : Operation)
  | proceed (i : Nat)
  | charge (i : Nat) (answer : GatewayAnswer)
  deriving DecidableEq

def step (w : World) : Event → World
  | .setPlan plan => { w with plans := w.plans.set plan.id plan }
  | .clock now => { w with now := now }
  | .start operation => w.start operation
  | .proceed i =>
    match w.calls[i]? with
    | some c => w.proceed i c
    | none => w
  | .charge i answer =>
    match w.calls[i]? with
    | some c => w.charge i c answer
    | none => w

def initial : World := ⟨[], [], 0, 0, [], [], [], [], []⟩

end StreetJS.Subscriptions
