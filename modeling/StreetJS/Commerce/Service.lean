/-
Calls of `CommerceService` (`commerce/src/index.ts`) await by await: checkouts, cancellations and restocks over one store,
one gateway and the carts of the process. Any store or gateway call may fail, and then has no effect.
-/
import StreetJS.Commerce.Store
import StreetJS.Lib.ListSet
import StreetJS.Lib.Runs
import Mathlib.Data.List.Sort

namespace StreetJS.Commerce

open StreetJS.Lib

/-! ## Calls -/

structure Cart where
  lines : List OrderLine
  subtotalCents : Nat
  currency : String

/-- The next await of a checkout. -/
inductive CheckoutPhase where
  /-- The product of the next entry of the cart. -/
  | reading (todo : List (String × Nat)) (lines : List OrderLine) (currency : String)
  | reserving (cart : Cart) (done todo : List OrderLine)
  /-- The release of what was reserved, where the stock of a line is insufficient. -/
  | compensating (todo : List OrderLine)
  | availability
  | applying (cart : Cart) (code : String)
  | charging (cart : Cart) (discountCents : Rat) (couponCode : Option String)
  /-- The commits, and behind them the insertion of the order. -/
  | committing (order : Order) (done todo : List OrderLine)
  /-- The release behind an error. -/
  | releasing (todo : List OrderLine)
  | settled

structure CheckoutCall where
  cartId : String
  couponCode : Option String
  phase : CheckoutPhase
  /-- What it has reserved and neither committed nor released. -/
  held : List OrderLine := []

/-- The next await of a cancellation. -/
inductive CancelPhase where
  | reading
  | refunding (order : Order)
  /-- The restocks, and behind them the update of the order. -/
  | restocking (order : Order) (done todo : List OrderLine)
  /-- Failed behind the refund. -/
  | aborted (order : Order)
  | settled

inductive RestockPhase where
  | requiring
  | restocking
  | reading
  | settled

inductive Call where
  | checkout (call : CheckoutCall)
  | cancel (id : String) (phase : CancelPhase)
  | restock (productId : String) (quantity : Nat) (phase : RestockPhase)

/-! ## The service -/

/-- A charge that has succeeded; its place in the ledger is the id of the payment. -/
structure Charge where
  cartId : String
  amountCents : Rat
  currency : String
  reference : String

structure CommerceService where
  store : CommerceStore
  carts : OrderedMap String (OrderedMap String Nat) := []
  charges : List Charge := []
  /-- The payments that were refunded. -/
  refunds : List Nat := []
  calls : List Call := []
  /-- What `restock` has added. -/
  restocked : List (String × Nat) := []

inductive ServiceEvent where
  | checkout (cartId : String) (couponCode : Option String)
  | cancelOrder (id : String)
  | restock (productId : String) (quantity : Nat)
  /-- The store or gateway call that call `i` awaits; `newId` is what `idGen` gives. -/
  | proceed (i : Nat) (ok : Bool) (newId : String)

/-- A cart is sorted by product once it is read. -/
def Cart.ofLines (lines : List OrderLine) (currency : String) : Cart where
  lines := lines.insertionSort fun a b => a.productId ≤ b.productId
  subtotalCents := (lines.map fun l => l.unitPriceCents * l.quantity).sum
  currency := currency

/-- The next product, or the first reservation; an empty cart is no checkout. -/
def CheckoutPhase.read (todo : List (String × Nat)) (lines : List OrderLine) (currency : String) : CheckoutPhase :=
  if todo ≠ [] then .reading todo lines currency
  else if lines = [] then .settled
  else .reserving (Cart.ofLines lines currency) [] (Cart.ofLines lines currency).lines

/-- The next reservation, or what follows the last. -/
def CheckoutPhase.reserve (couponCode : Option String) (cart : Cart) (done todo : List OrderLine) : CheckoutPhase :=
  if todo ≠ [] then .reserving cart done todo
  else match couponCode.filter (· ≠ "") with
    | some code => .applying cart code.toUpper
    | none => .charging cart 0 none

def CheckoutPhase.compensate (todo : List OrderLine) : CheckoutPhase := if todo ≠ [] then .compensating todo else .availability

def CheckoutPhase.release (todo : List OrderLine) : CheckoutPhase := if todo ≠ [] then .releasing todo else .settled

def Cart.order (cart : Cart) (id : String) (discountCents : Rat) (couponCode : Option String) (paymentId : Nat) : Order where
  id := id
  lines := cart.lines
  currency := cart.currency
  subtotalCents := cart.subtotalCents
  discountCents := discountCents
  totalCents := cart.subtotalCents - discountCents
  couponCode := couponCode
  paymentId := paymentId
  status := .paid

namespace CommerceService

variable (w : CommerceService)

def setCall (i : Nat) (c : Call) : CommerceService := { w with calls := w.calls.set i c }

/-- The checkout goes on at `phase`, with what it holds then. -/
def setCheckout (i : Nat) (c : CheckoutCall) (phase : CheckoutPhase) (held : List OrderLine) : CommerceService :=
  w.setCall i (.checkout { c with phase, held })

def withStore (store : CommerceStore) : CommerceService := { w with store }

def charged (charge : Charge) : CommerceService := { w with charges := w.charges ++ [charge] }

def refunded (paymentId : Nat) : CommerceService := { w with refunds := w.refunds ++ [paymentId] }

def clearCart (cartId : String) : CommerceService := { w with carts := w.carts.delete cartId }

def restockedBy (productId : String) (quantity : Nat) : CommerceService :=
  { w with restocked := w.restocked ++ [(productId, quantity)] }

def proceedCheckout (i : Nat) (c : CheckoutCall) (ok : Bool) (newId : String) : CommerceService :=
  match c.phase, ok with
  | .reading ((productId, quantity) :: todo) lines currency, true =>
    match w.store.products.get productId with
    | some p => w.setCheckout i c (.read todo (lines ++ [⟨productId, quantity, p.priceCents⟩]) p.currency) c.held
    | none => w.setCheckout i c (.read todo lines currency) c.held
  | .reserving cart done (line :: todo), true =>
    match w.store.reserveStock line.productId line.quantity with
    | (store, true) =>
      (w.withStore store).setCheckout i c (.reserve c.couponCode cart (done ++ [line]) todo) (c.held ++ [line])
    | (_, false) => w.setCheckout i c (.compensate done) c.held
  | .compensating (line :: todo), true =>
    (w.withStore (w.store.releaseStock line.productId line.quantity)).setCheckout i c (.compensate todo) (c.held.erase line)
  | .applying cart code, true =>
    match w.store.applyCoupon cart.subtotalCents code with
    | some discountCents => w.setCheckout i c (.charging cart discountCents (some code)) c.held
    | none => w.setCheckout i c (.release cart.lines) c.held
  | .applying cart _, false => w.setCheckout i c (.release cart.lines) c.held
  | .charging cart discountCents couponCode, true =>
    let order := cart.order newId discountCents couponCode w.charges.length
    (w.charged ⟨c.cartId, order.totalCents, cart.currency, newId⟩).setCheckout i c (.committing order [] order.lines) c.held
  | .charging cart _ _, false => w.setCheckout i c (.release cart.lines) c.held
  | .committing order done (line :: todo), true =>
    (w.withStore (w.store.commitStock line.productId line.quantity)).setCheckout i c
      (.committing order (done ++ [line]) todo) (c.held.erase line)
  | .committing order _ [], true =>
    match w.store.insertOrder order with
    | some store => ((w.withStore store).clearCart c.cartId).setCheckout i c .settled c.held
    | none => w.setCheckout i c (.release order.lines) c.held
  -- the lines that were committed are released as well
  | .committing order _ _, false => w.setCheckout i c (.release order.lines) c.held
  | .releasing (line :: todo), true =>
    (w.withStore (w.store.releaseStock line.productId line.quantity)).setCheckout i c (.release todo) (c.held.erase line)
  -- a call outside of the `try`, or within the `catch`
  | _, _ => w.setCheckout i c .settled c.held

def proceedCancel (i : Nat) (id : String) (phase : CancelPhase) (ok : Bool) : CommerceService :=
  match phase, ok with
  | .reading, true =>
    match w.store.orders.get id with
    | some order => w.setCall i (.cancel id (if order.status = .cancelled then .settled else .refunding order))
    | none => w.setCall i (.cancel id .settled)
  | .refunding order, true =>
    (w.refunded order.paymentId).setCall i (.cancel id (.restocking order [] order.lines))
  | .restocking order done (line :: todo), true =>
    match w.store.restock line.productId line.quantity with
    | some store => (w.withStore store).setCall i (.cancel id (.restocking order (done ++ [line]) todo))
    | none => w.setCall i (.cancel id (.aborted order))
  | .restocking order _ [], true =>
    (w.withStore (w.store.updateOrder { order with status := .cancelled })).setCall i (.cancel id .settled)
  | .restocking order _ _, false => w.setCall i (.cancel id (.aborted order))
  | .aborted _, _ => w
  | _, _ => w.setCall i (.cancel id .settled)

def proceedRestock (i : Nat) (productId : String) (quantity : Nat) (phase : RestockPhase) (ok : Bool) : CommerceService :=
  match phase, ok with
  | .requiring, true =>
    w.setCall i (.restock productId quantity (if w.store.products.has productId ∧ 0 < quantity then .restocking else .settled))
  | .restocking, true =>
    match w.store.restock productId quantity with
    | some store => ((w.withStore store).restockedBy productId quantity).setCall i (.restock productId quantity .reading)
    | none => w.setCall i (.restock productId quantity .settled)
  | _, _ => w.setCall i (.restock productId quantity .settled)

def step (w : CommerceService) : ServiceEvent → CommerceService
  | .checkout cartId couponCode =>
    let phase := if cartId = "" then .settled else .read ((w.carts.get cartId).getD []) [] ""
    { w with calls := w.calls ++ [.checkout { cartId, couponCode, phase }] }
  | .cancelOrder id => { w with calls := w.calls ++ [.cancel id (if id = "" then .settled else .reading)] }
  | .restock productId quantity =>
    { w with calls := w.calls ++ [.restock productId quantity (if productId = "" then .settled else .requiring)] }
  | .proceed i ok newId =>
    match w.calls[i]? with
    | some (.checkout c) => w.proceedCheckout i c ok newId
    | some (.cancel id phase) => w.proceedCancel i id phase ok
    | some (.restock productId quantity phase) => w.proceedRestock i productId quantity phase ok
    | none => w

end CommerceService

end StreetJS.Commerce
