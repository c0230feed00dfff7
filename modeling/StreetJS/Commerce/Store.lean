/-
The state of the commerce module behind its store (`commerce/src/types.ts`, `store.ts`, `pg.ts`): products, stock,
coupons and orders, in memory or in Postgres. A store call is one step; where it throws there is no new state.
-/
import StreetJS.Lib.OrderedMap
import Mathlib.Data.Rat.Floor

namespace StreetJS.Commerce

open StreetJS.Lib

/-! ## Types -/

structure Product where
  priceCents : Nat
  currency : String

structure OrderLine where
  productId : String
  quantity : Nat
  unitPriceCents : Nat
deriving DecidableEq

inductive OrderStatus where
  | paid
  | cancelled
deriving DecidableEq

/-- Amounts behind a coupon need not be whole. -/
structure Order where
  id : String
  lines : List OrderLine
  currency : String
  subtotalCents : Nat
  discountCents : Rat
  totalCents : Rat
  couponCode : Option String
  paymentId : Nat
  status : OrderStatus

inductive CouponKind where
  | percent
  | fixed

structure Coupon where
  kind : CouponKind
  value : Rat
  active : Bool
  minSubtotalCents : Rat

structure StockLevel where
  onHand : Int := 0
  reserved : Int := 0

/-! ## The store -/

/-- `InMemoryCommerceStore` or `PgCommerceStore` -/
inductive StoreKind where
  | memory
  | pg

structure CommerceStore where
  kind : StoreKind
  products : OrderedMap String Product := []
  stock : OrderedMap String StockLevel := []
  coupons : OrderedMap String Coupon := []
  orders : OrderedMap String Order := []

namespace CommerceStore

variable (s : CommerceStore)

variable (productId : String)

def getStock : StockLevel := (s.stock.get productId).getD {}

def setStock (level : StockLevel) : CommerceStore :=
  { s with stock := s.stock.set productId level }

/-- Of a product without a row, the in-memory store throws and Postgres updates nothing. -/
def restock (quantity : Nat) : Option CommerceStore :=
  match s.stock.get productId, s.kind with
  | some level, _ => some (s.setStock productId { level with onHand := level.onHand + quantity })
  | none, .memory => none
  | none, .pg => some s

/-- Whether the stock was there, in one step. -/
def reserveStock (quantity : Nat) : CommerceStore × Bool :=
  match s.stock.get productId with
  | some level =>
    if level.onHand - level.reserved < quantity then (s, false)
    else (s.setStock productId { level with reserved := level.reserved + quantity }, true)
  | none => (s, false)

def releaseStock (quantity : Nat) : CommerceStore :=
  match s.stock.get productId with
  | some level => s.setStock productId { level with reserved := max 0 (level.reserved - quantity) }
  | none => s

def commitStock (quantity : Nat) : CommerceStore :=
  match s.stock.get productId with
  | some level =>
    s.setStock productId { onHand := max 0 (level.onHand - quantity), reserved := max 0 (level.reserved - quantity) }
  | none => s

/-- The id is the primary key in Postgres. -/
def insertOrder (order : Order) : Option CommerceStore :=
  match s.kind with
  | .memory => some { s with orders := s.orders.set order.id order }
  | .pg => if s.orders.has order.id then none else some { s with orders := s.orders.set order.id order }

def updateOrder (order : Order) : CommerceStore :=
  match s.kind, s.orders.get order.id with
  | .memory, _ => { s with orders := s.orders.set order.id order }
  | .pg, some row => { s with orders := s.orders.set order.id { row with status := order.status } }
  | .pg, none => s

/-- The discount, where the coupon is valid. -/
def applyCoupon (subtotalCents : Nat) (code : String) : Option Rat := do
  let coupon ← s.coupons.get code
  if coupon.active = false ∨ (subtotalCents : Rat) < coupon.minSubtotalCents then none
  else match coupon.kind with
    | .percent => some ⌊(subtotalCents : Rat) * coupon.value / 100⌋
    | .fixed => some (min coupon.value subtotalCents)

end CommerceStore

end StreetJS.Commerce
