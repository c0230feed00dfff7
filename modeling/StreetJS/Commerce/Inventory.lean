/-
Units of stock over whole runs of checkouts, cancellations and restocks: what is reserved is what the checkouts
hold, and what is on hand and in orders is what was restocked, but for units on their way from one to the other.
-/
import StreetJS.Commerce.Service
import Mathlib.Algebra.Order.BigOperators.Group.List

namespace StreetJS.Commerce

open StreetJS.Lib List OrderedMap

/-! ## Units -/

def units (productId : String) (lines : List OrderLine) : Int :=
  (lines.map fun l => if l.productId = productId then (l.quantity : Int) else 0).sum

/-- What a checkout has reserved and neither committed nor released. -/
def Call.held : Call → List OrderLine
  | .checkout c => c.held
  | _ => []

/-- The units that a call has taken out of stock and not put into an order, less those that it has put back into
stock while the order still has them. -/
def Call.moving (productId : String) : Call → Int
  | .checkout { phase := .committing _ done _, .. } => units productId done
  | .cancel _ (.restocking _ done _) => - units productId done
  | _ => 0

/-- The units of an order that is not cancelled. -/
def Order.units (productId : String) (order : Order) : Int :=
  if order.status = .cancelled then 0 else Commerce.units productId order.lines

namespace CommerceService

variable (w : CommerceService) (productId : String)

def onHand : Int := (w.store.getStock productId).onHand

def reserved : Int := (w.store.getStock productId).reserved

def heldUnits : Int := (w.calls.map fun c => units productId c.held).sum

def movingUnits : Int := (w.calls.map (Call.moving productId)).sum

def orderedUnits : Int := (w.store.orders.map fun e => e.2.units productId).sum

def restockedUnits : Int := (w.restocked.map fun r => if r.1 = productId then (r.2 : Int) else 0).sum

/-! ## The property and its condition -/

/-- What is reserved is held, no more than is on hand; and what was restocked is on hand or in orders. -/
def InventoryKept : Prop :=
  ∀ productId, w.reserved productId = w.heldUnits productId ∧ (0 ≤ w.reserved productId ∧ w.reserved productId ≤ w.onHand productId) ∧
    w.onHand productId + w.orderedUnits productId = w.restockedUnits productId

/-- Another cancellation of the order has put units back. -/
def OtherPutBack (i : Nat) (id : String) : Prop :=
  ∃ (j : Nat) (order : Order) (done todo : List OrderLine), j ≠ i ∧ w.calls[j]? = some (.cancel id (.restocking order done todo)) ∧ done ≠ []

/-- The order is stored and not cancelled. -/
def Active (id : String) : Prop := ∃ order, w.store.orders.get id = some order ∧ order.status ≠ .cancelled

/-- Behind the first commit of a checkout, and behind the first restock of a cancellation, no call fails; an order
is inserted under a new id; a cancellation that puts units back finds its order active and is the only one; and a
restocked product has its row. -/
def Completed : ServiceEvent → Prop
  | .proceed i ok _ =>
    match w.calls[i]? with
    | some (.checkout { phase := .committing order done todo, .. }) =>
      (ok = false → done = []) ∧ (todo = [] → w.store.orders.has order.id = false)
    | some (.cancel id (.restocking _ done _)) =>
      (ok = false → done = []) ∧ (done = [] → w.Active id ∧ ¬ w.OtherPutBack i id)
    | some (.restock productId _ .restocking) => w.store.stock.has productId = true
    | _ => True
  | _ => True

end CommerceService

/-! ## What the store calls change -/

section

variable {p q : String} {lines lines' : List OrderLine} {line : OrderLine}

@[simp] theorem units_nil : units p [] = 0 := rfl

@[simp] theorem units_cons : units p (line :: lines) = (if line.productId = p then (line.quantity : Int) else 0) + units p lines := rfl

@[simp] theorem units_append : units p (lines ++ lines') = units p lines + units p lines' := by
  unfold units
  rw [map_append, sum_append]

theorem units_nonneg : 0 ≤ units p lines := by
  refine sum_nonneg fun x hx => ?_
  obtain ⟨l, -, rfl⟩ := mem_map.1 hx
  split <;> omega

end

namespace CommerceStore

variable {s s' : CommerceStore} {p q : String} {n : Nat} {level : StockLevel}

theorem getStock_setStock : (s.setStock q level).getStock p = if p = q then level else s.getStock p := by
  unfold setStock getStock
  rw [get_set]
  split <;> rfl

theorem has_stock_setStock : OrderedMap.has (s.setStock q level).stock p = true ↔ p = q ∨ s.stock.has p = true := by
  unfold setStock OrderedMap.has
  rw [get_set]
  split <;> simp_all

/-- A change of one row: its level, with the other rows and the orders as they are. -/
structure Restocked (s s' : CommerceStore) (q : String) (level : StockLevel) : Prop where
  stock : ∀ p, s'.getStock p = if p = q then level else s.getStock p
  rows : ∀ p, s.stock.has p = true → s'.stock.has p = true
  orders : s'.orders = s.orders

theorem restocked_setStock : Restocked s (s.setStock q level) q level where
  stock _ := getStock_setStock
  rows _ h := has_stock_setStock.2 (.inr h)
  orders := rfl

theorem getStock_of_get (h : s.stock.get q = some level) : s.getStock q = level := by
  unfold getStock
  rw [h]
  rfl

theorem restocked_self : Restocked s s q (s.getStock q) where
  stock p := by
    split
    · rename_i h
      rw [h]
    · rfl
  rows _ h := h
  orders := rfl

theorem restock_spec (hrow : s.stock.has q = true) : ∃ s', s.restock q n = some s' ∧
      Restocked s s' q { s.getStock q with onHand := (s.getStock q).onHand + n } := by
  unfold restock
  cases hget : s.stock.get q with
  | none =>
    rw [OrderedMap.has, hget] at hrow
    cases hrow
  | some level =>
    rw [getStock_of_get hget]
    exact ⟨_, rfl, restocked_setStock⟩

theorem reserveStock_spec (h : s.reserveStock q n = (s', true)) : s.stock.has q = true ∧ (s.getStock q).reserved + n ≤ (s.getStock q).onHand ∧
      Restocked s s' q { s.getStock q with reserved := (s.getStock q).reserved + n } := by
  unfold reserveStock at h
  cases hget : s.stock.get q with
  | none =>
    rw [hget] at h
    cases h
  | some level =>
    rw [hget] at h
    dsimp only at h
    rw [getStock_of_get hget]
    split at h
    · cases h
    · rename_i hroom
      cases h
      refine ⟨by rw [OrderedMap.has, hget]; rfl, by omega, restocked_setStock⟩

theorem reserveStock_fst (h : s.reserveStock q n = (s', false)) : s' = s := by
  unfold reserveStock at h
  split at h
  · split at h <;> cases h
    rfl
  · cases h
    rfl

/-- Nothing is reserved of a product without a row. -/
theorem zero_of_none (hget : s.stock.get q = none) (h : (n : Int) ≤ (s.getStock q).reserved) : s.getStock q = {} ∧ n = 0 := by
  have hzero : s.getStock q = {} := by
    unfold getStock
    rw [hget]
    rfl
  rw [hzero] at h
  exact ⟨hzero, Int.ofNat_eq_zero.1 (Int.le_antisymm h (Int.natCast_nonneg n))⟩

theorem releaseStock_spec (h : (n : Int) ≤ (s.getStock q).reserved) :
    Restocked s (s.releaseStock q n) q { s.getStock q with reserved := (s.getStock q).reserved - n } := by
  unfold releaseStock
  cases hget : s.stock.get q with
  | none =>
    obtain ⟨hzero, rfl⟩ := zero_of_none hget h
    have hself := restocked_self (s := s) (q := q)
    rw [hzero] at hself ⊢
    exact hself
  | some level =>
    rw [getStock_of_get hget] at h ⊢
    dsimp only
    rw [Int.max_eq_right (by omega)]
    exact restocked_setStock

theorem commitStock_spec (h : (n : Int) ≤ (s.getStock q).reserved) (hle : (s.getStock q).reserved ≤ (s.getStock q).onHand) :
    Restocked s (s.commitStock q n) q { onHand := (s.getStock q).onHand - n, reserved := (s.getStock q).reserved - n } := by
  unfold commitStock
  cases hget : s.stock.get q with
  | none =>
    obtain ⟨hzero, rfl⟩ := zero_of_none hget h
    have hself := restocked_self (s := s) (q := q)
    rw [hzero] at hself ⊢
    exact hself
  | some level =>
    rw [getStock_of_get hget] at h hle ⊢
    dsimp only
    rw [Int.max_eq_right (by omega), Int.max_eq_right (by omega)]
    exact restocked_setStock

end CommerceStore

/-! ## The invariant -/

/-- Every product of the lines has a row. -/
def CommerceStore.Rows (s : CommerceStore) (lines : List OrderLine) : Prop :=
  ∀ l ∈ lines, s.stock.has l.productId = true

/-- What a checkout holds at each await. -/
def CheckoutCall.Ok (s : CommerceStore) (c : CheckoutCall) : Prop :=
  match c.phase with
  | .reading _ _ _ => c.held = []
  | .reserving cart done todo => c.held = done ∧ cart.lines = done ++ todo ∧ cart.lines ≠ [] ∧ s.Rows done
  | .compensating todo => c.held = todo
  | .applying cart _ => c.held = cart.lines ∧ cart.lines ≠ [] ∧ s.Rows cart.lines
  | .charging cart _ _ => c.held = cart.lines ∧ cart.lines ≠ [] ∧ s.Rows cart.lines
  | .committing order done todo =>
    c.held = todo ∧ order.lines = done ++ todo ∧ order.lines ≠ [] ∧ order.status ≠ .cancelled ∧ s.Rows order.lines
  | .releasing todo => c.held = todo
  | .availability => True
  | .settled => True

/-- The order of a cancellation is stored, with its lines. -/
structure CommerceStore.Linked (s : CommerceStore) (id : String) (order : Order) : Prop where
  key : order.id = id
  stored : ∃ row, s.orders.get id = some row ∧ row.lines = order.lines
  lines : order.lines ≠ []
  rows : s.Rows order.lines

def CancelPhase.Ok (s : CommerceStore) (id : String) : CancelPhase → Prop
  | .refunding order => s.Linked id order
  | .restocking order done todo => s.Linked id order ∧ order.lines = done ++ todo
  | _ => True

def Call.Ok (s : CommerceStore) : Call → Prop
  | .checkout c => c.Ok s
  | .cancel id phase => phase.Ok s id
  | .restock _ _ _ => True

/-- A cancellation of the order has put units back. -/
def Call.PutsBack (id : String) (c : Call) : Prop := ∃ order done todo, c = .cancel id (.restocking order done todo) ∧ done ≠ []

/-- Rows stay, and orders with their lines. -/
structure CommerceStore.Grows (s s' : CommerceStore) : Prop where
  rows : ∀ p, s.stock.has p = true → s'.stock.has p = true
  orders : ∀ id order, s.orders.get id = some order → ∃ order', s'.orders.get id = some order' ∧ order'.lines = order.lines

namespace CommerceService

structure Inv (w : CommerceService) : Prop where
  reserved : ∀ p, w.reserved p = w.heldUnits p
  bounded : ∀ p, w.reserved p ≤ w.onHand p
  conserved : ∀ p, w.onHand p + w.orderedUnits p + w.movingUnits p = w.restockedUnits p
  calls : ∀ c ∈ w.calls, c.Ok w.store
  keyed : ∀ id order, w.store.orders.get id = some order → order.id = id ∧ order.lines ≠ [] ∧ w.store.Rows order.lines
  active : ∀ (i : Nat) id c, w.calls[i]? = some c → c.PutsBack id → w.Active id
  sole : ∀ (i j : Nat) id c d, w.calls[i]? = some c → w.calls[j]? = some d → c.PutsBack id → d.PutsBack id → i = j

end CommerceService

section

variable {s s' : CommerceStore}

theorem CommerceStore.Grows.refl (s : CommerceStore) : s.Grows s where
  rows _ h := h
  orders _ order h := ⟨order, h, rfl⟩

theorem CommerceStore.Rows.grows {lines : List OrderLine} (h : s.Rows lines) (hg : s.Grows s') : s'.Rows lines :=
  fun l hl => hg.rows _ (h l hl)

theorem CommerceStore.Restocked.grows {q : String} {level : StockLevel} (h : s.Restocked s' q level) : s.Grows s' where
  rows := h.rows
  orders id order ho := by
    rw [h.orders]
    exact ⟨order, ho, rfl⟩

theorem CheckoutCall.Ok.grows {c : CheckoutCall} (h : c.Ok s) (hg : s.Grows s') : c.Ok s' := by
  unfold CheckoutCall.Ok at h ⊢
  cases hp : c.phase with
  | reserving cart done todo =>
    rw [hp] at h
    exact ⟨h.1, h.2.1, h.2.2.1, h.2.2.2.grows hg⟩
  | applying cart code =>
    rw [hp] at h
    exact ⟨h.1, h.2.1, h.2.2.grows hg⟩
  | charging cart discountCents couponCode =>
    rw [hp] at h
    exact ⟨h.1, h.2.1, h.2.2.grows hg⟩
  | committing order done todo =>
    rw [hp] at h
    exact ⟨h.1, h.2.1, h.2.2.1, h.2.2.2.1, h.2.2.2.2.grows hg⟩
  | _ =>
    rw [hp] at h
    exact h

theorem CommerceStore.Linked.grows {id : String} {order : Order} (h : s.Linked id order) (hg : s.Grows s') : s'.Linked id order where
  key := h.key
  stored := by
    obtain ⟨row, hrow, hlines⟩ := h.stored
    obtain ⟨row', hrow', hlines'⟩ := hg.orders id row hrow
    exact ⟨row', hrow', hlines'.trans hlines⟩
  lines := h.lines
  rows := h.rows.grows hg

theorem Call.Ok.grows {c : Call} (h : c.Ok s) (hg : s.Grows s') : c.Ok s' := by
  cases c with
  | checkout c => exact CheckoutCall.Ok.grows h hg
  | restock productId quantity phase => trivial
  | cancel id phase =>
    cases phase with
    | refunding order => exact CommerceStore.Linked.grows h hg
    | restocking order done todo => exact ⟨h.1.grows hg, h.2⟩
    | _ => trivial

end

namespace CommerceService

variable {w w' : CommerceService} {i : Nat} {c c' : Call}

theorem Inv.held_le (h : Inv w) (hc : w.calls[i]? = some c) (p : String) : units p c.held ≤ w.reserved p := by
  rw [h.reserved p]
  refine single_le_sum ?_ _ (mem_map.2 ⟨c, mem_of_getElem? hc, rfl⟩)
  intro x hx
  obtain ⟨d, -, rfl⟩ := mem_map.1 hx
  exact units_nonneg

theorem Inv.update (h : Inv w) (hc : w.calls[i]? = some c) (hcalls : w'.calls = w.calls.set i c')
    (hreserved : ∀ p, w'.reserved p = w.reserved p - units p c.held + units p c'.held)
    (hbounded : ∀ p, w'.reserved p ≤ w'.onHand p)
    (hconserved : ∀ p, w'.onHand p + w'.orderedUnits p + c'.moving p - w'.restockedUnits p =
      w.onHand p + w.orderedUnits p + c.moving p - w.restockedUnits p)
    (hgrows : w.store.Grows w'.store) (hok : c'.Ok w'.store)
    (hkeyed : ∀ id order, w'.store.orders.get id = some order → order.id = id ∧ order.lines ≠ [] ∧ w'.store.Rows order.lines)
    (hactive : ∀ (j : Nat) id d, j ≠ i → w.calls[j]? = some d → d.PutsBack id → w'.Active id)
    (hputs : ∀ id, c'.PutsBack id → w'.Active id ∧ ∀ (j : Nat) d, j ≠ i → w.calls[j]? = some d → ¬ d.PutsBack id) : Inv w' where
  reserved p := by
    rw [hreserved p, h.reserved p]
    unfold heldUnits
    rw [hcalls, sum_map_set (fun c => units p c.held) hc]
  bounded := hbounded
  conserved p := by
    have hmoving : w'.movingUnits p = w.movingUnits p - c.moving p + c'.moving p := by
      unfold movingUnits
      rw [hcalls, sum_map_set (Call.moving p) hc]
    have hold := h.conserved p
    have hnew := hconserved p
    omega
  calls d hd := by
    rw [hcalls] at hd
    rcases mem_or_eq_of_mem_set hd with hd | rfl
    · exact (h.calls d hd).grows hgrows
    · exact hok
  keyed := hkeyed
  active j id d hd hputs' := by
    rw [hcalls] at hd
    rcases getElem?_set_cases hd with ⟨rfl, rfl⟩ | ⟨hj, hd⟩
    · exact (hputs id hputs').1
    · exact hactive j id d hj hd hputs'
  sole j k id d e hd he hputs₁ hputs₂ := by
    rw [hcalls] at hd he
    rcases getElem?_set_cases hd with ⟨rfl, rfl⟩ | ⟨hj, hd'⟩
    · rcases getElem?_set_cases he with ⟨rfl, rfl⟩ | ⟨hk, he'⟩
      · rfl
      · exact absurd hputs₂ ((hputs id hputs₁).2 k e hk he')
    · rcases getElem?_set_cases he with ⟨rfl, rfl⟩ | ⟨hk, he'⟩
      · exact absurd hputs₁ ((hputs id hputs₂).2 j d hj hd')
      · exact h.sole j k id d e hd' he' hputs₁ hputs₂

end CommerceService

namespace CommerceService

variable {w w' : CommerceService} {i : Nat} {c c' : Call}

theorem Inv.still (h : Inv w) (hc : w.calls[i]? = some c) (hcalls : w'.calls = w.calls.set i c') (hstore : w'.store = w.store)
    (hrestocked : w'.restocked = w.restocked) (hheld : ∀ p, units p c'.held = units p c.held)
    (hmoving : ∀ p, c'.moving p = c.moving p) (hok : c'.Ok w.store) (hputs : ∀ id, ¬ c'.PutsBack id) : Inv w' := by
  have hunits : ∀ p, w'.reserved p = w.reserved p ∧ w'.onHand p = w.onHand p ∧ w'.orderedUnits p = w.orderedUnits p ∧
      w'.restockedUnits p = w.restockedUnits p := by
    intro p
    unfold CommerceService.reserved onHand orderedUnits restockedUnits
    rw [hstore, hrestocked]
    exact ⟨rfl, rfl, rfl, rfl⟩
  refine h.update hc hcalls ?_ ?_ ?_ ?_ ?_ ?_ ?_ fun id hp => absurd hp (hputs id)
  · intro p
    rw [(hunits p).1, hheld p]
    omega
  · intro p
    rw [(hunits p).1, (hunits p).2.1]
    exact h.bounded p
  · intro p
    obtain ⟨-, ho, hord, hrest⟩ := hunits p
    rw [ho, hord, hrest, hmoving p]
  · rw [hstore]
    exact .refl _
  · rw [hstore]
    exact hok
  · rw [hstore]
    exact h.keyed
  · intro j id d _ hd hp
    unfold Active
    rw [hstore]
    exact h.active j id d hd hp

theorem Inv.row (h : Inv w) (hc : w.calls[i]? = some c) (hcalls : w'.calls = w.calls.set i c') {q : String} {level : StockLevel}
    (hrow : w.store.Restocked w'.store q level) (dh dr : Int) (honHand : level.onHand = w.onHand q + dh)
    (hreserved : level.reserved = w.reserved q + dr)
    (hheld : ∀ p, units p c'.held = units p c.held + if q = p then dr else 0)
    (hle : w.reserved q + dr ≤ w.onHand q + dh)
    (hmoving : ∀ p, c'.moving p - w'.restockedUnits p = c.moving p - w.restockedUnits p - if q = p then dh else 0)
    (hok : c'.Ok w'.store) (hputs : ∀ id, c'.PutsBack id → w.Active id ∧
      ∀ (j : Nat) d, j ≠ i → w.calls[j]? = some d → ¬ d.PutsBack id) : Inv w' := by
  have hactive : ∀ id, w.Active id → w'.Active id := by
    intro id ha
    unfold Active
    rw [hrow.orders]
    exact ha
  have hlevel : ∀ p, w'.onHand p = w.onHand p + (if q = p then dh else 0) ∧ w'.reserved p = w.reserved p + if q = p then dr else 0 := by
    intro p
    unfold CommerceService.reserved onHand
    rw [hrow.stock p]
    by_cases hp : p = q
    · subst hp
      rw [if_pos rfl, if_pos rfl, if_pos rfl]
      exact ⟨honHand, hreserved⟩
    · rw [if_neg hp, if_neg fun h => hp h.symm, if_neg fun h => hp h.symm, Int.add_zero, Int.add_zero]
      exact ⟨rfl, rfl⟩
  refine h.update hc hcalls ?_ ?_ ?_ hrow.grows hok ?_ ?_ ?_
  · intro p
    rw [hheld p, (hlevel p).2]
    omega
  · intro p
    have hold := h.bounded p
    rw [(hlevel p).1, (hlevel p).2]
    split
    · next heq => exact heq ▸ hle
    · omega
  · intro p
    have hord : w'.orderedUnits p = w.orderedUnits p := by
      unfold orderedUnits
      rw [hrow.orders]
    have hm := hmoving p
    rw [hord, (hlevel p).1]
    omega
  · intro id order ho
    rw [hrow.orders] at ho
    obtain ⟨hid, hlines, hrows⟩ := h.keyed id order ho
    exact ⟨hid, hlines, hrows.grows hrow.grows⟩
  · intro j id d _ hd hp
    exact hactive id (h.active j id d hd hp)
  · intro id hp
    obtain ⟨ha, hsole⟩ := hputs id hp
    exact ⟨hactive id ha, hsole⟩

theorem Inv.call (h : Inv w) (hheld : c.held = []) (hmoving : ∀ p, c.moving p = 0) (hok : c.Ok w.store)
    (hputs : ∀ id, ¬ c.PutsBack id) : Inv { w with calls := w.calls ++ [c] } where
  reserved p := by
    show w.reserved p = ((w.calls ++ [c]).map fun c => units p c.held).sum
    rw [map_append, sum_append, map_singleton, sum_singleton, hheld, h.reserved p]
    exact (Int.add_zero _).symm
  bounded := h.bounded
  conserved p := by
    show w.onHand p + w.orderedUnits p + ((w.calls ++ [c]).map (Call.moving p)).sum = w.restockedUnits p
    rw [map_append, sum_append, map_singleton, sum_singleton, hmoving p, Int.add_zero]
    exact h.conserved p
  calls d hd := by
    rcases mem_append.1 hd with hd | hd
    · exact h.calls d hd
    · rw [mem_singleton.1 hd]
      exact hok
  keyed := h.keyed
  active j id d hd hp := by
    rcases getElem?_concat_cases hd with hd | ⟨-, rfl⟩
    · exact h.active j id d hd hp
    · exact absurd hp (hputs id)
  sole j k id d e hd he hp₁ hp₂ := by
    rcases getElem?_concat_cases hd with hd' | ⟨-, rfl⟩
    · rcases getElem?_concat_cases he with he' | ⟨-, rfl⟩
      · exact h.sole j k id d e hd' he' hp₁ hp₂
      · exact absurd hp₂ (hputs id)
    · exact absurd hp₁ (hputs id)

end CommerceService

/-! ## The phases -/

section

variable {s : CommerceStore} {c : CheckoutCall} {lines todo done : List OrderLine} {cart : Cart}

variable {p : String} {held : List OrderLine}

theorem moving_read {entries : List (String × Nat)} {currency : String} :
    (Call.checkout { c with phase := .read entries lines currency, held }).moving p = 0 := by
  unfold CheckoutPhase.read
  split
  · rfl
  · split <;> rfl

theorem ok_read {entries : List (String × Nat)} {currency : String} (hheld : c.held = []) :
    (Call.checkout { c with phase := .read entries lines currency }).Ok s := by
  unfold CheckoutPhase.read
  split
  · exact hheld
  · split
    · trivial
    · rename_i hlines
      refine ⟨hheld, rfl, ?_, fun l hl => absurd hl not_mem_nil⟩
      intro hnil
      have hperm : (Cart.ofLines lines currency).lines.Perm lines := perm_insertionSort _ _
      rw [hnil] at hperm
      exact hlines hperm.nil_eq.symm

theorem moving_reserve {couponCode : Option String} :
    (Call.checkout { c with phase := .reserve couponCode cart done todo, held }).moving p = 0 := by
  unfold CheckoutPhase.reserve
  split
  · rfl
  · split <;> rfl

theorem ok_reserve {couponCode : Option String} (hlines : cart.lines = done ++ todo) (hne : cart.lines ≠ []) (hrows : s.Rows done) :
    (Call.checkout { c with phase := .reserve couponCode cart done todo, held := done }).Ok s := by
  unfold CheckoutPhase.reserve
  split
  · exact ⟨rfl, hlines, hne, hrows⟩
  · rename_i htodo
    rw [not_not] at htodo
    rw [htodo, append_nil] at hlines
    split
    · exact ⟨hlines.symm, hne, by rw [hlines]; exact hrows⟩
    · exact ⟨hlines.symm, hne, by rw [hlines]; exact hrows⟩

theorem moving_compensate : (Call.checkout { c with phase := .compensate todo, held }).moving p = 0 := by
  unfold CheckoutPhase.compensate
  split <;> rfl

theorem ok_compensate : (Call.checkout { c with phase := .compensate todo, held := todo }).Ok s := by
  unfold CheckoutPhase.compensate
  split
  · exact rfl
  · trivial

theorem moving_release : (Call.checkout { c with phase := .release todo, held }).moving p = 0 := by
  unfold CheckoutPhase.release
  split <;> rfl

theorem ok_release : (Call.checkout { c with phase := .release todo, held := todo }).Ok s := by
  unfold CheckoutPhase.release
  split
  · exact rfl
  · trivial

theorem moving_committing {order : Order} (hphase : c.phase = .committing order done todo) : (Call.checkout c).moving p = units p done := by
  obtain ⟨cartId, couponCode, phase, held⟩ := c
  cases hphase
  rfl

theorem not_putsBack_checkout {id : String} : ¬ (Call.checkout c).PutsBack id := by
  rintro ⟨order, done, todo, h, -⟩
  cases h

end

/-! ## A step -/

namespace CommerceService

variable {w : CommerceService} {i : Nat}

variable {c : CheckoutCall}

theorem Inv.goOn (h : Inv w) (hc : w.calls[i]? = some (.checkout c)) (hstill : ∀ p, (Call.checkout c).moving p = 0) {phase : CheckoutPhase}
    (hmoving : ∀ p, (Call.checkout { c with phase }).moving p = 0)
    (hok : (Call.checkout { c with phase }).Ok w.store) : Inv (w.setCheckout i c phase c.held) :=
  h.still hc rfl rfl rfl (fun _ => rfl) (fun p => (hmoving p).trans (hstill p).symm) hok fun _ => not_putsBack_checkout

variable {line : OrderLine} {todo : List OrderLine}

section

variable (h : Inv w) (hc : w.calls[i]? = some (.checkout c))
include h hc

theorem Inv.line_le (hheld : c.held = line :: todo) : (line.quantity : Int) ≤ w.reserved line.productId := by
  have hle := h.held_le hc line.productId
  rw [show (Call.checkout c).held = c.held from rfl, hheld, units_cons, if_pos rfl] at hle
  have hrest : 0 ≤ units line.productId todo := units_nonneg
  omega

theorem Inv.release (hstill : ∀ p, (Call.checkout c).moving p = 0) (hheld : c.held = line :: todo)
    {phase : CheckoutPhase} (hmoving : ∀ p, (Call.checkout { c with phase, held := todo }).moving p = 0)
    (hok : ∀ s, (Call.checkout { c with phase, held := todo }).Ok s) :
    Inv ((w.withStore (w.store.releaseStock line.productId line.quantity)).setCheckout i c phase (c.held.erase line)) := by
  have hle := h.line_le hc hheld
  have herase : c.held.erase line = todo := by rw [hheld, erase_cons_head]
  rw [herase]
  have hbounded := h.bounded line.productId
  refine h.row hc rfl (CommerceStore.releaseStock_spec hle) 0 (-line.quantity) (Int.add_zero _).symm rfl ?_ (by omega) ?_
    (hok _) fun _ hp => absurd hp not_putsBack_checkout
  · intro p
    show units p todo = units p c.held + _
    rw [hheld, units_cons]
    split <;> omega
  · intro p
    show (Call.checkout { c with phase, held := todo }).moving p - w.restockedUnits p = _
    rw [hmoving p, hstill p]
    split <;> omega

theorem Inv.reserve {cart : Cart} {done : List OrderLine} (hphase : c.phase = .reserving cart done (line :: todo))
    {store : CommerceStore} (hstore : w.store.reserveStock line.productId line.quantity = (store, true)) :
    Inv ((w.withStore store).setCheckout i c (.reserve c.couponCode cart (done ++ [line]) todo) (c.held ++ [line])) := by
  have hok : c.Ok w.store := h.calls _ (mem_of_getElem? hc)
  unfold CheckoutCall.Ok at hok
  rw [hphase] at hok
  obtain ⟨hheld, hlines, hne, hrows⟩ := hok
  obtain ⟨hrow, hroom, hspec⟩ := CommerceStore.reserveStock_spec hstore
  refine h.row hc rfl hspec 0 line.quantity (Int.add_zero _).symm rfl ?_ (Int.add_zero _ ▸ hroom) ?_ ?_
    fun _ hp => absurd hp not_putsBack_checkout
  · intro p
    show units p (c.held ++ [line]) = units p c.held + _
    rw [units_append, units_cons, units_nil, Int.add_zero]
  · intro p
    have hstill : (Call.checkout c).moving p = 0 := by
      obtain ⟨cartId, couponCode, phase, held⟩ := c
      dsimp only at hphase
      rw [hphase]
      rfl
    show (Call.checkout { c with phase := _, held := _ }).moving p - w.restockedUnits p = _
    rw [moving_reserve, hstill]
    split <;> omega
  · rw [hheld]
    refine ok_reserve (by rw [hlines, append_assoc]; rfl) hne ?_
    intro l hl
    rcases mem_append.1 hl with hl | hl
    · exact hspec.rows _ (hrows l hl)
    · rw [mem_singleton.1 hl]
      exact hspec.rows _ hrow

theorem Inv.commit {order : Order} {done : List OrderLine} (hphase : c.phase = .committing order done (line :: todo)) :
    Inv ((w.withStore (w.store.commitStock line.productId line.quantity)).setCheckout i c
      (.committing order (done ++ [line]) todo) (c.held.erase line)) := by
  have hok : c.Ok w.store := h.calls _ (mem_of_getElem? hc)
  unfold CheckoutCall.Ok at hok
  rw [hphase] at hok
  obtain ⟨hheld, hlines, hne, hstatus, hrows⟩ := hok
  have hle := h.line_le hc hheld
  have hspec := CommerceStore.commitStock_spec hle (h.bounded line.productId)
  have herase : c.held.erase line = todo := by rw [hheld, erase_cons_head]
  rw [herase]
  have hbounded := h.bounded line.productId
  refine h.row hc rfl hspec (-line.quantity) (-line.quantity) rfl rfl ?_ (by omega) ?_ ?_ fun _ hp => absurd hp not_putsBack_checkout
  · intro p
    show units p todo = units p c.held + _
    rw [hheld, units_cons]
    split <;> omega
  · intro p
    show units p (done ++ [line]) - w.restockedUnits p = _
    rw [moving_committing hphase, units_append, units_cons, units_nil]
    split <;> omega
  · exact ⟨rfl, by rw [hlines, append_assoc]; rfl, hne, hstatus, hrows.grows hspec.grows⟩

end

end CommerceService

/-! ## Orders -/

namespace CommerceStore

variable {s : CommerceStore}

def setOrder (s : CommerceStore) (id : String) (order : Order) : CommerceStore :=
  { s with orders := s.orders.set id order }

theorem insertOrder_new {order : Order} (h : s.orders.has order.id = false) : s.insertOrder order = some (s.setOrder order.id order) := by
  unfold insertOrder
  split
  · rfl
  · rw [h]
    rfl

theorem updateOrder_spec (order : Order) {row : Order} (h : s.orders.get order.id = some row) (hid : row.id = order.id)
    (hlines : row.lines = order.lines) :
    ∃ order', s.updateOrder order = s.setOrder order.id order' ∧ order'.id = order.id ∧ order'.lines = order.lines ∧
      order'.status = order.status ∧ (order'.paymentId = order.paymentId ∨ order'.paymentId = row.paymentId) := by
  unfold updateOrder
  rw [h]
  split
  · exact ⟨order, rfl, rfl, rfl, rfl, .inl rfl⟩
  · rename_i row' hrow
    obtain rfl := Option.some.inj hrow
    exact ⟨{ row with status := order.status }, rfl, hid, hlines, rfl, .inr rfl⟩
  · rename_i hrow
    cases hrow

theorem get_setOrder {id id' : String} {order : Order} :
    OrderedMap.get (s.setOrder id order).orders id' = if id' = id then some order else s.orders.get id' :=
  get_set ..

theorem grows_setOrder {id : String} {order : Order}
    (h : ∀ row, s.orders.get id = some row → order.lines = row.lines) : s.Grows (s.setOrder id order) where
  rows _ hp := hp
  orders id' row hrow := by
    rw [get_setOrder]
    by_cases hid : id' = id
    · subst hid
      rw [if_pos rfl]
      exact ⟨order, rfl, h row hrow⟩
    · rw [if_neg hid]
      exact ⟨row, hrow, rfl⟩

end CommerceStore

namespace CommerceService

variable {w w' : CommerceService} {i : Nat}

theorem orderedUnits_setOrder {id : String} {order : Order} (hstore : w'.store = w.store.setOrder id order) (p : String) :
    w'.orderedUnits p = w.orderedUnits p - ((w.store.orders.get id).map (Order.units p)).getD 0 + order.units p := by
  unfold orderedUnits
  rw [hstore]
  exact sum_map_set (Order.units p) ..

theorem Inv.keyed_setOrder (h : Inv w) {id : String} {order : Order} (hstore : w'.store = w.store.setOrder id order)
    (hid : order.id = id) (hlines : order.lines ≠ []) (hrows : w.store.Rows order.lines) :
    ∀ id' order', w'.store.orders.get id' = some order' → order'.id = id' ∧ order'.lines ≠ [] ∧ w'.store.Rows order'.lines := by
  intro id' order' ho
  rw [hstore, CommerceStore.get_setOrder] at ho
  rw [hstore]
  split at ho
  · rename_i hk
    cases ho
    exact ⟨hid.trans hk.symm, hlines, hrows⟩
  · exact h.keyed id' order' ho

theorem Inv.insert (h : Inv w) {c : CheckoutCall} (hc : w.calls[i]? = some (.checkout c)) {order : Order}
    {done : List OrderLine} (hphase : c.phase = .committing order done [])
    (hnew : w.store.orders.has order.id = false) :
    Inv (((w.withStore (w.store.setOrder order.id order)).clearCart c.cartId).setCheckout i c .settled c.held) := by
  have hok : c.Ok w.store := h.calls _ (mem_of_getElem? hc)
  unfold CheckoutCall.Ok at hok
  rw [hphase] at hok
  obtain ⟨hheld, hlines, hne, hstatus, hrows⟩ := hok
  rw [append_nil] at hlines
  have hnone : w.store.orders.get order.id = none := by
    rw [OrderedMap.has, Option.isSome_eq_false_iff, Option.isNone_iff_eq_none] at hnew
    exact hnew
  have hgrows : w.store.Grows (w.store.setOrder order.id order) := by
    refine CommerceStore.grows_setOrder fun row hrow => ?_
    rw [hnone] at hrow
    cases hrow
  refine h.update hc rfl ?_ h.bounded ?_ hgrows trivial ?_ ?_ fun _ hp => absurd hp not_putsBack_checkout
  · intro p
    show w.reserved p = w.reserved p - units p c.held + units p c.held
    omega
  · intro p
    have hunits : order.units p = units p done := by
      unfold Order.units
      rw [if_neg hstatus, hlines]
    rw [orderedUnits_setOrder rfl p, hnone, moving_committing hphase, hunits]
    show w.onHand p + (w.orderedUnits p - 0 + units p done) + 0 - w.restockedUnits p = _
    omega
  · exact h.keyed_setOrder rfl rfl hne hrows
  · intro j id d _ hd hp
    obtain ⟨row, hrow, hactive⟩ := h.active j id d hd hp
    refine ⟨row, ?_, hactive⟩
    show OrderedMap.get (w.store.setOrder order.id order).orders id = some row
    rw [CommerceStore.get_setOrder, if_neg, hrow]
    rintro rfl
    rw [hnone] at hrow
    cases hrow

theorem Inv.proceedCheckout (h : Inv w) {c : CheckoutCall} (hc : w.calls[i]? = some (.checkout c)) {ok : Bool} {newId : String}
    (hg : w.Completed (.proceed i ok newId)) : Inv (w.proceedCheckout i c ok newId) := by
  have hok : c.Ok w.store := h.calls _ (mem_of_getElem? hc)
  unfold Completed at hg
  dsimp only at hg
  rw [hc] at hg
  have hsettled : (∀ p, (Call.checkout c).moving p = 0) → Inv (w.setCheckout i c .settled c.held) :=
    fun hstill => h.goOn hc hstill (fun _ => rfl) trivial
  obtain ⟨cartId, couponCode, phase, held⟩ := c
  unfold CommerceService.proceedCheckout
  cases phase with
  | reading todo lines currency =>
    cases todo with
    | nil => exact hsettled fun _ => rfl
    | cons entry todo =>
      cases ok with
      | false => exact hsettled fun _ => rfl
      | true =>
        dsimp only
        cases w.store.products.get entry.1 with
        | some p => exact h.goOn hc (fun _ => rfl) (fun _ => moving_read) (ok_read hok)
        | none => exact h.goOn hc (fun _ => rfl) (fun _ => moving_read) (ok_read hok)
  | reserving cart done todo =>
    cases todo with
    | nil => exact hsettled fun _ => rfl
    | cons line todo =>
      cases ok with
      | false => exact hsettled fun _ => rfl
      | true =>
        dsimp only
        cases hstore : w.store.reserveStock line.productId line.quantity with
        | mk store reserved =>
          cases reserved with
          | true => exact h.reserve hc rfl hstore
          | false =>
            refine h.goOn hc (fun _ => rfl) (fun _ => moving_compensate) ?_
            obtain ⟨hheld, -⟩ := hok
            rw [hheld]
            exact ok_compensate
  | compensating todo =>
    cases todo with
    | nil => exact hsettled fun _ => rfl
    | cons line todo =>
      cases ok with
      | false => exact hsettled fun _ => rfl
      | true => exact h.release hc (fun _ => rfl) hok (fun _ => moving_compensate) fun _ => ok_compensate
  | availability => exact hsettled fun _ => rfl
  | applying cart code =>
    have hrelease : Inv (w.setCheckout i { cartId, couponCode, phase := .applying cart code, held } (.release cart.lines) held) := by
      refine h.goOn hc (fun _ => rfl) (fun _ => moving_release) ?_
      obtain ⟨hheld, -⟩ := hok
      rw [hheld]
      exact ok_release
    cases ok with
    | false => exact hrelease
    | true =>
      dsimp only
      cases w.store.applyCoupon cart.subtotalCents code with
      | some discountCents => exact h.goOn hc (fun _ => rfl) (fun _ => rfl) hok
      | none => exact hrelease
  | charging cart discountCents coupon =>
    obtain ⟨hheld, hne, hrows⟩ := hok
    cases ok with
    | false =>
      refine h.goOn hc (fun _ => rfl) (fun _ => moving_release) ?_
      rw [hheld]
      exact ok_release
    | true =>
      refine h.still hc rfl rfl rfl (fun _ => rfl) (fun _ => rfl) ?_ fun _ => not_putsBack_checkout
      exact ⟨hheld, rfl, hne, nofun, hrows⟩
  | committing order done todo =>
    cases todo with
    | cons line todo =>
      cases ok with
      | true => exact h.commit hc rfl
      | false =>
        obtain ⟨hheld, hlines, -⟩ := hok
        have hdone : done = [] := hg.1 rfl
        subst hdone
        refine h.goOn hc (fun _ => rfl) (fun _ => moving_release) ?_
        rw [hheld, hlines]
        exact ok_release
    | nil =>
      cases ok with
      | false =>
        obtain ⟨-, hlines, hne, -⟩ := hok
        have hdone : done = [] := hg.1 rfl
        rw [hdone] at hlines
        exact absurd hlines hne
      | true =>
        dsimp only
        rw [CommerceStore.insertOrder_new (hg.2 rfl)]
        exact h.insert hc rfl (hg.2 rfl)
  | releasing todo =>
    cases todo with
    | nil => exact hsettled fun _ => rfl
    | cons line todo =>
      cases ok with
      | false => exact hsettled fun _ => rfl
      | true => exact h.release hc (fun _ => rfl) hok (fun _ => moving_release) fun _ => ok_release
  | settled => exact hsettled fun _ => rfl

end CommerceService

namespace CommerceService

variable {w : CommerceService} {i : Nat}

variable {id : String} {order : Order} {todo : List OrderLine}

theorem not_putsBack_of_done_nil {id' : String} : ¬ (Call.cancel id (.restocking order [] todo)).PutsBack id' := by
  rintro ⟨order', done, todo', h, hne⟩
  cases h
  exact hne rfl

variable {done : List OrderLine}

theorem putsBack_restocking {id' : String} (hne : done ≠ []) : (Call.cancel id (.restocking order done todo)).PutsBack id' ↔ id' = id := by
  constructor
  · rintro ⟨order', done', todo', h, -⟩
    cases h
    rfl
  · rintro rfl
    exact ⟨order, done, todo, rfl, hne⟩

theorem Inv.goOnCancel (h : Inv w) {phase phase' : CancelPhase} (hc : w.calls[i]? = some (.cancel id phase))
    (hstill : ∀ p, (Call.cancel id phase).moving p = 0) (hmoving : ∀ p, (Call.cancel id phase').moving p = 0)
    (hok : phase'.Ok w.store id) (hputs : ∀ id', ¬ (Call.cancel id phase').PutsBack id') :
    Inv (w.setCall i (.cancel id phase')) :=
  h.still hc rfl rfl rfl (fun _ => rfl) (fun p => (hmoving p).trans (hstill p).symm) hok hputs

theorem Inv.putBack (h : Inv w) {line : OrderLine} (hc : w.calls[i]? = some (.cancel id (.restocking order done (line :: todo))))
    (hactive : w.Active id) (hsole : ¬ w.OtherPutBack i id) {store : CommerceStore}
    (hspec : w.store.Restocked store line.productId
      { w.store.getStock line.productId with onHand := w.onHand line.productId + line.quantity }) :
    Inv ((w.withStore store).setCall i (.cancel id (.restocking order (done ++ [line]) todo))) := by
  have hok : CancelPhase.Ok w.store id (.restocking order done (line :: todo)) := h.calls _ (mem_of_getElem? hc)
  obtain ⟨hlinked, hlines⟩ := hok
  have hbounded := h.bounded line.productId
  refine h.row hc rfl hspec line.quantity 0 rfl (Int.add_zero _).symm (fun p => ?_) (by omega) ?_ ?_ ?_
  · exact (Int.add_zero _).symm.trans (congrArg (units p [] + ·) (ite_self 0).symm)
  · intro p
    show - units p (done ++ [line]) - w.restockedUnits p = - units p done - w.restockedUnits p - _
    rw [units_append, units_cons, units_nil]
    split <;> omega
  · exact ⟨hlinked.grows hspec.grows, by rw [hlines, append_assoc]; rfl⟩
  · intro id' hp
    rw [putsBack_restocking (by simp)] at hp
    subst hp
    refine ⟨hactive, fun j d hj hd hputs => hsole ?_⟩
    obtain ⟨order', done', todo', rfl, hne⟩ := hputs
    exact ⟨j, order', done', todo', hj, hd, hne⟩

theorem Inv.cancelled (h : Inv w) (hc : w.calls[i]? = some (.cancel id (.restocking order done []))) :
    Inv ((w.withStore (w.store.updateOrder { order with status := .cancelled })).setCall i (.cancel id .settled)) := by
  have hok : CancelPhase.Ok w.store id (.restocking order done []) := h.calls _ (mem_of_getElem? hc)
  obtain ⟨⟨hid, ⟨row, hrow, hrowLines⟩, hne, hrows⟩, hlines⟩ := hok
  rw [append_nil] at hlines
  have hputs : (Call.cancel id (.restocking order done [])).PutsBack id :=
    ⟨order, done, [], rfl, by rw [← hlines]; exact hne⟩
  obtain ⟨row', hrow', hstatus⟩ := h.active i id _ hc hputs
  obtain rfl : row = row' := Option.some.inj (hrow.symm.trans hrow')
  subst hid
  obtain ⟨order', hupdate, hid', hlines', hcancelled, -⟩ :=
    CommerceStore.updateOrder_spec { order with status := .cancelled } hrow (h.keyed _ row hrow).1 hrowLines
  rw [hupdate]
  have hgrows : w.store.Grows (w.store.setOrder order.id order') := by
    refine CommerceStore.grows_setOrder fun row'' hrow'' => ?_
    rw [hrow] at hrow''
    obtain rfl := Option.some.inj hrow''
    exact hlines'.trans hrowLines.symm
  refine h.update hc rfl ?_ h.bounded ?_ hgrows trivial ?_ ?_ ?_
  · intro p
    show w.reserved p = w.reserved p - units p [] + units p []
    omega
  · intro p
    have hold : row.units p = units p order.lines := by
      unfold Order.units
      rw [if_neg hstatus, hrowLines]
    have hnew : order'.units p = 0 := by
      unfold Order.units
      rw [if_pos hcancelled]
    rw [orderedUnits_setOrder rfl p, hrow, hnew]
    show w.onHand p + (w.orderedUnits p - row.units p + 0) + 0 - w.restockedUnits p =
      w.onHand p + w.orderedUnits p + - units p done - w.restockedUnits p
    rw [hold, hlines]
    omega
  · refine h.keyed_setOrder rfl hid' (by rw [hlines']; exact hne) ?_
    rw [hlines']
    exact hrows
  · intro j id d hj hd hp
    obtain ⟨row'', hrow'', hactive⟩ := h.active j id d hd hp
    refine ⟨row'', ?_, hactive⟩
    show OrderedMap.get (w.store.setOrder order.id order').orders id = some row''
    rw [CommerceStore.get_setOrder, if_neg, hrow'']
    rintro rfl
    exact hj (h.sole j i order.id d _ hd hc hp hputs)
  · rintro id' ⟨_, _, _, heq, -⟩
    cases heq

theorem Inv.proceedCancel (h : Inv w) {phase : CancelPhase} (hc : w.calls[i]? = some (.cancel id phase)) {ok : Bool}
    {newId : String} (hg : w.Completed (.proceed i ok newId)) : Inv (w.proceedCancel i id phase ok) := by
  have hok : phase.Ok w.store id := h.calls _ (mem_of_getElem? hc)
  unfold Completed at hg
  dsimp only at hg
  rw [hc] at hg
  have hsettled : (∀ p, (Call.cancel id phase).moving p = 0) → ∀ phase', phase' = .settled ∨ (∃ order, phase' = .aborted order) →
      Inv (w.setCall i (.cancel id phase')) := by
    rintro hstill phase' (rfl | ⟨order, rfl⟩)
    · refine h.goOnCancel hc hstill (fun _ => rfl) trivial ?_
      rintro id' ⟨_, _, _, heq, -⟩
      cases heq
    · refine h.goOnCancel hc hstill (fun _ => rfl) trivial ?_
      rintro id' ⟨_, _, _, heq, -⟩
      cases heq
  unfold CommerceService.proceedCancel
  cases phase with
  | reading =>
    cases ok with
    | false => exact hsettled (fun _ => rfl) _ (.inl rfl)
    | true =>
      cases hrow : w.store.orders.get id with
      | none => exact hsettled (fun _ => rfl) _ (.inl rfl)
      | some order =>
        dsimp only
        split
        · exact hsettled (fun _ => rfl) _ (.inl rfl)
        · obtain ⟨hid, hne, hrows⟩ := h.keyed id order hrow
          refine h.goOnCancel hc (fun _ => rfl) (fun _ => rfl) ⟨hid, ⟨order, hrow, rfl⟩, hne, hrows⟩ ?_
          rintro id' ⟨_, _, _, heq, -⟩
          cases heq
  | refunding order =>
    cases ok with
    | false => exact hsettled (fun _ => rfl) _ (.inl rfl)
    | true => exact h.still hc rfl rfl rfl (fun _ => rfl) (fun _ => rfl) ⟨hok, rfl⟩ fun _ => not_putsBack_of_done_nil
  | restocking order done todo =>
    cases ok with
    | false =>
      have hdone : done = [] := hg.1 rfl
      subst hdone
      cases todo <;> exact hsettled (fun _ => rfl) _ (.inr ⟨order, rfl⟩)
    | true =>
      cases todo with
      | nil => exact h.cancelled hc
      | cons line todo =>
        obtain ⟨hlinked, hlines⟩ := hok
        have hrow : w.store.stock.has line.productId = true :=
          hlinked.rows line (by rw [hlines]; exact mem_append_right _ mem_cons_self)
        obtain ⟨store, hstore, hspec⟩ := CommerceStore.restock_spec (n := line.quantity) hrow
        dsimp only
        rw [hstore]
        have hputs : w.Active id ∧ ¬ w.OtherPutBack i id := by
          by_cases hdone : done = []
          · exact hg.2 hdone
          · have hself : (Call.cancel id (.restocking order done (line :: todo))).PutsBack id :=
              (putsBack_restocking hdone).2 rfl
            refine ⟨h.active i id _ hc hself, ?_⟩
            rintro ⟨j, order', done', todo', hj, hd, hne⟩
            exact hj (h.sole j i id _ _ hd hc ⟨order', done', todo', rfl, hne⟩ hself)
        exact h.putBack hc hputs.1 hputs.2 hspec
  | aborted order => exact h
  | settled => exact hsettled (fun _ => rfl) _ (.inl rfl)

theorem Inv.proceedRestock (h : Inv w) {productId : String} {quantity : Nat} {phase : RestockPhase}
    (hc : w.calls[i]? = some (.restock productId quantity phase)) {ok : Bool} {newId : String}
    (hg : w.Completed (.proceed i ok newId)) : Inv (w.proceedRestock i productId quantity phase ok) := by
  unfold Completed at hg
  dsimp only at hg
  rw [hc] at hg
  have hstill : ∀ phase', Inv (w.setCall i (.restock productId quantity phase')) := by
    intro phase'
    refine h.still hc rfl rfl rfl (fun _ => rfl) (fun _ => rfl) trivial ?_
    rintro id ⟨_, _, _, heq, -⟩
    cases heq
  unfold CommerceService.proceedRestock
  cases phase with
  | requiring => cases ok <;> exact hstill _
  | restocking =>
    cases ok with
    | false => exact hstill _
    | true =>
      obtain ⟨store, hstore, hspec⟩ := CommerceStore.restock_spec (n := quantity) hg
      rw [hstore]
      have hbounded := h.bounded productId
      refine h.row hc rfl hspec quantity 0 rfl (Int.add_zero _).symm (fun p => ?_) (by omega) ?_ trivial ?_
      · exact (Int.add_zero _).symm.trans (congrArg (units p [] + ·) (ite_self 0).symm)
      · intro p
        show 0 - ((w.restocked ++ [(productId, quantity)]).map fun r => if r.1 = p then (r.2 : Int) else 0).sum = 0 - w.restockedUnits p - _
        rw [map_append, sum_append, map_singleton, sum_singleton]
        show 0 - (w.restockedUnits p + _) = _
        split <;> omega
      · rintro id ⟨_, _, _, heq, -⟩
        cases heq
  | reading => cases ok <;> exact hstill _
  | settled => cases ok <;> exact hstill _

theorem Inv.step (h : Inv w) {ev : ServiceEvent} (hg : w.Completed ev) : Inv (w.step ev) := by
  cases ev with
  | checkout cartId couponCode =>
    refine h.call rfl ?_ ?_ fun _ => not_putsBack_checkout
    · intro p
      split
      · rfl
      · exact moving_read (c := { cartId, couponCode, phase := .settled })
    · split
      · trivial
      · exact ok_read (c := { cartId, couponCode, phase := .settled }) rfl
  | cancelOrder id =>
    refine h.call rfl ?_ ?_ ?_
    · intro p
      split <;> rfl
    · split <;> trivial
    · rintro id' ⟨_, _, _, heq, -⟩
      split at heq <;> cases heq
  | restock productId quantity =>
    refine h.call rfl (fun _ => rfl) trivial ?_
    rintro id ⟨_, _, _, heq, -⟩
    cases heq
  | proceed i ok newId =>
    unfold CommerceService.step
    dsimp only
    cases hc : w.calls[i]? with
    | none => exact h
    | some c =>
      cases c with
      | checkout c => exact h.proceedCheckout hc hg
      | cancel id phase => exact h.proceedCancel hc hg
      | restock productId quantity phase => exact h.proceedRestock hc hg

end CommerceService

/-! ## Runs -/

namespace CommerceService

theorem inv_start {store : CommerceStore} (hstock : ∀ p, store.getStock p = {}) (horders : store.orders = [])
    (carts : OrderedMap String (OrderedMap String Nat)) : Inv { store, carts } where
  reserved p := by
    show (store.getStock p).reserved = 0
    rw [hstock p]
  bounded p := by
    show (store.getStock p).reserved ≤ (store.getStock p).onHand
    rw [hstock p]
  conserved p := by
    show (store.getStock p).onHand + (store.orders.map fun e => e.2.units p).sum + 0 = 0
    rw [hstock p, horders]
    rfl
  calls c hc := absurd hc not_mem_nil
  keyed id order ho := by
    have hnone : store.orders.get id = none := by
      rw [horders]
      rfl
    rw [hnone] at ho
    cases ho
  active i id c hc := by cases hc
  sole i j id c d hc := by cases hc

/-- For every store without stock and orders, and every interleaving of checkouts, cancellations and restocks whose steps
are completed: in every state what is reserved is what the checkouts hold, at least zero and at most what is on hand;
and what was restocked is on hand or in orders just when no units are under way. -/
theorem inventory_of_completed (store : CommerceStore) (carts : OrderedMap String (OrderedMap String Nat))
    (hstock : ∀ p, store.getStock p = {}) (horders : store.orders = []) (evs : List ServiceEvent)
    (hg : Guarded step Completed { store, carts } evs) (p : String) :
    (run step { store, carts } evs).reserved p = (run step { store, carts } evs).heldUnits p ∧
      (0 ≤ (run step { store, carts } evs).reserved p ∧
        (run step { store, carts } evs).reserved p ≤ (run step { store, carts } evs).onHand p) ∧
      ((run step { store, carts } evs).onHand p + (run step { store, carts } evs).orderedUnits p =
          (run step { store, carts } evs).restockedUnits p ↔ (run step { store, carts } evs).movingUnits p = 0) := by
  have h : Inv (run step { store, carts } evs) :=
    run_invariant_of_guarded step (fun _ _ h hg => h.step hg) evs hg (inv_start hstock horders carts)
  obtain ⟨w, hw⟩ : ∃ w, w = run step { store, carts } evs := ⟨_, rfl⟩
  rw [← hw] at h ⊢
  have hnonneg : 0 ≤ w.heldUnits p := by
    refine sum_nonneg fun x hx => ?_
    obtain ⟨c, -, rfl⟩ := mem_map.1 hx
    exact units_nonneg
  have hconserved := h.conserved p
  refine ⟨h.reserved p, ⟨by rw [h.reserved p]; exact hnonneg, h.bounded p⟩, ?_⟩
  constructor
  · intro heq
    omega
  · intro hzero
    omega

/-- One product in the carts of two customers, and none of it in stock. -/
def shop (kind : StoreKind) : CommerceService where
  store := { kind, products := [("p", { priceCents := 100, currency := "USD" })], stock := [("p", {})] }
  carts := [("a", [("p", 1)]), ("b", [("p", 1)])]

/-- Two units are restocked, and one is ordered. -/
def oneOrder : List ServiceEvent :=
  [.restock "p" 2, .proceed 0 true "", .proceed 0 true "", .checkout "a" none, .proceed 1 true "", .proceed 1 true "",
    .proceed 1 true "o", .proceed 1 true "", .proceed 1 true ""]

theorem inventory_of_completed_oneOrder : (run step (shop .pg) oneOrder).reserved "p" = (run step (shop .pg) oneOrder).heldUnits "p" ∧
      (0 ≤ (run step (shop .pg) oneOrder).reserved "p" ∧
        (run step (shop .pg) oneOrder).reserved "p" ≤ (run step (shop .pg) oneOrder).onHand "p") ∧
      ((run step (shop .pg) oneOrder).onHand "p" + (run step (shop .pg) oneOrder).orderedUnits "p" =
          (run step (shop .pg) oneOrder).restockedUnits "p" ↔ (run step (shop .pg) oneOrder).movingUnits "p" = 0) := by
  refine inventory_of_completed (shop .pg).store (shop .pg).carts ?_ rfl oneOrder ?_ "p"
  · intro p
    simp only [shop, CommerceStore.getStock, OrderedMap.get]
    split <;> rfl
  · exact ⟨trivial, trivial, rfl, trivial, trivial, trivial, trivial, ⟨by rintro ⟨⟩, by rintro ⟨⟩⟩, ⟨by rintro ⟨⟩, fun _ => rfl⟩, trivial⟩

/-- The order of one checkout is not stored: the release takes the unit that the other holds. -/
theorem released_commit_counterexample :
    ¬ InventoryKept (run step (shop .memory) [.restock "p" 2, .proceed 0 true "", .proceed 0 true "", .checkout "a" none,
        .proceed 1 true "", .proceed 1 true "", .checkout "b" none, .proceed 2 true "", .proceed 2 true "",
        .proceed 1 true "o", .proceed 1 true "", .proceed 1 false "", .proceed 1 true ""]) := by
  intro h
  have hreserved := (h "p").1
  revert hreserved
  decide

end CommerceService

end StreetJS.Commerce
