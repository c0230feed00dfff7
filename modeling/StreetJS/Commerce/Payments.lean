/-
Payments over whole runs of checkouts and cancellations: every charge has its order, no cart is charged twice and no order
refunded twice, as long as nothing fails behind a charge and each cart and each order is dealt with by one call.
-/
import StreetJS.Commerce.Inventory

namespace StreetJS.Commerce

open StreetJS.Lib List OrderedMap

/-! ## The property and its condition -/

def Call.Settled : Call → Bool
  | .checkout { phase := .settled, .. } => true
  | .cancel _ .settled => true
  | .cancel _ (.aborted _) => true
  | .restock _ _ .settled => true
  | _ => false

/-- A checkout between its charge and its order. -/
def Call.Owns (paymentId : Nat) : Call → Bool
  | .checkout { phase := .committing order _ _, .. } => order.paymentId = paymentId
  | _ => false

/-- A checkout of the cart that has charged and not cleared it. -/
def Call.Charging (cartId : String) : Call → Bool
  | .checkout { cartId := cartId', phase := .committing _ _ _, .. } => cartId' = cartId
  | _ => false

/-- A cancellation that has refunded the order and not marked it. -/
def Call.Refunding (id : String) : Call → Bool
  | .cancel id' (.restocking _ _ _) => id' = id
  | .cancel id' (.aborted _) => id' = id
  | _ => false

namespace CommerceService

variable (w : CommerceService)

/-- With all calls settled, each charge belongs to one order or was refunded; no cart was charged twice and no order
refunded twice. -/
structure PaymentsMatch : Prop where
  owned : (∀ c ∈ w.calls, c.Settled = true) → ∀ paymentId < w.charges.length,
    (w.store.orders.countP fun e => e.2.paymentId = paymentId) = 1 ∨ paymentId ∈ w.refunds
  once : (w.charges.map (·.cartId)).Nodup
  refunded : ∀ e ∈ w.store.orders, w.refunds.count e.2.paymentId ≤ 1

/-- Nothing fails behind a charge, and the order is inserted under a new id; a cart that is charged is still there and
no other checkout has charged it; an order that is refunded is active, and no other cancellation has refunded it. -/
def Matched : ServiceEvent → Prop
  | .proceed i ok _ =>
    match w.calls[i]? with
    | some (.checkout { phase := .committing order _ todo, .. }) =>
      ok = true ∧ (todo = [] → w.store.orders.has order.id = false)
    | some (.checkout { cartId, phase := .charging _ _ _, .. }) =>
      ok = true → w.carts.has cartId = true ∧ ∀ c ∈ w.calls, c.Charging cartId = false
    | some (.cancel id (.refunding _)) => ok = true → w.Active id ∧ ∀ c ∈ w.calls, c.Refunding id = false
    | _ => True
  | _ => True

end CommerceService

/-! ## The invariant -/

/-- The order of a cancellation is stored, with its payment. -/
def Call.Stored (s : CommerceStore) : Call → Prop
  | .cancel id (.refunding order) => order.id = id ∧ ∃ row, s.orders.get id = some row ∧
      row.lines = order.lines ∧ row.paymentId = order.paymentId
  | .cancel id (.restocking order _ _) => order.id = id ∧ ∃ row, s.orders.get id = some row ∧
      row.lines = order.lines ∧ row.paymentId = order.paymentId
  | _ => True

theorem Call.Stored.grows {s s' : CommerceStore} {c : Call} (h : c.Stored s) (hg : ∀ id row, s.orders.get id = some row →
      ∃ row', s'.orders.get id = some row' ∧ row'.lines = row.lines ∧ row'.paymentId = row.paymentId) :
    c.Stored s' := by
  have hrow : ∀ id (order : Order), (∃ row, s.orders.get id = some row ∧ row.lines = order.lines ∧
      row.paymentId = order.paymentId) → ∃ row, s'.orders.get id = some row ∧ row.lines = order.lines ∧
      row.paymentId = order.paymentId := by
    rintro id order ⟨row, hget, hlines, hpayment⟩
    obtain ⟨row', hget', hlines', hpayment'⟩ := hg id row hget
    exact ⟨row', hget', hlines'.trans hlines, hpayment'.trans hpayment⟩
  cases c with
  | checkout c => trivial
  | restock productId quantity phase => trivial
  | cancel id phase =>
    cases phase with
    | refunding order => exact ⟨h.1, hrow id order h.2⟩
    | restocking order done todo => exact ⟨h.1, hrow id order h.2⟩
    | _ => trivial

namespace CommerceService

/-- The checkouts that a payment is with, and the orders that have it. -/
def owners (w : CommerceService) (paymentId : Nat) : Int :=
  (w.calls.map fun c => if c.Owns paymentId = true then (1 : Int) else 0).sum +
    (w.store.orders.map fun e => if decide (e.2.paymentId = paymentId) = true then (1 : Int) else 0).sum

structure Paid (w : CommerceService) : Prop where
  owners : ∀ paymentId, w.owners paymentId = if paymentId < w.charges.length then 1 else 0
  carts : ∀ charge ∈ w.charges, w.carts.has charge.cartId = true → ∃ c ∈ w.calls, c.Charging charge.cartId = true
  once : (w.charges.map (·.cartId)).Nodup
  refunds : ∀ paymentId ∈ w.refunds, ∃ id order, w.store.orders.get id = some order ∧
    order.paymentId = paymentId ∧ (order.status = .cancelled ∨ ∃ c ∈ w.calls, c.Refunding id = true)
  nodup : w.refunds.Nodup
  stored : ∀ c ∈ w.calls, c.Stored w.store
  keyed : ∀ id order, w.store.orders.get id = some order → order.id = id

variable {w w' : CommerceService} {i : Nat} {c c' : Call}

theorem owners_set (w' : CommerceService) (hc : w.calls[i]? = some c) (hcalls : w'.calls = w.calls.set i c')
    (horders : w'.store.orders = w.store.orders) (x : Nat) : w'.owners x =
      w.owners x - (if c.Owns x = true then 1 else 0) + (if c'.Owns x = true then 1 else 0) := by
  unfold CommerceService.owners
  rw [hcalls, horders, sum_map_set (fun c => if c.Owns x = true then (1 : Int) else 0) hc]
  omega

theorem Paid.still (h : Paid w) (hc : w.calls[i]? = some c) (hcalls : w'.calls = w.calls.set i c')
    (horders : w'.store.orders = w.store.orders) (hcarts : w'.carts = w.carts) (hcharges : w'.charges = w.charges)
    (hrefunds : w'.refunds = w.refunds) (howns : ∀ x, c'.Owns x = c.Owns x) (hcharging : ∀ k, c'.Charging k = c.Charging k)
    (hrefunding : ∀ id, c.Refunding id = true → c'.Refunding id = true) (hstored : c'.Stored w.store) : Paid w' where
  owners x := by
    rw [owners_set _ hc hcalls horders, howns x, hcharges, h.owners x]
    omega
  carts charge hcharge hcart := by
    rw [hcharges] at hcharge
    rw [hcarts] at hcart
    rw [hcalls]
    exact exists_mem_set hc (fun hp => (hcharging _).trans hp) (h.carts charge hcharge hcart)
  once := by
    rw [hcharges]
    exact h.once
  refunds x hx := by
    rw [hrefunds] at hx
    obtain ⟨id, order, hget, hx, hby⟩ := h.refunds x hx
    refine ⟨id, order, by rw [horders]; exact hget, hx, hby.imp_right fun hex => ?_⟩
    rw [hcalls]
    exact exists_mem_set hc (hrefunding id) hex
  nodup := by
    rw [hrefunds]
    exact h.nodup
  stored d hd := by
    have hsame : ∀ d : Call, d.Stored w.store → d.Stored w'.store := by
      intro d hd
      unfold Call.Stored at hd ⊢
      rw [horders]
      exact hd
    rw [hcalls] at hd
    rcases mem_or_eq_of_mem_set hd with hd | rfl
    · exact hsame d (h.stored d hd)
    · exact hsame _ hstored
  keyed id order ho := by
    rw [horders] at ho
    exact h.keyed id order ho

theorem Paid.charge (h : Paid w) {c : CheckoutCall} (hc : w.calls[i]? = some (.checkout c)) {cart : Cart} {discountCents : Rat}
    {couponCode : Option String} (hphase : c.phase = .charging cart discountCents couponCode)
    (hcart : w.carts.has c.cartId = true) (hother : ∀ d ∈ w.calls, d.Charging c.cartId = false) {charge : Charge}
    (hcharge : charge.cartId = c.cartId) {order : Order} (horder : order.paymentId = w.charges.length) {todo : List OrderLine}
    {held : List OrderLine} :
    Paid ((w.charged charge).setCheckout i c (.committing order [] todo) held) where
  owners x := by
    have hset := owners_set ((w.charged charge).setCheckout i c (.committing order [] todo) held) hc rfl rfl x
    have hno : (Call.checkout c).Owns x = false := by
      obtain ⟨cartId, coupon, phase, held⟩ := c
      dsimp only at hphase
      rw [hphase]
      rfl
    rw [hset, h.owners x, hno]
    show (if x < w.charges.length then (1 : Int) else 0) - (if false = true then 1 else 0) +
      (if decide (order.paymentId = x) = true then 1 else 0) = if x < (w.charges ++ [charge]).length then 1 else 0
    rw [length_append, length_singleton, horder]
    simp only [decide_eq_true_eq, Bool.false_eq_true, if_false]
    split <;> split <;> split <;> omega
  carts charge' hmem hhas := by
    rcases mem_append.1 hmem with hmem | hmem
    · refine exists_mem_set hc (fun hp => ?_) (h.carts charge' hmem hhas)
      obtain ⟨cartId, coupon, phase, held⟩ := c
      dsimp only at hphase
      rw [hphase] at hp
      cases hp
    · rw [mem_singleton.1 hmem, hcharge]
      obtain ⟨hlt, -⟩ := List.getElem?_eq_some_iff.1 hc
      exact ⟨_, mem_iff_getElem?.2 ⟨i, getElem?_set_self hlt⟩, decide_eq_true rfl⟩
  once := by
    show ((w.charges ++ [charge]).map (·.cartId)).Nodup
    rw [map_append, nodup_append]
    refine ⟨h.once, pairwise_singleton _ _, ?_⟩
    intro k hk k' hk' heq
    rw [map_singleton, mem_singleton] at hk'
    obtain ⟨charge', hmem, hk⟩ := mem_map.1 hk
    have hsame : charge'.cartId = c.cartId := by rw [hk, heq, hk', hcharge]
    obtain ⟨d, hd, hcharging⟩ := h.carts charge' hmem (by rw [hsame]; exact hcart)
    rw [hsame, hother d hd] at hcharging
    cases hcharging
  refunds x hx := by
    obtain ⟨id, order', hget, hx, hby⟩ := h.refunds x hx
    refine ⟨id, order', hget, hx, hby.imp_right fun hex => exists_mem_set hc (fun hp => ?_) hex⟩
    cases hp
  nodup := h.nodup
  stored d hd := by
    rcases mem_or_eq_of_mem_set hd with hd | rfl
    · exact h.stored d hd
    · trivial
  keyed := h.keyed

end CommerceService

namespace CommerceService

variable {w : CommerceService} {i : Nat}

theorem Paid.insert (h : Paid w) {c : CheckoutCall} (hc : w.calls[i]? = some (.checkout c)) {order : Order}
    {done : List OrderLine} (hphase : c.phase = .committing order done [])
    (hnew : w.store.orders.has order.id = false) :
    Paid (((w.withStore (w.store.setOrder order.id order)).clearCart c.cartId).setCheckout i c .settled c.held) where
  owners x := by
    have hnone : w.store.orders.get order.id = none := by
      rw [OrderedMap.has, Option.isSome_eq_false_iff, Option.isNone_iff_eq_none] at hnew
      exact hnew
    have hown : (Call.checkout c).Owns x = decide (order.paymentId = x) := by
      obtain ⟨cartId, coupon, phase, held⟩ := c
      dsimp only at hphase
      rw [hphase]
      rfl
    have horders := sum_map_set (fun o : Order => if decide (o.paymentId = x) = true then (1 : Int) else 0) w.store.orders order.id order
    rw [hnone] at horders
    have hcalls := sum_map_set (fun d : Call => if d.Owns x = true then (1 : Int) else 0) hc (.checkout { c with phase := .settled })
    have hold := h.owners x
    rw [hown] at hcalls
    unfold CommerceService.owners at hold
    show ((w.calls.set i _).map _).sum + ((w.store.orders.set order.id order).map _).sum = if x < w.charges.length then 1 else 0
    rw [horders, hcalls, ← hold]
    show _ - _ + 0 + (_ - 0 + _) = _
    omega
  carts charge hmem hhas := by
    obtain ⟨hne, hhas⟩ := has_delete.1 (show OrderedMap.has (w.carts.delete c.cartId) _ = true from hhas)
    refine exists_mem_set hc (fun hp => ?_) (h.carts charge hmem hhas)
    obtain ⟨cartId, coupon, phase, held⟩ := c
    dsimp only at hphase
    rw [hphase] at hp
    exact absurd (of_decide_eq_true hp).symm hne
  once := h.once
  refunds x hx := by
    obtain ⟨id, order', hget, hx, hby⟩ := h.refunds x hx
    refine ⟨id, order', ?_, hx, hby.imp_right fun hex => exists_mem_set hc (fun hp => ?_) hex⟩
    · show OrderedMap.get (w.store.setOrder order.id order).orders id = some order'
      rw [CommerceStore.get_setOrder, if_neg, hget]
      rintro rfl
      rw [OrderedMap.has, hget] at hnew
      cases hnew
    · cases hp
  nodup := h.nodup
  stored d hd := by
    rcases mem_or_eq_of_mem_set hd with hd | rfl
    · refine (h.stored d hd).grows fun id row hrow => ⟨row, ?_, rfl, rfl⟩
      show OrderedMap.get (w.store.setOrder order.id order).orders id = some row
      rw [CommerceStore.get_setOrder, if_neg, hrow]
      rintro rfl
      rw [OrderedMap.has, hrow] at hnew
      cases hnew
    · trivial
  keyed id order' ho := by
    have ho' : OrderedMap.get (w.store.setOrder order.id order).orders id = some order' := ho
    rw [CommerceStore.get_setOrder] at ho'
    split at ho'
    · rename_i hk
      cases ho'
      exact hk.symm
    · exact h.keyed id order' ho'

theorem Paid.order_unique (h : Paid w) {id id' : String} {order order' : Order} (ho : w.store.orders.get id = some order)
    (ho' : w.store.orders.get id' = some order') (hsame : order.paymentId = order'.paymentId) : id = id' := by
  by_contra hne
  have htwo := two_le_countP (p := fun e : String × Order => decide (e.2.paymentId = order.paymentId)) (get_mem ho)
    (get_mem ho') (fun heq => hne (congrArg Prod.fst heq)) (decide_eq_true rfl) (decide_eq_true hsame.symm)
  have hcalls := sum_map_ite (l := w.calls) (Call.Owns order.paymentId)
  have horders := sum_map_ite (l := w.store.orders) fun e => decide (e.2.paymentId = order.paymentId)
  have hold := h.owners order.paymentId
  unfold CommerceService.owners at hold
  split at hold <;> omega

theorem Paid.refund (h : Paid w) {id : String} {order : Order} (hc : w.calls[i]? = some (.cancel id (.refunding order)))
    (hactive : w.Active id) (hother : ∀ c ∈ w.calls, c.Refunding id = false) :
    Paid ((w.refunded order.paymentId).setCall i (.cancel id (.restocking order [] order.lines))) := by
  have hstored : Call.Stored w.store (.cancel id (.refunding order)) := h.stored _ (mem_of_getElem? hc)
  obtain ⟨hid, row, hrow, hlines, hpayment⟩ := hstored
  have hfirst : order.paymentId ∉ w.refunds := by
    intro hmem
    obtain ⟨id', order', ho', hpayment', hby⟩ := h.refunds _ hmem
    obtain rfl : id = id' := h.order_unique hrow ho' (hpayment.trans hpayment'.symm)
    rcases hby with hcancelled | ⟨d, hd, hrefunding⟩
    · obtain ⟨row', hrow', hstatus⟩ := hactive
      obtain rfl := Option.some.inj (ho'.symm.trans hrow')
      exact hstatus hcancelled
    · rw [hother d hd] at hrefunding
      cases hrefunding
  obtain ⟨hlt, -⟩ := List.getElem?_eq_some_iff.1 hc
  exact
    { owners := fun x => by
        have hset := owners_set ((w.refunded order.paymentId).setCall i (.cancel id (.restocking order [] order.lines))) hc rfl rfl x
        rw [hset, h.owners x]
        show (if x < w.charges.length then (1 : Int) else 0) - 0 + 0 = if x < w.charges.length then 1 else 0
        omega
      carts := fun charge hmem hhas => exists_mem_set hc (fun hp => by cases hp) (h.carts charge hmem hhas)
      once := h.once
      refunds := fun x hx => by
        rcases mem_append.1 hx with hx | hx
        · obtain ⟨id', order', hget, hx, hby⟩ := h.refunds x hx
          exact ⟨id', order', hget, hx, hby.imp_right fun hex => exists_mem_set hc (fun hp => by cases hp) hex⟩
        · rw [mem_singleton.1 hx]
          exact ⟨id, row, hrow, hpayment, .inr ⟨_, mem_iff_getElem?.2 ⟨i, getElem?_set_self hlt⟩, decide_eq_true rfl⟩⟩
      nodup := by
        show (w.refunds ++ [order.paymentId]).Nodup
        rw [nodup_append]
        refine ⟨h.nodup, pairwise_singleton _ _, ?_⟩
        rintro x hx y hy rfl
        rw [mem_singleton.1 hy] at hx
        exact hfirst hx
      stored := fun d hd => by
        rcases mem_or_eq_of_mem_set hd with hd | rfl
        · exact h.stored d hd
        · exact ⟨hid, row, hrow, hlines, hpayment⟩
      keyed := h.keyed }

end CommerceService

/-! ## A step -/

namespace CommerceService

variable {w : CommerceService} {i : Nat}

theorem Paid.mark (h : Paid w) {id : String} {order : Order} {done : List OrderLine}
    (hc : w.calls[i]? = some (.cancel id (.restocking order done []))) :
    Paid ((w.withStore (w.store.updateOrder { order with status := .cancelled })).setCall i (.cancel id .settled)) := by
  have hstored : Call.Stored w.store (.cancel id (.restocking order done [])) := h.stored _ (mem_of_getElem? hc)
  obtain ⟨rfl, row, hrow, hlines, hpayment⟩ := hstored
  obtain ⟨order', hupdate, hid', hlines', hcancelled, hpayment'⟩ :=
    CommerceStore.updateOrder_spec { order with status := .cancelled } hrow (h.keyed _ row hrow) hlines
  have hsame : order'.paymentId = row.paymentId := by
    rcases hpayment' with hp | hp
    · exact hp.trans hpayment.symm
    · exact hp
  rw [show w.store.updateOrder _ = w.store.setOrder order.id order' from hupdate]
  exact
    { owners := fun x => by
        have horders := sum_map_set (fun o : Order => if decide (o.paymentId = x) = true then (1 : Int) else 0) w.store.orders order.id order'
        rw [hrow] at horders
        have hcalls := sum_map_set (fun d : Call => if d.Owns x = true then (1 : Int) else 0) hc (.cancel order.id .settled)
        have hold := h.owners x
        unfold CommerceService.owners at hold
        show ((w.calls.set i _).map _).sum + ((w.store.orders.set order.id order').map _).sum = if x < w.charges.length then 1 else 0
        rw [horders, hcalls, ← hold, Option.map_some, Option.getD_some, hsame]
        show _ - 0 + 0 + _ = _
        omega
      carts := fun charge hmem hhas => exists_mem_set hc (fun hp => by cases hp) (h.carts charge hmem hhas)
      once := h.once
      refunds := fun x hx => by
        obtain ⟨id, refunded, hget, hx, hby⟩ := h.refunds x hx
        by_cases hid : id = order.id
        · subst hid
          obtain rfl := Option.some.inj (hrow.symm.trans hget)
          refine ⟨order.id, order', ?_, hsame.trans hx, .inl hcancelled⟩
          exact CommerceStore.get_setOrder.trans (if_pos rfl)
        · refine ⟨id, refunded, CommerceStore.get_setOrder.trans ((if_neg hid).trans hget), hx,
            hby.imp_right fun hex => exists_mem_set hc (fun hp => ?_) hex⟩
          exact absurd (of_decide_eq_true hp).symm hid
      nodup := h.nodup
      stored := fun d hd => by
        rcases mem_or_eq_of_mem_set hd with hd | rfl
        · refine (h.stored d hd).grows fun id row' hrow' => ?_
          by_cases hid : id = order.id
          · subst hid
            obtain rfl := Option.some.inj (hrow.symm.trans hrow')
            exact ⟨order', CommerceStore.get_setOrder.trans (if_pos rfl), hlines'.trans hlines.symm, hsame⟩
          · exact ⟨row', CommerceStore.get_setOrder.trans ((if_neg hid).trans hrow'), rfl, rfl⟩
        · trivial
      keyed := fun id order'' ho => by
        have hget : OrderedMap.get (w.store.setOrder order.id order').orders id = some order'' := ho
        rw [CommerceStore.get_setOrder] at hget
        split at hget
        · rename_i hk
          cases hget
          exact hid'.trans hk.symm
        · exact h.keyed id order'' hget }

theorem Paid.goOn (h : Paid w) {c : CheckoutCall} (hc : w.calls[i]? = some (.checkout c))
    (howns : ∀ x, (Call.checkout c).Owns x = false) (hcharging : ∀ k, (Call.checkout c).Charging k = false)
    {phase : CheckoutPhase} {held : List OrderLine} (howns' : ∀ x, (Call.checkout { c with phase, held }).Owns x = false)
    (hcharging' : ∀ k, (Call.checkout { c with phase, held }).Charging k = false)
    {store : CommerceStore} (horders : store.orders = w.store.orders) :
    Paid ((w.withStore store).setCheckout i c phase held) := by
  refine h.still hc rfl horders rfl rfl rfl (fun x => (howns' x).trans (howns x).symm)
    (fun k => (hcharging' k).trans (hcharging k).symm) (fun id hp => ?_) trivial
  cases hp

end CommerceService

section

variable {c : CheckoutCall} {lines todo done held : List OrderLine} {cart : Cart}

theorem outside_read {entries : List (String × Nat)} {currency : String} :
    (∀ x, (Call.checkout { c with phase := .read entries lines currency, held }).Owns x = false) ∧
      ∀ k, (Call.checkout { c with phase := .read entries lines currency, held }).Charging k = false := by
  unfold CheckoutPhase.read
  split
  · exact ⟨fun _ => rfl, fun _ => rfl⟩
  · split <;> exact ⟨fun _ => rfl, fun _ => rfl⟩

theorem outside_reserve {couponCode : Option String} :
    (∀ x, (Call.checkout { c with phase := .reserve couponCode cart done todo, held }).Owns x = false) ∧
      ∀ k, (Call.checkout { c with phase := .reserve couponCode cart done todo, held }).Charging k = false := by
  unfold CheckoutPhase.reserve
  split
  · exact ⟨fun _ => rfl, fun _ => rfl⟩
  · split <;> exact ⟨fun _ => rfl, fun _ => rfl⟩

theorem outside_compensate : (∀ x, (Call.checkout { c with phase := .compensate todo, held }).Owns x = false) ∧
      ∀ k, (Call.checkout { c with phase := .compensate todo, held }).Charging k = false := by
  unfold CheckoutPhase.compensate
  split <;> exact ⟨fun _ => rfl, fun _ => rfl⟩

theorem outside_release : (∀ x, (Call.checkout { c with phase := .release todo, held }).Owns x = false) ∧
      ∀ k, (Call.checkout { c with phase := .release todo, held }).Charging k = false := by
  unfold CheckoutPhase.release
  split <;> exact ⟨fun _ => rfl, fun _ => rfl⟩

end

namespace CommerceStore

variable {s : CommerceStore} {q : String} {n : Nat}

theorem orders_releaseStock : (s.releaseStock q n).orders = s.orders := by
  unfold releaseStock
  split <;> rfl

theorem orders_commitStock : (s.commitStock q n).orders = s.orders := by
  unfold commitStock
  split <;> rfl

theorem orders_reserveStock {s' : CommerceStore} {reserved : Bool} (h : s.reserveStock q n = (s', reserved)) : s'.orders = s.orders := by
  cases reserved with
  | true => exact (reserveStock_spec h).2.2.orders
  | false => rw [reserveStock_fst h]

theorem orders_restock {s' : CommerceStore} (h : s.restock q n = some s') : s'.orders = s.orders := by
  unfold restock at h
  split at h <;> cases h <;> rfl

end CommerceStore

namespace CommerceService

variable {w : CommerceService} {i : Nat}

theorem Paid.proceedCheckout (h : Paid w) {c : CheckoutCall} (hc : w.calls[i]? = some (.checkout c)) {ok : Bool} {newId : String}
    (hg : w.Matched (.proceed i ok newId)) : Paid (w.proceedCheckout i c ok newId) := by
  unfold Matched at hg
  dsimp only at hg
  rw [hc] at hg
  have hsettled : (∀ x, (Call.checkout c).Owns x = false) → (∀ k, (Call.checkout c).Charging k = false) →
      Paid (w.setCheckout i c .settled c.held) :=
    fun howns hcharging => h.goOn hc howns hcharging (fun _ => rfl) (fun _ => rfl) rfl
  obtain ⟨cartId, couponCode, phase, held⟩ := c
  unfold CommerceService.proceedCheckout
  cases phase with
  | reading todo lines currency =>
    cases todo with
    | nil => exact hsettled (fun _ => rfl) fun _ => rfl
    | cons entry todo =>
      cases ok with
      | false => exact hsettled (fun _ => rfl) fun _ => rfl
      | true =>
        dsimp only
        cases w.store.products.get entry.1 with
        | some p => exact h.goOn hc (fun _ => rfl) (fun _ => rfl) outside_read.1 outside_read.2 rfl
        | none => exact h.goOn hc (fun _ => rfl) (fun _ => rfl) outside_read.1 outside_read.2 rfl
  | reserving cart done todo =>
    cases todo with
    | nil => exact hsettled (fun _ => rfl) fun _ => rfl
    | cons line todo =>
      cases ok with
      | false => exact hsettled (fun _ => rfl) fun _ => rfl
      | true =>
        dsimp only
        cases hstore : w.store.reserveStock line.productId line.quantity with
        | mk store reserved =>
          cases reserved with
          | true =>
            exact h.goOn hc (fun _ => rfl) (fun _ => rfl) outside_reserve.1 outside_reserve.2 (CommerceStore.orders_reserveStock hstore)
          | false => exact h.goOn hc (fun _ => rfl) (fun _ => rfl) outside_compensate.1 outside_compensate.2 rfl
  | compensating todo =>
    cases todo with
    | nil => exact hsettled (fun _ => rfl) fun _ => rfl
    | cons line todo =>
      cases ok with
      | false => exact hsettled (fun _ => rfl) fun _ => rfl
      | true =>
        exact h.goOn hc (fun _ => rfl) (fun _ => rfl) outside_compensate.1 outside_compensate.2 CommerceStore.orders_releaseStock
  | availability => exact hsettled (fun _ => rfl) fun _ => rfl
  | applying cart code =>
    have hrelease : Paid (w.setCheckout i { cartId, couponCode, phase := .applying cart code, held } (.release cart.lines) held) :=
      h.goOn hc (fun _ => rfl) (fun _ => rfl) outside_release.1 outside_release.2 rfl
    cases ok with
    | false => exact hrelease
    | true =>
      dsimp only
      cases w.store.applyCoupon cart.subtotalCents code with
      | some discountCents => exact h.goOn hc (fun _ => rfl) (fun _ => rfl) (fun _ => rfl) (fun _ => rfl) rfl
      | none => exact hrelease
  | charging cart discountCents coupon =>
    cases ok with
    | false => exact h.goOn hc (fun _ => rfl) (fun _ => rfl) outside_release.1 outside_release.2 rfl
    | true =>
      obtain ⟨hcart, hother⟩ := hg rfl
      exact h.charge hc rfl hcart hother rfl rfl
  | committing order done todo =>
    -- nothing fails behind the charge
    obtain ⟨rfl, hnew⟩ := hg
    cases todo with
    | cons line todo =>
      exact h.still hc rfl CommerceStore.orders_commitStock rfl rfl rfl (fun _ => rfl) (fun _ => rfl) (fun _ hp => by cases hp) trivial
    | nil =>
      dsimp only
      rw [CommerceStore.insertOrder_new (hnew rfl)]
      exact h.insert hc rfl (hnew rfl)
  | releasing todo =>
    cases todo with
    | nil => exact hsettled (fun _ => rfl) fun _ => rfl
    | cons line todo =>
      cases ok with
      | false => exact hsettled (fun _ => rfl) fun _ => rfl
      | true =>
        exact h.goOn hc (fun _ => rfl) (fun _ => rfl) outside_release.1 outside_release.2 CommerceStore.orders_releaseStock
  | settled => exact hsettled (fun _ => rfl) fun _ => rfl

theorem Paid.proceedCancel (h : Paid w) {id : String} {phase : CancelPhase} (hc : w.calls[i]? = some (.cancel id phase)) {ok : Bool}
    {newId : String} (hg : w.Matched (.proceed i ok newId)) : Paid (w.proceedCancel i id phase ok) := by
  have hstored : Call.Stored w.store (.cancel id phase) := h.stored _ (mem_of_getElem? hc)
  unfold Matched at hg
  dsimp only at hg
  rw [hc] at hg
  -- a step that refunds nothing and does not touch the orders
  have hstill : ∀ (store : CommerceStore) {phase' : CancelPhase}, store.orders = w.store.orders →
      (∀ id', (Call.cancel id phase).Refunding id' = true → (Call.cancel id phase').Refunding id' = true) →
      Call.Stored w.store (.cancel id phase') → Paid ((w.withStore store).setCall i (.cancel id phase')) := by
    intro store phase' horders hrefunding hst
    exact h.still hc rfl horders rfl rfl rfl (fun _ => rfl) (fun _ => rfl) hrefunding hst
  unfold CommerceService.proceedCancel
  cases phase with
  | reading =>
    cases ok with
    | false => exact hstill w.store rfl (fun _ hp => by cases hp) trivial
    | true =>
      cases hrow : w.store.orders.get id with
      | none => exact hstill w.store rfl (fun _ hp => by cases hp) trivial
      | some order =>
        refine hstill w.store rfl (fun _ hp => by cases hp) ?_
        split
        · trivial
        · exact ⟨h.keyed id order hrow, order, hrow, rfl, rfl⟩
  | refunding order =>
    cases ok with
    | false => exact hstill w.store rfl (fun _ hp => by cases hp) trivial
    | true =>
      obtain ⟨hactive, hother⟩ := hg rfl
      exact h.refund hc hactive hother
  | restocking order done todo =>
    cases ok with
    | false => cases todo <;> exact hstill w.store rfl (fun _ hp => hp) trivial
    | true =>
      cases todo with
      | nil => exact h.mark hc
      | cons line todo =>
        dsimp only
        cases hstore : w.store.restock line.productId line.quantity with
        | none => exact hstill w.store rfl (fun _ hp => hp) trivial
        | some store => exact hstill store (CommerceStore.orders_restock hstore) (fun _ hp => hp) hstored
  | aborted order => exact h
  | settled => exact hstill w.store rfl (fun _ hp => by cases hp) trivial

theorem Paid.proceedRestock (h : Paid w) {productId : String} {quantity : Nat} {phase : RestockPhase}
    (hc : w.calls[i]? = some (.restock productId quantity phase)) {ok : Bool} : Paid (w.proceedRestock i productId quantity phase ok) := by
  have hstill : ∀ phase', Paid (w.setCall i (.restock productId quantity phase')) :=
    fun phase' => h.still hc rfl rfl rfl rfl rfl (fun _ => rfl) (fun _ => rfl) (fun _ hp => by cases hp) trivial
  unfold CommerceService.proceedRestock
  cases phase with
  | requiring => cases ok <;> exact hstill _
  | restocking =>
    cases ok with
    | false => exact hstill _
    | true =>
      cases hstore : w.store.restock productId quantity with
      | none => exact hstill _
      | some store =>
        exact h.still hc rfl (CommerceStore.orders_restock hstore) rfl rfl rfl (fun _ => rfl) (fun _ => rfl) (fun _ hp => by cases hp) trivial
  | reading => cases ok <;> exact hstill _
  | settled => cases ok <;> exact hstill _

theorem Paid.call (h : Paid w) {c : Call} (howns : ∀ x, c.Owns x = false) (hstored : c.Stored w.store) :
    Paid { w with calls := w.calls ++ [c] } where
  owners x := by
    have hold := h.owners x
    unfold CommerceService.owners at hold ⊢
    dsimp only
    rw [map_append, sum_append, map_singleton, sum_singleton, howns x, ← hold]
    show _ + 0 + _ = _
    omega
  carts charge hmem hhas := by
    obtain ⟨d, hd, hp⟩ := h.carts charge hmem hhas
    exact ⟨d, mem_append_left _ hd, hp⟩
  once := h.once
  refunds x hx := by
    obtain ⟨id, order, hget, hx, hby⟩ := h.refunds x hx
    refine ⟨id, order, hget, hx, hby.imp_right fun hex => ?_⟩
    obtain ⟨d, hd, hp⟩ := hex
    exact ⟨d, mem_append_left _ hd, hp⟩
  nodup := h.nodup
  stored d hd := by
    rcases mem_append.1 hd with hd | hd
    · exact h.stored d hd
    · rw [mem_singleton.1 hd]
      exact hstored
  keyed := h.keyed

theorem Paid.step (h : Paid w) {ev : ServiceEvent} (hg : w.Matched ev) : Paid (w.step ev) := by
  cases ev with
  | checkout cartId couponCode =>
    refine h.call ?_ trivial
    intro x
    split
    · rfl
    · exact (outside_read (c := { cartId, couponCode, phase := .settled })).1 x
  | cancelOrder id =>
    refine h.call (fun _ => rfl) ?_
    split <;> trivial
  | restock productId quantity => exact h.call (fun _ => rfl) trivial
  | proceed i ok newId =>
    unfold CommerceService.step
    dsimp only
    cases hc : w.calls[i]? with
    | none => exact h
    | some c =>
      cases c with
      | checkout c => exact h.proceedCheckout hc hg
      | cancel id phase => exact h.proceedCancel hc hg
      | restock productId quantity phase => exact h.proceedRestock hc

/-! ## Runs -/

theorem paid_start {store : CommerceStore} (horders : store.orders = []) (carts : OrderedMap String (OrderedMap String Nat)) :
    Paid { store, carts } where
  owners x := by
    show 0 + (store.orders.map _).sum = if x < 0 then (1 : Int) else 0
    rw [horders]
    rfl
  carts charge hmem := absurd hmem not_mem_nil
  once := nodup_nil
  refunds x hx := absurd hx not_mem_nil
  nodup := nodup_nil
  stored c hc := absurd hc not_mem_nil
  keyed id order ho := by
    have hnone : store.orders.get id = none := by
      rw [horders]
      rfl
    rw [hnone] at ho
    cases ho

theorem Paid.payments (h : Paid w) : w.PaymentsMatch where
  owned hsettled x hx := by
    left
    have hcalls := sum_map_ite (l := w.calls) (Call.Owns x)
    have horders := sum_map_ite (l := w.store.orders) fun e => decide (e.2.paymentId = x)
    have hnone : w.calls.countP (Call.Owns x) = 0 := by
      rw [countP_eq_zero]
      rintro c hc howns
      have hs := hsettled c hc
      cases c with
      | checkout c =>
        obtain ⟨cartId, couponCode, phase, held⟩ := c
        cases phase <;> first | cases howns | cases hs
      | cancel id phase => cases howns
      | restock productId quantity phase => cases howns
    have hold := h.owners x
    unfold CommerceService.owners at hold
    omega
  once := h.once
  refunded e _ := nodup_iff_count_le_one.1 h.nodup _

/-- For every store without orders, all carts, and every interleaving of checkouts, cancellations and restocks whose
steps are matched: in every state no cart was charged twice and no order refunded twice, and once all calls have settled
each charge belongs to one order. -/
theorem payments_of_matched (store : CommerceStore) (carts : OrderedMap String (OrderedMap String Nat))
    (horders : store.orders = []) (evs : List ServiceEvent) (hg : Guarded step Matched { store, carts } evs) :
    PaymentsMatch (run step { store, carts } evs) :=
  (run_invariant_of_guarded step (fun _ _ h hg => h.step hg) evs hg (paid_start horders carts)).payments

end CommerceService

namespace CommerceService

/-- An order is paid and cancelled. -/
theorem payments_of_matched_cancelled :
    PaymentsMatch (run step (shop .pg) (oneOrder ++ [.cancelOrder "o", .proceed 2 true "", .proceed 2 true "",
      .proceed 2 true "", .proceed 2 true ""])) := by
  refine payments_of_matched (shop .pg).store (shop .pg).carts rfl _ ?_
  refine ⟨trivial, trivial, trivial, trivial, trivial, trivial, fun _ => ⟨rfl, by decide⟩, ⟨rfl, nofun⟩,
    ⟨rfl, fun _ => rfl⟩, trivial, trivial, fun _ => ⟨⟨_, rfl, by decide⟩, by decide⟩, trivial, trivial, trivial⟩

/-- Two cancellations read the order before either refunds it; two checkouts read the cart before either charges it; and
an order is not stored behind its charge. -/
theorem duplicate_payments_counterexample :
    ¬ PaymentsMatch (run step (shop .memory) (oneOrder ++ [.cancelOrder "o", .cancelOrder "o", .proceed 2 true "",
        .proceed 3 true "", .proceed 2 true "", .proceed 3 true ""])) ∧
      ¬ PaymentsMatch (run step (shop .memory) [.restock "p" 2, .proceed 0 true "", .proceed 0 true "", .checkout "a" none,
        .checkout "a" none, .proceed 1 true "", .proceed 2 true "", .proceed 1 true "", .proceed 2 true "",
        .proceed 1 true "o", .proceed 2 true "o2"]) ∧
      ¬ PaymentsMatch (run step (shop .memory) [.restock "p" 2, .proceed 0 true "", .proceed 0 true "", .proceed 0 true "",
        .checkout "a" none, .proceed 1 true "", .proceed 1 true "", .proceed 1 true "o", .proceed 1 true "",
        .proceed 1 false "", .proceed 1 true ""]) := by
  refine ⟨fun h => ?_, fun h => ?_, fun h => ?_⟩
  · have hcount := h.refunded
    revert hcount
    decide
  · have honce := h.once
    revert honce
    decide
  · have howned := h.owned (by decide) 0 (by decide)
    revert howned
    decide

end CommerceService

end StreetJS.Commerce
