/-
Subscription billing. While every call that goes on to write or to charge has a current copy, and a renewal is
charged for when its period has ended and no other renewal of the subscription is being paid, each period is paid
for once, no cancellation is lost and the seats are counted.
-/
import StreetJS.Subscriptions.Service
import StreetJS.Lib.ListSet

namespace StreetJS.Subscriptions

open StreetJS.Lib List
open Option (map_some some.inj)
open Prod (fst mk.inj)
open Calendar (firstOfMonth monthOf yearStart)

/-! ## Later dates -/

/-- **A billing interval is not empty.** -/
theorem lt_addInterval (epochMs : Int) (interval : BillingInterval) : epochMs < addInterval epochMs interval := by
  unfold addInterval
  dsimp only
  set month := monthOf (epochMs / dayMs + yearStart 1970)
  have hlater : firstOfMonth month < firstOfMonth (month + months interval) := by
    cases interval with
    | month => exact Calendar.firstOfMonth_lt_add month 0
    | year => exact Calendar.firstOfMonth_lt_add month 11
  set first := firstOfMonth month
  set next := firstOfMonth (month + months interval)
  have hday : (0 : Int) < dayMs := by decide
  have hsplit := Int.mul_ediv_add_emod epochMs dayMs
  have hmul : (epochMs / dayMs) * dayMs < (epochMs / dayMs + (next - first)) * dayMs :=
    Int.mul_lt_mul_of_pos_right (by omega) hday
  have heq : next + (epochMs / dayMs + yearStart 1970 - first) - yearStart 1970 = epochMs / dayMs + (next - first) := by omega
  rw [heq]
  rw [Int.mul_comm] at hsplit
  omega

/-- The month after 31 January 2023 ends on 3 March. -/
example : addInterval 1675123200000 .month = 1677801600000 := by decide +kernel

/-! ## What the service promises -/

structure Billing (w : World) : Prop where
  once : (w.charges.map fun ch => (ch.reference, ch.period)).Nodup
  due : ∀ ch ∈ w.charges, ch.period ≤ ch.askedAt
  absorbing : ∀ id ∈ w.everCanceled, ∃ sub, w.subs.get id = some sub ∧ sub.status = .canceled
  kept : ∀ entry ∈ w.cancellations, ∃ sub, w.subs.get entry.1 = some sub ∧
    (sub.status = .canceled ∨ entry.2 = false ∧ sub.cancelAtPeriodEnd = true)
  seats : ∀ id sub, w.subs.get id = some sub → sub.usedSeats + w.seatChanges.count (id, .released) = w.seatChanges.count (id, .assigned)
  allowance : ∀ id sub n, w.subs.get id = some sub → sub.seats = some n → sub.usedSeats ≤ n

/-! ## The condition -/

/-- The subscription of which a renewal is being paid, or has been and is not written. -/
def Phase.renewal : Phase → Option Subscription
  | .renewing sub _ _ => some sub
  | .renewed sub _ (.ok _) => some sub
  | _ => none

/-- The copy is what the store holds. -/
def Current (w : World) (sub : Subscription) : Prop := w.subs.get sub.id = some sub

/-- A renewal that is to be charged for. -/
def Due (w : World) (sub : Subscription) : Prop :=
  sub.cancelAtPeriodEnd = false → sub.currentPeriodEnd ≤ w.now ∧ ∀ c ∈ w.calls, ∀ other, c.phase.renewal = some other → other.id ≠ sub.id

def GoesOn (w : World) (c : Call) : Prop :=
  match c.phase, c.operation with
  | .loading (some sub), .cancel _ _ => Current w sub
  | .loading (some sub), .assignSeat _ => Current w sub
  | .loading (some sub), .releaseSeat _ => Current w sub
  | .planning sub _, .renew _ => Current w sub ∧ Due w sub
  | .planning sub _, .changePlan _ _ => Current w sub
  | .renewed sub _ _, _ => Current w sub
  | _, _ => True

def Orderly (w : World) : Event → Prop
  | .proceed i => ∀ c, w.calls[i]? = some c → GoesOn w c
  | _ => True

instance (w : World) (sub : Subscription) : Decidable (Current w sub) := inferInstanceAs (Decidable (_ = _))

instance (w : World) (sub : Subscription) : Decidable (Due w sub) :=
  decidable_of_iff (sub.cancelAtPeriodEnd = false →
    sub.currentPeriodEnd ≤ w.now ∧ ∀ c ∈ w.calls, c.phase.renewal.map Subscription.id ≠ some sub.id) <| by
    refine imp_congr_right fun _ => and_congr_right fun _ => forall₂_congr fun c _ => ?_
    cases c.phase.renewal with
    | none => exact ⟨(fun _ other heq => nomatch heq), (fun _ heq => nomatch heq)⟩
    | some sub' =>
      constructor
      · rintro hne other heq hid
        cases heq
        exact hne (congrArg some hid)
      · exact fun h heq => h sub' rfl (some.inj heq)

instance (w : World) (c : Call) : Decidable (GoesOn w c) := by
  unfold GoesOn
  split <;> infer_instance

instance (w : World) (e : Event) : Decidable (Orderly w e) :=
  match e with
  | .proceed i =>
    match h : w.calls[i]? with
    | some c =>
      decidable_of_iff (GoesOn w c) ⟨fun hgo _ hc => some.inj (h.symm.trans hc) ▸ hgo, fun hgo => hgo c h⟩
    | none => .isTrue fun _ hc => nomatch h.symm.trans hc
  | .setPlan _ => .isTrue trivial
  | .clock _ => .isTrue trivial
  | .start _ => .isTrue trivial
  | .charge _ _ => .isTrue trivial

/-! ## The invariant -/

/-- The subscription that is being set up, and the start of its first period. -/
def Phase.newcomer : Phase → Option (Nat × Int)
  | .charging _ _ id start => some (id, start)
  | .charged _ _ id start _ => some (id, start)
  | _ => none

/-- The period that was paid for and is not written. -/
def Phase.paid : Phase → Option (Nat × Int)
  | .charged _ _ id start (.ok _) => some (id, start)
  | .renewed sub _ (.ok _) => some (sub.id, sub.currentPeriodEnd)
  | _ => none

/-- The copy of a subscription that was not canceled. -/
def Phase.living : Phase → Option Subscription
  | .planning sub _ => some sub
  | .renewing sub _ _ => some sub
  | .renewed sub _ _ => some sub
  | _ => none

structure Inv (w : World) : Prop where
  billing : Billing w
  keyed : ∀ id sub, w.subs.get id = some sub → sub.id = id ∧ id < w.nextId
  newcomers : ∀ c ∈ w.calls, ∀ id start, c.phase.newcomer = some (id, start) → id < w.nextId ∧ w.subs.get id = none
  newcomersApart : ∀ (i j : Nat) c c' id start start', w.calls[i]? = some c → w.calls[j]? = some c' →
    c.phase.newcomer = some (id, start) → c'.phase.newcomer = some (id, start') → i = j
  renewals : ∀ c ∈ w.calls, ∀ sub, c.phase.renewal = some sub →
    ∃ stored, w.subs.get sub.id = some stored ∧ stored.currentPeriodEnd = sub.currentPeriodEnd
  renewalsApart : ∀ (i j : Nat) c c' sub sub', w.calls[i]? = some c → w.calls[j]? = some c' →
    c.phase.renewal = some sub → c'.phase.renewal = some sub' → sub.id = sub'.id → i = j
  asked : ∀ c ∈ w.calls, ∀ sub plan askedAt, c.phase = .renewing sub plan askedAt → sub.currentPeriodEnd ≤ askedAt
  living : ∀ c ∈ w.calls, ∀ sub, c.phase.living = some sub → sub.status ≠ .canceled
  references : ∀ ch ∈ w.charges, ch.reference < w.nextId
  changes : ∀ entry ∈ w.seatChanges, w.subs.get entry.1 ≠ none
  paid : ∀ ch ∈ w.charges, (∃ sub, w.subs.get ch.reference = some sub ∧ ch.period < sub.currentPeriodEnd) ∨
      ∃ c ∈ w.calls, c.phase.paid = some (ch.reference, ch.period)

theorem not_get_initial {id : Nat} {sub : Subscription} : initial.subs.get id ≠ some sub := by
  intro hs
  have hnone : (none : Option Subscription) = some sub := hs
  cases hnone

theorem inv_initial : Inv initial := by
  have hcalls : ∀ (i : Nat) c, initial.calls[i]? ≠ some c := fun i c hc => by cases hc
  refine ⟨⟨nodup_nil, ?_, ?_, ?_, ?_, ?_⟩, ?_, ?_, ?_, ?_, ?_, ?_, ?_, ?_, ?_, ?_⟩
  · exact fun ch hch => absurd hch not_mem_nil
  · exact fun id hid => absurd hid not_mem_nil
  · exact fun entry hentry => absurd hentry not_mem_nil
  · exact fun id sub hs => absurd hs not_get_initial
  · exact fun id sub n hs => absurd hs not_get_initial
  · exact fun id sub hs => absurd hs not_get_initial
  · exact fun c hc => absurd hc not_mem_nil
  · exact fun i j c c' id start start' hc => absurd hc (hcalls i c)
  · exact fun c hc => absurd hc not_mem_nil
  · exact fun i j c c' sub sub' hc => absurd hc (hcalls i c)
  · exact fun c hc => absurd hc not_mem_nil
  · exact fun c hc => absurd hc not_mem_nil
  · exact fun ch hch => absurd hch not_mem_nil
  · exact fun entry hentry => absurd hentry not_mem_nil
  · exact fun ch hch => absurd hch not_mem_nil

namespace Inv

variable {w : World} {i : Nat} {c : Call}

theorem forall_set {P : Call → Prop} {calls : List Call} {c' : Call} (h : ∀ c ∈ calls, P c) (hnew : P c') : ∀ c ∈ calls.set i c', P c := by
  intro d hd
  rcases mem_or_eq_of_mem_set hd with hold | rfl
  · exact h d hold
  · exact hnew

/-! ### A call comes to its next phase -/

/-- What a call may come to: a newcomer and a renewal of its own, and a payment that was made stays. -/
structure Reach (w : World) (i : Nat) (c : Call) (phase : Phase) : Prop where
  newcomer : ∀ id start, phase.newcomer = some (id, start) → (id < w.nextId ∧ w.subs.get id = none) ∧
    ∀ (j : Nat) d start', w.calls[j]? = some d → d.phase.newcomer = some (id, start') → j = i
  renewal : ∀ sub, phase.renewal = some sub → (∃ stored, w.subs.get sub.id = some stored ∧ stored.currentPeriodEnd = sub.currentPeriodEnd) ∧
      ∀ (j : Nat) d other, w.calls[j]? = some d → d.phase.renewal = some other → other.id = sub.id → j = i
  asked : ∀ sub plan askedAt, phase = .renewing sub plan askedAt → sub.currentPeriodEnd ≤ askedAt
  living : ∀ sub, phase.living = some sub → sub.status ≠ .canceled
  paid : ∀ r p, c.phase.paid = some (r, p) → phase.paid = some (r, p)

theorem unpaid {phase : Phase} {P : Prop} {r : Nat} {p : Int} (hpaid : phase.paid = none) (hpays : phase.paid = some (r, p)) : P := by
  rw [hpaid] at hpays
  cases hpays

theorem setPhase (h : Inv w) (hc : w.calls[i]? = some c) {phase : Phase} (hr : Reach w i c phase) : Inv (w.setCall i c phase) where
  billing := { h.billing with }
  keyed := h.keyed
  newcomers := forall_set h.newcomers fun id start hnew => (hr.newcomer id start hnew).1
  newcomersApart := by
    intro j k d d' id start start' hd hd' hnew hnew'
    refine apart_set (R := fun d d' => d.phase.newcomer = some (id, start) ∧ d'.phase.newcomer = some (id, start'))
      (fun j k d d' hd hd' hR => h.newcomersApart j k d d' id start start' hd hd' hR.1 hR.2) ?_ ?_ hd hd' ⟨hnew, hnew'⟩
    · exact fun j d hd hR => (hr.newcomer id start' hR.2).2 j d start hd hR.1
    · exact fun j d hd hR => (hr.newcomer id start hR.1).2 j d start' hd hR.2
  renewals := forall_set h.renewals fun sub hrenewal => (hr.renewal sub hrenewal).1
  renewalsApart := by
    intro j k d d' sub sub' hd hd' hrenewal hrenewal' hid
    refine apart_set (R := fun d d' => d.phase.renewal = some sub ∧ d'.phase.renewal = some sub')
      (fun j k d d' hd hd' hR => h.renewalsApart j k d d' sub sub' hd hd' hR.1 hR.2 hid) ?_ ?_ hd hd'
      ⟨hrenewal, hrenewal'⟩
    · exact fun j d hd hR => (hr.renewal sub' hR.2).2 j d sub hd hR.1 hid
    · exact fun j d hd hR => (hr.renewal sub hR.1).2 j d sub' hd hR.2 hid.symm
  asked := forall_set h.asked hr.asked
  living := forall_set h.living hr.living
  references := h.references
  changes := h.changes
  paid := fun ch hch => (h.paid ch hch).imp_right fun hex => exists_mem_set hc (hr.paid _ _) hex

theorem goOn (h : Inv w) (hc : w.calls[i]? = some c) {phase : Phase} (hpaid : c.phase.paid = none)
    (hnewcomer : phase.newcomer = none) (hrenewal : phase.renewal = none)
    (hliving : ∀ sub, phase.living = some sub → sub.status ≠ .canceled) : Inv (w.setCall i c phase) := by
  refine h.setPhase hc ⟨fun id start heq => (nomatch hnewcomer.symm.trans heq),
    fun sub heq => (nomatch hrenewal.symm.trans heq), fun sub plan askedAt heq => ?_, hliving,
    fun r p => unpaid hpaid⟩
  rw [heq] at hrenewal
  cases hrenewal

theorem finish (h : Inv w) (hc : w.calls[i]? = some c) (hpaid : c.phase.paid = none)
    (result : Except SubscriptionError Subscription) : Inv (w.finish i c result) :=
  h.goOn hc hpaid rfl rfl nofun

/-! ### A current copy is written -/

theorem count_concat_of_ne {entry entry' : Nat × SeatChange} (hne : entry' ≠ entry) (log : List (Nat × SeatChange)) :
    (log ++ [entry]).count entry' = log.count entry' := by
  have hzero : [entry].count entry' = 0 := List.count_eq_zero.2 fun hmem => hne (mem_singleton.1 hmem)
  rw [count_append, hzero, Nat.add_zero]

theorem count_concat_self (entry : Nat × SeatChange) (log : List (Nat × SeatChange)) :
    (log ++ [entry]).count entry = log.count entry + 1 := by
  rw [count_append, count_singleton_self]

theorem mem_concat_changes {id : Nat} {change : SeatChange} {log : List (Nat × SeatChange)} :
    ∀ entry ∈ log ++ [(id, change)], entry ∈ log ∨ entry.1 = id := by
  intro entry hentry
  rcases mem_append.1 hentry with hentry | hentry
  · exact .inl hentry
  · exact .inr (congrArg fst (mem_singleton.1 hentry))

/-- What a write may make of a subscription, or of a new one: it stays canceled, its end is not put back, and the
seats are counted. -/
structure Update (w : World) (i : Nat) (c : Call) (sub : Subscription) (cancellations : List (Nat × Bool))
    (seatChanges : List (Nat × SeatChange)) : Prop where
  lt : sub.id < w.nextId
  newcomer : ∀ (j : Nat) d start, w.calls[j]? = some d → d.phase.newcomer = some (sub.id, start) → j = i
  renewal : ∀ (j : Nat) d other, w.calls[j]? = some d → d.phase.renewal = some other → other.id = sub.id →
    j = i ∨ sub.currentPeriodEnd = other.currentPeriodEnd
  paid : ∀ r p, c.phase.paid = some (r, p) → r = sub.id ∧ p < sub.currentPeriodEnd
  later : ∀ old, w.subs.get sub.id = some old → old.currentPeriodEnd ≤ sub.currentPeriodEnd
  canceled : ∀ old, w.subs.get sub.id = some old → old.status = .canceled → sub.status = .canceled
  cancels : ∀ old, w.subs.get sub.id = some old → old.cancelAtPeriodEnd = true → sub.cancelAtPeriodEnd = true ∨ sub.status = .canceled
  kept : ∀ entry ∈ cancellations, entry ∈ w.cancellations ∨
    entry.1 = sub.id ∧ (sub.status = .canceled ∨ entry.2 = false ∧ sub.cancelAtPeriodEnd = true)
  counted : sub.usedSeats + seatChanges.count (sub.id, .released) = seatChanges.count (sub.id, .assigned)
  others : ∀ id change, id ≠ sub.id → seatChanges.count (id, change) = w.seatChanges.count (id, change)
  changes : ∀ entry ∈ seatChanges, entry ∈ w.seatChanges ∨ entry.1 = sub.id
  allowance : ∀ n, sub.seats = some n → sub.usedSeats ≤ n

variable {sub : Subscription}

theorem update (h : Inv w) (hc : w.calls[i]? = some c) {cancellations : List (Nat × Bool)}
    {seatChanges : List (Nat × SeatChange)} (hu : Update w i c sub cancellations seatChanges) :
    Inv { w.write i c sub with cancellations := cancellations, seatChanges := seatChanges } := by
  have hget : ∀ id, (w.subs.set sub.id sub).get id = if id = sub.id then some sub else w.subs.get id :=
    fun id => OrderedMap.get_set _ _ _ _
  have hnew : ∀ id stored, (w.subs.set sub.id sub).get id = some stored →
      id = sub.id ∧ stored = sub ∨ id ≠ sub.id ∧ w.subs.get id = some stored := by
    intro id stored hs
    rw [hget] at hs
    split at hs
    · next heq => exact .inl ⟨heq, (some.inj hs).symm⟩
    · next hne => exact .inr ⟨hne, hs⟩
  -- what is known of a subscription that was stored is known of the one that is stored now
  have hkeep : ∀ (P : Subscription → Prop) id, (∃ stored, w.subs.get id = some stored ∧ P stored) →
      (∀ old, id = sub.id → w.subs.get sub.id = some old → P old → P sub) →
      ∃ stored, (w.subs.set sub.id sub).get id = some stored ∧ P stored := by
    rintro P id ⟨stored, hs, hP⟩ hold
    rw [hget]
    split
    · next heq => exact ⟨sub, rfl, hold stored heq (heq ▸ hs) hP⟩
    · exact ⟨stored, hs, hP⟩
  refine ⟨⟨?once, ?due, ?absorbing, ?kept, ?seats, ?allowance⟩, ?keyed, ?newcomers, ?newcomersApart, ?renewals,
    ?renewalsApart, ?asked, ?living, ?references, ?changes, ?paid⟩
  case once => exact h.billing.once
  case due => exact h.billing.due
  case absorbing =>
    intro id hid
    have hid' : id ∈ (w.store sub).everCanceled := hid
    have hold := fun hid => hkeep _ id (h.billing.absorbing id hid) fun old _ => hu.canceled old
    unfold World.store at hid'
    split at hid'
    · next hstatus =>
      rcases mem_append.1 hid' with hid' | hid'
      · exact hold hid'
      · rw [mem_singleton.1 hid']
        exact ⟨sub, (hget _).trans (if_pos rfl), hstatus⟩
    · exact hold hid'
  case kept =>
    intro entry hentry
    rcases hu.kept entry hentry with hold | ⟨hid, hcanceled⟩
    · refine hkeep _ entry.1 (h.billing.kept entry hold) fun old _ hs hstatus => ?_
      rcases hstatus with hstatus | ⟨hlater, hcancels⟩
      · exact .inl (hu.canceled old hs hstatus)
      · exact (hu.cancels old hs hcancels).symm.imp_right fun hc => ⟨hlater, hc⟩
    · exact ⟨sub, (hget _).trans (if_pos hid), hcanceled⟩
  case seats =>
    intro id stored hs
    rcases hnew id stored hs with ⟨rfl, rfl⟩ | ⟨hne, hs⟩
    · exact hu.counted
    · have hseats := h.billing.seats id stored hs
      rw [← hu.others id _ hne, ← hu.others id _ hne] at hseats
      exact hseats
  case allowance =>
    intro id stored n hs
    rcases hnew id stored hs with ⟨-, rfl⟩ | ⟨-, hs⟩
    · exact hu.allowance n
    · exact h.billing.allowance id stored n hs
  case keyed =>
    intro id stored hs
    rcases hnew id stored hs with ⟨rfl, rfl⟩ | ⟨-, hs⟩
    · exact ⟨rfl, hu.lt⟩
    · exact h.keyed id stored hs
  case newcomers =>
    intro d hd id start hnewcomer
    obtain ⟨j, hj⟩ := getElem?_of_mem hd
    rcases getElem?_set_cases hj with ⟨-, rfl⟩ | ⟨hne, hj⟩
    · cases hnewcomer
    obtain ⟨hlt, hnone⟩ := h.newcomers d (mem_of_getElem? hj) id start hnewcomer
    refine ⟨hlt, (hget id).trans ?_⟩
    rw [if_neg, hnone]
    rintro rfl
    exact hne (hu.newcomer j d start hj hnewcomer)
  case newcomersApart =>
    intro j k d d' id start start' hd hd' hnew hnew'
    rcases getElem?_set_cases hd with ⟨-, rfl⟩ | ⟨-, hd⟩
    · cases hnew
    rcases getElem?_set_cases hd' with ⟨-, rfl⟩ | ⟨-, hd'⟩
    · cases hnew'
    exact h.newcomersApart j k d d' id start start' hd hd' hnew hnew'
  case renewals =>
    intro d hd other hrenewal
    obtain ⟨j, hj⟩ := getElem?_of_mem hd
    rcases getElem?_set_cases hj with ⟨-, rfl⟩ | ⟨hne, hj⟩
    · cases hrenewal
    exact hkeep _ other.id (h.renewals d (mem_of_getElem? hj) other hrenewal) fun old heq _ _ =>
      (hu.renewal j d other hj hrenewal heq).resolve_left hne
  case renewalsApart =>
    intro j k d d' other other' hd hd' hrenewal hrenewal'
    rcases getElem?_set_cases hd with ⟨-, rfl⟩ | ⟨-, hd⟩
    · cases hrenewal
    rcases getElem?_set_cases hd' with ⟨-, rfl⟩ | ⟨-, hd'⟩
    · cases hrenewal'
    exact h.renewalsApart j k d d' other other' hd hd' hrenewal hrenewal'
  case asked => exact forall_set h.asked fun sub plan askedAt heq => Phase.noConfusion heq
  case living => exact forall_set h.living fun sub hsub => absurd hsub (Option.some_ne_none _).symm
  case references => exact h.references
  case changes =>
    intro entry hentry hnone
    have hnone' : (if entry.1 = sub.id then some sub else w.subs.get entry.1) = none := (hget _).symm.trans hnone
    split at hnone'
    · cases hnone'
    · next hne => exact h.changes entry ((hu.changes entry hentry).resolve_right hne) hnone'
  case paid =>
    intro ch hch
    rcases h.paid ch hch with hstored | ⟨d, hd, hpays⟩
    · exact .inl (hkeep _ ch.reference hstored fun old _ hs hlt => Int.lt_of_lt_of_le hlt (hu.later old hs))
    · obtain ⟨j, hj⟩ := getElem?_of_mem hd
      by_cases hij : i = j
      · -- the payment that is written here
        subst hij
        obtain rfl := some.inj (hc.symm.trans hj)
        obtain ⟨hreference, hperiod⟩ := hu.paid _ _ hpays
        exact .inl ⟨sub, (hget _).trans (if_pos hreference), hperiod⟩
      · exact .inr ⟨d, mem_of_getElem? ((getElem?_set_ne hij).trans hj), hpays⟩

/-- A current copy that is written back with its period as it was, when nothing was paid. -/
theorem edit (h : Inv w) (hc : w.calls[i]? = some c) {sub' : Subscription} {cancellations : List (Nat × Bool)}
    {seatChanges : List (Nat × SeatChange)} (hpaid : c.phase.paid = none) (hcurrent : Current w sub)
    (hid : sub'.id = sub.id) (hend : sub'.currentPeriodEnd = sub.currentPeriodEnd)
    (hcanceled : sub.status = .canceled → sub'.status = .canceled)
    (hcancels : sub.cancelAtPeriodEnd = true → sub'.cancelAtPeriodEnd = true ∨ sub'.status = .canceled)
    (hkept : ∀ entry ∈ cancellations, entry ∈ w.cancellations ∨
      entry.1 = sub.id ∧ (sub'.status = .canceled ∨ entry.2 = false ∧ sub'.cancelAtPeriodEnd = true))
    (hcounted : sub'.usedSeats + seatChanges.count (sub.id, .released) = seatChanges.count (sub.id, .assigned))
    (hothers : ∀ id change, id ≠ sub.id → seatChanges.count (id, change) = w.seatChanges.count (id, change))
    (hchanges : ∀ entry ∈ seatChanges, entry ∈ w.seatChanges ∨ entry.1 = sub.id)
    (hallowance : ∀ n, sub'.seats = some n → sub'.usedSeats ≤ n) :
    Inv { w.write i c sub' with cancellations := cancellations, seatChanges := seatChanges } := by
  have hsame : ∀ old, w.subs.get sub.id = some old → old = sub := fun old hs =>
    some.inj (hs.symm.trans hcurrent)
  rw [← hid] at hsame hkept hcounted hothers hchanges
  refine h.update hc ⟨hid ▸ (h.keyed _ _ hcurrent).2, fun j d start hd hnew => ?_, fun j d other hd hrenewal heq => ?_,
    fun r p => unpaid hpaid, fun old hs => ?_, fun old hs => hsame old hs ▸ hcanceled,
    fun old hs => hsame old hs ▸ hcancels, hkept, hcounted, hothers, hchanges, hallowance⟩
  · have hnone := (h.newcomers d (mem_of_getElem? hd) _ start hnew).2
    rw [hid, hcurrent] at hnone
    cases hnone
  · obtain ⟨stored, hs, hperiod⟩ := h.renewals d (mem_of_getElem? hd) other hrenewal
    rw [heq] at hs
    exact .inr (hend.trans (hsame stored hs ▸ hperiod))
  · rw [hsame old hs, hend]

/-! ### A subscription is set up -/

theorem takeId (h : Inv w) : Inv { w with nextId := w.nextId + 1 } := by
  refine { h with billing := { h.billing with }, keyed := ?_, newcomers := ?_, references := ?_ }
  · exact fun id sub hs => ⟨(h.keyed id sub hs).1, Nat.lt_succ_of_lt (h.keyed id sub hs).2⟩
  · exact fun d hd id start hnew =>
      ⟨Nat.lt_succ_of_lt (h.newcomers d hd id start hnew).1, (h.newcomers d hd id start hnew).2⟩
  · exact fun ch hch => Nat.lt_succ_of_lt (h.references ch hch)

theorem fresh (h : Inv w) : w.subs.get w.nextId = none := by
  cases hs : w.subs.get w.nextId with
  | none => rfl
  | some sub => exact absurd (h.keyed _ _ hs).2 (lt_irrefl _)

theorem count_eq_zero (h : Inv w) {id : Nat} (hnone : w.subs.get id = none) (change : SeatChange) : w.seatChanges.count (id, change) = 0 :=
  List.count_eq_zero.2 fun hmem => h.changes _ hmem hnone

theorem insert (h : Inv w) (hc : w.calls[i]? = some c) (hnone : w.subs.get sub.id = none)
    (hlt : sub.id < w.nextId) (hused : sub.usedSeats = 0)
    (hapart : ∀ (j : Nat) d start, w.calls[j]? = some d → d.phase.newcomer = some (sub.id, start) → j = i)
    (hpaid : ∀ r p, c.phase.paid = some (r, p) → r = sub.id ∧ p < sub.currentPeriodEnd) : Inv (w.write i c sub) := by
  have hnew : ∀ old, w.subs.get sub.id ≠ some old := fun old hs => nomatch hnone.symm.trans hs
  refine h.update hc ⟨hlt, hapart, fun j d other hd hrenewal heq => ?_, hpaid, fun old hs => absurd hs (hnew old),
    fun old hs => absurd hs (hnew old), fun old hs => absurd hs (hnew old), fun _ hentry => .inl hentry, ?_,
    fun _ _ _ => rfl, fun _ hentry => .inl hentry, fun n _ => hused ▸ Nat.zero_le n⟩
  · obtain ⟨stored, hs, -⟩ := h.renewals d (mem_of_getElem? hd) other hrenewal
    exact absurd (heq ▸ hs) (hnew stored)
  · have hreleased := h.count_eq_zero hnone .released
    have hassigned := h.count_eq_zero hnone .assigned
    exact hused ▸ ((Nat.zero_add _).trans hreleased).trans hassigned.symm

/-! ### A payment is taken -/

theorem pay (h : Inv w) (hc : w.calls[i]? = some c) {phase : Phase} (hr : Reach w i c phase) {ch : Charge}
    (hpaid : phase.paid = some (ch.reference, ch.period)) (hdue : ch.period ≤ ch.askedAt)
    (hlt : ch.reference < w.nextId)
    (hstored : ∀ sub, w.subs.get ch.reference = some sub → sub.currentPeriodEnd ≤ ch.period)
    (hcalls : ∀ d ∈ w.calls, d.phase.paid ≠ some (ch.reference, ch.period)) :
    Inv { w.setCall i c phase with charges := w.charges ++ [ch] } := by
  have h' := h.setPhase hc hr
  refine { h' with billing := ⟨?once, ?due, h'.billing.absorbing, h'.billing.kept, h'.billing.seats,
    h'.billing.allowance⟩, references := ?references, paid := ?paid }
  case once =>
    rw [map_append, nodup_append]
    refine ⟨h.billing.once, nodup_singleton _, ?_⟩
    intro pair hpair pair' hpair' heq
    subst heq
    obtain ⟨ch', hch', rfl⟩ := mem_map.1 hpair
    obtain ⟨hreference, hperiod⟩ := mk.inj (mem_singleton.1 hpair')
    rcases h.paid ch' hch' with ⟨sub, hs, hlt'⟩ | ⟨d, hd, hpays⟩
    · rw [hreference] at hs
      have hle := hstored sub hs
      omega
    · rw [hreference, hperiod] at hpays
      exact hcalls d hd hpays
  case due =>
    intro ch' hch'
    rcases mem_append.1 hch' with hch' | hch'
    · exact h.billing.due ch' hch'
    · rw [mem_singleton.1 hch']
      exact hdue
  case references =>
    intro ch' hch'
    rcases mem_append.1 hch' with hch' | hch'
    · exact h.references ch' hch'
    · rw [mem_singleton.1 hch']
      exact hlt
  case paid =>
    intro ch' hch'
    rcases mem_append.1 hch' with hch' | hch'
    · exact h'.paid ch' hch'
    · rw [mem_singleton.1 hch']
      exact .inr ⟨_, mem_set (lt_length hc) _, hpaid⟩

/-! ### The operations -/

theorem write (h : Inv w) (hc : w.calls[i]? = some c) {sub' : Subscription} (hcurrent : Current w sub)
    (hid : sub'.id = sub.id) (hend : sub'.currentPeriodEnd = sub.currentPeriodEnd) (hpaid : c.phase.paid = none)
    (hused : sub'.usedSeats = sub.usedSeats) (hseats : ∀ n, sub'.seats = some n → sub'.usedSeats ≤ n)
    (hcanceled : sub.status = .canceled → sub'.status = .canceled)
    (hcancels : sub.cancelAtPeriodEnd = true → sub'.cancelAtPeriodEnd = true ∨ sub'.status = .canceled) :
    Inv (w.write i c sub') := by
  have hcount : sub'.usedSeats + w.seatChanges.count (sub.id, .released) = w.seatChanges.count (sub.id, .assigned) :=
    hused ▸ h.billing.seats sub.id sub hcurrent
  exact h.edit hc hpaid hcurrent hid hend hcanceled hcancels (fun _ hentry => .inl hentry) hcount (fun _ _ _ => rfl)
    (fun _ hentry => .inl hentry) hseats

theorem seats_of_current (h : Inv w) (hcurrent : Current w sub) (n : Nat)
    (hn : sub.seats = some n) : sub.usedSeats ≤ n := h.billing.allowance sub.id sub n hcurrent hn

theorem subscribeTo (h : Inv w) (hc : w.calls[i]? = some c) (hpaid : c.phase.paid = none) (planId : Nat)
    (customerId : String) (seats : Option (Option Nat)) (plan : Option Plan) :
    Inv (w.subscribeTo i c planId customerId seats plan) := by
  cases plan with
  | none => exact h.finish hc hpaid _
  | some plan =>
    unfold World.subscribeTo
    dsimp only
    have h' := h.takeId
    have hapart : ∀ (j : Nat) d start, w.calls[j]? = some d → d.phase.newcomer = some (w.nextId, start) → j = i := by
      intro j d start hd hnew
      exact absurd (h.newcomers d (mem_of_getElem? hd) _ _ hnew).1 (lt_irrefl _)
    split
    · exact h.finish hc hpaid _
    split
    · exact h.finish hc hpaid _
    split
    · exact h'.insert hc h.fresh (Nat.lt_succ_self _) rfl hapart fun r p => unpaid hpaid
    · refine h'.setPhase hc ⟨fun id start heq => ?_, (fun _ heq => nomatch heq), (fun _ _ _ heq => nomatch heq),
        (fun _ heq => nomatch heq), fun r p => unpaid hpaid⟩
      obtain ⟨rfl, rfl⟩ := mk.inj (some.inj heq)
      exact ⟨⟨Nat.lt_succ_self _, h.fresh⟩, fun j d start' => hapart j d start'⟩

variable {plan : Plan}

theorem subscribed (h : Inv w) (hc : w.calls[i]? = some c) {seats : Option Nat} {id : Nat} {start : Int}
    {answer : Except SubscriptionError Nat} (hphase : c.phase = .charged plan seats id start answer)
    (customerId : String) : Inv (w.subscribed i c plan customerId seats id start answer) := by
  have hnewcomer : c.phase.newcomer = some (id, start) := by rw [hphase]; rfl
  cases answer with
  | error e => exact h.finish hc (by rw [hphase]; rfl) _
  | ok paymentId =>
    have hmem := mem_of_getElem? hc
    obtain ⟨hlt, hnone⟩ := h.newcomers c hmem id start hnewcomer
    refine h.insert hc hnone hlt rfl ?_ ?_
    · exact fun j d start' hd hnew => h.newcomersApart j i d c id start' start hd hc hnew hnewcomer
    · intro r p heq
      rw [hphase] at heq
      obtain ⟨rfl, rfl⟩ := mk.inj (some.inj heq)
      exact ⟨rfl, lt_addInterval _ _⟩

theorem renewWith (h : Inv w) (hc : w.calls[i]? = some c) {plan : Option Plan}
    (hphase : c.phase = .planning sub plan) (hcurrent : Current w sub) (hdue : Due w sub) :
    Inv (w.renewWith i c sub plan) := by
  have hpaid : c.phase.paid = none := by rw [hphase]; rfl
  have hliving : sub.status ≠ .canceled := h.living c (mem_of_getElem? hc) sub (by rw [hphase]; rfl)
  cases plan with
  | none => exact h.finish hc hpaid _
  | some plan =>
    unfold World.renewWith
    dsimp only
    split
    · have hallowance := h.seats_of_current hcurrent
      exact h.write hc hcurrent rfl rfl hpaid rfl hallowance (fun _ => rfl) fun _ => .inr rfl
    · next hcancels =>
      obtain ⟨hended, hapart⟩ := hdue (Bool.eq_false_iff.2 hcancels)
      refine h.setPhase hc ⟨nofun, ?_, ?_, ?_, fun r p => unpaid hpaid⟩
      · intro other heq
        obtain rfl := some.inj heq
        refine ⟨⟨sub, hcurrent, rfl⟩, ?_⟩
        exact fun j d other hd hother hid => absurd hid (hapart d (mem_of_getElem? hd) other hother)
      · intro other plan' askedAt heq
        cases heq
        exact hended
      · intro other heq
        cases heq
        exact hliving

theorem renewed (h : Inv w) (hc : w.calls[i]? = some c)
    {answer : Except SubscriptionError Nat} (hphase : c.phase = .renewed sub plan answer) (hcurrent : Current w sub) :
    Inv (w.renewed i c sub plan answer) := by
  have hliving : sub.status ≠ .canceled := h.living c (mem_of_getElem? hc) sub (by rw [hphase]; rfl)
  match answer, hphase with
  | .ok paymentId, hphase =>
    have hallowance := h.seats_of_current hcurrent
    have hrenewal : c.phase.renewal = some sub := by rw [hphase]; rfl
    have hpaid : c.phase.paid = some (sub.id, sub.currentPeriodEnd) := by rw [hphase]; rfl
    have hsame : ∀ old, w.subs.get sub.id = some old → old = sub := fun old hs =>
      some.inj (hs.symm.trans hcurrent)
    have hlt := lt_addInterval sub.currentPeriodEnd plan.interval
    have hcount := h.billing.seats sub.id sub hcurrent
    refine h.update hc ⟨(h.keyed _ _ hcurrent).2, fun j d start hd hnew => ?_, fun j d other hd hother heq => ?_,
      fun r p heq => ?_, fun old hs => ?_, fun old hs heq => ?_, fun old hs heq => ?_, fun _ hentry => .inl hentry,
      hcount, fun _ _ _ => rfl, fun _ hentry => .inl hentry, hallowance⟩
    · have hnone := (h.newcomers d (mem_of_getElem? hd) _ start hnew).2
      exact nomatch hnone.symm.trans hcurrent
    · exact .inl (h.renewalsApart j i d c other sub hd hc hother hrenewal heq)
    · obtain ⟨rfl, rfl⟩ := mk.inj (some.inj (hpaid.symm.trans heq))
      exact ⟨rfl, hlt⟩
    · obtain rfl := hsame old hs
      exact Int.le_of_lt hlt
    · exact absurd (hsame old hs ▸ heq) hliving
    · exact .inl (hsame old hs ▸ heq)
  | .error e, hphase =>
    have hallowance := h.seats_of_current hcurrent
    have hpaid : c.phase.paid = none := by rw [hphase]; rfl
    cases e
    case declined => exact h.write hc hcurrent rfl rfl hpaid rfl hallowance (fun heq => absurd heq hliving) .inl
    all_goals exact h.finish hc hpaid _

theorem cancelWith (h : Inv w) (hc : w.calls[i]? = some c) (hpaid : c.phase.paid = none)
    (hcurrent : Current w sub) (immediately : Bool) : Inv (w.cancelWith i c sub immediately) := by
  unfold World.cancelWith
  split
  · exact h.finish hc hpaid _
  · next hliving =>
    have hcount := h.billing.seats sub.id sub hcurrent
    have hallowance := h.seats_of_current hcurrent
    have hkept : ∀ sub' : Subscription, sub'.status = .canceled ∨ immediately = false ∧ sub'.cancelAtPeriodEnd = true →
        ∀ entry ∈ w.cancellations ++ [(sub.id, immediately)], entry ∈ w.cancellations ∨ entry.1 = sub.id ∧
          (sub'.status = .canceled ∨ entry.2 = false ∧ sub'.cancelAtPeriodEnd = true) := by
      intro sub' hcanceled entry hentry
      rcases mem_append.1 hentry with hentry | hentry
      · exact .inl hentry
      · rw [mem_singleton.1 hentry]
        exact .inr ⟨rfl, hcanceled⟩
    cases immediately with
    | true =>
      exact h.edit hc hpaid hcurrent rfl rfl (fun _ => rfl) (fun _ => .inr rfl) (hkept _ (.inl rfl)) hcount
        (fun _ _ _ => rfl) (fun _ hentry => .inl hentry) hallowance
    | false =>
      exact h.edit hc hpaid hcurrent rfl rfl (fun heq => absurd heq hliving) (fun _ => .inl rfl)
        (hkept _ (.inr ⟨rfl, rfl⟩)) hcount (fun _ _ _ => rfl) (fun _ hentry => .inl hentry) hallowance

theorem changeTo (h : Inv w) (hc : w.calls[i]? = some c) {plan : Option Plan}
    (hphase : c.phase = .planning sub plan) (hcurrent : Current w sub) (newPlanId : Nat) :
    Inv (w.changeTo i c sub newPlanId plan) := by
  have hpaid : c.phase.paid = none := by rw [hphase]; rfl
  have hliving : sub.status ≠ .canceled := h.living c (mem_of_getElem? hc) sub (by rw [hphase]; rfl)
  cases plan with
  | none => exact h.finish hc hpaid _
  | some plan =>
    unfold World.changeTo
    dsimp only
    split
    · exact h.finish hc hpaid _
    split
    · next n hn =>
      split
      · exact h.finish hc hpaid _
      · next hle =>
        refine h.write hc hcurrent rfl rfl hpaid rfl ?_ (fun heq => absurd heq hliving) .inl
        intro n' hn'
        rw [show plan.seats = some n' from hn'] at hn
        cases hn
        exact Nat.le_of_not_lt hle
    · next hnone =>
      refine h.write hc hcurrent rfl rfl hpaid rfl ?_ (fun heq => absurd heq hliving) .inl
      intro n' hn'
      rw [show plan.seats = some n' from hn'] at hnone
      cases hnone

theorem assign (h : Inv w) (hc : w.calls[i]? = some c) (hpaid : c.phase.paid = none)
    (hcurrent : Current w sub) (hfree : ∀ n, sub.seats = some n → sub.usedSeats + 1 ≤ n) :
    Inv { w.write i c { sub with usedSeats := sub.usedSeats + 1 } with
      seatChanges := w.seatChanges ++ [(sub.id, .assigned)] } := by
  have hold := h.billing.seats sub.id sub hcurrent
  have hne : (sub.id, SeatChange.released) ≠ (sub.id, .assigned) := fun heq => by cases heq
  have hcount : sub.usedSeats + 1 + List.count (sub.id, .released) (w.seatChanges ++ [(sub.id, .assigned)]) =
      List.count (sub.id, .assigned) (w.seatChanges ++ [(sub.id, .assigned)]) := by
    rw [count_concat_self, count_concat_of_ne hne]
    omega
  exact h.edit hc hpaid hcurrent rfl rfl id .inl (fun _ hentry => .inl hentry) hcount
    (fun _ _ hne => count_concat_of_ne (fun heq => hne (congrArg fst heq)) _) mem_concat_changes hfree

theorem assignWith (h : Inv w) (hc : w.calls[i]? = some c) (hpaid : c.phase.paid = none)
    (hcurrent : Current w sub) : Inv (w.assignWith i c sub) := by
  unfold World.assignWith
  split
  · exact h.finish hc hpaid _
  split
  · next n hn =>
    split
    · exact h.finish hc hpaid _
    · next hlt =>
      refine h.assign hc hpaid hcurrent fun n' hn' => ?_
      rw [hn'] at hn
      cases hn
      omega
  · next hnone =>
    refine h.assign hc hpaid hcurrent fun n' hn' => ?_
    rw [hn'] at hnone
    cases hnone

theorem releaseWith (h : Inv w) (hc : w.calls[i]? = some c) (hpaid : c.phase.paid = none)
    (hcurrent : Current w sub) : Inv (w.releaseWith i c sub) := by
  have hold := h.billing.seats sub.id sub hcurrent
  have hallowance : ∀ n, sub.seats = some n → sub.usedSeats - 1 ≤ n :=
    fun n hn => le_trans (Nat.sub_le _ _) (h.seats_of_current hcurrent n hn)
  unfold World.releaseWith
  split
  · next hpos =>
    have hne : (sub.id, SeatChange.assigned) ≠ (sub.id, .released) := fun heq => by cases heq
    have hcount : sub.usedSeats - 1 + List.count (sub.id, .released) (w.seatChanges ++ [(sub.id, .released)]) =
        List.count (sub.id, .assigned) (w.seatChanges ++ [(sub.id, .released)]) := by
      rw [count_concat_self, count_concat_of_ne hne]
      omega
    exact h.edit hc hpaid hcurrent rfl rfl id .inl (fun _ hentry => .inl hentry) hcount
      (fun _ _ hne => count_concat_of_ne (fun heq => hne (congrArg fst heq)) _) mem_concat_changes hallowance
  · -- no seat is assigned, and the floor keeps it so
    have hcount : sub.usedSeats - 1 + w.seatChanges.count (sub.id, .released) = w.seatChanges.count (sub.id, .assigned) := by omega
    exact h.edit hc hpaid hcurrent rfl rfl id .inl (fun _ hentry => .inl hentry) hcount (fun _ _ _ => rfl)
      (fun _ hentry => .inl hentry) hallowance

theorem loaded (h : Inv w) (hc : w.calls[i]? = some c) (hphase : c.phase = .loading (some sub))
    (hgo : GoesOn w c) : Inv (w.loaded i c sub) := by
  have hpaid : c.phase.paid = none := by rw [hphase]; rfl
  have hplan : ∀ plan, sub.status ≠ .canceled → Inv (w.setCall i c (.planning sub plan)) := by
    intro plan hliving
    refine h.goOn hc hpaid rfl rfl fun sub' heq => ?_
    obtain rfl := some.inj heq
    exact hliving
  unfold GoesOn at hgo
  rw [hphase] at hgo
  unfold World.loaded
  cases hoperation : c.operation with
  | subscribe planId customerId seats => exact h
  | renew id =>
    dsimp only
    split
    · exact h.finish hc hpaid _
    · next hliving => exact hplan _ hliving
  | cancel id immediately =>
    rw [hoperation] at hgo
    exact h.cancelWith hc hpaid hgo immediately
  | changePlan id newPlanId =>
    dsimp only
    split
    · exact h.finish hc hpaid _
    · next hliving => exact hplan _ hliving
  | assignSeat id =>
    rw [hoperation] at hgo
    exact h.assignWith hc hpaid hgo
  | releaseSeat id =>
    rw [hoperation] at hgo
    exact h.releaseWith hc hpaid hgo

theorem proceed (h : Inv w) (hc : w.calls[i]? = some c) (hgo : GoesOn w c) : Inv (w.proceed i c) := by
  unfold World.proceed
  cases hphase : c.phase with
  | loading sub =>
    cases sub with
    | none => exact h.finish hc (by rw [hphase]; rfl) _
    | some sub => exact h.loaded hc hphase hgo
  | subscribing plan =>
    dsimp only
    split
    · exact h.subscribeTo hc (by rw [hphase]; rfl) _ _ _ _
    · exact h
  | planning sub plan =>
    unfold GoesOn at hgo
    rw [hphase] at hgo
    dsimp only
    split
    · next hoperation =>
      rw [hoperation] at hgo
      exact h.renewWith hc hphase hgo.1 hgo.2
    · next hoperation =>
      rw [hoperation] at hgo
      exact h.changeTo hc hphase hgo _
    · exact h
  | charging plan seats id start => exact h
  | renewing sub plan askedAt => exact h
  | charged plan seats id start answer =>
    dsimp only
    split
    · exact h.subscribed hc hphase _
    · exact h
  | renewed sub plan answer =>
    unfold GoesOn at hgo
    rw [hphase] at hgo
    exact h.renewed hc hphase hgo
  | writing sub => exact h.finish hc (by rw [hphase]; rfl) _
  | done result => exact h

/-- What was paid for is the period of a newcomer or of a renewal. -/
theorem newcomer_or_renewal {phase : Phase} {r : Nat} {p : Int} (hpaid : phase.paid = some (r, p)) :
    phase.newcomer = some (r, p) ∨ ∃ sub, phase.renewal = some sub ∧ sub.id = r := by
  unfold Phase.paid at hpaid
  split at hpaid
  · exact .inl hpaid
  · exact .inr ⟨_, rfl, (mk.inj (some.inj hpaid)).1⟩
  · cases hpaid

theorem chargeFirst (h : Inv w) (hc : w.calls[i]? = some c) {seats : Option Nat} {id : Nat} {start : Int}
    (hphase : c.phase = .charging plan seats id start) (answer : GatewayAnswer) : Inv (w.charge i c answer) := by
  have hmem := mem_of_getElem? hc
  have hnewcomer : c.phase.newcomer = some (id, start) := by rw [hphase]; rfl
  have hpaid : c.phase.paid = none := by rw [hphase]; rfl
  obtain ⟨hlt, hnone⟩ := h.newcomers c hmem id start hnewcomer
  have hr : Reach w i c (.charged plan seats id start (w.answered answer)) := by
    refine ⟨fun id' start' heq => ?_, (fun _ heq => nomatch heq), (fun _ _ _ heq => nomatch heq),
      (fun _ heq => nomatch heq), fun r p => unpaid hpaid⟩
    obtain ⟨rfl, rfl⟩ := mk.inj (some.inj heq)
    exact ⟨⟨hlt, hnone⟩, fun j d start' hd hnew => h.newcomersApart j i d c id start' start hd hc hnew hnewcomer⟩
  unfold World.charge
  rw [hphase]
  cases answer with
  | charged =>
    refine h.pay hc hr rfl (Int.le_refl _) hlt (fun sub hs => nomatch hnone.symm.trans hs) fun d hd hpays => ?_
    -- another payment for the newcomer would be of the same call
    obtain ⟨j, hj⟩ := getElem?_of_mem hd
    rcases newcomer_or_renewal hpays with hnew | ⟨sub, hsub, rfl⟩
    · obtain rfl := h.newcomersApart j i d c _ _ _ hj hc hnew hnewcomer
      obtain rfl := some.inj (hc.symm.trans hj)
      exact unpaid hpaid hpays
    · obtain ⟨stored, hs, -⟩ := h.renewals d hd sub hsub
      exact nomatch hnone.symm.trans hs
  | declined => exact h.setPhase hc hr
  | failed => exact h.setPhase hc hr

theorem chargeNext (h : Inv w) (hc : w.calls[i]? = some c) {askedAt : Int}
    (hphase : c.phase = .renewing sub plan askedAt) (answer : GatewayAnswer) : Inv (w.charge i c answer) := by
  have hmem := mem_of_getElem? hc
  have hrenewal : c.phase.renewal = some sub := by rw [hphase]; rfl
  have hpaid : c.phase.paid = none := by rw [hphase]; rfl
  obtain ⟨stored, hs, hend⟩ := h.renewals c hmem sub hrenewal
  have hr : Reach w i c (.renewed sub plan (w.answered answer)) := by
    refine ⟨(fun _ _ heq => nomatch heq), ?_, (fun _ _ _ heq => nomatch heq), ?_, fun r p => unpaid hpaid⟩
    · intro other heq
      have hother : other = sub := by
        cases answer with
        | charged => exact (some.inj heq).symm
        | declined => cases heq
        | failed => cases heq
      subst hother
      exact ⟨⟨stored, hs, hend⟩, fun j d sub' hd hsub' hid => h.renewalsApart j i d c sub' other hd hc hsub' hrenewal hid⟩
    · intro other heq
      obtain rfl := some.inj heq
      exact h.living c hmem _ (by rw [hphase]; rfl)
  unfold World.charge
  rw [hphase]
  cases answer with
  | charged =>
    refine h.pay hc hr rfl (h.asked c hmem sub plan askedAt hphase) (h.keyed _ _ hs).2
      (fun sub' hs' => some.inj (hs.symm.trans hs') ▸ Int.le_of_eq hend) fun d hd hpays => ?_
    -- another payment for the period would be of a newcomer, or of the same call
    obtain ⟨j, hj⟩ := getElem?_of_mem hd
    rcases newcomer_or_renewal hpays with hnew | ⟨sub', hsub', hid⟩
    · exact nomatch (h.newcomers d hd _ _ hnew).2.symm.trans hs
    · obtain rfl := h.renewalsApart j i d c sub' sub hj hc hsub' hrenewal hid
      obtain rfl := some.inj (hc.symm.trans hj)
      exact unpaid hpaid hpays
  | declined => exact h.setPhase hc hr
  | failed => exact h.setPhase hc hr

theorem charge (h : Inv w) (hc : w.calls[i]? = some c) (answer : GatewayAnswer) : Inv (w.charge i c answer) := by
  cases hphase : c.phase with
  | charging plan seats id start => exact h.chargeFirst hc hphase answer
  | renewing sub plan askedAt => exact h.chargeNext hc hphase answer
  | _ => unfold World.charge; rw [hphase]; exact h

theorem begins (h : Inv w) {d : Call} (hnewcomer : d.phase.newcomer = none) (hrenewal : d.phase.renewal = none)
    (hliving : d.phase.living = none) : Inv { w with calls := w.calls ++ [d] } := by
  have hmem : ∀ d' ∈ w.calls ++ [d], d' ∈ w.calls ∨ d' = d := fun d' hd' =>
    (mem_append.1 hd').imp_right mem_singleton.1
  refine ⟨⟨h.billing.once, h.billing.due, h.billing.absorbing, h.billing.kept, h.billing.seats, h.billing.allowance⟩,
    h.keyed, ?newcomers, ?newcomersApart, ?renewals, ?renewalsApart, ?asked, ?living, h.references, h.changes, ?paid⟩
  case newcomers =>
    intro d' hd' id start hnew
    rcases hmem d' hd' with hd' | rfl
    · exact h.newcomers d' hd' id start hnew
    · rw [hnewcomer] at hnew
      cases hnew
  case newcomersApart =>
    intro j k d' d'' id start start' hd' hd'' hnew hnew'
    rcases getElem?_concat_cases hd' with hd' | ⟨-, rfl⟩
    · rcases getElem?_concat_cases hd'' with hd'' | ⟨-, rfl⟩
      · exact h.newcomersApart j k d' d'' id start start' hd' hd'' hnew hnew'
      · rw [hnewcomer] at hnew'
        cases hnew'
    · rw [hnewcomer] at hnew
      cases hnew
  case renewals =>
    intro d' hd' sub hsub
    rcases hmem d' hd' with hd' | rfl
    · exact h.renewals d' hd' sub hsub
    · rw [hrenewal] at hsub
      cases hsub
  case renewalsApart =>
    intro j k d' d'' sub sub' hd' hd'' hsub hsub'
    rcases getElem?_concat_cases hd' with hd' | ⟨-, rfl⟩
    · rcases getElem?_concat_cases hd'' with hd'' | ⟨-, rfl⟩
      · exact h.renewalsApart j k d' d'' sub sub' hd' hd'' hsub hsub'
      · rw [hrenewal] at hsub'
        cases hsub'
    · rw [hrenewal] at hsub
      cases hsub
  case asked =>
    intro d' hd' sub plan askedAt heq
    rcases hmem d' hd' with hd' | rfl
    · exact h.asked d' hd' sub plan askedAt heq
    · rw [heq] at hrenewal
      cases hrenewal
  case living =>
    intro d' hd' sub hsub
    rcases hmem d' hd' with hd' | rfl
    · exact h.living d' hd' sub hsub
    · rw [hliving] at hsub
      cases hsub
  case paid =>
    intro ch hch
    refine (h.paid ch hch).imp_right ?_
    rintro ⟨d', hd', hpays⟩
    exact ⟨d', mem_append_left _ hd', hpays⟩

theorem around (h : Inv w) (plans : OrderedMap Nat Plan) (now : Int) : Inv { w with plans := plans, now := now } :=
  ⟨⟨h.billing.once, h.billing.due, h.billing.absorbing, h.billing.kept, h.billing.seats, h.billing.allowance⟩,
    h.keyed, h.newcomers, h.newcomersApart, h.renewals, h.renewalsApart, h.asked, h.living, h.references, h.changes,
    h.paid⟩

theorem step (h : Inv w) (e : Event) (hgo : Orderly w e) : Inv (step w e) := by
  cases e with
  | setPlan plan => exact h.around _ w.now
  | clock now => exact h.around w.plans now
  | start operation => cases operation <;> exact h.begins rfl rfl rfl
  | proceed i =>
    unfold Subscriptions.step
    dsimp only
    split
    · next c hc => exact h.proceed hc (hgo c hc)
    · exact h
  | charge i answer =>
    unfold Subscriptions.step
    dsimp only
    split
    · next c hc => exact h.charge hc answer
    · exact h

end Inv

/-! ## Runs -/

/-- **Along every run whose steps meet the condition**, the subscriptions are billed as promised. -/
theorem billing_of_orderly (es : List Event) (h : Guarded step Orderly initial es) (n : Nat) : Billing (run step initial (es.take n)) := by
  have htake : Guarded step Orderly initial (es.take n) := by
    have happend := h
    rw [← take_append_drop n es, guarded_append] at happend
    exact happend.1
  exact (run_invariant_of_guarded (P := Inv) step (fun w e hw he => hw.step e he) _ htake inv_initial).billing

/-- One seat, a month at a time. -/
def soloPlan : Plan := ⟨0, 900, "EUR", .month, some 1, 0, true⟩

/-- A subscription on 31 January 2023, with its first charge. -/
def subscribed : List Event :=
  [.setPlan soloPlan, .clock 1675123200000, .start (.subscribe 0 "ada" none), .proceed 0, .charge 0 .charged, .proceed 0]

/-- The second period is paid for, a seat is assigned and the subscription is canceled at the end of the period. -/
def orderlyRun : List Event :=
  subscribed ++ [.clock 1677801600000, .start (.renew 0), .proceed 1, .proceed 1, .charge 1 .charged, .proceed 1,
    .start (.assignSeat 0), .proceed 2, .start (.cancel 0 false), .proceed 3]

theorem billing_of_orderly_sample : Billing (run step initial (orderlyRun.take 16)) := by
  have hguarded : Guarded step Orderly initial orderlyRun := by
    simp only [orderlyRun, subscribed, cons_append, nil_append, Guarded]
    decide +kernel
  exact billing_of_orderly orderlyRun hguarded 16

/-- Two renewals at the end of the first period. -/
def renewedTwice : List Event :=
  subscribed ++ [.clock 1677801600000, .start (.renew 0), .start (.renew 0), .proceed 1, .proceed 2, .proceed 1,
    .proceed 2, .charge 1 .charged, .charge 2 .charged]

/-- A renewal on the first day of the period. -/
def renewedEarly : List Event := subscribed ++ [.start (.renew 0), .proceed 1, .proceed 1, .charge 1 .charged]

/-- A cancellation while a seat is assigned. -/
def canceledMeanwhile : List Event :=
  subscribed ++ [.start (.assignSeat 0), .start (.cancel 0 true), .proceed 2, .proceed 1]

/-- Two assignments of the one seat. -/
def assignedTwice : List Event :=
  subscribed ++ [.start (.assignSeat 0), .start (.assignSeat 0), .proceed 1, .proceed 2]

/-- Two renewals charge one period twice, a renewal is charged for at any time, a cancellation is lost where another
call wrote an older copy back, and two calls assign the one seat. -/
theorem billing_counterexample : ¬ Billing (run step initial renewedTwice) ∧ ¬ Billing (run step initial renewedEarly) ∧
      ¬ Billing (run step initial canceledMeanwhile) ∧ ¬ Billing (run step initial assignedTwice) := by
  refine ⟨fun h => ?_, fun h => ?_, fun h => ?_, fun h => ?_⟩
  · have hnot : ¬ ((run step initial renewedTwice).charges.map fun ch => (ch.reference, ch.period)).Nodup := by
      decide +kernel
    exact hnot h.once
  · have hnot : ¬ ∀ ch ∈ (run step initial renewedEarly).charges, ch.period ≤ ch.askedAt := by decide +kernel
    exact hnot h.due
  · obtain ⟨sub, hs, hstatus⟩ := h.absorbing 0 (by decide +kernel)
    have hactive : ((run step initial canceledMeanwhile).subs.get 0).map Subscription.status = some .active := by
      decide +kernel
    rw [hs, map_some, hstatus] at hactive
    cases hactive
  · have hused : ((run step initial assignedTwice).subs.get 0).map Subscription.usedSeats = some 1 :=
    by decide +kernel
    have hcounts : (run step initial assignedTwice).seatChanges = [(0, .assigned), (0, .assigned)] :=
      by decide +kernel
    cases hs : (run step initial assignedTwice).subs.get 0 with
    | none => rw [hs] at hused; cases hused
    | some sub =>
      have hseats := h.seats 0 sub hs
      rw [hs, map_some] at hused
      rw [hcounts, some.inj hused] at hseats
      exact absurd hseats (by decide)

end StreetJS.Subscriptions
