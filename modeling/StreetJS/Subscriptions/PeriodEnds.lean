/-
The billing calendar. The period ends of a plan keep the start's day and time of day, a month or a year apart, as
long as no month that they fall in is too short for the day.
-/
import StreetJS.Subscriptions.Service

namespace StreetJS.Subscriptions

open StreetJS.Lib Calendar

/-- The day of an instant, counted from the first day of year 1. -/
def dayOf (epochMs : Int) : Int := epochMs / dayMs + yearStart 1970

/-- The day of the month, counted from 0. -/
def dayOfMonth (epochMs : Int) : Int := dayOf epochMs - firstOfMonth (monthOf (dayOf epochMs))

def lengthOfMonth (month : Int) : Int := firstOfMonth (month + 1) - firstOfMonth month

/-- The month that is `n` intervals after the month of `start`. -/
def dueMonth (start : Int) (interval : BillingInterval) (n : Nat) : Int :=
  monthOf (dayOf start) + n * months interval

/-- An instant in the `n`-th month or year after `start`, on the day of `start` or the last day of its month, and at
the same time of day. -/
def OnCalendar (start : Int) (interval : BillingInterval) (n : Nat) (epochMs : Int) : Prop :=
  monthOf (dayOf epochMs) = dueMonth start interval n ∧
    dayOfMonth epochMs = min (dayOfMonth start) (lengthOfMonth (dueMonth start interval n) - 1) ∧
    epochMs % dayMs = start % dayMs

/-- No month that is due has ended before the day of `start`. -/
def HasTheDay (start : Int) (interval : BillingInterval) (n : Nat) : Prop :=
  ∀ k ≤ n, dayOfMonth start < lengthOfMonth (dueMonth start interval k)

/-- The interval added `n` times. -/
def periodEnd (start : Int) (interval : BillingInterval) : Nat → Int
  | 0 => start
  | n + 1 => addInterval (periodEnd start interval n) interval

/-! ## The law of the calendar -/

theorem lengthOfMonth_bounds (month : Int) : 28 ≤ lengthOfMonth month ∧ lengthOfMonth month ≤ 31 := by
  have hm : (month % 12).toNat ≤ 11 := by omega
  have hmonth : month = 12 * (month / 12) + (month % 12).toNat := by omega
  have hfirst := firstOfMonth_of_month (month / 12) hm
  have hnext := firstOfMonth_succ (month / 12) hm
  rw [← hmonth] at hfirst hnext
  unfold lengthOfMonth
  rw [hfirst, hnext, monthStart]
  unfold monthLength
  split
  · split <;> omega
  all_goals omega

variable (start : Int) (interval : BillingInterval)

theorem dayOfMonth_bounds : 0 ≤ dayOfMonth start ∧ dayOfMonth start < lengthOfMonth (monthOf (dayOf start)) := by
  obtain ⟨hfirst, hnext⟩ := monthOf_spec (dayOf start)
  unfold dayOfMonth lengthOfMonth
  omega

theorem addInterval_day : dayOf (addInterval start interval) = firstOfMonth (monthOf (dayOf start) + months interval) + dayOfMonth start := by
  have hpos : (0 : Int) < dayMs := by decide
  unfold addInterval
  rw [dayOf, Int.add_comm (_ * dayMs), Int.add_mul_ediv_right _ _ (Int.ne_of_gt hpos),
    Int.ediv_eq_zero_of_lt (Int.emod_nonneg _ (Int.ne_of_gt hpos)) (Int.emod_lt_of_pos _ hpos)]
  unfold dayOfMonth dayOf
  omega

theorem addInterval_time : addInterval start interval % dayMs = start % dayMs := by
  unfold addInterval
  rw [Int.add_comm (_ * dayMs), Int.add_mul_emod_self_right, Int.emod_emod_of_dvd _ (dvd_refl _)]

theorem periodEnd_time (n : Nat) : periodEnd start interval n % dayMs = start % dayMs := by
  induction n with
  | zero => rfl
  | succ n ih => exact (addInterval_time _ interval).trans ih

variable {start interval}

theorem monthOf_first {epochMs month day : Int} (h : dayOf epochMs = firstOfMonth month + day) (hday : 0 ≤ day)
    (hlt : day < lengthOfMonth month) : monthOf (dayOf epochMs) = month ∧ dayOfMonth epochMs = day := by
  have hmonth : monthOf (dayOf epochMs) = month := by
    unfold lengthOfMonth at hlt
    exact monthOf_eq (by omega) (by omega)
  refine ⟨hmonth, ?_⟩
  rw [dayOfMonth, hmonth]
  omega

/-- From `first` on the ends stay on the day `day`, `late` months behind. -/
theorem day_kept {first : Nat} {late day : Int} (hday : 0 ≤ day)
    (hfirst : dayOf (periodEnd start interval first) = firstOfMonth (dueMonth start interval first + late) + day)
    (j : Nat)
    (hlong : ∀ k < j, day < lengthOfMonth (dueMonth start interval (first + k) + late)) :
    dayOf (periodEnd start interval (first + j)) = firstOfMonth (dueMonth start interval (first + j) + late) + day := by
  induction j with
  | zero => exact hfirst
  | succ j ih =>
    obtain ⟨hmonth, hsame⟩ :=
      monthOf_first (ih fun k hk => hlong k (Nat.lt_succ_of_lt hk)) hday (hlong j (Nat.lt_succ_self j))
    have hdue : dueMonth start interval (first + j) + late + months interval = dueMonth start interval (first + (j + 1)) + late := by
      unfold dueMonth
      cases interval <;> simp only [months] <;> omega
    rw [← Nat.add_assoc, periodEnd, addInterval_day, hmonth, hsame, hdue, Nat.add_assoc]

theorem day_of_hasTheDay {n : Nat} (h : ∀ k < n, dayOfMonth start < lengthOfMonth (dueMonth start interval k)) :
    dayOf (periodEnd start interval n) = firstOfMonth (dueMonth start interval n) + dayOfMonth start := by
  have hstart : dayOf (periodEnd start interval 0) = firstOfMonth (dueMonth start interval 0 + 0) + dayOfMonth start := by
    simp [periodEnd, dueMonth, dayOfMonth]
  have hkept := day_kept (dayOfMonth_bounds start).1 hstart n (by simpa using h)
  simpa using hkept

/-- **The law of the calendar** holds of a period end when no due month up to it is too short; after the first one
that is, the ends stay a month late. -/
theorem onCalendar_iff (n : Nat) : OnCalendar start interval n (periodEnd start interval n) ↔ HasTheDay start interval n := by
  by_cases h : HasTheDay start interval n
  · refine iff_of_true ?_ h
    obtain ⟨hmonth, hday⟩ := monthOf_first (day_of_hasTheDay fun k hk => h k (le_of_lt hk)) (dayOfMonth_bounds start).1 (h n (Nat.le_refl n))
    refine ⟨hmonth, hday.trans (min_eq_left ?_).symm, periodEnd_time start interval n⟩
    exact Int.le_sub_one_of_lt (h n (Nat.le_refl n))
  · refine iff_of_false (fun hlaw => ?_) h
    -- the first month that is too short
    have hex : ∃ k, k ≤ n ∧ lengthOfMonth (dueMonth start interval k) ≤ dayOfMonth start := by
      simpa [HasTheDay] using h
    classical
    obtain ⟨hle, hshort⟩ := Nat.find_spec hex
    have hleast : ∀ k < Nat.find hex, dayOfMonth start < lengthOfMonth (dueMonth start interval k) := by
      intro k hk
      have hmin := Nat.find_min hex hk
      omega
    generalize Nat.find hex = first at hle hshort hleast
    have hbounds := dayOfMonth_bounds start
    have hstart := lengthOfMonth_bounds (monthOf (dayOf start))
    have hlength := lengthOfMonth_bounds (dueMonth start interval first)
    have hlate : dayOf (periodEnd start interval first) = firstOfMonth (dueMonth start interval first + 1) +
        (dayOfMonth start - lengthOfMonth (dueMonth start interval first)) := by
      rw [day_of_hasTheDay hleast]
      unfold lengthOfMonth
      omega
    have hshorter : ∀ month, dayOfMonth start - lengthOfMonth (dueMonth start interval first) < lengthOfMonth month :=
      fun month => by
        have hmonth := lengthOfMonth_bounds month
        omega
    obtain ⟨j, rfl⟩ := Nat.exists_eq_add_of_le hle
    obtain ⟨hmonth, -⟩ := monthOf_first (day_kept (by omega) hlate j fun k _ => hshorter _) (by omega) (hshorter _)
    have hdue := hmonth.symm.trans hlaw.1
    omega

/-! ## Subscribing and renewing -/

/-- A customer subscribes to the plan at `start`. -/
def subscribing (plan : Plan) (start : Int) (customerId : String) : List Event :=
  [.setPlan plan, .clock start, .start (.subscribe plan.id customerId none), .proceed 0, .charge 0 .charged, .proceed 0, .proceed 0]

/-- The next call renews the subscription. -/
def renewing (k : Nat) : List Event :=
  [.start (.renew 0), .proceed k, .proceed k, .charge k .charged, .proceed k, .proceed k]

/-- The subscription after `n` renewals. -/
def renewals (plan : Plan) (start : Int) (customerId : String) : Nat → World
  | 0 => run step initial (subscribing plan start customerId)
  | n + 1 => run step (renewals plan start customerId n) (renewing (n + 1))

/-- The billing starts with the subscription, or with the end of its trial. -/
def billingStart (plan : Plan) (start : Int) : Int := start + plan.trialDays * dayMs

/-- The periods that `n` renewals make: a trial is not one of them. -/
def periods (plan : Plan) (n : Nat) : Nat := if 0 < plan.trialDays then n else n + 1

structure Renewed (plan : Plan) (w : World) (n : Nat) (currentPeriodEnd : Int) : Prop where
  stored : w.plans.get plan.id = some plan
  calls : w.calls.length = n + 1
  sub : ∃ sub, w.subs.get 0 = some sub ∧ sub.id = 0 ∧ sub.planId = plan.id ∧ sub.status ≠ .canceled ∧
    sub.cancelAtPeriodEnd = false ∧ sub.currentPeriodEnd = currentPeriodEnd

theorem renewed_step {plan : Plan} {w : World} {n : Nat} {e : Int} (h : Renewed plan w n e) :
    Renewed plan (run step w (renewing (n + 1))) (n + 1) (addInterval e plan.interval) := by
  obtain ⟨hplan, hcalls, sub, hsub, hid, hplanId, hliving, hkept, rfl⟩ := h
  have hlast : ∀ (op : Operation) (phase : Phase), (w.calls ++ [⟨op, phase⟩])[n + 1]? = some ⟨op, phase⟩ := by
    intro op phase
    rw [← hcalls]
    exact List.getElem?_concat_length
  have hset : ∀ (op : Operation) (phase phase' : Phase), (w.calls ++ [(⟨op, phase⟩ : Call)]).set (n + 1) ⟨op, phase'⟩ =
      w.calls ++ [⟨op, phase'⟩] := by
    intro op phase phase'
    rw [← hcalls]
    simp
  simp only [run, renewing, List.foldl_cons, List.foldl_nil, step, World.start, World.load, hsub, hlast, World.proceed,
    World.loaded, if_neg hliving, World.setCall, hset, hplanId, hplan, World.renewWith, hkept, Bool.false_eq_true, if_false,
    World.charge, World.answered, World.renewed, World.write, World.store, World.finish, hid]
  refine ⟨hplan, ?_, ?_⟩
  · simp [hcalls]
  · exact ⟨_, (OrderedMap.get_set ..).trans (if_pos rfl), rfl, rfl, by simp, rfl, rfl⟩

theorem renewals_spec {plan : Plan} (hactive : plan.active = true) (hseats : plan.seats ≠ some 0) (start : Int)
    (customerId : String) (n : Nat) : Renewed plan (renewals plan start customerId n) n
      (periodEnd (billingStart plan start) plan.interval (periods plan n)) := by
  induction n with
  | zero =>
    have hplan : OrderedMap.get [(plan.id, plan)] plan.id = some plan := by simp [OrderedMap.get]
    have hsubscribe : ∀ (w : World) (c : Call), w.subscribeTo 0 c plan.id customerId none (some plan) = if 0 < plan.trialDays then
          { w with nextId := w.nextId + 1 }.write 0 c ⟨w.nextId, plan.id, customerId, .trialing, plan.seats, 0, w.now,
            w.now + plan.trialDays * dayMs, false, none, w.now, none⟩
        else { w with nextId := w.nextId + 1 }.setCall 0 c (.charging plan plan.seats w.nextId w.now) := by
      intro w c
      simp only [World.subscribeTo, World.allowance, hactive, hseats, Option.getD_none, Bool.true_eq_false, if_false]
    have hrun : ∀ found, found = some plan → run step
        ⟨[(plan.id, plan)], [], start, 0, [], [⟨.subscribe plan.id customerId none, .subscribing found⟩], [], [], []⟩
        [.proceed 0, .charge 0 .charged, .proceed 0, .proceed 0] = run step
          (World.subscribeTo ⟨[(plan.id, plan)], [], start, 0, [], [⟨.subscribe plan.id customerId none, .subscribing found⟩],
            [], [], []⟩ 0 ⟨.subscribe plan.id customerId none, .subscribing found⟩ plan.id customerId none (some plan))
          [.charge 0 .charged, .proceed 0, .proceed 0] := by
      rintro _ rfl
      rfl
    rw [show renewals plan start customerId 0 = _ from hrun _ hplan, hsubscribe]
    unfold billingStart periods
    split
    · exact ⟨hplan, rfl, _, rfl, rfl, rfl, by simp, rfl, rfl⟩
    · have hnone : plan.trialDays = 0 := by omega
      refine ⟨hplan, rfl, _, rfl, rfl, rfl, by simp, rfl, ?_⟩
      simp [periodEnd, hnone]
  | succ n ih =>
    have hperiods : periods plan (n + 1) = periods plan n + 1 := by
      unfold periods
      split <;> rfl
    rw [hperiods]
    exact renewed_step ih

/-- **The period ends follow the calendar** exactly when every month that is due, up to the last one, has the day of
the month on which the billing starts. -/
theorem calendar_iff (plan : Plan) (start : Int) (customerId : String) (n : Nat) (hactive : plan.active = true)
    (hseats : plan.seats ≠ some 0) :
    ∃ sub, (renewals plan start customerId n).subs.get 0 = some sub ∧
      (OnCalendar (billingStart plan start) plan.interval (periods plan n) sub.currentPeriodEnd ↔
        HasTheDay (billingStart plan start) plan.interval (periods plan n)) := by
  obtain ⟨sub, hsub, -, -, -, -, hend⟩ := (renewals_spec hactive hseats start customerId n).sub
  exact ⟨sub, hsub, hend ▸ onCalendar_iff _⟩

/-- A monthly plan without a trial. -/
def monthly : Plan := ⟨7, 990, "USD", .month, none, 0, true⟩

/-- Renewed once, with a start on 31 January 2023. -/
theorem calendar_iff_january : ∃ sub, (renewals monthly 1675123200000 "ada" 1).subs.get 0 = some sub ∧
    (OnCalendar (billingStart monthly 1675123200000) .month (periods monthly 1) sub.currentPeriodEnd ↔
      HasTheDay (billingStart monthly 1675123200000) .month (periods monthly 1)) :=
  calendar_iff monthly 1675123200000 "ada" 1 rfl nofun

/-- The month after 31 January 2023 ends on 3 March. -/
theorem calendar_counterexample : ∃ sub, (renewals monthly 1675123200000 "ada" 0).subs.get 0 = some sub ∧
    sub.currentPeriodEnd = 1677801600000 ∧ ¬OnCalendar 1675123200000 .month 1 sub.currentPeriodEnd := by
  refine ⟨_, rfl, by decide +kernel, fun h => ?_⟩
  exact absurd h.1 (by decide +kernel)

end StreetJS.Subscriptions
