/-
The next time of a cron expression (`nextFireTime` of `core/src/jobs/scheduler.ts`), in local time at a fixed offset:
the search skips months, days and hours that do not match, for four times 365 days.
-/
import Mathlib.Data.Rat.Floor
import Mathlib.Order.Bounds.Basic
import StreetJS.Lib.Calendar

namespace StreetJS.Jobs

open StreetJS.Lib List
open Calendar (firstOfMonth monthOf monthOf_spec yearStart)

/-! ## Dates -/

/-- The day of an instant in local milliseconds, counted from the first day of year 1. -/
def dayOf (t : Int) : Int := t / 86400000 + yearStart 1970

def getMinutes (t : Int) : Int := t / 60000 % 60
def getHours (t : Int) : Int := t / 3600000 % 24
def getDay (t : Int) : Int := (t / 86400000 + 4) % 7
def getDate (t : Int) : Int := dayOf t - firstOfMonth (monthOf (dayOf t)) + 1
def getMonth (t : Int) : Int := monthOf (dayOf t) % 12

/-- The same time on another day, as of `setMonth` and `setDate`. -/
def onDay (t day : Int) : Int := (day - yearStart 1970) * 86400000 + t % 86400000

/-- `setHours(hours, 0, 0, 0)`. -/
def setHours (t hours : Int) : Int := t / 86400000 * 86400000 + hours * 3600000

/-- `setMinutes(minutes, 0, 0)`, which drops a fraction. -/
def setMinutes (t : Int) (minutes : ℚ) : Int := t / 3600000 * 3600000 + ⌊minutes⌋ * 60000

/-! ## nextFireTime -/

/-- The parsed fields; the minutes are in order. -/
structure CronFields where
  minute : List ℚ
  hour : List ℚ
  day : List ℚ
  month : List ℚ
  weekday : List ℚ
  increasing : minute.Pairwise (· < ·)
  bounds : ∀ m ∈ minute, 0 ≤ m ∧ m ≤ 59

namespace CronFields

variable (f : CronFields)

def matchesMonth (t : Int) : Prop := ((getMonth t + 1 : Int) : ℚ) ∈ f.month
def matchesDay (t : Int) : Prop := (getDate t : ℚ) ∈ f.day
def matchesWeekday (t : Int) : Prop := (getDay t : ℚ) ∈ f.weekday ∨ getDay t = 0 ∧ 7 ∈ f.weekday
def matchesHour (t : Int) : Prop := (getHours t : ℚ) ∈ f.hour

instance (t : Int) : Decidable (f.matchesMonth t) := inferInstanceAs (Decidable (_ ∈ _))
instance (t : Int) : Decidable (f.matchesDay t) := inferInstanceAs (Decidable (_ ∈ _))
instance (t : Int) : Decidable (f.matchesWeekday t) := inferInstanceAs (Decidable (_ ∨ _))
instance (t : Int) : Decidable (f.matchesHour t) := inferInstanceAs (Decidable (_ ∈ _))

/-- One round of the loop: where the search goes on, or the time that is returned. -/
def round (d : Int) : Int ⊕ Int :=
  if ¬f.matchesMonth d then .inl (setHours (onDay d (firstOfMonth (monthOf (dayOf d) + 1))) 0)
  else if ¬f.matchesDay d then .inl (setHours (onDay d (dayOf d + 1)) 0)
  else if ¬f.matchesWeekday d then .inl (setHours (onDay d (dayOf d + 1)) 0)
  else if ¬f.matchesHour d then .inl (setHours d (getHours d + 1))
  else
    match f.minute.find? fun m => (getMinutes d : ℚ) ≤ m with
    | none => .inl (setHours d (getHours d + 1))
    | some nextMinute => .inr (setMinutes d nextMinute)

/-- The hour of an instant matches. -/
structure OnHour (t : Int) : Prop where
  month : f.matchesMonth t
  day : f.matchesDay t
  weekday : f.matchesWeekday t
  hour : f.matchesHour t

/-- A whole minute that matches all five fields. -/
structure Fires (t : Int) : Prop extends f.OnHour t where
  whole : 60000 ∣ t
  minute : (getMinutes t : ℚ) ∈ f.minute

/-- A whole minute that matches when the fractions of the minutes are dropped. -/
structure Taken (t : Int) : Prop extends f.OnHour t where
  whole : 60000 ∣ t
  minute : ∃ m ∈ f.minute, ⌊m⌋ = getMinutes t

end CronFields

variable {f : CronFields}

/-! ## One round -/

theorem dayOf_setHours (t day : Int) : setHours (onDay t day) 0 = (day - yearStart 1970) * 86400000 := by
  unfold setHours onDay
  omega

variable {t u : Int}

theorem dayOf_eq (h : t ≤ u) (h' : u < setHours (onDay t (dayOf t + 1)) 0) : dayOf u = dayOf t := by
  rw [dayOf_setHours] at h'
  unfold dayOf at h' ⊢
  omega

theorem monthOf_eq (h : t ≤ u) (h' : u < setHours (onDay t (firstOfMonth (monthOf (dayOf t) + 1))) 0) :
    monthOf (dayOf u) = monthOf (dayOf t) := by
  rw [dayOf_setHours] at h'
  obtain ⟨hfirst, -⟩ := monthOf_spec (dayOf t)
  apply Calendar.monthOf_eq
  · unfold dayOf at hfirst ⊢
    omega
  · unfold dayOf at h' ⊢
    omega

theorem hour_eq (h : t ≤ u) (h' : u < setHours t (getHours t + 1)) : u / 3600000 = t / 3600000 := by
  unfold setHours getHours at h'
  omega

theorem matchesMonth_congr (h : monthOf (dayOf u) = monthOf (dayOf t)) : f.matchesMonth u ↔ f.matchesMonth t := by
  unfold CronFields.matchesMonth getMonth
  rw [h]

theorem matchesDay_congr (h : dayOf u = dayOf t) : f.matchesDay u ↔ f.matchesDay t := by
  unfold CronFields.matchesDay getDate
  rw [h]

theorem matchesWeekday_congr (h : dayOf u = dayOf t) : f.matchesWeekday u ↔ f.matchesWeekday t := by
  have hday : getDay u = getDay t := by
    unfold dayOf at h
    unfold getDay
    omega
  unfold CronFields.matchesWeekday
  rw [hday]

theorem OnHour.congr (h : u / 3600000 = t / 3600000) (ht : f.OnHour t) : f.OnHour u := by
  have hday : dayOf u = dayOf t := by
    unfold dayOf
    omega
  refine ⟨(matchesMonth_congr (congrArg _ hday)).2 ht.month, (matchesDay_congr hday).2 ht.day, (matchesWeekday_congr hday).2 ht.weekday, ?_⟩
  unfold CronFields.matchesHour getHours
  rw [h]
  exact ht.hour

/-- **Where the search goes on nothing was missed.** -/
theorem round_inl {d d' : Int} (h : f.round d = .inl d') : d < d' ∧ 3600000 ∣ d' ∧ ∀ u, d ≤ u → u < d' → ¬f.Taken u := by
  have hday : d < setHours (onDay d (dayOf d + 1)) 0 ∧ 3600000 ∣ setHours (onDay d (dayOf d + 1)) 0 := by
    rw [dayOf_setHours]
    unfold dayOf
    omega
  have hhour : d < setHours d (getHours d + 1) ∧ 3600000 ∣ setHours d (getHours d + 1) := by
    unfold setHours getHours
    omega
  unfold CronFields.round at h
  split at h
  · rename_i hmonth
    cases h
    obtain ⟨-, hnext⟩ := monthOf_spec (dayOf d)
    refine ⟨?_, ?_, fun u hle hlt hu => hmonth ((matchesMonth_congr (monthOf_eq hle hlt)).1 hu.month)⟩
    · rw [dayOf_setHours]
      unfold dayOf at hnext ⊢
      omega
    · rw [dayOf_setHours]
      omega
  · split at h
    · rename_i hdate
      cases h
      exact ⟨hday.1, hday.2, fun u hle hlt hu => hdate ((matchesDay_congr (dayOf_eq hle hlt)).1 hu.day)⟩
    · split at h
      · rename_i hweekday
        cases h
        exact ⟨hday.1, hday.2, fun u hle hlt hu => hweekday ((matchesWeekday_congr (dayOf_eq hle hlt)).1 hu.weekday)⟩
      · split at h
        · rename_i hnot
          cases h
          refine ⟨hhour.1, hhour.2, fun u hle hlt hu => hnot ?_⟩
          exact (OnHour.congr (hour_eq hle hlt).symm hu.toOnHour).hour
        · split at h
          · rename_i hfind
            cases h
            refine ⟨hhour.1, hhour.2, fun u hle hlt hu => ?_⟩
            -- the minutes that are left of the hour are above all of the field
            obtain ⟨m, hm, hfloor⟩ := hu.minute
            have hlt' := find?_eq_none.1 hfind m hm
            have hminutes : getMinutes d ≤ ⌊m⌋ := by
              have hsame := hour_eq hle hlt
              rw [hfloor]
              unfold getMinutes
              omega
            exact hlt' (decide_eq_true (Int.le_floor.1 hminutes))
          · cases h

/-- The value found is the least of those that are not passed. -/
theorem CronFields.find_le {cursor m m' : ℚ} (h : f.minute.find? (fun m => cursor ≤ m) = some m) (hm' : m' ∈ f.minute)
    (hle : cursor ≤ m') : m ≤ m' := by
  obtain ⟨-, before, after, hsplit, hbefore⟩ := find?_eq_some_iff_append.1 h
  have hincreasing := f.increasing
  rw [hsplit] at hm' hincreasing
  rcases mem_append.1 hm' with hm' | hm'
  · exact absurd (decide_eq_true hle) (by simpa using hbefore m' hm')
  · rcases mem_cons.1 hm' with rfl | hm'
    · exact le_refl _
    · exact le_of_lt ((pairwise_cons.1 (pairwise_append.1 hincreasing).2.1).1 m' hm')

/-- **What is returned is the first minute that is taken.** -/
theorem round_inr {d : Int} (hd : 60000 ∣ d) (h : f.round d = .inr t) : IsLeast {u | f.Taken u ∧ d ≤ u} t ∧ t / 3600000 = d / 3600000 := by
  unfold CronFields.round at h
  split at h
  · cases h
  split at h
  · cases h
  split at h
  · cases h
  split at h
  · cases h
  rename_i hmonth hday hweekday hhour
  split at h
  · cases h
  · rename_i m hfind
    cases h
    have hhere : f.OnHour d := ⟨not_not.1 hmonth, not_not.1 hday, not_not.1 hweekday, not_not.1 hhour⟩
    have hm := mem_of_find?_eq_some hfind
    have hcursor := find?_some hfind
    have hle : getMinutes d ≤ ⌊m⌋ := Int.le_floor.2 (of_decide_eq_true hcursor)
    have hmax : ⌊m⌋ ≤ 59 := by
      have hm59 : (⌊m⌋ : ℚ) ≤ 59 := (Int.floor_le m).trans (f.bounds m hm).2
      exact_mod_cast hm59
    have hnonneg : 0 ≤ getMinutes d := by
      unfold getMinutes
      omega
    have hsame : setMinutes d m / 3600000 = d / 3600000 := by
      unfold setMinutes
      omega
    have hminutes : getMinutes (setMinutes d m) = ⌊m⌋ := by
      unfold getMinutes setMinutes
      omega
    refine ⟨⟨⟨⟨OnHour.congr hsame hhere, ?_, m, hm, hminutes.symm⟩, ?_⟩, ?_⟩, hsame⟩
    · unfold setMinutes
      omega
    · unfold setMinutes
      unfold getMinutes at hle
      omega
    · rintro u ⟨hu, hdu⟩
      by_contra hlt
      -- an earlier minute of this hour comes from an earlier value
      obtain ⟨m', hm', hfloor⟩ := hu.minute
      have hlater : getMinutes d ≤ ⌊m'⌋ := by
        rw [hfloor]
        unfold getMinutes
        omega
      have hfloors := Int.floor_mono (CronFields.find_le hfind hm' (Int.le_floor.1 hlater))
      rw [hfloor] at hfloors
      unfold setMinutes at hlt
      unfold getMinutes at hfloors
      omega

/-! ## The search -/

namespace CronFields

variable (f : CronFields)

/-- The loop of `nextFireTime`, until `limit`. -/
def search (limit d : Int) : Option Int :=
  if d < limit then
    match _hround : f.round d with
    | .inl d' => search limit d'
    | .inr t => some t
  else none
termination_by (limit - d).toNat
decreasing_by
  have hlt := (round_inl _hround).1
  omega

end CronFields

/-- `offset` is the local time's, in minutes. -/
def nextFireTime (f : CronFields) (offset : Int) (fromMs : Int) : Option Int :=
  let d := fromMs + offset * 60000
  let limit := d + 4 * 365 * 24 * 60 * 60 * 1000
  (f.search limit (d / 60000 * 60000 + 60000)).map (· - offset * 60000)

/-- **The search finds the first minute that is taken, unless the hour of that minute begins at the limit or later.** -/
theorem search_eq_some_iff (f : CronFields) (limit d t : Int) (hd : 60000 ∣ d) : f.search limit d = some t ↔
    IsLeast {u | f.Taken u ∧ d ≤ u} t ∧ d < limit ∧ t / 3600000 * 3600000 < limit := by
  fun_induction CronFields.search f limit d with
  | case1 d hlt d' hround ih =>
    obtain ⟨hlater, hhour, hmissed⟩ := round_inl hround
    have hset : {u | f.Taken u ∧ d ≤ u} = {u | f.Taken u ∧ d' ≤ u} := by
      ext u
      constructor
      · rintro ⟨hu, hle⟩
        exact ⟨hu, Int.not_lt.1 fun hlt => hmissed u hle hlt hu⟩
      · rintro ⟨hu, hle⟩
        exact ⟨hu, by omega⟩
    rw [ih (by omega), hset]
    constructor
    · rintro ⟨hleast, -, hlimit⟩
      exact ⟨hleast, hlt, hlimit⟩
    · rintro ⟨hleast, -, hlimit⟩
      have hle := hleast.1.2
      exact ⟨hleast, by omega, hlimit⟩
  | case2 d hlt t' hround =>
    obtain ⟨hleast, hhour⟩ := round_inr hd hround
    constructor
    · intro h
      cases h
      exact ⟨hleast, hlt, by omega⟩
    · rintro ⟨hleast', -, -⟩
      exact congrArg some (hleast.unique hleast')
  | case3 d hlt =>
    constructor
    · intro h
      cases h
    · rintro ⟨-, hlt', -⟩
      exact absurd hlt' hlt

/-! ## The next time -/

section

variable (f : CronFields) (offset fromMs : Int)

/-- A whole minute after `fromMs` that matches. -/
def Due (u : Int) : Prop := f.Fires (u + offset * 60000) ∧ fromMs < u

/-- Four calendar years, with their leap day. -/
def inFourYears (u : Int) : Prop := u ≤ fromMs + (4 * 365 + 1) * 86400000

/-- The next time is the least minute that is due, if any is within four years, and null only if none is. -/
structure NextFire : Prop where
  least : (∃ u, Due f offset fromMs u ∧ inFourYears fromMs u) →
    ∃ t, nextFireTime f offset fromMs = some t ∧ IsLeast {u | Due f offset fromMs u} t
  none : nextFireTime f offset fromMs = none → ¬∃ u, Due f offset fromMs u ∧ inFourYears fromMs u

/-- The hour of the least minute begins within four times 365 days, and no minute before matches but for the fraction
of a minute value. -/
def Reached : Prop := ∀ t, IsLeast {u | Due f offset fromMs u} t → inFourYears fromMs t →
  (t + offset * 60000) / 3600000 * 3600000 < fromMs + offset * 60000 + 4 * 365 * 86400000 ∧
    ∀ u, f.Taken (u + offset * 60000) → fromMs < u → t ≤ u

theorem nextFireTime_eq_some_iff (t : Int) : nextFireTime f offset fromMs = some t ↔
    IsLeast {u | f.Taken (u + offset * 60000) ∧ fromMs < u} t ∧
      (t + offset * 60000) / 3600000 * 3600000 < fromMs + offset * 60000 + 4 * 365 * 86400000 := by
  have hstart : 60000 ∣ (fromMs + offset * 60000) / 60000 * 60000 + 60000 := by omega
  have hsearch := search_eq_some_iff f (fromMs + offset * 60000 + 4 * 365 * 24 * 60 * 60 * 1000) _ (t + offset * 60000) hstart
  have hmap : nextFireTime f offset fromMs = some t ↔ f.search (fromMs + offset * 60000 + 4 * 365 * 24 * 60 * 60 * 1000)
      ((fromMs + offset * 60000) / 60000 * 60000 + 60000) = some (t + offset * 60000) := by
    unfold nextFireTime
    rw [Option.map_eq_some_iff]
    constructor
    · rintro ⟨u, hu, rfl⟩
      rw [Int.sub_add_cancel]
      exact hu
    · intro h
      exact ⟨_, h, Int.add_sub_cancel _ _⟩
  rw [hmap, hsearch]
  -- the minutes from the start of the search on are those after `fromMs`
  constructor
  · rintro ⟨⟨⟨htaken, hle⟩, hleast⟩, -, hlimit⟩
    refine ⟨⟨⟨htaken, by omega⟩, ?_⟩, by omega⟩
    rintro u ⟨hu, hlater⟩
    have hwhole := hu.whole
    have hle' := hleast ⟨hu, show _ ≤ u + offset * 60000 by omega⟩
    omega
  · rintro ⟨⟨⟨htaken, hlater⟩, hleast⟩, hlimit⟩
    have hwhole := htaken.whole
    refine ⟨⟨⟨htaken, by omega⟩, ?_⟩, by omega, by omega⟩
    rintro u ⟨hu, hle⟩
    have hle' := hleast (a := u - offset * 60000) ⟨by rwa [Int.sub_add_cancel], by omega⟩
    omega

theorem CronFields.Fires.taken {f : CronFields} {t : Int} (h : f.Fires t) : f.Taken t :=
  ⟨h.toOnHour, h.whole, _, h.minute, Int.floor_intCast _⟩

/-- **The next time is right exactly when the least minute that is due is reached.** -/
theorem nextFire_iff_reached : NextFire f offset fromMs ↔ Reached f offset fromMs := by
  constructor
  · intro h t hleast hin
    obtain ⟨t', ht', hleast'⟩ := h.least ⟨t, hleast.1, hin⟩
    cases hleast.unique hleast'
    obtain ⟨htaken, hhour⟩ := (nextFireTime_eq_some_iff f offset fromMs t).1 ht'
    exact ⟨hhour, fun u hu hlater => htaken.2 ⟨hu, hlater⟩⟩
  · intro h
    have hleast : (∃ u, Due f offset fromMs u ∧ inFourYears fromMs u) →
        ∃ t, nextFireTime f offset fromMs = some t ∧ IsLeast {u | Due f offset fromMs u} t := by
      rintro ⟨u, hdue, hin⟩
      obtain ⟨t, ht, hle⟩ := Int.exists_least_of_bdd ⟨fromMs, fun v (hv : Due f offset fromMs v) => Int.le_of_lt hv.2⟩ ⟨u, hdue⟩
      have hfirst : IsLeast {u | Due f offset fromMs u} t := ⟨ht, fun v hv => hle v hv⟩
      obtain ⟨hhour, hbefore⟩ := h t hfirst (Int.le_trans (hle u hdue) hin)
      refine ⟨t, (nextFireTime_eq_some_iff f offset fromMs t).2 ⟨⟨⟨ht.1.taken, ht.2⟩, ?_⟩, hhour⟩, hfirst⟩
      exact fun v hv => hbefore v hv.1 hv.2
    refine ⟨hleast, fun hnone hexists => ?_⟩
    obtain ⟨t, ht, -⟩ := hleast hexists
    rw [hnone] at ht
    cases ht

end

/-- `0 0 29 2 *`. -/
def leapDays : CronFields where
  minute := [0]
  hour := [0]
  day := [29]
  month := [2]
  weekday := [0, 1, 2, 3, 4, 5, 6, 7]
  increasing := pairwise_singleton _ _
  bounds m hm := by
    cases mem_singleton.1 hm
    constructor <;> norm_num

/-- From half a minute after midnight on 29 February 2024 the next leap day is 1461 days ahead, and is not found. -/
theorem nextFire_counterexample : ¬NextFire leapDays 0 1709164830000 := by
  intro h
  have hnext : Due leapDays 0 1709164830000 1835395200000 := by
    refine ⟨⟨⟨?_, ?_, ?_, ?_⟩, ?_, ?_⟩, ?_⟩ <;> decide
  obtain ⟨t, ht, -⟩ := h.least ⟨_, hnext, show _ ≤ _ by decide⟩
  obtain ⟨⟨⟨htaken, hlater⟩, -⟩, hhour⟩ := (nextFireTime_eq_some_iff _ _ _ t).1 ht
  rw [Int.zero_mul, Int.add_zero] at htaken hhour
  have hepoch : yearStart 1970 = 719162 := rfl
  have hmonth : monthOf (dayOf t) % 12 + 1 = 2 := by
    exact_mod_cast mem_singleton.1 htaken.month
  have hdate : getDate t = 29 := by
    exact_mod_cast mem_singleton.1 htaken.day
  obtain ⟨m, hm, hminute⟩ := htaken.minute
  rw [mem_singleton.1 hm, Int.floor_zero] at hminute
  have hhours : getHours t = 0 := by
    exact_mod_cast mem_singleton.1 htaken.hour
  obtain ⟨hfirst, hnext⟩ := monthOf_spec (dayOf t)
  unfold getDate at hdate
  -- only the Februaries of 2024 to 2028 come into question
  have hge : firstOfMonth (12 * 2024 + 1) < firstOfMonth (monthOf (dayOf t) + 1) := by
    have hstart : firstOfMonth (12 * 2024 + 1) = 738916 := by decide
    unfold dayOf at hnext ⊢
    omega
  have hle : firstOfMonth (monthOf (dayOf t)) < firstOfMonth (12 * 2028 + 2) := by
    have hend : firstOfMonth (12 * 2028 + 2) = 740406 := by decide
    unfold dayOf at hfirst ⊢
    omega
  have hge := Calendar.firstOfMonth_strictMono.lt_iff_lt.1 hge
  have hle := Calendar.firstOfMonth_strictMono.lt_iff_lt.1 hle
  have hlength : ∀ year ∈ [2025, 2026, 2027], firstOfMonth (12 * year + 1) + 28 = firstOfMonth (12 * year + 1 + 1) := by decide
  have hyear : monthOf (dayOf t) = 12 * (monthOf (dayOf t) / 12) + 1 := by omega
  generalize monthOf (dayOf t) / 12 = year at hyear
  rw [hyear] at hnext hdate hge hle
  by_cases hcommon : year ∈ [2025, 2026, 2027]
  · have hshort := hlength year hcommon
    omega
  · simp only [mem_cons, not_mem_nil, or_false] at hcommon
    have hwhole := htaken.whole
    unfold getHours at hhours
    unfold getMinutes at hminute
    unfold dayOf at hdate
    obtain rfl | rfl : year = 2024 ∨ year = 2028 := by omega
    · have hstart : firstOfMonth (12 * 2024 + 1) = 738916 := by decide
      omega
    · have hstart : firstOfMonth (12 * 2028 + 1) = 740377 := by decide
      omega

end StreetJS.Jobs
