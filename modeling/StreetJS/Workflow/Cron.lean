/-
The cron expressions of the workflow engine (`computeNextCronTime` and `parseCronField` of
`workflow/src/context.ts`): the next instant, in UTC minutes, that matches a five-field expression.
-/
import StreetJS.Workflow.Types
import Mathlib.Tactic

namespace StreetJS.Workflow

/-! ## Number.parseInt and String.split -/

/-- The white space of `/\s/` and of `String.prototype.trim`. -/
def isJsSpace (c : Char) : Bool :=
  let n := c.toNat
  (9 ≤ n && n ≤ 13) || n == 32 || n == 160 || n == 5760 || (8192 ≤ n && n ≤ 8202) || n == 8232 ||
    n == 8233 || n == 8239 || n == 8287 || n == 12288 || n == 65279

/-- The maximal runs of characters outside `sep`, without the empty ones:
`s.trim().split(/\s+/)` when `s` is not blank. -/
def splitWords (sep : Char → Bool) (s : List Char) : List (List Char) :=
  (s.splitOnP sep).filter (fun w => !w.isEmpty)

/-- `Number.parseInt(s, 10)`; `none` is `NaN`. -/
def parseInt (s : List Char) : Option Int :=
  let t := s.dropWhile isJsSpace
  let (negative, digits) := match t with
    | '-' :: rest => (true, rest)
    | '+' :: rest => (false, rest)
    | _ => (false, t)
  match digits.takeWhile Char.isDigit with
  | [] => none
  | ds =>
    let n : Int := ds.foldl (fun acc c => acc * 10 + (c.toNat - '0'.toNat : Nat)) 0
    some (if negative then -n else n)

/-! ## parseCronField -/

/-- The values `start, start + step, …` up to `stop` that are not in `values` yet, at most `fuel`
of them. -/
def addRange (values : List Int) (start stop step : Int) : Nat → List Int
  | 0 => values
  | fuel + 1 =>
    if start ≤ stop then
      addRange (if start ∈ values then values else values ++ [start]) (start + step) stop step fuel
    else values

def invalidCron (expression detail : String) : String :=
  "Invalid cron expression \"" ++ expression ++ "\": " ++ detail

/-- The range of one comma-separated part of a field. -/
def parseCronRange (part range : List Char) (hasStep : Bool) (min max : Int) : Except String (Int × Int) :=
  if range = ['*'] then .ok (min, max)
  else
    match range.splitOn '-' with
    | [value] =>
      let outOfRange := "value \"" ++ String.ofList value ++ "\" out of range " ++ toString min ++ "-" ++ toString max ++ "."
      match parseInt value with
      | some v => if v < min ∨ max < v then .error outOfRange else .ok (v, if hasStep then max else v)
      | none => .error outOfRange
    | [lo, hi] =>
      let invalid := "invalid range \"" ++ String.ofList range ++ "\"."
      match parseInt lo, parseInt hi with
      | some a, some b => if a < min ∨ max < b ∨ b < a then .error invalid else .ok (a, b)
      | _, _ => .error invalid
    | _ => .error ("invalid field \"" ++ String.ofList part ++ "\".")

/-- The values added by one comma-separated part. -/
def parseCronPart (values : List Int) (part : List Char) (min max : Int) : Except String (List Int) :=
  let pieces := part.splitOn '/'
  let step : Option Int := match pieces[1]? with
    | none => some 1
    | some s => parseInt s
  match step.filter (0 < ·) with
  | none => .error ("invalid step in \"" ++ String.ofList part ++ "\".")
  | some step => do
    let (a, b) ← parseCronRange part (pieces[0]?.getD []) pieces[1]?.isSome min max
    return addRange values a b step (b - a + 1).toNat

/-- The set of integers that a field matches, in order of insertion. -/
def parseCronField (field : List Char) (min max : Int) : Except String (List Int) :=
  (field.splitOn ',').foldlM (fun values part => parseCronPart values part min max) []

/-! ## UTC calendar fields -/

/-- Days since the epoch to `(month, day of month)`, proleptic Gregorian. -/
def civilFromDays (days : Int) : Int × Int :=
  let z := days + 719468
  let era := z / 146097
  let doe := z - era * 146097
  let yoe := (doe - doe / 1460 + doe / 36524 - doe / 146096) / 365
  let doy := doe - (365 * yoe + yoe / 4 - yoe / 100)
  let mp := (5 * doy + 2) / 153
  (if mp < 10 then mp + 3 else mp - 9, doy - (153 * mp + 2) / 5 + 1)

def getUTCMinutes (t : Int) : Int := t / 60000 % 60
def getUTCHours (t : Int) : Int := t / 3600000 % 24
def getUTCDate (t : Int) : Int := (civilFromDays (t / 86400000)).2
def getUTCMonth (t : Int) : Int := (civilFromDays (t / 86400000)).1 - 1
def getUTCDay (t : Int) : Int := (t / 86400000 + 4) % 7

/-! ## computeNextCronTime -/

structure CronFields where
  minutes : List Int
  hours : List Int
  daysOfMonth : List Int
  months : List Int
  daysOfWeek : List Int

def fieldCountMessage : String :=
  "expected 5 space-separated fields (minute hour day-of-month month day-of-week)."

def parseCronFields (expression : String) : Except String CronFields :=
  match splitWords isJsSpace expression.toList with
  | [f0, f1, f2, f3, f4] => do
    let minutes ← parseCronField f0 0 59
    let hours ← parseCronField f1 0 23
    let daysOfMonth ← parseCronField f2 1 31
    let months ← parseCronField f3 1 12
    let daysOfWeek ← parseCronField f4 0 6
    return { minutes, hours, daysOfMonth, months, daysOfWeek }
  | _ => .error fieldCountMessage

/-- The fields of an expression, or the message of the error thrown for it. -/
def parseCron (expression : String) : Except String CronFields :=
  (parseCronFields expression).mapError (invalidCron expression)

def CronFields.matches (f : CronFields) (t : Int) : Bool :=
  let matchesDom := f.daysOfMonth.contains (getUTCDate t)
  let matchesDow := f.daysOfWeek.contains (getUTCDay t)
  let matchesDay := if f.daysOfMonth.length < 31 ∧ f.daysOfWeek.length < 7 then matchesDom || matchesDow
    else matchesDom && matchesDow
  f.months.contains (getUTCMonth t + 1) && matchesDay && f.hours.contains (getUTCHours t) && f.minutes.contains (getUTCMinutes t)

/-- The first matching minute among the next `fuel` ones. -/
def searchCron (f : CronFields) : Nat → Int → Option Int
  | 0, _ => none
  | fuel + 1, cursor => if f.matches cursor then some cursor else searchCron f fuel (cursor + 60000)

/-- The top of the next minute strictly after `fromMs`. -/
def cronStart (fromMs : Int) : Int := fromMs / 60000 * 60000 + 60000

/-- About four years of minutes. -/
def maxCronIterations : Nat := 366 * 4 * 24 * 60

def computeNextCronTime (expression : String) (fromMs : Int) : Except String Int :=
  (parseCron expression).map fun f =>
    (searchCron f maxCronIterations (cronStart fromMs)).getD (cronStart fromMs)

theorem searchCron_ge (f : CronFields) : ∀ (fuel : Nat) (cursor t : Int), searchCron f fuel cursor = some t → cursor ≤ t
  | 0, _, _, h => by cases h
  | fuel + 1, cursor, t, h => by
    unfold searchCron at h
    split at h
    · cases h; exact le_refl _
    · have := searchCron_ge f fuel (cursor + 60000) t h
      omega

theorem lt_cronStart (fromMs : Int) : fromMs < cronStart fromMs := by
  unfold cronStart; omega

theorem lt_computeNextCronTime {expression : String} {fromMs t : Int} (h : computeNextCronTime expression fromMs = .ok t) : fromMs < t := by
  unfold computeNextCronTime at h
  cases hp : parseCron expression with
  | error e => rw [hp] at h; cases h
  | ok f =>
    rw [hp] at h
    cases h
    have hs := lt_cronStart fromMs
    show fromMs < (searchCron f maxCronIterations (cronStart fromMs)).getD (cronStart fromMs)
    cases hc : searchCron f maxCronIterations (cronStart fromMs) with
    | none => exact hs
    | some u => exact lt_of_lt_of_le hs (searchCron_ge f _ _ _ hc)

/-- Whether an expression is accepted, and the message when it is not, does not depend on the
instant it is asked for. -/
theorem computeNextCronTime_error {expression message : String} {a : Int} (h : computeNextCronTime expression a = .error message) (b : Int) :
    computeNextCronTime expression b = .error message := by
  unfold computeNextCronTime at h ⊢
  cases hp : parseCron expression with
  | error e => rw [hp] at h; cases h; rfl
  | ok f => rw [hp] at h; cases h

/-! ## Stability of the next time -/

theorem searchCron_congruent (f : CronFields) : ∀ (fuel : Nat) (cursor t : Int), searchCron f fuel cursor = some t → 60000 ∣ t - cursor
  | 0, _, _, h => by cases h
  | fuel + 1, cursor, t, h => by
    unfold searchCron at h
    split at h
    · cases h
      exact ⟨0, by omega⟩
    · obtain ⟨k, hk⟩ := searchCron_congruent f fuel (cursor + 60000) t h
      exact ⟨k + 1, by omega⟩

theorem searchCron_succ (f : CronFields) :
    ∀ (fuel : Nat) (cursor t : Int), searchCron f fuel cursor = some t → searchCron f (fuel + 1) cursor = some t
  | 0, _, _, h => by cases h
  | fuel + 1, cursor, t, h => by
    unfold searchCron at h ⊢
    split at h
    · rename_i hm
      rwa [if_pos hm]
    · rename_i hm
      rw [if_neg hm]
      exact searchCron_succ f fuel (cursor + 60000) t h

theorem searchCron_later (f : CronFields) : ∀ (m fuel : Nat) (cursor t : Int), searchCron f fuel cursor = some t → cursor + 60000 * m ≤ t →
      searchCron f fuel (cursor + 60000 * m) = some t
  | 0, fuel, cursor, t, h, _ => by
    rw [show cursor + 60000 * ((0 : Nat) : Int) = cursor by omega]
    exact h
  | m + 1, 0, _, _, h, _ => by cases h
  | m + 1, fuel + 1, cursor, t, h, hle => by
    have hne : f.matches cursor = false := by
      by_contra hm
      unfold searchCron at h
      rw [if_pos (by simpa using hm)] at h
      cases h
      omega
    have hrest : searchCron f fuel (cursor + 60000) = some t := by
      unfold searchCron at h
      rwa [hne] at h
    have hcast : cursor + 60000 * ((m + 1 : Nat) : Int) = cursor + 60000 + 60000 * (m : Int) := by push_cast; omega
    rw [hcast]
    exact searchCron_succ f _ _ _ (searchCron_later f m fuel (cursor + 60000) t hrest (by rw [hcast] at hle; exact hle))

theorem computeNextCronTime_stable {expression : String} {a b t : Int}
    (h : computeNextCronTime expression a = .ok t) (hab : a ≤ b) (hbt : b < t) :
    computeNextCronTime expression b = .ok t := by
  unfold computeNextCronTime at h ⊢
  cases hp : parseCron expression with
  | error e => rw [hp] at h; cases h
  | ok f =>
    rw [hp] at h
    have ht : (searchCron f maxCronIterations (cronStart a)).getD (cronStart a) = t := by
      injection h
    show Except.ok ((searchCron f maxCronIterations (cronStart b)).getD (cronStart b)) = _
    congr 1
    obtain ⟨m, hm⟩ : ∃ m : Nat, cronStart b = cronStart a + 60000 * m := by
      refine ⟨(b / 60000 - a / 60000).toNat, ?_⟩
      unfold cronStart
      omega
    cases hs : searchCron f maxCronIterations (cronStart a) with
    | none =>
      rw [hs] at ht
      -- the fallback is the next minute, which is that of `b` as well
      have hm0 : m = 0 := by
        have h1 : cronStart a = t := ht
        unfold cronStart at h1 hm
        omega
      rw [hm0, show cronStart a + 60000 * ((0 : Nat) : Int) = cronStart a by omega] at hm
      rw [hm, hs]
      exact ht
    | some u =>
      rw [hs] at ht
      have hu : u = t := ht
      subst hu
      have hle : cronStart a + 60000 * m ≤ u := by
        obtain ⟨k, hk⟩ := searchCron_congruent f _ _ _ hs
        unfold cronStart at hk hm ⊢
        omega
      rw [hm, searchCron_later f m _ _ _ hs hle]
      rfl

end StreetJS.Workflow
