/-
What `computeNextCronTime` finds: the least minute that matches, when the search of some four years of minutes comes
to one.
-/
import StreetJS.Workflow.Cron

namespace StreetJS.Workflow

open List

/-! ## What an expression says -/

/-- A field that leaves some of its values out. -/
def Restricted (values : List Int) (min max : Int) : Prop := ∃ v, min ≤ v ∧ v ≤ max ∧ v ∉ values

/-- The UTC fields match: the day of the month or the day of the week when both are restricted, else both. -/
structure Scheduled (f : CronFields) (t : Int) : Prop where
  month : getUTCMonth t + 1 ∈ f.months
  either : Restricted f.daysOfMonth 1 31 ∧ Restricted f.daysOfWeek 0 6 → getUTCDate t ∈ f.daysOfMonth ∨ getUTCDay t ∈ f.daysOfWeek
  both : ¬(Restricted f.daysOfMonth 1 31 ∧ Restricted f.daysOfWeek 0 6) → getUTCDate t ∈ f.daysOfMonth ∧ getUTCDay t ∈ f.daysOfWeek
  hour : getUTCHours t ∈ f.hours
  minute : getUTCMinutes t ∈ f.minutes

/-- A whole minute after `fromMs` that matches. -/
structure Due (f : CronFields) (fromMs t : Int) : Prop where
  whole : 60000 ∣ t
  later : fromMs < t
  scheduled : Scheduled f t

/-! ## The parsed fields -/

/-- Values of a field: some, each once, inside the bounds. -/
structure FieldOk (values : List Int) (min max : Int) : Prop where
  nodup : values.Nodup
  bounds : ∀ v ∈ values, min ≤ v ∧ v ≤ max

theorem FieldOk.addRange {min max step stop : Int} (hstep : 0 < step) (hstop : stop ≤ max) :
    ∀ (fuel : Nat) {values : List Int} (start : Int), FieldOk values min max → min ≤ start →
      FieldOk (addRange values start stop step fuel) min max ∧ (start ≤ stop → 0 < fuel → addRange values start stop step fuel ≠ []) ∧
        (values ≠ [] → addRange values start stop step fuel ≠ [])
  | 0, values, start, h, _ => ⟨h, fun _ hpos => absurd hpos (lt_irrefl 0), id⟩
  | fuel + 1, values, start, h, hstart => by
    unfold Workflow.addRange
    split
    · rename_i hle
      have hadded : FieldOk (if start ∈ values then values else values ++ [start]) min max := by
        split
        · exact h
        · rename_i hnew
          constructor
          · exact nodup_append.2 ⟨h.nodup, nodup_singleton _, fun a ha b hb hab =>
              hnew (mem_singleton.1 hb ▸ hab ▸ ha)⟩
          · intro v hv
            rcases mem_append.1 hv with hv | hv
            · exact h.bounds v hv
            · cases mem_singleton.1 hv
              omega
      have hsome : (if start ∈ values then values else values ++ [start]) ≠ [] := by
        split
        · rename_i hmem
          exact ne_nil_of_mem hmem
        · exact append_ne_nil_of_right_ne_nil _ (cons_ne_nil _ _)
      obtain ⟨hok, -, hkept⟩ := FieldOk.addRange hstep hstop fuel (start + step) hadded (by omega)
      exact ⟨hok, fun _ _ => hkept hsome, fun _ => hkept hsome⟩
    · rename_i hlt
      exact ⟨h, fun hle => absurd hle hlt, id⟩

theorem parseCronRange_ok {part range : List Char} {hasStep : Bool} {min max a b : Int} (hle : min ≤ max)
    (h : parseCronRange part range hasStep min max = .ok (a, b)) : min ≤ a ∧ a ≤ b ∧ b ≤ max := by
  unfold parseCronRange at h
  split at h
  · cases h
    omega
  · split at h
    · split at h
      · split at h
        · cases h
        · cases h
          split <;> omega
      · cases h
    · split at h
      · split at h
        · cases h
        · cases h
          omega
      · cases h
    · cases h

variable {values : List Int}

theorem parseCronPart_ok {values' : List Int} {part : List Char} {min max : Int} (hle : min ≤ max)
    (hok : FieldOk values min max) (h : parseCronPart values part min max = .ok values') :
    FieldOk values' min max ∧ values' ≠ [] := by
  unfold parseCronPart at h
  dsimp only at h
  split at h
  · cases h
  · rename_i step hstep
    have hpos : 0 < step := by simpa using (Option.filter_eq_some_iff.1 hstep).2
    cases hrange : parseCronRange part ((part.splitOn '/')[0]?.getD []) (part.splitOn '/')[1]?.isSome min max with
    | error e =>
      rw [hrange] at h
      cases h
    | ok range =>
      obtain ⟨a, b⟩ := range
      rw [hrange] at h
      obtain ⟨ha, hab, hb⟩ := parseCronRange_ok hle hrange
      obtain ⟨hadded, hsome, -⟩ := FieldOk.addRange hpos hb (b - a + 1).toNat a hok ha
      cases h
      exact ⟨hadded, hsome hab (by omega)⟩

theorem foldlM_parts_ok {min max : Int} (hle : min ≤ max) : ∀ {parts : List (List Char)} {values values' : List Int},
    FieldOk values min max → (values ≠ [] ∨ parts ≠ []) →
      parts.foldlM (fun values part => parseCronPart values part min max) values = .ok values' →
      FieldOk values' min max ∧ values' ≠ []
  | [], values, values', hok, hsome, h => by
    cases h
    exact ⟨hok, hsome.resolve_right fun hn => hn rfl⟩
  | part :: parts, values, values', hok, _, h => by
    rw [foldlM_cons] at h
    cases hpart : parseCronPart values part min max with
    | error e =>
      rw [hpart] at h
      cases h
    | ok values₁ =>
      rw [hpart] at h
      obtain ⟨hok₁, hsome₁⟩ := parseCronPart_ok hle hok hpart
      exact foldlM_parts_ok hle hok₁ (.inl hsome₁) h

theorem parseCronField_ok {field : List Char} {min max : Int} (hle : min ≤ max)
    (h : parseCronField field min max = .ok values) : FieldOk values min max ∧ values ≠ [] :=
  foldlM_parts_ok hle ⟨nodup_nil, fun _ hv => nomatch hv⟩ (.inr (splitOn_ne_nil _ _)) h

/-- The fields of an expression. -/
structure CronFields.Ok (f : CronFields) : Prop where
  minutes : FieldOk f.minutes 0 59
  hours : FieldOk f.hours 0 23
  daysOfMonth : FieldOk f.daysOfMonth 1 31
  months : FieldOk f.months 1 12
  daysOfWeek : FieldOk f.daysOfWeek 0 6
  someMinute : f.minutes ≠ []
  someHour : f.hours ≠ []
  someDay : f.daysOfMonth ≠ []
  someMonth : f.months ≠ []
  someWeekday : f.daysOfWeek ≠ []

theorem of_bind_ok {α β : Type} {x : Except String α} {g : α → Except String β} {b : β}
    (h : x >>= g = .ok b) : ∃ a, x = .ok a ∧ g a = .ok b := by
  cases x with
  | ok a => exact ⟨a, rfl, h⟩
  | error e => cases h

variable {f : CronFields}

theorem parseCronFields_ok {expression : String} (h : parseCronFields expression = .ok f) : f.Ok := by
  unfold parseCronFields at h
  split at h
  · obtain ⟨minutes, hminutes, h⟩ := of_bind_ok h
    obtain ⟨hours, hhours, h⟩ := of_bind_ok h
    obtain ⟨daysOfMonth, hdom, h⟩ := of_bind_ok h
    obtain ⟨months, hmonths, h⟩ := of_bind_ok h
    obtain ⟨daysOfWeek, hdow, h⟩ := of_bind_ok h
    cases h
    have hminutes := parseCronField_ok (by decide) hminutes
    have hhours := parseCronField_ok (by decide) hhours
    have hdom := parseCronField_ok (by decide) hdom
    have hmonths := parseCronField_ok (by decide) hmonths
    have hdow := parseCronField_ok (by decide) hdow
    exact ⟨hminutes.1, hhours.1, hdom.1, hmonths.1, hdow.1, hminutes.2, hhours.2, hdom.2, hmonths.2, hdow.2⟩
  · cases h

theorem parseCron_ok {expression : String} (h : parseCron expression = .ok f) : f.Ok := by
  unfold parseCron at h
  cases hparse : parseCronFields expression with
  | error e =>
    rw [hparse] at h
    cases h
  | ok g =>
    rw [hparse] at h
    cases h
    exact parseCronFields_ok hparse

theorem FieldOk.restricted_iff {min max : Int} (h : FieldOk values min max) :
    Restricted values min max ↔ values.length < (max + 1 - min).toNat := by
  have hcard : values.toFinset.card = values.length := toFinset_card_of_nodup h.nodup
  have hsubset : values.toFinset ⊆ Finset.Icc min max := fun v hv => by
    rw [mem_toFinset] at hv
    exact Finset.mem_Icc.2 (h.bounds v hv)
  rw [← Int.card_Icc min max, ← hcard]
  constructor
  · rintro ⟨v, hmin, hmax, hv⟩
    apply Finset.card_lt_card
    refine Finset.ssubset_iff_subset_ne.2 ⟨hsubset, fun heq => ?_⟩
    exact hv (mem_toFinset.1 (heq ▸ Finset.mem_Icc.2 ⟨hmin, hmax⟩))
  · intro hlt
    obtain ⟨v, hv, hnot⟩ := Finset.exists_mem_notMem_of_card_lt_card hlt
    obtain ⟨hmin, hmax⟩ := Finset.mem_Icc.1 hv
    exact ⟨v, hmin, hmax, fun hmem => hnot (mem_toFinset.2 hmem)⟩

/-- **The test of the search is the match of the fields.** -/
theorem matches_iff_scheduled (h : f.Ok) (t : Int) : f.matches t = true ↔ Scheduled f t := by
  have hdom : Restricted f.daysOfMonth 1 31 ↔ f.daysOfMonth.length < 31 := h.daysOfMonth.restricted_iff
  have hdow : Restricted f.daysOfWeek 0 6 ↔ f.daysOfWeek.length < 7 := h.daysOfWeek.restricted_iff
  have hday : (if f.daysOfMonth.length < 31 ∧ f.daysOfWeek.length < 7 then
      f.daysOfMonth.contains (getUTCDate t) || f.daysOfWeek.contains (getUTCDay t)
      else f.daysOfMonth.contains (getUTCDate t) && f.daysOfWeek.contains (getUTCDay t)) = true ↔
      (Restricted f.daysOfMonth 1 31 ∧ Restricted f.daysOfWeek 0 6 → getUTCDate t ∈ f.daysOfMonth ∨ getUTCDay t ∈ f.daysOfWeek) ∧
      (¬(Restricted f.daysOfMonth 1 31 ∧ Restricted f.daysOfWeek 0 6) → getUTCDate t ∈ f.daysOfMonth ∧ getUTCDay t ∈ f.daysOfWeek) := by
    rw [hdom, hdow]
    split
    · rename_i hboth
      simp [hboth]
    · rename_i hnot
      simp [hnot]
  unfold CronFields.matches
  rw [Bool.and_eq_true, Bool.and_eq_true, Bool.and_eq_true, hday, contains_iff_mem, contains_iff_mem, contains_iff_mem]
  constructor
  · rintro ⟨⟨⟨hmonth, heither, hboth⟩, hhour⟩, hminute⟩
    exact ⟨hmonth, heither, hboth, hhour, hminute⟩
  · rintro ⟨hmonth, heither, hboth, hhour, hminute⟩
    exact ⟨⟨⟨hmonth, heither, hboth⟩, hhour⟩, hminute⟩

/-! ## The search -/

theorem searchCron_some (f : CronFields) : ∀ (fuel : Nat) {cursor t : Int}, searchCron f fuel cursor = some t →
    f.matches t = true ∧ ∀ u, f.matches u = true → cursor ≤ u → 60000 ∣ u - cursor → t ≤ u
  | 0, _, _, h => by cases h
  | fuel + 1, cursor, t, h => by
    unfold searchCron at h
    split at h
    · rename_i hmatch
      cases h
      exact ⟨hmatch, fun u _ hle _ => hle⟩
    · rename_i hmatch
      obtain ⟨hfound, hleast⟩ := searchCron_some f fuel h
      refine ⟨hfound, fun u hu hle hdvd => hleast u hu ?_ ?_⟩
      · have hne : u ≠ cursor := fun heq => hmatch (heq ▸ hu)
        omega
      · omega

theorem searchCron_isSome (f : CronFields) : ∀ (fuel : Nat) {cursor u : Int}, f.matches u = true → cursor ≤ u →
    60000 ∣ u - cursor → u < cursor + 60000 * fuel → ∃ t, searchCron f fuel cursor = some t
  | 0, cursor, u, _, hle, _, hlt => by omega
  | fuel + 1, cursor, u, hu, hle, hdvd, hlt => by
    unfold searchCron
    split
    · exact ⟨cursor, rfl⟩
    · rename_i hmatch
      have hne : u ≠ cursor := fun heq => hmatch (heq ▸ hu)
      refine searchCron_isSome f fuel hu (by omega) (by omega) ?_
      omega

theorem due_iff {fromMs u : Int} : Due f fromMs u ↔ Scheduled f u ∧ cronStart fromMs ≤ u ∧ 60000 ∣ u - cronStart fromMs := by
  unfold cronStart
  constructor
  · rintro ⟨hwhole, hlater, hscheduled⟩
    exact ⟨hscheduled, by omega, by omega⟩
  · rintro ⟨hscheduled, hle, hdvd⟩
    exact ⟨by omega, by omega, hscheduled⟩

/-- The minutes of the search, from `cronStart` on. -/
def Searched (fromMs u : Int) : Prop := u < cronStart fromMs + 60000 * maxCronIterations

/-- **The search finds the least minute that is due, when one of its minutes is.** -/
theorem searchCron_isLeast (h : f.Ok) {fromMs u : Int} (hdue : Due f fromMs u) (hsearched : Searched fromMs u) :
    ∃ t, searchCron f maxCronIterations (cronStart fromMs) = some t ∧ IsLeast {v | Due f fromMs v} t := by
  obtain ⟨hscheduled, hle, hdvd⟩ := due_iff.1 hdue
  obtain ⟨t, ht⟩ := searchCron_isSome f _ ((matches_iff_scheduled h u).2 hscheduled) hle hdvd hsearched
  obtain ⟨hmatch, hleast⟩ := searchCron_some f _ ht
  refine ⟨t, ht, ?_, ?_⟩
  · exact due_iff.2 ⟨(matches_iff_scheduled h t).1 hmatch, searchCron_ge f _ _ _ ht, searchCron_congruent f _ _ _ ht⟩
  · intro v hv
    obtain ⟨hv, hle', hdvd'⟩ := due_iff.1 hv
    exact hleast v ((matches_iff_scheduled h v).2 hv) hle' hdvd'

theorem searchCron_eq_none (h : f.Ok) {fromMs : Int} (hnone : ∀ u, ¬Due f fromMs u) :
    searchCron f maxCronIterations (cronStart fromMs) = none := by
  cases hsearch : searchCron f maxCronIterations (cronStart fromMs) with
  | none => rfl
  | some t =>
    have hscheduled := (matches_iff_scheduled h t).1 (searchCron_some f _ hsearch).1
    exact absurd (due_iff.2 ⟨hscheduled, searchCron_ge f _ _ _ hsearch, searchCron_congruent f _ _ _ hsearch⟩) (hnone t)

/-- **The next time is the least minute that is due, when one is among those searched, and the next minute when none is
due at all.** -/
theorem computeNextCronTime_least {expression : String} {f : CronFields} (h : parseCron expression = .ok f)
    (fromMs : Int) : ∃ t, computeNextCronTime expression fromMs = .ok t ∧
      ((∃ u, Due f fromMs u ∧ Searched fromMs u) → IsLeast {u | Due f fromMs u} t) ∧
      ((∀ u, ¬Due f fromMs u) → t = cronStart fromMs) := by
  have hok := parseCron_ok h
  refine ⟨(searchCron f maxCronIterations (cronStart fromMs)).getD (cronStart fromMs), ?_, ?_, ?_⟩
  · unfold computeNextCronTime
    rw [h]
    rfl
  · rintro ⟨u, hdue, hsearched⟩
    obtain ⟨t, ht, hleast⟩ := searchCron_isLeast hok hdue hsearched
    rw [ht]
    exact hleast
  · intro hnone
    rw [searchCron_eq_none hok hnone]
    rfl

/-- A field of each kind. -/
theorem computeNextCronTime_least_weekdays :
    let f : CronFields := ⟨[0, 30], [9, 10, 11], [1, 15], [1, 2, 3, 4, 5, 6, 7, 8, 9, 10, 11, 12], [1, 2, 3, 4, 5]⟩
    ∃ t, computeNextCronTime "*/30 9-11 1,15 * 1-5" 0 = .ok t ∧
      ((∃ u, Due f 0 u ∧ Searched 0 u) → IsLeast {u | Due f 0 u} t) ∧ ((∀ u, ¬Due f 0 u) → t = cronStart 0) :=
  computeNextCronTime_least (f := ⟨[0, 30], [9, 10, 11], [1, 15], [1, 2, 3, 4, 5, 6, 7, 8, 9, 10, 11, 12], [1, 2, 3, 4, 5]⟩) rfl 0

theorem yearOfEra_le (doe : Int) {yoe : Int} (h : 0 ≤ doe ∧ doe < 146097)
    (hyoe : yoe = (doe - doe / 1460 + doe / 36524 - doe / 146096) / 365) :
    365 * yoe + yoe / 4 - yoe / 100 ≤ doe := by
  have hcycles : yoe / 4 ≤ doe / 1460 := by omega
  omega

theorem civilFromDays_february {days : Int} (h : (civilFromDays days).1 = 2) : (civilFromDays days).2 < 31 := by
  have hle := yearOfEra_le (days + 719468 - (days + 719468) / 146097 * 146097) (by omega) rfl
  unfold civilFromDays at h ⊢
  dsimp only at h ⊢
  generalize 365 * _ + _ / 4 - _ / 100 = before at h hle ⊢
  generalize days + 719468 - (days + 719468) / 146097 * 146097 = doe at h hle ⊢
  split at h <;> omega

/-- 31 February: the next minute is returned, which does not match. -/
theorem nextCron_counterexample : ∃ f t, parseCron "0 0 31 2 *" = .ok f ∧ computeNextCronTime "0 0 31 2 *" 0 = .ok t ∧ ¬Scheduled f t := by
  have hparse : parseCron "0 0 31 2 *" = .ok ⟨[0], [0], [31], [2], [0, 1, 2, 3, 4, 5, 6]⟩ := rfl
  refine ⟨_, _, hparse, rfl, fun h => ?_⟩
  have hdow : ¬Restricted [0, 1, 2, 3, 4, 5, 6] 0 6 := by
    rintro ⟨v, hmin, hmax, hv⟩
    interval_cases v <;> simp at hv
  have hdate := mem_singleton.1 (h.both fun hboth => hdow hboth.2).1
  have hmonth := mem_singleton.1 h.month
  unfold getUTCMonth at hmonth
  have hlt := civilFromDays_february (show _ = (2 : Int) by rw [Int.sub_add_cancel] at hmonth; exact hmonth)
  unfold getUTCDate at hdate
  omega

end StreetJS.Workflow
