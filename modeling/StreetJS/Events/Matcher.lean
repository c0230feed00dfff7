/-
Patterns of event names: dot-delimited segments, where `*` stands for one segment and `**` for one or more.
-/
import Mathlib.Data.List.Basic

namespace StreetJS.Events

open List

abbrev Segment := List Char

def segments (s : String) : List Segment := s.toList.splitOn '.'

def isWildcard (pattern : String) : Bool := pattern.toList.contains '*'

/-- Recursive segment matcher. `**` tries each number of segments. -/
def matchSegments : List Segment → List Segment → Bool
  | [], name => name.isEmpty
  | head :: patRest, name =>
    if head = ['*', '*'] then (List.range name.length).any fun i => matchSegments patRest (name.drop (i + 1))
    else
      match name with
      | [] => false
      | segment :: nameRest => (head = ['*'] || head = segment) && matchSegments patRest nameRest

/-- A pattern without `*` is compared by exact string equality. -/
def matchesPattern (name pattern : String) : Bool :=
  if isWildcard pattern then matchSegments (segments pattern) (segments name) else name = pattern

/-! ## What a pattern stands for -/

/-- The names that a pattern stands for, segment by segment. -/
inductive Denotes : List Segment → List Segment → Prop
  | empty : Denotes [] []
  | any (taken : List Segment) {patRest rest : List Segment} (h : taken ≠ []) (hrest : Denotes patRest rest) :
    Denotes (['*', '*'] :: patRest) (taken ++ rest)
  | one (segment : Segment) {patRest rest : List Segment} (hrest : Denotes patRest rest) : Denotes (['*'] :: patRest) (segment :: rest)
  | literal (head : Segment) {patRest rest : List Segment} (h : head ≠ ['*', '*']) (hrest : Denotes patRest rest) :
    Denotes (head :: patRest) (head :: rest)

theorem matchSegments_cons (head : Segment) (patRest name : List Segment) : matchSegments (head :: patRest) name =
      if head = ['*', '*'] then (List.range name.length).any fun i => matchSegments patRest (name.drop (i + 1))
      else
        match name with
        | [] => false
        | segment :: nameRest => (head = ['*'] || head = segment) && matchSegments patRest nameRest := by
  rw [matchSegments.eq_def]

theorem matchSegments_any {patRest name : List Segment} : matchSegments (['*', '*'] :: patRest) name = true ↔
      ∃ taken rest, name = taken ++ rest ∧ taken ≠ [] ∧ matchSegments patRest rest = true := by
  rw [matchSegments_cons, if_pos rfl, any_eq_true]
  constructor
  · rintro ⟨i, hi, hmatch⟩
    refine ⟨name.take (i + 1), name.drop (i + 1), (take_append_drop _ _).symm, ?_, hmatch⟩
    have hlt := mem_range.1 hi
    refine ne_nil_of_length_pos ?_
    rw [length_take]
    omega
  · rintro ⟨taken, rest, rfl, hne, hmatch⟩
    have hpos := length_pos_iff.2 hne
    refine ⟨taken.length - 1, mem_range.2 ?_, ?_⟩
    · rw [length_append]
      omega
    · rw [Nat.sub_add_cancel hpos, drop_left]
      exact hmatch

/-- **The matcher decides what the pattern stands for.** -/
theorem matchSegments_iff (pattern name : List Segment) : matchSegments pattern name = true ↔ Denotes pattern name := by
  constructor
  · intro h
    induction pattern generalizing name with
    | nil =>
      rw [matchSegments, List.isEmpty_iff] at h
      subst h
      exact .empty
    | cons head patRest ih =>
      by_cases hany : head = ['*', '*']
      · subst hany
        obtain ⟨taken, rest, rfl, hne, hmatch⟩ := matchSegments_any.1 h
        exact .any taken hne (ih rest hmatch)
      · rw [matchSegments_cons, if_neg hany] at h
        cases name with
        | nil => cases h
        | cons segment nameRest =>
          rw [Bool.and_eq_true, Bool.or_eq_true, decide_eq_true_iff, decide_eq_true_iff] at h
          obtain ⟨rfl | rfl, hmatch⟩ := h
          · exact .one segment (ih nameRest hmatch)
          · exact .literal _ hany (ih nameRest hmatch)
  · intro h
    induction h with
    | empty => rfl
    | any taken hne _ ih => exact matchSegments_any.2 ⟨taken, _, rfl, hne, ih⟩
    | one segment _ ih =>
      rw [matchSegments_cons, if_neg (by decide), Bool.and_eq_true]
      exact ⟨rfl, ih⟩
    | literal head hne _ ih =>
      rw [matchSegments_cons, if_neg hne, Bool.and_eq_true, Bool.or_eq_true]
      exact ⟨.inr (decide_eq_true rfl), ih⟩

example : matchesPattern "user.profile.updated" "user.**" = true := by decide +kernel

end StreetJS.Events
