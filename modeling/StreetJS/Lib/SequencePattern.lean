/-
Sequence patterns: single characters of a class and captured runs of a class, one after the other, matched
against a whole text, greedy and with backtracking. What a regular expression anchored at both ends does that
has no alternatives and no nested repetitions.
-/
import Mathlib.Data.List.Basic

namespace StreetJS.Lib

open List

inductive PatternItem (A : Type) where
  /-- One character of the class. -/
  | one (p : A → Bool)
  /-- A captured run of at least `least` characters of the class. -/
  | run (least : Nat) (p : A → Bool)

abbrev SequencePattern (A : Type) := List (PatternItem A)

namespace SequencePattern

variable {A : Type}

/-- A text that the pattern divides, with the captured runs in their order. -/
inductive Matches : SequencePattern A → List A → List (List A) → Prop where
  | nil : Matches [] [] []
  | one {p : A → Bool} {items : SequencePattern A} {a : A} {s : List A} {caps : List (List A)} (ha : p a = true)
      (h : Matches items s caps) : Matches (.one p :: items) (a :: s) caps
  | run {least : Nat} {p : A → Bool} {items : SequencePattern A} {t s : List A} {caps : List (List A)}
      (hleast : least ≤ t.length) (ht : ∀ a ∈ t, p a = true) (h : Matches items s caps) :
      Matches (.run least p :: items) (t ++ s) (t :: caps)

/-- The lengths that a run is tried with, the longest first. -/
def lengths (least : Nat) (p : A → Bool) (s : List A) : List Nat :=
  ((List.range ((s.takeWhile p).length + 1)).filter (least ≤ ·)).reverse

/-- The captured runs of the first match that backtracking finds. -/
def exec : SequencePattern A → List A → Option (List (List A))
  | [], [] => some []
  | [], _ :: _ => none
  | .one _ :: _, [] => none
  | .one p :: items, a :: s => if p a then exec items s else none
  | .run least p :: items, s =>
    (lengths least p s).findSome? fun n => (exec items (s.drop n)).map (s.take n :: ·)

def test (items : SequencePattern A) (s : List A) : Bool := (exec items s).isSome

variable {s : List A}

theorem mem_lengths {least : Nat} {p : A → Bool} {n : Nat} : n ∈ lengths least p s ↔ least ≤ n ∧ n ≤ (s.takeWhile p).length := by
  simp [lengths, and_comm, Nat.lt_succ_iff]

theorem take_of_le_takeWhile {p : A → Bool} {n : Nat} (h : n ≤ (s.takeWhile p).length) : ∀ a ∈ s.take n, p a = true := by
  intro a ha
  have htake : s.take n <+: s.takeWhile p := by
    apply prefix_of_prefix_length_le (List.take_prefix n s) (List.takeWhile_prefix p)
    rw [length_take]
    omega
  exact all_eq_true.1 all_takeWhile a (htake.subset ha)

theorem matches_of_exec : ∀ (items : SequencePattern A) {s : List A} {caps : List (List A)}, exec items s = some caps → Matches items s caps
  | [], [], caps, h => by
    cases h
    exact .nil
  | [], _ :: _, caps, h => by cases h
  | .one _ :: _, [], caps, h => by cases h
  | .one p :: items, a :: s, caps, h => by
    simp only [exec] at h
    split at h
    · rename_i ha
      exact .one ha (matches_of_exec items h)
    · cases h
  | .run least p :: items, s, caps, h => by
    obtain ⟨n, hn, h⟩ := exists_of_findSome?_eq_some h
    obtain ⟨caps', hexec, rfl⟩ := Option.map_eq_some_iff.1 h
    obtain ⟨hleast, hle⟩ := mem_lengths.1 hn
    have hlen : (s.takeWhile p).length ≤ s.length := (List.takeWhile_prefix p).length_le
    have htake : least ≤ (s.take n).length := by
      rw [length_take]
      omega
    have hmatch := Matches.run htake (take_of_le_takeWhile hle) (matches_of_exec items hexec)
    rwa [take_append_drop] at hmatch

variable {items : SequencePattern A}

theorem exec_of_matches {caps : List (List A)} (h : Matches items s caps) : ∃ caps', exec items s = some caps' := by
  induction h with
  | nil => exact ⟨[], rfl⟩
  | one ha _ ih =>
    obtain ⟨caps', hcaps⟩ := ih
    exact ⟨caps', by simp only [exec, ha, if_true, hcaps]⟩
  | @run least p items t s caps hleast ht _ ih =>
    obtain ⟨caps', hcaps⟩ := ih
    simp only [exec]
    apply Option.isSome_iff_exists.1
    rw [findSome?_isSome_iff]
    refine ⟨t.length, mem_lengths.2 ⟨hleast, ?_⟩, ?_⟩
    · rw [takeWhile_append_of_pos ht, length_append]
      omega
    · simp [hcaps]

theorem test_iff : test items s = true ↔ ∃ caps, Matches items s caps := by
  unfold test
  constructor
  · intro h
    obtain ⟨caps, hcaps⟩ := Option.isSome_iff_exists.1 h
    exact ⟨caps, matches_of_exec items hcaps⟩
  · rintro ⟨caps, h⟩
    obtain ⟨caps', hcaps⟩ := exec_of_matches h
    rw [hcaps]
    rfl

/-! ## Wider patterns -/

/-- What one item takes the other takes too. -/
inductive Within : PatternItem A → PatternItem A → Prop where
  | one {p q : A → Bool} (h : ∀ a, p a = true → q a = true) : Within (.one p) (.one q)
  | run {least : Nat} {p q : A → Bool} (h : ∀ a, p a = true → q a = true) : Within (.run least p) (.run least q)

theorem Matches.wider {items' : SequencePattern A} {caps : List (List A)}
    (h : Matches items s caps) (hw : List.Forall₂ Within items items') : Matches items' s caps := by
  induction h generalizing items' with
  | nil =>
    cases hw
    exact .nil
  | one ha _ ih =>
    cases hw with
    | cons hitem hrest =>
      cases hitem with
      | one hpq => exact .one (hpq _ ha) (ih hrest)
  | run hleast ht _ ih =>
    cases hw with
    | cons hitem hrest =>
      cases hitem with
      | run hpq => exact .run hleast (fun a ha => hpq a (ht a ha)) (ih hrest)

end SequencePattern

end StreetJS.Lib
