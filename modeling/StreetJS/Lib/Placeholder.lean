/-
Texts with placeholder marks: the marks are numbered from left to right, each is the slot of one value, and
values that run out are replaced by a default.
-/
import Mathlib

namespace StreetJS.Lib

open List

/-! ## Numbering -/

section

variable {A : Type} [DecidableEq A] (mark : A) (name : Nat → List A)

/-- Each mark is replaced by the name of its number, from `i` on. -/
def number : Nat → List A → List A
  | _, [] => []
  | i, a :: s => if a = mark then name i ++ number (i + 1) s else a :: number i s

/-- The texts are numbered one after the other. -/
def numberAll : Nat → List (List A) → List (List A)
  | _, [] => []
  | i, s :: ss => number mark name i s :: numberAll (i + s.count mark) ss

variable {mark name}

@[simp] theorem number_nil (i : Nat) : number mark name i [] = [] := rfl

example (i : Nat) : number mark name i [mark] = name i := by simp [number]

theorem number_append (i : Nat) (s t : List A) :
    number mark name i (s ++ t) = number mark name i s ++ number mark name (i + s.count mark) t := by
  induction s generalizing i with
  | nil => simp
  | cons a s ih =>
    by_cases ha : a = mark
    · subst ha
      simp [number, ih, Nat.add_assoc, Nat.add_comm 1]
    · simp [number, ih, ha]

theorem number_of_not_mem {i : Nat} {s : List A} (h : mark ∉ s) : number mark name i s = s := by
  induction s generalizing i with
  | nil => rfl
  | cons a s ih =>
    rw [mem_cons, not_or] at h
    simp [number, Ne.symm h.1, ih h.2]

theorem number_between {lead tail : List A} (hlead : mark ∉ lead) (htail : mark ∉ tail) (i : Nat) (s : List A) :
    number mark name i (lead ++ s ++ tail) = lead ++ number mark name i s ++ tail := by
  rw [number_append, number_append, number_of_not_mem hlead, number_of_not_mem htail, count_eq_zero_of_not_mem hlead, Nat.add_zero]

theorem count_between {lead tail : List A} (hlead : mark ∉ lead) (htail : mark ∉ tail) (s : List A) :
    (lead ++ s ++ tail).count mark = s.count mark := by
  rw [count_append, count_append, count_eq_zero_of_not_mem hlead, count_eq_zero_of_not_mem htail, Nat.zero_add, Nat.add_zero]

theorem number_self (hname : ∀ i, name i = [mark]) (i : Nat) (s : List A) : number mark name i s = s := by
  induction s generalizing i with
  | nil => rfl
  | cons a s ih =>
    by_cases ha : a = mark
    · simp [number, ha, hname, ih]
    · simp [number, ha, ih]

theorem numberAll_self (hname : ∀ i, name i = [mark]) (i : Nat) (ss : List (List A)) : numberAll mark name i ss = ss := by
  induction ss generalizing i with
  | nil => rfl
  | cons s ss ih => rw [numberAll, number_self hname, ih]

theorem numberAll_append (i : Nat) (ss ts : List (List A)) : numberAll mark name i (ss ++ ts) =
      numberAll mark name i ss ++ numberAll mark name (i + (ss.map (List.count mark)).sum) ts := by
  induction ss generalizing i with
  | nil => simp [numberAll]
  | cons s ss ih => simp [numberAll, ih, Nat.add_assoc]

theorem numberAll_of_not_mem {i : Nat} {ss : List (List A)} (h : ∀ s ∈ ss, mark ∉ s) : numberAll mark name i ss = ss := by
  induction ss generalizing i with
  | nil => rfl
  | cons s ss ih =>
    rw [forall_mem_cons] at h
    rw [numberAll, number_of_not_mem h.1, ih h.2]

theorem sum_count_of_not_mem {ss : List (List A)} (h : ∀ s ∈ ss, mark ∉ s) : (ss.map (List.count mark)).sum = 0 := by
  induction ss with
  | nil => rfl
  | cons s ss ih =>
    rw [forall_mem_cons] at h
    simp [count_eq_zero_of_not_mem h.1, ih h.2]

theorem sum_count_map_append {lead : List A} (hlead : mark ∉ lead) (ss : List (List A)) :
    ((ss.map (lead ++ ·)).map (List.count mark)).sum = (ss.map (List.count mark)).sum := by
  induction ss with
  | nil => rfl
  | cons s ss ih =>
    simp only [map_cons, sum_cons, ih, count_append, count_eq_zero_of_not_mem hlead, Nat.zero_add]

theorem count_intercalate {sep : List A} (hsep : mark ∉ sep) :
    ∀ (ss : List (List A)), (sep.intercalate ss).count mark = (ss.map (List.count mark)).sum
  | [] => by simp [List.intercalate]
  | [s] => by simp [List.intercalate]
  | s :: t :: ss => by
    rw [intercalate_cons_cons, count_append, count_append, count_eq_zero_of_not_mem hsep, count_intercalate hsep (t :: ss)]
    simp

theorem numberAll_map_append {lead : List A} (hlead : mark ∉ lead) (i : Nat) (ss : List (List A)) :
    numberAll mark name i (ss.map (lead ++ ·)) = (numberAll mark name i ss).map (lead ++ ·) := by
  induction ss generalizing i with
  | nil => rfl
  | cons s ss ih =>
    simp [numberAll, number_append, number_of_not_mem hlead, count_eq_zero_of_not_mem hlead, ih]

theorem number_intercalate {sep : List A} (hsep : mark ∉ sep) (i : Nat) :
    ∀ (ss : List (List A)), number mark name i (sep.intercalate ss) = sep.intercalate (numberAll mark name i ss)
  | [] => by simp [List.intercalate, numberAll]
  | [s] => by simp [List.intercalate, numberAll]
  | s :: t :: ss => by
    have ih := number_intercalate hsep (i + s.count mark) (t :: ss)
    rw [intercalate_cons_cons, append_assoc, number_append, number_append, number_of_not_mem hsep,
      count_eq_zero_of_not_mem hsep, Nat.add_zero, ih]
    simp only [numberAll]
    rw [intercalate_cons_cons, append_assoc]

end

/-! ## Slots -/

section

variable {X : Type} (d : X)

/-- The values of the first `n` slots. -/
def fill (n : Nat) (params : List X) : List X := (List.range n).map fun i => params.getD i d

@[simp] theorem length_fill (n : Nat) (params : List X) : (fill d n params).length = n := by
  simp [fill]

theorem fill_zero (params : List X) : fill d 0 params = [] := rfl

theorem fill_succ (n : Nat) (params : List X) : fill d (n + 1) params = params.headD d :: fill d n params.tail := by
  unfold fill
  rw [range_succ_eq_map, map_cons, map_map]
  congr 1
  · cases params <;> rfl
  · apply map_congr_left
    intro i _
    cases params <;> simp

/-- As many values as slots. -/
theorem fill_length (params : List X) : fill d params.length params = params := by
  induction params with
  | nil => rfl
  | cons x params ih => rw [length_cons, fill_succ, headD_cons, tail_cons, ih]

/-- One value less than slots. -/
theorem fill_length_succ (params : List X) : fill d (params.length + 1) params = params ++ [d] := by
  induction params with
  | nil => rfl
  | cons x params ih => rw [length_cons, fill_succ, headD_cons, tail_cons, ih, cons_append]

end

theorem append_singleton_eq_cons_iff {X : Type} {x : X} {xs : List X} : xs ++ [x] = x :: xs ↔ ∀ y ∈ xs, y = x := by
  induction xs with
  | nil => simp
  | cons z xs ih =>
    rw [cons_append, List.cons.injEq, forall_mem_cons]
    constructor
    · rintro ⟨rfl, h⟩
      exact ⟨rfl, ih.1 h⟩
    · rintro ⟨rfl, h⟩
      exact ⟨rfl, ih.2 h⟩

section

variable {X : Type} {bs es : List (List X)}

theorem length_flatten_le (h : List.Forall₂ (fun b e => e.length ≤ b.length) bs es) : es.flatten.length ≤ bs.flatten.length := by
  induction h with
  | nil => simp
  | cons hbe _ ih =>
    simp only [flatten_cons, length_append]
    omega

theorem flatten_eq_iff (h : List.Forall₂ (fun b e => e.length ≤ b.length) bs es) : bs.flatten = es.flatten ↔ bs = es := by
  constructor
  · induction h with
    | nil => simp
    | @cons b e bs es hbe hrest ih =>
      intro heq
      rw [flatten_cons, flatten_cons] at heq
      -- the lengths in all are the same, so no block is longer than expected
      have hlength := congrArg List.length heq
      rw [length_append, length_append] at hlength
      have hrest' := length_flatten_le hrest
      obtain ⟨rfl, htail⟩ := append_inj heq (by omega)
      rw [ih htail]
  · rintro rfl
    rfl

end

end StreetJS.Lib
