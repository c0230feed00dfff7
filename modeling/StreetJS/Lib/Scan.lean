/-
Scanning a text from left to right for matches that do not overlap: what a global replacement with a regular
expression does.
-/
import Mathlib.Data.List.Basic

namespace StreetJS.Lib

open List

section

variable {A B : Type} (find : List A → Option (B × Nat))

/-- The matches and the single characters between them. `find` looks at the head of a text and says how many
further characters its match takes; the number is how many of them are still to be passed over. -/
def scan : Nat → List A → List (A ⊕ B)
  | _, [] => []
  | n + 1, _ :: s => scan n s
  | 0, a :: s =>
    match find (a :: s) with
    | some (b, n) => .inr b :: scan n s
    | none => .inl a :: scan 0 s

/-- Every match replaced. -/
def replaceAll (f : B → List A) (s : List A) : List A := (scan find 0 s).flatMap (Sum.elim (fun a => [a]) f)

/-- The matches in their order. -/
def found (s : List A) : List B := (scan find 0 s).filterMap Sum.getRight?

variable {find}

@[simp] theorem scan_nil (n : Nat) : scan find n [] = [] := by
  cases n <;> rfl

theorem scan_drop (n : Nat) (s : List A) : scan find n s = scan find 0 (s.drop n) := by
  induction s generalizing n with
  | nil => simp
  | cons a s ih =>
    cases n with
    | zero => rfl
    | succ n => exact ih n

variable {a : A} {s : List A}

theorem scan_cons_none (h : find (a :: s) = none) : scan find 0 (a :: s) = .inl a :: scan find 0 s := by
  simp only [scan, h]

theorem scan_cons_some {b : B} {n : Nat} (h : find (a :: s) = some (b, n)) : scan find 0 (a :: s) = .inr b :: scan find 0 (s.drop n) := by
  simp only [scan, h]
  rw [scan_drop]

variable {f : B → List A}

theorem replaceAll_cons_none (h : find (a :: s) = none) : replaceAll find f (a :: s) = a :: replaceAll find f s := by
  simp only [replaceAll, scan_cons_none h, flatMap_cons, Sum.elim_inl, singleton_append]

theorem replaceAll_cons_some {b : B} {n : Nat} (h : find (a :: s) = some (b, n)) :
    replaceAll find f (a :: s) = f b ++ replaceAll find f (s.drop n) := by
  simp only [replaceAll, scan_cons_some h, flatMap_cons, Sum.elim_inr]

/-- Matches that are replaced by themselves. -/
theorem replaceAll_self (hself : ∀ a s b n, find (a :: s) = some (b, n) → f b = a :: s.take n) (s : List A) : replaceAll find f s = s := by
  induction hn : s.length using Nat.strongRecOn generalizing s with
  | _ n ih =>
    subst hn
    cases s with
    | nil => rfl
    | cons a s =>
      cases hfind : find (a :: s) with
      | none => rw [replaceAll_cons_none hfind, ih s.length (by simp) s rfl]
      | some r =>
        obtain ⟨b, n⟩ := r
        have hlt : (s.drop n).length < (a :: s).length := by
          rw [length_drop, length_cons]
          omega
        rw [replaceAll_cons_some hfind, ih _ hlt _ rfl, hself a s b n hfind, cons_append, take_append_drop]

theorem found_cons_none (h : find (a :: s) = none) : found find (a :: s) = found find s := by
  unfold found
  rw [scan_cons_none h, filterMap_cons_none rfl]

theorem found_cons_some {b : B} {n : Nat} (h : find (a :: s) = some (b, n)) : found find (a :: s) = b :: found find (s.drop n) := by
  have hb : (.inr b : A ⊕ B).getRight? = some b := rfl
  unfold found
  rw [scan_cons_some h, filterMap_cons_some hb]

end

end StreetJS.Lib
