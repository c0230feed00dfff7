/-
Sliding windows over a list of instants: how many lie in a window, and what is left of the list when
those before a cutoff are dropped from its front.
-/
import Mathlib.Algebra.Order.Group.Defs
import Mathlib.Data.List.Basic
import Mathlib.Data.List.Perm.Subperm

namespace StreetJS.Lib.SlidingWindow

open List

variable {T : Type} [AddCommGroup T] [LinearOrder T]

/-- The instants from `cutoff` on. -/
def since (cutoff : T) (instants : List T) : Nat := instants.countP fun a => cutoff ≤ a

/-- The instants of the window of length `w` that ends at `t`. -/
def within (w t : T) (instants : List T) : Nat := instants.countP fun a => t - w ≤ a ∧ a ≤ t

/-- The list without its leading instants before `cutoff`. -/
def prune (cutoff : T) (instants : List T) : List T := instants.dropWhile fun a => a < cutoff

section

omit [AddCommGroup T]

variable {cutoff : T} {instants : List T}

theorem prune_sublist : (prune cutoff instants).Sublist instants := dropWhile_sublist _

/-- Nothing of the window is dropped. -/
theorem filter_sublist_prune : (instants.filter fun a => decide (cutoff ≤ a)).Sublist (prune cutoff instants) := by
  induction instants with
  | nil => exact List.Sublist.refl _
  | cons a instants ih =>
    by_cases ha : a < cutoff
    · have hdrop : prune cutoff (a :: instants) = prune cutoff instants :=
        dropWhile_cons_of_pos (decide_eq_true ha)
      rw [hdrop, filter_cons_of_neg (by simpa using ha)]
      exact ih
    · have hkeep : prune cutoff (a :: instants) = a :: instants :=
        dropWhile_cons_of_neg (by simpa using ha)
      rw [hkeep]
      exact filter_sublist

/-- What is dropped is not in any later window. -/
theorem since_prune {cutoff' : T} (h : cutoff ≤ cutoff') : since cutoff' (prune cutoff instants) = since cutoff' instants := by
  induction instants with
  | nil => rfl
  | cons a instants ih =>
    by_cases ha : a < cutoff
    · have hno : ¬ cutoff' ≤ a := not_le.2 (lt_of_lt_of_le ha h)
      have hdrop : prune cutoff (a :: instants) = prune cutoff instants :=
        dropWhile_cons_of_pos (decide_eq_true ha)
      rw [hdrop, ih, since, since, countP_cons_of_neg (by simpa using hno)]
    · have hkeep : prune cutoff (a :: instants) = a :: instants :=
        dropWhile_cons_of_neg (by simpa using ha)
      rw [hkeep]

theorem length_prune (h : instants.Pairwise (· ≤ ·)) : (prune cutoff instants).length = since cutoff instants := by
  induction instants with
  | nil => rfl
  | cons a instants ih =>
    obtain ⟨hle, hrest⟩ := pairwise_cons.1 h
    by_cases ha : a < cutoff
    · have hdrop : prune cutoff (a :: instants) = prune cutoff instants :=
        dropWhile_cons_of_pos (decide_eq_true ha)
      rw [hdrop, ih hrest, since, since, countP_cons_of_neg (by simpa using ha)]
    · have hkeep : prune cutoff (a :: instants) = a :: instants :=
        dropWhile_cons_of_neg (by simpa using ha)
      have hall : ∀ b ∈ a :: instants, cutoff ≤ b := by
        intro b hb
        rcases mem_cons.1 hb with rfl | hb
        · exact not_lt.1 ha
        · exact le_trans (not_lt.1 ha) (hle b hb)
      rw [hkeep, since, countP_eq_length.2 fun b hb => decide_eq_true (hall b hb)]

theorem since_append_singleton (a : T) : since cutoff (instants ++ [a]) = since cutoff instants + if cutoff ≤ a then 1 else 0 := by
  rw [since, since, countP_append, countP_singleton]
  simp

/-- What is left out is not in any later window. -/
theorem since_filter {cutoff' : T} (h : cutoff ≤ cutoff') :
    since cutoff' (instants.filter fun a => decide (cutoff ≤ a)) = since cutoff' instants := by
  rw [since, since, countP_filter]
  apply countP_congr
  intro a _
  simp only [Bool.and_eq_true, decide_eq_true_eq, and_iff_left_iff_imp]
  exact fun ha => le_trans h ha

theorem since_eq_iff_of_subperm {kept : List T} (h : kept.Subperm instants) :
    since cutoff kept = since cutoff instants ↔ ∀ a ∈ instants.diff kept, a < cutoff := by
  have hperm : (kept ++ instants.diff kept).Perm instants :=
    subperm_append_diff_self_of_count_le fun a _ => h.count_le a
  have hsplit : since cutoff instants = since cutoff kept + since cutoff (instants.diff kept) := by
    unfold since
    rw [← hperm.countP_eq, countP_append]
  have hzero : since cutoff (instants.diff kept) = 0 ↔ ∀ a ∈ instants.diff kept, a < cutoff := by
    unfold since
    simp only [countP_eq_zero, decide_eq_true_eq, not_le]
  rw [← hzero]
  omega

/-- What is left of a list is all in the window just when it is as long as what is counted there. -/
theorem length_prune_eq_iff : (prune cutoff instants).length = since cutoff instants ↔ ∀ a ∈ prune cutoff instants, cutoff ≤ a := by
  rw [← since_prune le_rfl, since, eq_comm, countP_eq_length]
  simp only [decide_eq_true_eq]

theorem since_le_length_prune : since cutoff instants ≤ (prune cutoff instants).length := by
  rw [← since_prune le_rfl]
  exact countP_le_length

end

theorem within_concat [IsOrderedAddMonoid T] {w now : T} {limit : Nat} {instants : List T}
    (hbound : ∀ t, within w t instants ≤ limit) (hroom : since (now - w) instants < limit) (t : T) :
    within w t (instants ++ [now]) ≤ limit := by
  rw [within, countP_append, countP_singleton]
  by_cases hin : t - w ≤ now ∧ now ≤ t
  · rw [if_pos (by simpa using hin)]
    have hsub : instants.countP (fun a => t - w ≤ a ∧ a ≤ t) ≤ since (now - w) instants := by
      refine countP_mono_left fun a ha h => ?_
      simp only [decide_eq_true_eq] at h ⊢
      exact le_trans (sub_le_sub_right hin.2 w) h.1
    omega
  · rw [if_neg (by simpa using hin)]
    exact hbound t

end StreetJS.Lib.SlidingWindow
