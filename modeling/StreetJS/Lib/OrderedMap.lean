/-
A map that iterates in insertion order, as a JavaScript `Map` or plain object: a key that is set
again keeps its place, a key that is deleted loses it.
-/
import Mathlib.Data.List.Basic
import Mathlib.Data.List.Perm.Basic
import Mathlib.Tactic.Abel

namespace StreetJS.Lib

open List
open Prod (fst)

/-- The entries in insertion order. -/
abbrev OrderedMap (K X : Type) := List (K × X)

namespace OrderedMap

variable {K X B : Type} [DecidableEq K]

def get : OrderedMap K X → K → Option X
  | [], _ => none
  | (k', x) :: m, k => if k' = k then some x else get m k

def set : OrderedMap K X → K → X → OrderedMap K X
  | [], k, x => [(k, x)]
  | (k', x') :: m, k, x => if k' = k then (k', x) :: m else (k', x') :: set m k x

def delete (m : OrderedMap K X) (k : K) : OrderedMap K X := m.filter fun e => e.1 ≠ k

def has (m : OrderedMap K X) (k : K) : Bool := (get m k).isSome

example (k : K) (x : X) : get (set [] k x) k = some x := by simp [get, set]

/-! ## Reading -/

@[simp] theorem get_nil (k : K) : get ([] : OrderedMap K X) k = none := rfl

@[simp] theorem get_set (m : OrderedMap K X) (k k' : K) (x : X) : get (set m k x) k' = if k' = k then some x else get m k' := by
  induction m with
  | nil =>
    simp only [set, get, eq_comm]
  | cons e m ih =>
    obtain ⟨k₀, x₀⟩ := e
    by_cases h : k₀ = k
    · subst h
      by_cases h' : k' = k₀ <;> simp [set, get, h', eq_comm]
    · by_cases h' : k₀ = k'
      · subst h'; simp [set, get, h]
      · simp [set, get, h, h', ih]

theorem set_set (m : OrderedMap K X) (k : K) (x y : X) : set (set m k x) k y = set m k y := by
  induction m with
  | nil => simp [set]
  | cons e m ih =>
    obtain ⟨k₀, x₀⟩ := e
    by_cases h : k₀ = k
    · simp [set, h]
    · simp [set, h, ih]

variable {m : OrderedMap K X} {k : K} {x : X}

theorem get_mem (h : get m k = some x) : (k, x) ∈ m := by
  induction m with
  | nil => cases h
  | cons e m ih =>
    obtain ⟨k₀, x₀⟩ := e
    by_cases hk : k₀ = k
    · subst hk
      simp only [get, if_true] at h
      cases h
      exact mem_cons_self
    · simp only [get, hk, if_false] at h
      exact mem_cons_of_mem _ (ih h)

theorem get_of_mem (hn : (m.map fst).Nodup) (h : (k, x) ∈ m) : get m k = some x := by
  induction m with
  | nil => cases h
  | cons e m ih =>
    obtain ⟨k₀, x₀⟩ := e
    rw [map_cons, nodup_cons] at hn
    rcases mem_cons.1 h with h | h
    · cases h
      simp [get]
    · have hk : k₀ ≠ k := by
        rintro rfl
        exact hn.1 (mem_map.2 ⟨_, h, rfl⟩)
      simp only [get, hk, if_false]
      exact ih hn.2 h

theorem get_map {Y : Type} (f : X → Y) (m : OrderedMap K X) (k : K) : get (m.map fun e => (e.1, f e.2)) k = (get m k).map f := by
  induction m with
  | nil => rfl
  | cons e m ih =>
    obtain ⟨k₀, x₀⟩ := e
    by_cases hk : k₀ = k
    · simp [get, hk]
    · simp only [map_cons, get, hk, if_false]
      exact ih

theorem get_append_of_get (h : get m k = some x) (m' : OrderedMap K X) : get (m ++ m') k = some x := by
  induction m with
  | nil => cases h
  | cons e m ih =>
    simp only [cons_append, get] at h ⊢
    split at h
    · rwa [if_pos ‹_›]
    · rw [if_neg ‹_›]
      exact ih h

/-- Entries that are left out are not there. -/
theorem get_filterMap {Y : Type} (f : X → Option Y) (hn : (m.map fst).Nodup) (k : K) :
    get (m.filterMap fun e => (f e.2).map fun y => (e.1, y)) k = (get m k).bind f := by
  induction m with
  | nil => rfl
  | cons e m ih =>
    obtain ⟨k₀, x₀⟩ := e
    rw [map_cons, nodup_cons] at hn
    have hrest := ih hn.2
    cases hf : f x₀ with
    | none =>
      rw [filterMap_cons_none (by rw [hf]; rfl), hrest]
      by_cases hk : k₀ = k
      · subst hk
        have : get m k₀ = none := by
          cases hg : get m k₀ with
          | none => rfl
          | some x => exact absurd (mem_map.2 ⟨_, get_mem hg, rfl⟩) hn.1
        simp [get, this, hf]
      · simp [get, hk]
    | some y =>
      rw [filterMap_cons_some (b := (k₀, y)) (by rw [hf]; rfl)]
      by_cases hk : k₀ = k
      · simp [get, hk, hf]
      · simp only [get, hk, if_false]
        exact hrest

theorem keys_filterMap_sublist {Y : Type} (f : X → Option Y) (m : OrderedMap K X) :
    ((m.filterMap fun e => (f e.2).map fun y => (e.1, y)).map fst).Sublist (m.map fst) := by
  induction m with
  | nil => exact List.Sublist.refl _
  | cons e m ih =>
    cases hf : f e.2 with
    | none =>
      rw [filterMap_cons_none (by rw [hf]; rfl)]
      exact ih.cons _
    | some y =>
      rw [filterMap_cons_some (by rw [hf]; rfl)]
      exact ih.cons_cons _

theorem has_iff_mem_keys : has m k = true ↔ k ∈ m.map fst := by
  induction m with
  | nil => simp [has]
  | cons e m ih =>
    obtain ⟨k₀, x₀⟩ := e
    by_cases hk : k₀ = k
    · simp [has, get, hk]
    · have hk' : k ≠ k₀ := fun h => hk h.symm
      simp only [has, get, hk, if_false, map_cons, mem_cons, hk', false_or] at ih ⊢
      exact ih

/-! ## Writing -/

theorem mem_set {e : K × X} (h : e ∈ set m k x) : e ∈ m ∨ e = (k, x) := by
  induction m with
  | nil => exact .inr (mem_singleton.1 h)
  | cons e₀ m ih =>
    obtain ⟨k₀, x₀⟩ := e₀
    by_cases hk : k₀ = k
    · subst hk
      simp only [set, if_true, mem_cons] at h
      rcases h with h | h
      · exact .inr h
      · exact .inl (mem_cons_of_mem _ h)
    · simp only [set, hk, if_false, mem_cons] at h
      rcases h with h | h
      · exact .inl (h ▸ mem_cons_self)
      · rcases ih h with h | h
        · exact .inl (mem_cons_of_mem _ h)
        · exact .inr h

/-- A new key goes to the end. -/
theorem set_of_not_has (h : k ∉ m.map fst) (x : X) : set m k x = m ++ [(k, x)] := by
  induction m with
  | nil => rfl
  | cons e m ih =>
    obtain ⟨k₀, x₀⟩ := e
    simp only [map_cons, mem_cons, not_or] at h
    have hk : k₀ ≠ k := fun h' => h.1 h'.symm
    simp only [set, hk, if_false, ih h.2, cons_append]

theorem keys_set_nodup (h : (m.map fst).Nodup) (k : K) (x : X) : ((set m k x).map fst).Nodup := by
  by_cases hk : k ∈ m.map fst
  · have : (set m k x).map fst = m.map fst := by
      clear h
      induction m with
      | nil => cases hk
      | cons e m ih =>
        obtain ⟨k₀, x₀⟩ := e
        by_cases h₀ : k₀ = k
        · simp [set, h₀]
        · have hk' : k ∈ m.map fst := by
            simp only [map_cons, mem_cons] at hk
            exact hk.resolve_left fun h => h₀ h.symm
          simp [set, h₀, ih hk']
    rw [this]; exact h
  · rw [set_of_not_has hk, map_append, nodup_append]
    refine ⟨h, pairwise_singleton _ k, fun a ha b hb hab => ?_⟩
    rw [map_singleton, mem_singleton] at hb
    subst hb hab
    exact hk ha

theorem keys_delete_nodup (h : (m.map fst).Nodup) (k : K) : ((delete m k).map fst).Nodup :=
  h.sublist (filter_sublist.map _)

theorem get_delete (m : OrderedMap K X) (k k' : K) : get (delete m k) k' = if k' = k then none else get m k' := by
  induction m with
  | nil => simp [delete]
  | cons e m ih =>
    obtain ⟨k₀, x₀⟩ := e
    unfold delete at ih ⊢
    by_cases hk : k₀ = k
    · subst hk
      rw [filter_cons_of_neg (by simp), ih]
      by_cases hk' : k' = k₀
      · rw [if_pos hk', if_pos hk']
      · rw [if_neg hk', if_neg hk', get, if_neg (Ne.symm hk')]
    · rw [filter_cons_of_pos (by simpa using hk)]
      by_cases hk' : k₀ = k'
      · subst hk'
        simp [get, hk]
      · simp only [get, hk', if_false, ih]

theorem has_delete {k' : K} : has (delete m k) k' = true ↔ k' ≠ k ∧ has m k' = true := by
  unfold has
  rw [get_delete]
  split <;> simp_all

theorem mem_delete {e : K × X} : e ∈ delete m k ↔ e ∈ m ∧ e.1 ≠ k := by
  simp [delete, mem_filter]

theorem delete_of_not_has (h : k ∉ m.map fst) : delete m k = m := by
  refine filter_eq_self.2 fun e he => ?_
  have : e.1 ≠ k := fun hk => h (hk ▸ mem_map_of_mem he)
  simpa using this

/-! ## Some of the keys -/

/-- The entries whose keys meet `p`. -/
def restrict (p : K → Bool) (m : OrderedMap K X) : OrderedMap K X := m.filter fun e => p e.1

section

variable {p : K → Bool} {k : K}

omit [DecidableEq K] in
theorem restrict_cons (e : K × X) (m : OrderedMap K X) : restrict p (e :: m) = if p e.1 = true then e :: restrict p m else restrict p m :=
  filter_cons

theorem get_restrict (h : p k = true) (m : OrderedMap K X) : get (restrict p m) k = get m k := by
  induction m with
  | nil => rfl
  | cons e m ih =>
    obtain ⟨k₀, x₀⟩ := e
    rw [restrict_cons]
    split
    · rw [get, get, ih]
    · rename_i hp
      have hk : k₀ ≠ k := fun hk => hp (hk ▸ h)
      rw [get, if_neg hk, ih]

theorem has_restrict (h : p k = true) (m : OrderedMap K X) : has (restrict p m) k = has m k := by
  unfold has
  rw [get_restrict h]

theorem restrict_set (h : p k = true) (m : OrderedMap K X) (x : X) : restrict p (set m k x) = set (restrict p m) k x := by
  induction m with
  | nil => simp [restrict, set, h]
  | cons e m ih =>
    obtain ⟨k₀, x₀⟩ := e
    by_cases hk : k₀ = k
    · subst hk
      rw [set, if_pos rfl, restrict_cons, restrict_cons, if_pos h, if_pos h, set, if_pos rfl]
    · rw [set, if_neg hk, restrict_cons, restrict_cons, ih]
      split
      · rw [set, if_neg hk]
      · rfl

theorem restrict_set_of_not (h : p k = false) (m : OrderedMap K X) (x : X) : restrict p (set m k x) = restrict p m := by
  induction m with
  | nil => simp [restrict, set, h]
  | cons e m ih =>
    obtain ⟨k₀, x₀⟩ := e
    by_cases hk : k₀ = k
    · subst hk
      have hp : ¬ p k₀ = true := by rw [h]; decide
      rw [set, if_pos rfl, restrict_cons, restrict_cons, if_neg hp, if_neg hp]
    · rw [set, if_neg hk, restrict_cons, restrict_cons, ih]

theorem restrict_delete (m : OrderedMap K X) (k : K) : restrict p (delete m k) = delete (restrict p m) k := by
  unfold restrict delete
  rw [filter_comm]

theorem restrict_delete_of_not (h : p k = false) (m : OrderedMap K X) : restrict p (delete m k) = restrict p m := by
  unfold restrict delete
  rw [filter_filter]
  refine filter_congr fun e _ => ?_
  by_cases hk : e.1 = k
  · simp [hk, h]
  · simp [hk]

omit [DecidableEq K] in
theorem restrict_filterMap {Y : Type} (f : X → Option Y) (m : OrderedMap K X) :
    restrict p (m.filterMap fun e => (f e.2).map fun y => (e.1, y)) = (restrict p m).filterMap fun e => (f e.2).map fun y => (e.1, y) := by
  unfold restrict
  rw [filter_filterMap, filterMap_filter]
  refine filterMap_congr fun e _ => ?_
  cases hf : f e.2 with
  | none => simp
  | some y => by_cases hp : p e.1 = true <;> simp [hp]

theorem length_set_of_has {m : OrderedMap K X} (h : has m k = true) (x : X) : (set m k x).length = m.length := by
  induction m with
  | nil => cases h
  | cons e m ih =>
    obtain ⟨k₀, x₀⟩ := e
    by_cases hk : k₀ = k
    · simp [set, hk]
    · simp only [has, get, hk, if_false] at h ih
      simp only [set, hk, if_false, length_cons, ih h]

theorem length_set_le (m : OrderedMap K X) (k : K) (x : X) : (set m k x).length ≤ m.length + 1 := by
  induction m with
  | nil => exact le_rfl
  | cons e m ih =>
    obtain ⟨k₀, x₀⟩ := e
    by_cases hk : k₀ = k
    · simp [set, hk]
    · simp only [set, hk, if_false, length_cons]
      omega

end

/-! ## What a map holds -/

/-- When the values hold items, setting a key exchanges the items of its value. -/
theorem count_flatMap_set [DecidableEq B] (f : X → List B) (m : OrderedMap K X) (k : K) (x : X) (b : B) :
    ((set m k x).flatMap fun e => f e.2).count b + (((get m k).map f).getD []).count b =
      (f x).count b + (m.flatMap fun e => f e.2).count b := by
  induction m with
  | nil => simp [set]
  | cons e m ih =>
    obtain ⟨k₀, x₀⟩ := e
    by_cases hk : k₀ = k
    · simp only [set, get, hk, if_true, flatMap_cons, count_append, Option.map_some, Option.getD_some]
      omega
    · simp only [set, get, hk, if_false, flatMap_cons, count_append]
      omega

theorem sum_map_set {N : Type} [AddCommGroup N] (f : X → N) (m : OrderedMap K X) (k : K) (x : X) :
    ((set m k x).map fun e => f e.2).sum = (m.map fun e => f e.2).sum - ((get m k).map f).getD 0 + f x := by
  induction m with
  | nil => simp [set]
  | cons e m ih =>
    obtain ⟨k₀, x₀⟩ := e
    by_cases hk : k₀ = k
    · simp only [set, get, hk, if_true, map_cons, sum_cons, Option.map_some, Option.getD_some]
      abel
    · simp only [set, get, hk, if_false, map_cons, sum_cons, ih]
      abel

theorem sum_set_lt (f : X → Nat) {y : X} (h : get m k = some y) (hlt : f x < f y) :
    ((set m k x).map fun e => f e.2).sum < (m.map fun e => f e.2).sum := by
  induction m with
  | nil => cases h
  | cons e m ih =>
    obtain ⟨k₀, x₀⟩ := e
    by_cases hk : k₀ = k
    · simp only [get, hk, if_true, Option.some.injEq] at h
      subst h
      simp only [set, hk, if_true, map_cons, sum_cons]
      omega
    · simp only [get, hk, if_false] at h
      simp only [set, hk, if_false, map_cons, sum_cons]
      have := ih h
      omega

theorem sum_delete_le (f : X → Nat) (m : OrderedMap K X) (k : K) : ((delete m k).map fun e => f e.2).sum ≤ (m.map fun e => f e.2).sum := by
  induction m with
  | nil => exact le_rfl
  | cons e m ih =>
    by_cases hk : e.1 = k
    · have hd : delete (e :: m) k = delete m k := by simp [delete, hk]
      rw [hd, map_cons, sum_cons]
      omega
    · have hd : delete (e :: m) k = e :: delete m k := by simp [delete, hk]
      rw [hd, map_cons, map_cons, sum_cons, sum_cons]
      omega

theorem sum_delete_lt (f : X → Nat) {y : X} (h : get m k = some y) (hpos : 0 < f y) :
    ((delete m k).map fun e => f e.2).sum < (m.map fun e => f e.2).sum := by
  induction m with
  | nil => cases h
  | cons e m ih =>
    obtain ⟨k₀, x₀⟩ := e
    by_cases hk : k₀ = k
    · simp only [get, hk, if_true, Option.some.injEq] at h
      subst h
      have hle := sum_delete_le f m k
      have hd : delete ((k₀, x₀) :: m) k = delete m k := by simp [delete, hk]
      rw [hd, map_cons, sum_cons]
      dsimp only
      omega
    · simp only [get, hk, if_false] at h
      have hd : delete ((k₀, x₀) :: m) k = (k₀, x₀) :: delete m k := by simp [delete, hk]
      rw [hd, map_cons, map_cons, sum_cons, sum_cons]
      have := ih h
      omega

/-- Deleting a key takes its value out. -/
theorem perm_cons_delete (hn : (m.map fst).Nodup) (h : (k, x) ∈ m) : m.Perm ((k, x) :: delete m k) := by
  induction m with
  | nil => cases h
  | cons e m ih =>
    simp only [map_cons, nodup_cons] at hn
    rcases mem_cons.1 h with h | h
    · subst h
      have : delete ((k, x) :: m) k = m := by
        have hd := delete_of_not_has hn.1
        simpa [delete] using hd
      rw [this]
    · have hk : e.1 ≠ k := fun hk => hn.1 (hk ▸ mem_map_of_mem h)
      have : delete (e :: m) k = e :: delete m k := by simp [delete, hk]
      rw [this]
      exact ((ih hn.2 h).cons e).trans (List.Perm.swap _ _ _)

end OrderedMap

end StreetJS.Lib
