/-
Conditions of `where` and `having` (`core/src/database/query-builder.ts`) are joined by AND as they stand: what the clause
says, where AND binds tighter than an OR of a condition.
-/
import StreetJS.Database.QueryBuilder

namespace StreetJS.Database

open List

/-! ## Boolean expressions -/

/-- What a boolean expression is written with; a factor is a comparison, a negation or what stands in parentheses. -/
inductive Item (F : Type) where
  | and
  | or
  | factor (f : F)
deriving DecidableEq

section

variable {F : Type}

/-- Factors with an AND or an OR between each two. -/
def Formed : List (Item F) → Prop
  | [.factor _] => True
  | .factor _ :: .and :: ts => Formed ts
  | .factor _ :: .or :: ts => Formed ts
  | _ => False

/-- A raw condition. -/
structure Condition (F : Type) where
  items : List (Item F)
  formed : Formed items

def Item.text (txt : F → Text) : Item F → Text
  | .and => ['A', 'N', 'D']
  | .or => ['O', 'R']
  | .factor f => txt f

def itemsText (txt : F → Text) : List (Item F) → Text
  | [] => []
  | [t] => t.text txt
  | t :: ts => t.text txt ++ ' ' :: itemsText txt ts

/-- The conditions with an AND between each two. -/
def joined (conds : List (Condition F)) : List (Item F) := [Item.and].intercalate (conds.map Condition.items)

/-- One item more, by the precedence of SQL: whether an alternative before holds, and the factors of this one so far. -/
def scan (row : F → Bool) : Bool × Bool → Item F → Bool × Bool
  | s, .and => s
  | s, .or => (s.1 || s.2, true)
  | s, .factor f => (s.1, s.2 && row f)

/-- A row of which these factors are true meets the expression; so it is where others are unknown. -/
def Satisfied (row : F → Bool) (ts : List (Item F)) : Prop :=
  ((ts.foldl (scan row) (false, true)).1 || (ts.foldl (scan row) (false, true)).2) = true

instance (row : F → Bool) (ts : List (Item F)) : Decidable (Satisfied row ts) := inferInstanceAs (Decidable (_ = true))

/-- **The clause says that all conditions hold**; there is none without conditions. -/
def Conjunction (conds : List (Condition F)) : Prop :=
  ∀ row : F → Bool, (conds ≠ [] → Satisfied row (joined conds)) ↔ ∀ c ∈ conds, Satisfied row c.items

/-- No more than one condition, or none with an OR. -/
def Plain (conds : List (Condition F)) : Prop := conds.length ≤ 1 ∨ ∀ c ∈ conds, .or ∉ c.items

def Condition.Apart (c d : Condition F) : Prop := ∀ f, .factor f ∈ c.items → .factor f ∉ d.items

/-! ## The text of the clause -/

theorem Formed.ne_nil {ts : List (Item F)} (h : Formed ts) : ts ≠ [] := by
  rintro rfl
  exact h

theorem joined_cons (c d : Condition F) (conds : List (Condition F)) : joined (c :: d :: conds) = c.items ++ .and :: joined (d :: conds) := by
  rfl

theorem joined_singleton (c : Condition F) : joined [c] = c.items := by simp [joined, intercalate_singleton]

theorem joined_ne_nil (c : Condition F) (conds : List (Condition F)) : joined (c :: conds) ≠ [] := by
  cases conds with
  | nil => exact joined_singleton c ▸ c.formed.ne_nil
  | cons d conds => simp [joined_cons]

theorem itemsText_and (txt : F → Text) {ts us : List (Item F)} (ht : ts ≠ []) (hu : us ≠ []) :
    itemsText txt (ts ++ .and :: us) = itemsText txt ts ++ (" AND ".toList ++ itemsText txt us) := by
  obtain ⟨u, us, rfl⟩ := exists_cons_of_ne_nil hu
  induction ts with
  | nil => exact absurd rfl ht
  | cons t ts ih =>
    cases ts with
    | nil => rfl
    | cons t' ts =>
      have h := ih (cons_ne_nil t' ts)
      simp only [cons_append, itemsText] at h ⊢
      simp [h]

/-- `WHERE` and `HAVING` are the text of what is joined. -/
theorem clause_joined (txt : F → Text) (keyword : Text) (conds : List (Condition F)) :
    clause keyword (conds.map fun c => itemsText txt c.items) = if conds = [] then [] else [keyword ++ itemsText txt (joined conds)] := by
  have h : ∀ (c : Condition F) conds, (" AND ".toList).intercalate ((c :: conds).map fun c => itemsText txt c.items) =
      itemsText txt (joined (c :: conds)) := by
    intro c conds
    induction conds generalizing c with
    | nil => simp only [map_cons, map_nil, intercalate_singleton, joined_singleton]
    | cons d conds ih =>
      rw [map_cons, intercalate_cons_of_ne_nil (by simp), ih d, joined_cons,
        itemsText_and txt c.formed.ne_nil (joined_ne_nil d conds), append_assoc]
  cases conds with
  | nil => rfl
  | cons c conds => rw [clause, if_neg (by simp), h, if_neg (by simp)]

/-! ## What the clause says -/

section

variable {row : F → Bool}

theorem scan_true (b : Bool) (ts : List (Item F)) : (ts.foldl (scan row) (true, b)).1 = true := by
  induction ts generalizing b with
  | nil => rfl
  | cons t ts ih => cases t <;> simp [scan, ih]

theorem scan_all (a : Bool) {ts : List (Item F)} (h : ∀ f, .factor f ∈ ts → row f = true) : (ts.foldl (scan row) (a, true)).2 = true := by
  induction ts generalizing a with
  | nil => rfl
  | cons t ts ih =>
    have htail := fun a => ih a fun f hf => h f (mem_cons_of_mem t hf)
    cases t with
    | factor f => simp [scan, h f mem_cons_self, htail]
    | _ => simp [scan, htail]

theorem scan_none {ts : List (Item F)} (hts : Formed ts) (h : ∀ f, .factor f ∈ ts → row f = false) (b : Bool) :
    ts.foldl (scan row) (false, b) = (false, false) := by
  fun_induction Formed ts generalizing b with
  | case1 f => simp [scan, h f]
  | case2 f ts ih => simp [scan, h f, ih hts fun g hg => h g (by simp [hg])]
  | case3 f ts ih => simp [scan, h f, ih hts fun g hg => h g (by simp [hg])]
  | case4 => exact hts.elim

theorem not_satisfied (c : Condition F) (h : ∀ f, .factor f ∈ c.items → row f = false) : ¬ Satisfied row c.items := by
  simp [Satisfied, scan_none c.formed h]

/-- An alternative that holds is enough. -/
theorem satisfied_of_before {ts us : List (Item F)} (h : ∀ f, .factor f ∈ ts → row f = true) : Satisfied row (ts ++ .or :: us) := by
  simp [Satisfied, foldl_append, scan, scan_all false h, scan_true]

theorem satisfied_of_behind {ts us : List (Item F)} (h : ∀ f, .factor f ∈ us → row f = true) : Satisfied row (ts ++ .or :: us) := by
  simp [Satisfied, foldl_append, scan, scan_all _ h]

theorem scan_fst {ts : List (Item F)} (h : .or ∉ ts) (b : Bool) :
    ts.foldl (scan row) (false, b) = (false, b && (ts.foldl (scan row) (false, true)).2) := by
  induction ts generalizing b with
  | nil => simp
  | cons t ts ih =>
    rw [mem_cons, not_or] at h
    cases t with
    | or => exact absurd rfl h.1
    | and => simpa [scan] using ih h.2 b
    | factor f =>
      simp only [foldl_cons, scan]
      rw [ih h.2 (b && row f), ih h.2 (true && row f)]
      simp [Bool.and_assoc]

theorem satisfied_and {ts us : List (Item F)} (ht : .or ∉ ts) (hu : .or ∉ us) :
    Satisfied row (ts ++ .and :: us) ↔ Satisfied row ts ∧ Satisfied row us := by
  simp only [Satisfied, foldl_append, foldl_cons, scan]
  rw [scan_fst ht true, scan_fst hu, scan_fst hu true]
  simp

end

theorem mem_joined {t : Item F} (ht : t ≠ .and) {conds : List (Condition F)} : t ∈ joined conds ↔ ∃ c ∈ conds, t ∈ c.items := by
  induction conds with
  | nil => simp [joined]
  | cons c conds ih =>
    cases conds with
    | nil => simp [joined_singleton]
    | cons d conds => rw [joined_cons, mem_append, mem_cons, ih]; simp [ht]

theorem satisfied_joined {row : F → Bool} {c : Condition F} {conds : List (Condition F)} (h : ∀ d ∈ c :: conds, .or ∉ d.items) :
    Satisfied row (joined (c :: conds)) ↔ ∀ d ∈ c :: conds, Satisfied row d.items := by
  induction conds generalizing c with
  | nil => simp [joined_singleton]
  | cons d conds ih =>
    rw [forall_mem_cons] at h
    have hor : .or ∉ joined (d :: conds) := fun hmem => by
      obtain ⟨e, he, hmem⟩ := (mem_joined (by simp)).1 hmem
      exact h.2 e he hmem
    rw [joined_cons, satisfied_and h.1 hor, ih h.2, forall_mem_cons (l := d :: conds)]

theorem plain_of_conjunction [DecidableEq F] {conds : List (Condition F)} (hapart : conds.Pairwise Condition.Apart)
    (h : Conjunction conds) : Plain conds := by
  rcases conds with _ | ⟨c, _ | ⟨d, conds⟩⟩
  · exact .inl (Nat.zero_le 1)
  · exact .inl (Nat.le_refl 1)
  right
  obtain ⟨hc, -⟩ := pairwise_cons.1 hapart
  by_contra hor
  simp only [not_forall, not_not] at hor
  obtain ⟨e, he, hor⟩ := hor
  rcases mem_cons.1 he with rfl | he
  · -- what is before an OR of the first condition leaves out the second one
    obtain ⟨ts, us, hsplit⟩ := append_of_mem hor
    have hjoined : joined (e :: d :: conds) = ts ++ .or :: (us ++ .and :: joined (d :: conds)) := by
      simp [joined_cons, hsplit]
    refine @not_satisfied F (fun f => decide (.factor f ∈ ts)) d (fun f hf => ?_)
      ((h _).1 (fun _ => hjoined ▸ satisfied_of_before (by simp)) d (by simp))
    exact decide_eq_false fun hts => hc d (by simp) f (by simp [hsplit, hts]) hf
  · -- what is behind an OR of the others leaves out the first one
    obtain ⟨ts, us, hsplit⟩ := append_of_mem ((mem_joined (by simp)).2 ⟨e, he, hor⟩)
    have hjoined : joined (c :: d :: conds) = (c.items ++ .and :: ts) ++ .or :: us := by simp [joined_cons, hsplit]
    refine @not_satisfied F (fun f => decide (.factor f ∈ us)) c (fun f hf => ?_)
      ((h _).1 (fun _ => hjoined ▸ satisfied_of_behind (by simp)) c (by simp))
    refine decide_eq_false fun hus => ?_
    have hmem : .factor f ∈ joined (d :: conds) := by simp [hsplit, hus]
    obtain ⟨e', he', hf'⟩ := (mem_joined (by simp)).1 hmem
    exact hc e' he' f hf hf'

/-- **All conditions are asked for when there is no more than one, or none with an OR**; when no factor is in two of them,
only then. -/
theorem conjunction_iff [DecidableEq F] (conds : List (Condition F)) :
    (∀ txt keyword, clause keyword (conds.map fun c => itemsText txt c.items) =
        if conds = [] then [] else [keyword ++ itemsText txt (joined conds)]) ∧
      (Plain conds → Conjunction conds) ∧ (conds.Pairwise Condition.Apart → Conjunction conds → Plain conds) := by
  refine ⟨fun txt keyword => clause_joined txt keyword conds, fun h row => ?_, plain_of_conjunction⟩
  rcases conds with _ | ⟨c, conds⟩
  · simp
  rcases h with h | h
  · obtain rfl : conds = [] := length_eq_zero_iff.1 (by simpa using h)
    simp [joined_singleton]
  · simp only [ne_eq, reduceCtorEq, not_false_eq_true, forall_const]
    exact satisfied_joined h

end

/-- `a OR b` and `c`: a row with `a` alone is found. -/
theorem where_counterexample : ¬ ∀ conds : List (Condition ℕ), Conjunction conds := by
  intro h
  let a : Condition ℕ := ⟨[.factor 0, .or, .factor 1], trivial⟩
  let c : Condition ℕ := ⟨[.factor 2], trivial⟩
  exact absurd ((h [a, c] (· == 0)).1 (fun _ => rfl) c (by simp)) (by decide)

end StreetJS.Database
