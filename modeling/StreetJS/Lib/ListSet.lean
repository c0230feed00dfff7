/-
One element of a list exchanged: what is found afterwards, and how many elements have a property.
-/
import Mathlib.Data.List.Basic
import Mathlib.Data.List.Nodup
import Mathlib.Tactic.Abel

namespace StreetJS.Lib

open List

variable {A : Type} {l : List A} {i : Nat}

theorem lt_length {a : A} (h : l[i]? = some a) : i < l.length := (List.getElem?_eq_some_iff.1 h).1

variable {b : A}

/-- At the place of the exchange the new element is found, elsewhere what was there. -/
theorem getElem?_set_cases {c : A} {j : Nat} (h : (l.set i b)[j]? = some c) : j = i ∧ c = b ∨ j ≠ i ∧ l[j]? = some c := by
  by_cases hj : j = i
  · subst hj
    rw [getElem?_set_self'] at h
    cases hl : l[j]? with
    | none => simp [hl] at h
    | some d =>
      simp only [hl, Option.map_eq_map, Option.map_some, Function.const_apply, Option.some.injEq] at h
      exact .inl ⟨rfl, h.symm⟩
  · rw [getElem?_set_ne fun h' => hj h'.symm] at h
    exact .inr ⟨hj, h⟩

/-- Elements that were apart in a relation stay so, when the new one is related to none but itself. -/
theorem apart_set {R : A → A → Prop} (h : ∀ (j k : Nat) c c', l[j]? = some c → l[k]? = some c' → R c c' → j = k)
    (hleft : ∀ (j : Nat) c, l[j]? = some c → R c b → j = i) (hright : ∀ (j : Nat) c, l[j]? = some c → R b c → j = i)
    {j k : Nat} {c c' : A} (hc : (l.set i b)[j]? = some c) (hc' : (l.set i b)[k]? = some c') (hR : R c c') : j = k := by
  rcases getElem?_set_cases hc with ⟨hj, rfl⟩ | ⟨-, hcj⟩ <;> rcases getElem?_set_cases hc' with ⟨hk, rfl⟩ | ⟨-, hck⟩
  · exact hj.trans hk.symm
  · exact hj.trans (hright k c' hck hR).symm
  · exact (hleft j c hcj hR).trans hk.symm
  · exact h j k c c' hcj hck hR

/-- At the end of a longer list the new element is found, before it what was there. -/
theorem getElem?_concat_cases {c : A} {j : Nat} (h : (l ++ [b])[j]? = some c) : l[j]? = some c ∨ j = l.length ∧ c = b := by
  rcases Nat.lt_trichotomy j l.length with hlt | rfl | hgt
  · rw [getElem?_append_left hlt] at h
    exact .inl h
  · rw [getElem?_concat_length, Option.some.injEq] at h
    exact .inr ⟨rfl, h.symm⟩
  · rw [getElem?_eq_none (by rw [length_append, length_singleton]; omega)] at h
    cases h

theorem getElem?_concat_iff {c : A} {j : Nat} : (l ++ [b])[j]? = some c ↔ l[j]? = some c ∨ j = l.length ∧ c = b := by
  constructor
  · exact getElem?_concat_cases
  · rintro (h | ⟨rfl, rfl⟩)
    · rw [getElem?_append_left (lt_length h), h]
    · exact getElem?_concat_length

variable {a : A}

/-- What the exchanged elements have in common stays as it is. -/
theorem map_set_eq {B : Type} {f : A → B} (h : l[i]? = some a) (hf : f b = f a) : (l.set i b).map f = l.map f := by
  obtain ⟨hlt, rfl⟩ := List.getElem?_eq_some_iff.1 h
  rw [map_set, hf, ← getElem_map f (h := by simpa using hlt), set_getElem_self]

theorem countP_set_add (p : A → Bool) (h : l[i]? = some a) (b : A) : (l.set i b).countP p + (p a).toNat = l.countP p + (p b).toNat := by
  obtain ⟨hlt, rfl⟩ := List.getElem?_eq_some_iff.1 h
  have hset := countP_set (p := p) (a := b) hlt
  have hpos : p l[i] = true → 0 < l.countP p := fun hp => countP_pos_iff.2 ⟨l[i], getElem_mem hlt, hp⟩
  rw [hset]
  cases ha : p l[i] with
  | false => cases p b <;> simp
  | true =>
    have := hpos ha
    cases p b <;> simp <;> omega

/-- When the elements hold items, the exchange of one exchanges its items. -/
theorem count_flatMap_set {B : Type} [DecidableEq B] (f : A → List B) (h : l[i]? = some a) (b : A) (x : B) :
    ((l.set i b).flatMap f).count x + (f a).count x = (l.flatMap f).count x + (f b).count x := by
  induction l generalizing i with
  | nil => cases h
  | cons c l ih =>
    cases i with
    | zero =>
      obtain rfl := Option.some.inj h
      simp only [set_cons_zero, flatMap_cons, count_append]
      omega
    | succ i =>
      have := ih (i := i) h
      simp only [set_cons_succ, flatMap_cons, count_append]
      omega

/-- And when the new element holds one item more, so do all. -/
theorem perm_flatMap_set {B : Type} (f : A → List B) {x : B} (h : l[i]? = some a) (hf : f b = f a ++ [x]) :
    ((l.set i b).flatMap f).Perm (l.flatMap f ++ [x]) := by
  classical
  rw [perm_iff_count]
  intro y
  have hcount := count_flatMap_set f h b y
  rw [hf, count_append] at hcount
  rw [count_append]
  omega

theorem exists_mem_set {p : A → Prop} (h : l[i]? = some a) (hb : p a → p b) (hex : ∃ c ∈ l, p c) : ∃ c ∈ l.set i b, p c := by
  obtain ⟨c, hc, hp⟩ := hex
  obtain ⟨j, hj⟩ := mem_iff_getElem?.1 hc
  obtain ⟨hlt, -⟩ := List.getElem?_eq_some_iff.1 h
  by_cases hij : i = j
  · subst hij
    obtain rfl := Option.some.inj (h.symm.trans hj)
    exact ⟨b, mem_iff_getElem?.2 ⟨i, getElem?_set_self hlt⟩, hb hp⟩
  · exact ⟨c, mem_iff_getElem?.2 ⟨j, by rw [getElem?_set_ne hij, hj]⟩, hp⟩

theorem sum_map_ite (p : A → Bool) : (l.map fun a => if p a = true then (1 : Int) else 0).sum = l.countP p := by
  induction l with
  | nil => rfl
  | cons a l ih =>
    rw [map_cons, sum_cons, ih, countP_cons]
    cases p a <;> simp [Int.add_comm]

theorem two_le_countP {p : A → Bool} (ha : a ∈ l) (hb : b ∈ l) (hne : a ≠ b) (hpa : p a = true) (hpb : p b = true) : 2 ≤ l.countP p := by
  induction l with
  | nil => cases ha
  | cons c l ih =>
    rw [countP_cons]
    rcases mem_cons.1 ha with rfl | ha'
    · have hb' : b ∈ l := (mem_cons.1 hb).resolve_left fun h => hne h.symm
      have hpos := countP_pos_iff.2 ⟨b, hb', hpb⟩
      rw [if_pos hpa]
      omega
    · rcases mem_cons.1 hb with rfl | hb'
      · have hpos := countP_pos_iff.2 ⟨a, ha', hpa⟩
        rw [if_pos hpb]
        omega
      · have := ih ha' hb'
        omega

theorem sum_map_set {N : Type} [AddCommGroup N] (f : A → N) (h : l[i]? = some a) (b : A) :
    ((l.set i b).map f).sum = (l.map f).sum - f a + f b := by
  induction l generalizing i with
  | nil => cases h
  | cons c l ih =>
    cases i with
    | zero =>
      obtain rfl := Option.some.inj h
      simp only [set_cons_zero, map_cons, sum_cons]
      abel
    | succ i =>
      simp only [set_cons_succ, map_cons, sum_cons, ih (i := i) h]
      abel

/-- When no item is held twice, different elements hold different items. -/
theorem disjoint_of_nodup_flatMap {B : Type} {f : A → List B} (h : (l.flatMap f).Nodup) {j : Nat}
    (hi : l[i]? = some a) (hj : l[j]? = some b) (hne : i ≠ j) : List.Disjoint (f a) (f b) := by
  obtain ⟨hlt, rfl⟩ := List.getElem?_eq_some_iff.1 hi
  obtain ⟨hlt', rfl⟩ := List.getElem?_eq_some_iff.1 hj
  have hpairwise := pairwise_iff_getElem.1 (nodup_flatMap.1 h).2
  rcases Nat.lt_or_gt_of_ne hne with hij | hji
  · exact hpairwise i j hlt hlt' hij
  · exact fun x ha hb => hpairwise j i hlt' hlt hji hb ha

/-- What stands behind the last `x` is one's own. -/
theorem append_cons_inj {x : A} : ∀ {a b c d : List A}, x ∉ b → x ∉ d → a ++ x :: b = c ++ x :: d → a = c ∧ b = d
  | [], _, [], _, _, _, h => ⟨rfl, (List.cons.inj h).2⟩
  | [], _, _ :: c, d, hb, _, h => by
    obtain ⟨-, rfl⟩ := List.cons.inj h
    exact absurd (mem_append_right c mem_cons_self) hb
  | _ :: a, b, [], _, _, hd, h => by
    obtain ⟨-, rfl⟩ := List.cons.inj h
    exact absurd (mem_append_right a mem_cons_self) hd
  | _ :: a, b, _ :: c, d, hb, hd, h => by
    obtain ⟨rfl, htail⟩ := List.cons.inj h
    obtain ⟨rfl, rfl⟩ := append_cons_inj hb hd htail
    exact ⟨rfl, rfl⟩

end StreetJS.Lib
