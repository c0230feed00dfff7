/-
Stable sorting by a key. A list that is sorted by its key is determined by what it holds under each key, in order,
so the stable sort commutes with filters and with maps that keep the key.
-/
import Mathlib.Data.List.Sort
import Mathlib.Data.Prod.Lex

namespace StreetJS.Lib

open List

variable {α β κ : Type} [LinearOrder κ]

/-- `xs.sort((a, b) => f(a) - f(b))`. -/
def sortOn (f : α → κ) (l : List α) : List α := l.insertionSort fun a b => f a ≤ f b

section

variable (f : α → κ) (l : List α)

theorem sortOn_perm : (sortOn f l).Perm l := perm_insertionSort _ l

theorem mem_sortOn {a : α} : a ∈ sortOn f l ↔ a ∈ l := (sortOn_perm f l).mem_iff

theorem length_sortOn : (sortOn f l).length = l.length := (sortOn_perm f l).length_eq

theorem sortOn_pairwise : (sortOn f l).Pairwise fun a b => f a ≤ f b := pairwise_insertionSort _ l

theorem sortOn_of_pairwise (h : l.Pairwise fun a b => f a ≤ f b) : sortOn f l = l := h.insertionSort_eq

/-- What has one key keeps its order. -/
theorem filter_sortOn (k : κ) : ((sortOn f l).filter fun a => f a = k) = l.filter fun a => f a = k := by
  have hpairwise : (l.filter fun a => f a = k).Pairwise fun a b => f a ≤ f b := by
    refine pairwise_of_forall_mem_list fun a ha b hb => ?_
    have hka : f a = k := of_decide_eq_true (mem_filter.1 ha).2
    have hkb : f b = k := of_decide_eq_true (mem_filter.1 hb).2
    exact le_of_eq (hka.trans hkb.symm)
  have hsublist : (l.filter fun a => f a = k).Sublist (sortOn f l) :=
    sublist_insertionSort hpairwise filter_sublist
  have hfiltered := hsublist.filter fun a => decide (f a = k)
  rw [filter_filter] at hfiltered
  simp only [Bool.and_self] at hfiltered
  have hlength := ((sortOn_perm f l).filter fun a => decide (f a = k)).length_eq
  exact (hfiltered.eq_of_length hlength.symm).symm

end

/-- **A sorted list is determined by what it holds under each key.** -/
theorem eq_of_filter_key {f : α → κ} : ∀ {l l' : List α}, (l.Pairwise fun a b => f a ≤ f b) →
    (l'.Pairwise fun a b => f a ≤ f b) → (∀ k, (l.filter fun a => f a = k) = l'.filter fun a => f a = k) → l = l'
  | [], l', _, _, h => by
    have hnot : ∀ b, b ∉ l' := by
      intro b hb
      have hmem : b ∈ l'.filter fun a => f a = f b := mem_filter.2 ⟨hb, decide_eq_true rfl⟩
      rw [← h (f b)] at hmem
      exact absurd hmem not_mem_nil
    exact (eq_nil_iff_forall_not_mem.2 hnot).symm
  | a :: l, [], _, _, h => by
    have hmem : a ∈ (a :: l).filter fun b => f b = f a := mem_filter.2 ⟨mem_cons_self, decide_eq_true rfl⟩
    rw [h (f a)] at hmem
    exact absurd hmem not_mem_nil
  | a :: l, b :: l', hl, hl', h => by
    -- the two least keys are the same, so that the two heads head the lists of this key
    have hmem : ∀ c, c ∈ a :: l ↔ c ∈ b :: l' := by
      intro c
      have hc : c ∈ (a :: l).filter (fun d => f d = f c) ↔ c ∈ (b :: l').filter (fun d => f d = f c) := by rw [h (f c)]
      simpa only [mem_filter, decide_true, and_true] using hc
    have hle : ∀ c ∈ a :: l, f a ≤ f c := by
      intro c hc
      rcases mem_cons.1 hc with rfl | hc
      · exact le_refl _
      · exact rel_of_pairwise_cons hl hc
    have hle' : ∀ c ∈ b :: l', f b ≤ f c := by
      intro c hc
      rcases mem_cons.1 hc with rfl | hc
      · exact le_refl _
      · exact rel_of_pairwise_cons hl' hc
    have hkey : f a = f b :=
      le_antisymm (hle b ((hmem b).2 mem_cons_self)) (hle' a ((hmem a).1 mem_cons_self))
    have hhead := h (f a)
    simp only [filter_cons, decide_true, hkey, if_true] at hhead
    obtain ⟨rfl, -⟩ := List.cons.inj hhead
    have htail : ∀ k, (l.filter fun c => f c = k) = l'.filter fun c => f c = k := by
      intro k
      have hk := h k
      simp only [filter_cons] at hk
      split at hk
      · exact (List.cons.inj hk).2
      · exact hk
    rw [eq_of_filter_key hl.of_cons hl'.of_cons htail]

theorem sortOn_filter (f : α → κ) (l : List α) (p : α → Bool) : sortOn f (l.filter p) = (sortOn f l).filter p := by
  refine eq_of_filter_key (sortOn_pairwise f _) ((sortOn_pairwise f l).filter p) fun k => ?_
  rw [filter_sortOn, filter_filter, filter_filter]
  simp only [Bool.and_comm _ (p _)]
  rw [← filter_filter, ← filter_filter, filter_sortOn]

theorem sortOn_map (f : α → κ) (g : β → κ) (m : α → β) (hm : ∀ a, g (m a) = f a) (l : List α) : sortOn g (l.map m) = (sortOn f l).map m := by
  refine eq_of_filter_key (sortOn_pairwise g _) ?_ fun k => ?_
  · rw [pairwise_map]
    simpa only [hm] using sortOn_pairwise f l
  · rw [filter_sortOn, filter_map, filter_map]
    have hcomp : ((fun b => decide (g b = k)) ∘ m) = fun a => decide (f a = k) := by
      funext a
      simp only [Function.comp_apply, hm]
    rw [hcomp, filter_sortOn]

theorem pairwise_lex {f : α → κ} {R : α → α → Prop} : ∀ {l : List α}, (l.Pairwise fun a b => f a ≤ f b) →
    (∀ k, (l.filter fun a => f a = k).Pairwise R) → l.Pairwise fun a b => f a < f b ∨ f a = f b ∧ R a b
  | [], _, _ => List.Pairwise.nil
  | a :: l, hl, h => by
    constructor
    · intro b hb
      rcases lt_or_eq_of_le (rel_of_pairwise_cons hl hb) with hlt | heq
      · exact .inl hlt
      · have hkey := h (f a)
        simp only [filter_cons, decide_true, if_true] at hkey
        exact .inr ⟨heq, rel_of_pairwise_cons hkey (mem_filter.2 ⟨hb, decide_eq_true heq.symm⟩)⟩
    · refine pairwise_lex hl.of_cons fun k => ?_
      have hkey := h k
      simp only [filter_cons] at hkey
      split at hkey
      · exact hkey.of_cons
      · exact hkey

theorem sortOn_lex {κ' : Type} [LinearOrder κ'] (f : α → κ) (g : α → κ') (l : List α)
    (hg : l.Pairwise fun a b => g a ≤ g b) : sortOn (fun a => toLex (f a, g a)) l = sortOn f l := by
  have hunder : ∀ k, ((sortOn f l).filter fun a => f a = k).Pairwise fun a b => g a ≤ g b := by
    intro k
    rw [filter_sortOn]
    exact hg.filter _
  refine eq_of_filter_key (sortOn_pairwise _ l) ?_ fun k => ?_
  · exact (pairwise_lex (sortOn_pairwise f l) hunder).imp Prod.Lex.toLex_le_toLex.2
  · have hsplit : ∀ l' : List α, (l'.filter fun a => toLex (f a, g a) = k) =
        (l'.filter fun a => f a = (ofLex k).1).filter fun a => g a = (ofLex k).2 := by
      intro l'
      rw [filter_filter]
      congr 1
      funext a
      have hiff : toLex (f a, g a) = k ↔ g a = (ofLex k).2 ∧ f a = (ofLex k).1 := by
        rw [and_comm]
        exact Prod.ext_iff
      simp only [hiff, Bool.decide_and]
    rw [filter_sortOn, hsplit, hsplit, filter_sortOn]

theorem sortOn_eq_of_perm {α κ : Type} [LinearOrder κ] {f : α → κ} (hf : Function.Injective f) {l l' : List α}
    (h : l.Perm l') : sortOn f l = sortOn f l' := by
  refine List.Perm.eq_of_pairwise ?_ (sortOn_pairwise f l) (sortOn_pairwise f l') ((sortOn_perm f l).trans (h.trans (sortOn_perm f l').symm))
  intro a b _ _ hab hba
  exact hf (le_antisymm hab hba)

end StreetJS.Lib
