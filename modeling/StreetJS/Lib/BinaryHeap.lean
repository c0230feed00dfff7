/-
An array-backed binary heap under a comparison `before a b`: `push` and `pop` rearrange the items
they hold, gain or give up, and nothing else.
-/
import Mathlib.Data.List.Basic
import Mathlib.Data.List.Perm.Basic

namespace StreetJS.Lib

open List

/-- The items in array order. -/
structure BinaryHeap (T : Type) where
  items : List T := []
deriving Repr

namespace BinaryHeap

variable {T : Type} (before : T → T → Bool)

/-- Exchange the items at two indices. -/
def swap (items : List T) (i j : Nat) : List T :=
  match items[i]?, items[j]? with
  | some a, some b => (items.set i b).set j a
  | _, _ => items

/-- Whether the item at index `i` goes before the one at index `j`. -/
def beforeAt (items : List T) (i j : Nat) : Bool :=
  match items[i]?, items[j]? with
  | some a, some b => before a b
  | _, _ => false

/-- The item at `i` moves up while it goes before its parent. -/
def siftUp : Nat → List T → Nat → List T
  | 0, items, _ => items
  | fuel + 1, items, i =>
    if 0 < i ∧ beforeAt before items i ((i - 1) / 2) then siftUp fuel (swap items i ((i - 1) / 2)) ((i - 1) / 2)
    else items

def smaller (items : List T) (child smallest : Nat) : Nat :=
  if beforeAt before items child smallest then child else smallest

/-- The item at `i` moves down while a child goes before it. -/
def siftDown : Nat → List T → Nat → List T
  | 0, items, _ => items
  | fuel + 1, items, i =>
    let smallest := smaller before items (2 * i + 2) (smaller before items (2 * i + 1) i)
    if smallest = i then items else siftDown fuel (swap items i smallest) smallest

def push (h : BinaryHeap T) (item : T) : BinaryHeap T :=
  { items := siftUp before (h.items.length + 1) (h.items ++ [item]) h.items.length }

def pop (h : BinaryHeap T) : Option (T × BinaryHeap T) :=
  match h.items with
  | [] => none
  | [top] => some (top, {})
  | top :: second :: rest =>
    let last := (second :: rest).getLast (cons_ne_nil _ _)
    let items := last :: (second :: rest).dropLast
    some (top, { items := siftDown before items.length items 0 })

/-- Pop while the top satisfies `p`. -/
def drainWhile (p : T → Bool) : Nat → BinaryHeap T → List T × BinaryHeap T
  | 0, h => ([], h)
  | fuel + 1, h =>
    match h.items.head? with
    | some top =>
      if p top then
        match pop before h with
        | some (item, h') => (item :: (drainWhile p fuel h').1, (drainWhile p fuel h').2)
        | none => ([], h)
      else ([], h)
    | none => ([], h)

/-! ## The items are rearranged -/

theorem swap_perm (items : List T) (i j : Nat) : (swap items i j).Perm items := by
  unfold swap
  split
  · rename_i a b hi hj
    obtain ⟨hi', rfl⟩ := List.getElem?_eq_some_iff.1 hi
    obtain ⟨hj', rfl⟩ := List.getElem?_eq_some_iff.1 hj
    exact set_set_perm hi' hj'
  · exact List.Perm.refl _

theorem siftUp_perm : ∀ (fuel : Nat) (items : List T) (i : Nat), (siftUp before fuel items i).Perm items
  | 0, _, _ => List.Perm.refl _
  | fuel + 1, items, i => by
    unfold siftUp
    split
    · exact (siftUp_perm fuel _ _).trans (swap_perm items i _)
    · exact List.Perm.refl _

theorem siftDown_perm : ∀ (fuel : Nat) (items : List T) (i : Nat), (siftDown before fuel items i).Perm items
  | 0, _, _ => List.Perm.refl _
  | fuel + 1, items, i => by
    unfold siftDown
    simp only
    split
    · exact List.Perm.refl _
    · exact (siftDown_perm fuel _ _).trans (swap_perm items i _)

theorem push_perm (h : BinaryHeap T) (item : T) : (push before h item).items.Perm (item :: h.items) :=
  (siftUp_perm before _ _ _).trans (perm_append_singleton item h.items)

theorem pop_perm {h h' : BinaryHeap T} {item : T} (hp : pop before h = some (item, h')) : h.items.Perm (item :: h'.items) := by
  unfold pop at hp
  split at hp
  · cases hp
  · rename_i top he
    cases hp
    rw [he]
  · rename_i top second rest he
    cases hp
    rw [he]
    refine List.Perm.cons _ (List.Perm.symm ?_)
    refine (siftDown_perm before _ _ _).trans ?_
    have hl : (second :: rest).dropLast ++ [(second :: rest).getLast (cons_ne_nil _ _)] = second :: rest :=
      dropLast_append_getLast (cons_ne_nil _ _)
    exact (perm_append_singleton _ _).symm.trans (List.Perm.of_eq hl)

theorem pop_none {h : BinaryHeap T} : pop before h = none ↔ h.items = [] := by
  unfold pop
  split
  · rename_i he
    simp [he]
  · rename_i he
    simp [he]
  · rename_i he
    simp [he]

theorem drainWhile_perm (p : T → Bool) : ∀ (fuel : Nat) (h : BinaryHeap T),
    h.items.Perm ((drainWhile before p fuel h).1 ++ (drainWhile before p fuel h).2.items)
  | 0, _ => List.Perm.refl _
  | fuel + 1, h => by
    unfold drainWhile
    split
    · split
      · split
        · rename_i item h' hp
          exact (pop_perm before hp).trans ((drainWhile_perm p fuel h').cons item)
        · exact List.Perm.refl _
      · exact List.Perm.refl _
    · exact List.Perm.refl _

/-! ## The items are in heap order -/

/-- `before` is the strict part of a total preorder. -/
structure Comparison (before : T → T → Bool) : Prop where
  asymm : ∀ a b, before a b = true → before b a = false
  trans : ∀ a b c, before a b = false → before b c = false → before a c = false

/-- No item goes before its parent. -/
def Ordered (items : List T) : Prop := ∀ i, 0 < i → beforeAt before items i ((i - 1) / 2) = false

/-- The order while the item at `i` moves up: it alone may go before its parent, and its children do not. -/
structure UpOrdered (items : List T) (i : Nat) : Prop where
  except : ∀ k, 0 < k → k ≠ i → beforeAt before items k ((k - 1) / 2) = false
  below : 0 < i → ∀ k, 0 < k → (k - 1) / 2 = i → beforeAt before items k ((i - 1) / 2) = false

/-- The order while the item at `i` moves down: its children alone may go before it, but not before its
parent. -/
structure DownOrdered (items : List T) (i : Nat) : Prop where
  except : ∀ k, 0 < k → (k - 1) / 2 ≠ i → beforeAt before items k ((k - 1) / 2) = false
  above : 0 < i → ∀ k, 0 < k → (k - 1) / 2 = i → beforeAt before items k ((i - 1) / 2) = false

section

variable {before} {items : List T}

variable {i j : Nat}

theorem getElem?_swap (hi : i < items.length) (hj : j < items.length) (hne : i ≠ j) (k : Nat) :
    (swap items i j)[k]? = if k = j then items[i]? else if k = i then items[j]? else items[k]? := by
  unfold swap
  rw [getElem?_eq_getElem hi, getElem?_eq_getElem hj]
  by_cases hkj : k = j
  · subst hkj
    simp [hj]
  · by_cases hki : k = i
    · subst hki
      simp [hi, hkj, Ne.symm hkj]
    · simp [hkj, hki, Ne.symm hkj, Ne.symm hki]

theorem beforeAt_congr {items' : List T} {i' j' : Nat} (hi : items[i]? = items'[i']?) (hj : items[j]? = items'[j']?) :
    beforeAt before items i j = beforeAt before items' i' j' := by
  unfold beforeAt
  rw [hi, hj]

theorem beforeAt_lt (h : beforeAt before items i j = true) : i < items.length ∧ j < items.length := by
  unfold beforeAt at h
  split at h
  · rename_i a b hi hj
    exact ⟨(List.getElem?_eq_some_iff.1 hi).1, (List.getElem?_eq_some_iff.1 hj).1⟩
  · cases h

theorem beforeAt_of_le (h : items.length ≤ i) : beforeAt before items i j = false := by
  by_contra hne
  have := (beforeAt_lt (by simpa using hne)).1
  omega

theorem Comparison.asymmAt (hc : Comparison before) (h : beforeAt before items i j = true) : beforeAt before items j i = false := by
  unfold beforeAt at h ⊢
  split at h
  · rename_i a b hi hj
    rw [hi, hj]
    exact hc.asymm a b h
  · cases h

theorem Comparison.transAt (hc : Comparison before) {k : Nat} (hj : j < items.length)
    (hij : beforeAt before items i j = false) (hjk : beforeAt before items j k = false) :
    beforeAt before items i k = false := by
  unfold beforeAt at hij hjk ⊢
  rw [getElem?_eq_getElem hj] at hij hjk
  split
  · rename_i a c hi hk
    rw [hi] at hij
    rw [hk] at hjk
    exact hc.trans a _ c hij hjk
  · rfl

theorem Comparison.irrefl (hc : Comparison before) (a : T) : before a a = false := by
  by_contra h
  have h : before a a = true := by simpa using h
  rw [hc.asymm a a h] at h
  cases h

theorem UpOrdered.move (hc : Comparison before) (h : UpOrdered before items i) (hi : 0 < i)
    (hb : beforeAt before items i ((i - 1) / 2) = true) :
    UpOrdered before (swap items i ((i - 1) / 2)) ((i - 1) / 2) := by
  obtain ⟨hlt, hplt⟩ := beforeAt_lt hb
  have hne : i ≠ (i - 1) / 2 := by omega
  have hget := getElem?_swap hlt hplt hne
  constructor
  case except =>
    intro k hk hkp
    by_cases hki : k = i
    · subst hki
      rw [beforeAt_congr ((hget k).trans (by rw [if_neg hkp, if_pos rfl])) ((hget _).trans (if_pos rfl))]
      exact hc.asymmAt hb
    · have hself : (swap items i ((i - 1) / 2))[k]? = items[k]? := by rw [hget, if_neg hkp, if_neg hki]
      by_cases hpi : (k - 1) / 2 = i
      · rw [beforeAt_congr hself ((hget _).trans (by rw [hpi, if_neg hne, if_pos rfl]))]
        exact h.below hi k hk hpi
      · by_cases hpp : (k - 1) / 2 = (i - 1) / 2
        · -- a sibling is not before the old parent, and so not before the new one
          rw [beforeAt_congr hself ((hget _).trans (if_pos hpp))]
          refine hc.transAt hplt ?_ (hc.asymmAt hb)
          rw [← hpp]
          exact h.except k hk hki
        · rw [beforeAt_congr hself ((hget _).trans (by rw [if_neg hpp, if_neg hpi]))]
          exact h.except k hk hki
  case below =>
    intro hp k hk hkp
    have hgrand : ((i - 1) / 2 - 1) / 2 ≠ (i - 1) / 2 ∧ ((i - 1) / 2 - 1) / 2 ≠ i := by omega
    have htop : (swap items i ((i - 1) / 2))[((i - 1) / 2 - 1) / 2]? = items[((i - 1) / 2 - 1) / 2]? := by
      rw [hget, if_neg hgrand.1, if_neg hgrand.2]
    have hparent : beforeAt before items ((i - 1) / 2) (((i - 1) / 2 - 1) / 2) = false :=
      h.except _ hp (by omega)
    by_cases hki : k = i
    · subst hki
      rw [beforeAt_congr ((hget k).trans (by rw [if_neg hne, if_pos rfl])) htop]
      exact hparent
    · rw [beforeAt_congr ((hget k).trans (by rw [if_neg (by omega), if_neg hki])) htop]
      refine hc.transAt hplt ?_ hparent
      rw [← hkp]
      exact h.except k hk hki

theorem UpOrdered.stop (h : UpOrdered before items i)
    (hstop : 0 < i → beforeAt before items i ((i - 1) / 2) = false) : Ordered before items := fun k hk => by
  by_cases hki : k = i
  · subst hki
    exact hstop hk
  · exact h.except k hk hki

theorem siftUp_ordered (hc : Comparison before) : ∀ (fuel : Nat) {items : List T} {i : Nat}, i < fuel →
    UpOrdered before items i → Ordered before (siftUp before fuel items i)
  | 0, _, _, hf, _ => absurd hf (Nat.not_lt_zero _)
  | fuel + 1, items, i, hf, h => by
    unfold siftUp
    split
    · rename_i hmove
      exact siftUp_ordered hc fuel (by omega) (h.move hc hmove.1 hmove.2)
    · rename_i hstop
      refine h.stop fun hi => ?_
      by_contra hb
      exact hstop ⟨hi, by simpa using hb⟩

theorem smaller_spec (hc : Comparison before) (items : List T) (child smallest : Nat) :
    beforeAt before items child (smaller before items child smallest) = false ∧
      beforeAt before items smallest (smaller before items child smallest) = false ∧
      (smaller before items child smallest = child ∧ beforeAt before items child smallest = true ∨
        smaller before items child smallest = smallest) := by
  have hrefl : ∀ i, beforeAt before items i i = false := fun i => by
    unfold beforeAt
    split
    · rename_i a b hi hj
      rw [hi] at hj
      cases hj
      exact hc.irrefl a
    · rfl
  unfold smaller
  split
  · rename_i hb
    exact ⟨hrefl child, hc.asymmAt hb, .inl ⟨rfl, hb⟩⟩
  · rename_i hb
    exact ⟨by simpa using hb, hrefl smallest, .inr rfl⟩

theorem DownOrdered.move (hc : Comparison before) {s : Nat} (h : DownOrdered before items i)
    (hs : 0 < s ∧ (s - 1) / 2 = i) (hb : beforeAt before items s i = true)
    (hmin : ∀ k, 0 < k → (k - 1) / 2 = i → beforeAt before items k s = false) :
    DownOrdered before (swap items i s) s := by
  obtain ⟨hslt, hlt⟩ := beforeAt_lt hb
  have hne : i ≠ s := by omega
  have hget := getElem?_swap hlt hslt hne
  constructor
  case except =>
    intro k hk hks
    by_cases hk' : k = s
    · subst hk'
      rw [beforeAt_congr ((hget k).trans (if_pos rfl)) ((hget _).trans (by rw [if_neg hks, if_pos hs.2]))]
      exact hc.asymmAt hb
    · by_cases hki : k = i
      · subst hki
        have hp : (k - 1) / 2 ≠ k := by omega
        rw [beforeAt_congr ((hget k).trans (by rw [if_neg hk', if_pos rfl])) ((hget _).trans (by rw [if_neg hks, if_neg hp]))]
        exact h.above hk s hs.1 hs.2
      · have hself : (swap items i s)[k]? = items[k]? := by rw [hget, if_neg hk', if_neg hki]
        by_cases hp : (k - 1) / 2 = i
        · rw [beforeAt_congr hself ((hget _).trans (by rw [if_neg hks, if_pos hp]))]
          exact hmin k hk hp
        · rw [beforeAt_congr hself ((hget _).trans (by rw [if_neg hks, if_neg hp]))]
          exact h.except k hk hp
  case above =>
    intro _ k hk hks
    rw [hs.2, beforeAt_congr ((hget k).trans (by rw [if_neg (by omega), if_neg (by omega)]))
      ((hget i).trans (by rw [if_neg hne, if_pos rfl]))]
    rw [← hks]
    exact h.except k hk (by omega)

theorem DownOrdered.stop (h : DownOrdered before items i)
    (hstop : ∀ k, 0 < k → (k - 1) / 2 = i → beforeAt before items k i = false) : Ordered before items := fun k hk => by
  by_cases hki : (k - 1) / 2 = i
  · rw [hki]
    exact hstop k hk hki
  · exact h.except k hk hki

theorem siftDown_ordered (hc : Comparison before) : ∀ (fuel : Nat) {items : List T} {i : Nat},
    items.length ≤ i + fuel → DownOrdered before items i → Ordered before (siftDown before fuel items i)
  | 0, items, i, hf, h => h.stop fun k hk hki => beforeAt_of_le (by omega)
  | fuel + 1, items, i, hf, h => by
    unfold siftDown
    simp only
    obtain ⟨hl, hi, hcase⟩ := smaller_spec hc items (2 * i + 1) i
    obtain ⟨hr, hl', hcase'⟩ := smaller_spec hc items (2 * i + 2) (smaller before items (2 * i + 1) i)
    generalize smaller before items (2 * i + 1) i = s₁ at hl hi hcase hr hl' hcase'
    generalize smaller before items (2 * i + 2) s₁ = s at hr hl' hcase'
    -- no child goes before the one that was chosen
    have hmin : ∀ k, 0 < k → (k - 1) / 2 = i → beforeAt before items k s = false := fun k hk hki => by
      obtain rfl | rfl : k = 2 * i + 1 ∨ k = 2 * i + 2 := by omega
      · by_cases hlt : s₁ < items.length
        · exact hc.transAt hlt hl hl'
        · refine beforeAt_of_le ?_
          rcases hcase with ⟨rfl, hb⟩ | rfl
          · exact absurd (beforeAt_lt hb).1 hlt
          · omega
      · exact hr
    split
    · rename_i hs
      exact h.stop (hs ▸ hmin)
    · rename_i hs
      have hbefore : (s = 2 * i + 1 ∨ s = 2 * i + 2) ∧ beforeAt before items s i = true := by
        rcases hcase' with ⟨rfl, hb⟩ | rfl
        · refine ⟨.inr rfl, ?_⟩
          rcases hcase with ⟨rfl, hb₁⟩ | rfl
          · by_contra hn
            have := hc.transAt (beforeAt_lt hb₁).2 (by simpa using hn) (hc.asymmAt hb₁)
            rw [hb] at this
            cases this
          · exact hb
        · rcases hcase with ⟨rfl, hb⟩ | rfl
          · exact ⟨.inl rfl, hb⟩
          · exact absurd rfl hs
      have hchild : 0 < s ∧ (s - 1) / 2 = i := by omega
      refine siftDown_ordered hc fuel ?_ (h.move hc hchild hbefore.2 hmin)
      rw [(swap_perm items i s).length_eq]
      omega

variable {h : BinaryHeap T}

theorem push_ordered (hc : Comparison before) (ho : Ordered before h.items) (item : T) : Ordered before (push before h item).items := by
  refine siftUp_ordered hc _ (Nat.lt_succ_self _) ?_
  constructor
  case except =>
    intro k hk hne
    by_cases hlt : k < h.items.length
    · have hold : ∀ j, j < h.items.length → (h.items ++ [item])[j]? = h.items[j]? := fun j hj =>
        getElem?_append_left hj
      rw [beforeAt_congr (hold k hlt) (hold _ (by omega))]
      exact ho k hk
    · refine beforeAt_of_le ?_
      rw [length_append, length_singleton]
      omega
  case below =>
    intro _ k hk hp
    refine beforeAt_of_le ?_
    rw [length_append, length_singleton]
    omega

variable {h' : BinaryHeap T}

theorem pop_ordered (hc : Comparison before) {item : T} (ho : Ordered before h.items)
    (hp : pop before h = some (item, h')) : Ordered before h'.items := by
  unfold pop at hp
  split at hp
  · cases hp
  · cases hp
    intro i _
    exact beforeAt_of_le (Nat.zero_le _)
  · rename_i top second rest he
    cases hp
    refine siftDown_ordered hc _ (Nat.le_add_left _ _) ?_
    -- below the top the items are those of before, without the last
    have hold : ∀ k, 0 < k → k < (second :: rest).length →
        ((second :: rest).getLast (cons_ne_nil _ _) :: (second :: rest).dropLast)[k]? = h.items[k]? := by
      intro k hk hlt
      obtain ⟨k, rfl⟩ := Nat.exists_eq_add_of_lt hk
      rw [getElem?_cons_succ, he, getElem?_cons_succ, getElem?_dropLast, if_pos (by omega)]
    constructor
    case except =>
      intro k hk hne
      by_cases hlt : k < (second :: rest).length
      · rw [beforeAt_congr (hold k hk hlt) (hold _ (by omega) (by omega))]
        exact ho k hk
      · refine beforeAt_of_le ?_
        rw [length_cons, length_dropLast]
        omega
    case above =>
      intro h0
      exact absurd h0 (Nat.lt_irrefl 0)

theorem top_first (hc : Comparison before) (ho : Ordered before h.items) {top : T}
    (ht : h.items.head? = some top) : ∀ item ∈ h.items, before item top = false := by
  have htop : h.items[0]? = some top := by rw [← ht]; exact head?_eq_getElem?.symm
  have hall : ∀ i, i < h.items.length → beforeAt before h.items i 0 = false := by
    intro i
    induction i using Nat.strongRecOn with
    | ind i ih =>
      intro hi
      by_cases h0 : i = 0
      · subst h0
        unfold beforeAt
        rw [htop]
        exact hc.irrefl top
      · exact hc.transAt (by omega) (ho i (by omega)) (ih ((i - 1) / 2) (by omega) (by omega))
  intro item hitem
  obtain ⟨i, hi⟩ := getElem?_of_mem hitem
  have := hall i (List.getElem?_eq_some_iff.1 hi).1
  unfold beforeAt at this
  rw [hi, htop] at this
  exact this

theorem pop_head {item : T} (hp : pop before h = some (item, h')) : h.items.head? = some item := by
  unfold pop at hp
  split at hp
  · cases hp
  · rename_i top he
    cases hp
    rw [he]
    rfl
  · rename_i top second rest he
    cases hp
    rw [he]
    rfl

/-- **What is popped goes before all that remains, or is level with it.** -/
theorem pop_first (hc : Comparison before) {item : T} (ho : Ordered before h.items)
    (hp : pop before h = some (item, h')) : ∀ other ∈ h.items, before other item = false :=
  top_first hc ho (pop_head hp)

theorem drainWhile_ordered (hc : Comparison before) (p : T → Bool) : ∀ (fuel : Nat) {h : BinaryHeap T},
    Ordered before h.items → Ordered before (drainWhile before p fuel h).2.items
  | 0, _, ho => ho
  | fuel + 1, h, ho => by
    unfold drainWhile
    split
    · split
      · split
        · rename_i item h' hp
          exact drainWhile_ordered hc p fuel (pop_ordered hc ho hp)
        · exact ho
      · exact ho
    · exact ho

end

end BinaryHeap

end StreetJS.Lib
