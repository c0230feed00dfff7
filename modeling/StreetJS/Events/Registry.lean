/-
The registry of subscriptions: both of its indexes hold the active ones, and what is resolved for a name is what is
active and matches, in the order of registration.
-/
import StreetJS.Events.Facade
import StreetJS.Lib.ListSet
import Mathlib.Data.List.Perm.Basic
import Mathlib.Data.List.Nodup
import Mathlib.Data.List.Range

namespace StreetJS.Events

open StreetJS.Lib List OrderedMap

/-! ## The registry -/

namespace Emitter

variable {m : Emitter} {s : Nat}

def deactivate (sub : Subscription) : Subscription := { sub with active := false }

/-- Both indexes hold what is active. -/
structure Inv (m : Emitter) : Prop where
  exact : ∀ key s, s ∈ (m.exact.get key).getD [] ↔
    ∃ sub, m.subs[s]? = some sub ∧ sub.active = true ∧ isWildcard sub.key = false ∧ sub.key = key
  exactNodup : ∀ key, ((m.exact.get key).getD []).Nodup
  wildcards : ∀ s, s ∈ m.wildcards ↔ ∃ sub, m.subs[s]? = some sub ∧ sub.active = true ∧ isWildcard sub.key = true
  wildcardsNodup : m.wildcards.Nodup

/-- Subscriptions stay with their keys, and none becomes active again. -/
def Extends (m m' : Emitter) : Prop :=
  ∀ (s : Nat) sub, m.subs[s]? = some sub → ∃ sub', m'.subs[s]? = some sub' ∧ sub'.key = sub.key ∧ sub'.once = sub.once ∧
    (sub'.active = true → sub.active = true)

theorem Extends.refl (m : Emitter) : Extends m m := fun _ sub hsub => ⟨sub, hsub, rfl, rfl, id⟩

theorem isActive_iff : m.isActive s = true ↔ ∃ sub, m.subs[s]? = some sub ∧ sub.active = true := by
  unfold isActive
  cases m.subs[s]? with
  | none => exact ⟨nofun, fun ⟨_, heq, _⟩ => nomatch heq⟩
  | some sub => exact ⟨fun h => ⟨sub, rfl, h⟩, fun ⟨_, heq, h⟩ => Option.some.inj heq ▸ h⟩

theorem covers_iff {name : String} : m.covers name s = true ↔ ∃ sub, m.subs[s]? = some sub ∧ matchesPattern name sub.key = true := by
  unfold covers
  cases m.subs[s]? with
  | none => exact ⟨nofun, fun ⟨_, heq, _⟩ => nomatch heq⟩
  | some sub => exact ⟨fun h => ⟨sub, rfl, h⟩, fun ⟨_, heq, h⟩ => Option.some.inj heq ▸ h⟩

theorem Extends.covers {m' : Emitter} (h : Extends m m') {name : String} (hs : s < m.subs.length) : m'.covers name s = m.covers name s := by
  obtain ⟨sub', hsub', hkey, -, -⟩ := h s _ (getElem?_eq_getElem hs)
  unfold Emitter.covers
  rw [hsub', getElem?_eq_getElem hs, Option.any_some, Option.any_some, hkey]

theorem Extends.length {m' : Emitter} (h : Extends m m') : m.subs.length ≤ m'.subs.length := by
  by_contra hlt
  obtain ⟨sub', hsub', -⟩ := h m'.subs.length _ (getElem?_eq_getElem (Nat.lt_of_not_le hlt))
  exact Nat.lt_irrefl _ (lt_length hsub')

theorem add_subs (m : Emitter) (key : String) (once : Bool) : (m.add key once).subs = m.subs ++ [⟨key, once, true⟩] := by
  unfold add
  split <;> rfl

theorem remove_subs (m : Emitter) (s : Nat) : (m.remove s).subs = m.subs.modify s deactivate := by
  unfold remove
  split
  · next hnone => rw [modify_eq_self (getElem?_eq_none_iff.1 hnone)]
  · next sub hsub =>
    obtain ⟨hlt, hget⟩ := List.getElem?_eq_some_iff.1 hsub
    have hset : m.subs.modify s deactivate = m.subs.set s (deactivate sub) := by
      rw [modify_eq_set_getElem? , hsub]
      rfl
    split
    · next hinactive =>
      have hsame : deactivate sub = sub := by
        unfold deactivate
        rw [← hinactive]
      rw [hset, hsame, ← hget, set_getElem_self]
    · split
      · exact hset.symm
      · split
        · exact hset.symm
        · split <;> exact hset.symm

theorem remove_getElem? (m : Emitter) (s s' : Nat) : (m.remove s).subs[s']? = if s = s' then m.subs[s']?.map deactivate else m.subs[s']? := by
  rw [remove_subs, getElem?_modify]
  by_cases heq : s = s'
  · subst heq
    cases m.subs[s]? <;> simp
  · cases m.subs[s']? <;> simp [heq]

theorem extends_add (m : Emitter) (key : String) (once : Bool) : Extends m (m.add key once) := by
  intro s sub hsub
  refine ⟨sub, ?_, rfl, rfl, id⟩
  rw [add_subs, getElem?_append_left (lt_length hsub)]
  exact hsub

theorem extends_remove (m : Emitter) (s : Nat) : Extends m (m.remove s) := by
  intro s' sub hsub
  rw [remove_getElem?, hsub]
  split
  · exact ⟨deactivate sub, rfl, rfl, rfl, nofun⟩
  · exact ⟨sub, rfl, rfl, rfl, id⟩

theorem remove_getElem?_active {s' : Nat} {sub : Subscription} :
    ((m.remove s).subs[s']? = some sub ∧ sub.active = true) ↔ s' ≠ s ∧ m.subs[s']? = some sub ∧ sub.active = true := by
  rw [remove_getElem?]
  by_cases heq : s = s'
  · subst heq
    rw [if_pos rfl]
    constructor
    · rintro ⟨hsub, hactive⟩
      obtain ⟨sub', -, rfl⟩ := Option.map_eq_some_iff.1 hsub
      cases hactive
    · exact fun h => absurd rfl h.1
  · rw [if_neg heq]
    exact ⟨fun h => ⟨Ne.symm heq, h⟩, fun h => h.2⟩

theorem remove_of_inactive (h : m.isActive s = false) : m.remove s = m := by
  unfold remove
  split
  · rfl
  · next sub hsub =>
    have hinactive : sub.active = false := by
      rw [isActive, hsub] at h
      exact h
    rw [if_pos hinactive]

theorem Inv.empty : Inv ⟨[], [], []⟩ := by
  refine ⟨fun key s => ?_, fun key => nodup_nil, fun s => ?_, nodup_nil⟩
  · exact ⟨fun h => absurd h not_mem_nil, fun ⟨sub, hsub, _⟩ => nomatch hsub⟩
  · exact ⟨fun h => absurd h not_mem_nil, fun ⟨sub, hsub, _⟩ => nomatch hsub⟩

theorem exists_getElem?_concat {subs : List Subscription} {new : Subscription} {P : Subscription → Prop} {i : Nat} :
    (∃ sub, (subs ++ [new])[i]? = some sub ∧ P sub) ↔ (∃ sub, subs[i]? = some sub ∧ P sub) ∨ i = subs.length ∧ P new := by
  simp only [getElem?_concat_iff]
  constructor
  · rintro ⟨sub, hsub | ⟨hi, rfl⟩, hP⟩
    · exact .inl ⟨sub, hsub, hP⟩
    · exact .inr ⟨hi, hP⟩
  · rintro (⟨sub, hsub, hP⟩ | ⟨hi, hP⟩)
    · exact ⟨sub, .inl hsub, hP⟩
    · exact ⟨new, .inr ⟨hi, rfl⟩, hP⟩

theorem exists_remove {P : Subscription → Prop} {i : Nat} : (∃ sub, (m.remove s).subs[i]? = some sub ∧ sub.active = true ∧ P sub) ↔
      i ≠ s ∧ ∃ sub, m.subs[i]? = some sub ∧ sub.active = true ∧ P sub := by
  simp only [← and_assoc, remove_getElem?_active]
  simp only [and_assoc, exists_and_left]

theorem Inv.add (h : Inv m) (key : String) (once : Bool) : Inv (m.add key once) := by
  have hlast : ∀ key', m.subs.length ∉ (m.exact.get key').getD [] := by
    intro key' hmem
    obtain ⟨sub, hsub, -⟩ := (h.exact key' _).1 hmem
    exact lt_irrefl _ (lt_length hsub)
  have hlast' : m.subs.length ∉ m.wildcards := by
    intro hmem
    obtain ⟨sub, hsub, -⟩ := (h.wildcards _).1 hmem
    exact lt_irrefl _ (lt_length hsub)
  unfold Emitter.add
  split
  · next hwild =>
    refine ⟨fun key' s => ?_, h.exactNodup, fun s => ?_, ?_⟩
    · rw [h.exact, exists_getElem?_concat]
      simp [hwild]
    · rw [mem_append, h.wildcards, mem_singleton, exists_getElem?_concat]
      simp [hwild]
    · exact nodup_append.2 ⟨h.wildcardsNodup, nodup_singleton _, fun a ha b hb heq =>
        hlast' (mem_singleton.1 hb ▸ heq ▸ ha)⟩
  · next hexact =>
    have hexact : isWildcard key = false := Bool.eq_false_iff.2 hexact
    refine ⟨fun key' s => ?_, fun key' => ?_, fun s => ?_, h.wildcardsNodup⟩
    · rw [get_set, exists_getElem?_concat]
      split
      · next hkey =>
        rw [hkey, Option.getD_some, mem_append, h.exact, mem_singleton]
        simp [hexact]
      · next hkey =>
        rw [h.exact]
        simp [Ne.symm hkey]
    · rw [get_set]
      split
      · exact nodup_append.2 ⟨h.exactNodup key, nodup_singleton _, fun a ha b hb heq =>
          hlast key (mem_singleton.1 hb ▸ heq ▸ ha)⟩
      · exact h.exactNodup key'
    · rw [h.wildcards, exists_getElem?_concat]
      simp [hexact]

/-- Without the subscription that is removed, both indexes hold what they held. -/
theorem Inv.of_remove (h : Inv m) {exact : OrderedMap String (List Nat)} {wildcards : List Nat}
    (hexact : ∀ key s', s' ∈ (exact.get key).getD [] ↔ s' ≠ s ∧ s' ∈ (m.exact.get key).getD [])
    (hexactNodup : ∀ key, ((exact.get key).getD []).Nodup)
    (hwildcards : ∀ s', s' ∈ wildcards ↔ s' ≠ s ∧ s' ∈ m.wildcards) (hwildcardsNodup : wildcards.Nodup) :
    Inv ⟨(m.remove s).subs, exact, wildcards⟩ := by
  refine ⟨fun key s' => ?_, hexactNodup, fun s' => ?_, hwildcardsNodup⟩
  · rw [hexact, h.exact, exists_remove]
  · rw [hwildcards, h.wildcards, exists_remove]

theorem Inv.remove (h : Inv m) (s : Nat) : Inv (m.remove s) := by
  cases hactive : m.isActive s with
  | false => rw [remove_of_inactive hactive]; exact h
  | true =>
    obtain ⟨sub, hsub, hactive⟩ := isActive_iff.1 hactive
    have hshape : m.remove s = ⟨(m.remove s).subs, (m.remove s).exact, (m.remove s).wildcards⟩ := rfl
    rw [hshape]
    -- the index that the key is not in does not hold the subscription
    cases hwild : isWildcard sub.key with
    | true =>
      have hexact : (m.remove s).exact = m.exact := by
        unfold Emitter.remove
        rw [hsub]
        simp only [hactive, hwild, if_true, Bool.true_eq_false, if_false]
      have hwildcards : (m.remove s).wildcards = m.wildcards.erase s := by
        unfold Emitter.remove
        rw [hsub]
        simp only [hactive, hwild, if_true, Bool.true_eq_false, if_false]
      rw [hexact, hwildcards]
      refine h.of_remove (fun key s' => ?_) h.exactNodup (fun s' => ?_) (h.wildcardsNodup.erase s)
      · refine ⟨fun hmem => ⟨?_, hmem⟩, And.right⟩
        rintro rfl
        obtain ⟨sub', hsub', -, hexact', -⟩ := (h.exact key _).1 hmem
        rw [hsub] at hsub'
        cases hsub'
        rw [hwild] at hexact'
        cases hexact'
      · exact h.wildcardsNodup.mem_erase_iff
    | false =>
      have hmem : s ∈ (m.exact.get sub.key).getD [] := (h.exact _ _).2 ⟨sub, hsub, hactive, hwild, rfl⟩
      obtain ⟨set, hset⟩ : ∃ set, m.exact.get sub.key = some set := by
        cases hget : m.exact.get sub.key with
        | none => rw [hget] at hmem; exact absurd hmem not_mem_nil
        | some set => exact ⟨set, rfl⟩
      have hwildcards : (m.remove s).wildcards = m.wildcards := by
        unfold Emitter.remove
        rw [hsub]
        simp only [hactive, hwild, hset, Bool.true_eq_false, Bool.false_eq_true, if_false]
        split <;> rfl
      have hexact : ∀ key, ((m.remove s).exact.get key).getD [] = if key = sub.key then set.erase s else (m.exact.get key).getD [] := by
        intro key
        unfold Emitter.remove
        rw [hsub]
        simp only [hactive, hwild, hset, Bool.true_eq_false, Bool.false_eq_true, if_false]
        split
        · next hempty =>
          rw [get_delete, hempty]
          split <;> rfl
        · rw [get_set]
          split <;> rfl
      have hnodup : set.Nodup := by
        have hold := h.exactNodup sub.key
        rw [hset] at hold
        exact hold
      have hfar : ∀ key, key ≠ sub.key → s ∉ (m.exact.get key).getD [] := by
        intro key hne hmem
        obtain ⟨sub', hsub', -, -, rfl⟩ := (h.exact key _).1 hmem
        rw [hsub] at hsub'
        cases hsub'
        exact hne rfl
      rw [hwildcards]
      refine h.of_remove (fun key s' => ?_) (fun key => ?_) (fun s' => ?_) h.wildcardsNodup
      · rw [hexact]
        split
        · next hkey =>
          rw [hkey, hset]
          exact hnodup.mem_erase_iff
        · next hkey => exact ⟨fun hmem => ⟨fun heq => hfar key hkey (heq ▸ hmem), hmem⟩, And.right⟩
      · rw [hexact]
        split
        · exact hnodup.erase s
        · exact h.exactNodup key
      · refine ⟨fun hin => ⟨?_, hin⟩, And.right⟩
        rintro rfl
        obtain ⟨sub', hsub', -, hwild'⟩ := (h.wildcards _).1 hin
        rw [hsub] at hsub'
        cases hsub'
        rw [hwild] at hwild'
        cases hwild'

theorem mem_active : s ∈ m.active ↔ m.isActive s = true := by
  rw [active, mem_filter, mem_range]
  refine and_iff_right_of_imp fun h => ?_
  obtain ⟨sub, hsub, -⟩ := isActive_iff.1 h
  exact (lt_length hsub)

/-- **What is resolved is what is active and matches**, in the order of registration. -/
theorem resolve_eq (h : Inv m) (name : String) : m.resolve name = m.active.filter (m.covers name) := by
  have hactive : m.active.Pairwise fun a b => a < b := pairwise_lt_range.filter _
  have hleft : (((m.exact.get name).getD []).filter m.isActive ++ m.wildcards.filter fun s => m.isActive s && m.covers name s).Nodup := by
    refine nodup_append.2 ⟨(h.exactNodup name).filter _, h.wildcardsNodup.filter _, fun a ha b hb heq => ?_⟩
    obtain ⟨sub, hsub, -, hexact, -⟩ := (h.exact name a).1 (mem_filter.1 ha).1
    obtain ⟨sub', hsub', -, hwild⟩ := (h.wildcards b).1 (mem_filter.1 hb).1
    subst heq
    rw [hsub] at hsub'
    cases hsub'
    rw [hexact] at hwild
    cases hwild
  have hmem : ∀ s, s ∈ m.resolve name ↔ s ∈ m.active.filter (m.covers name) := by
    intro s
    rw [resolve, mem_sortOn, mem_append, mem_filter, mem_filter, mem_filter, mem_active, h.exact, h.wildcards, Bool.and_eq_true]
    constructor
    · rintro (⟨⟨sub, hsub, -, hexact, rfl⟩, hactive⟩ | ⟨-, hactive, hcovers⟩)
      · refine ⟨hactive, covers_iff.2 ⟨sub, hsub, ?_⟩⟩
        rw [matchesPattern, hexact]
        exact decide_eq_true rfl
      · exact ⟨hactive, hcovers⟩
    · rintro ⟨hactive, hcovers⟩
      obtain ⟨sub, hsub, hsubActive⟩ := isActive_iff.1 hactive
      obtain ⟨sub', hsub', hmatches⟩ := covers_iff.1 hcovers
      rw [hsub] at hsub'
      cases hsub'
      cases hwild : isWildcard sub.key with
      | true => exact .inr ⟨⟨sub, hsub, hsubActive, hwild⟩, hactive, hcovers⟩
      | false =>
        rw [matchesPattern, hwild] at hmatches
        exact .inl ⟨⟨sub, hsub, hsubActive, hwild, (of_decide_eq_true hmatches).symm⟩, hactive⟩
  refine List.Perm.eq_of_pairwise (fun a b _ _ => Nat.le_antisymm (n := a) (m := b)) (sortOn_pairwise id _)
    ((hactive.imp Nat.le_of_lt).filter _) ?_
  refine (perm_ext_iff_of_nodup ?_ ((hactive.imp Nat.ne_of_lt).filter _)).2 hmem
  exact (sortOn_perm id _).nodup_iff.2 hleft

/-- The registry a list of `on` and of cancellations leaves. -/
def after : List (String × Bool ⊕ Nat) → Emitter := run (fun m => Sum.elim (fun e => m.add e.1 e.2) m.remove) ⟨[], [], []⟩

/-- **Of all that was subscribed and cancelled, the indexes give what is active and matches.** -/
theorem resolve_run (ops : List (String × Bool ⊕ Nat)) (name : String) :
    (after ops).resolve name = (after ops).active.filter ((after ops).covers name) := by
  refine resolve_eq (run_invariant _ (fun m op h => ?_) ops Inv.empty) name
  cases op with
  | inl e => exact h.add e.1 e.2
  | inr s => exact h.remove s

end Emitter

end StreetJS.Events
