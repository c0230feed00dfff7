/-
What each operation of a hub does to the connections of members, to the delivery sets and to the connections that are
gone, whether or not the calls match.
-/
import StreetJS.WebSocket.Coherence

namespace StreetJS.WebSocket.ChannelHub

open StreetJS.Lib OrderedMap

variable {h h' : ChannelHub}

/-- No connection is added to a member or to a delivery set, and the connections that are gone stay so. -/
structure Shrinks (h h' : ChannelHub) : Prop where
  backers : ∀ ch m c, c ∈ h'.backers ch m → c ∈ h.backers ch m
  conns : ∀ ch c, c ∈ h'.conns ch → c ∈ h.conns ch
  gone : ∀ c ∈ h.gone, c ∈ h'.gone

theorem Shrinks.refl (h : ChannelHub) : Shrinks h h := ⟨fun _ _ _ => id, fun _ _ => id, fun _ => id⟩

/-- Only the stack and what no one is backed by changes. -/
theorem Shrinks.of_eq (hchannels : h'.channels = h.channels) (hgone : ∀ c ∈ h.gone, c ∈ h'.gone) : Shrinks h h' := by
  constructor
  · intro ch m c hc
    simpa only [ChannelHub.backers, stateOf, hchannels] using hc
  · intro ch c hc
    simpa only [ChannelHub.conns, stateOf, hchannels] using hc
  · exact hgone

theorem shrinks_removeConnFromChannel (h : ChannelHub) (ch m : String) (c : ConnId) : Shrinks h (h.removeConnFromChannel ch m c) := by
  by_cases hc : c ∈ h.backers ch m
  · have hr := removeConnFromChannel_removed hc
    exact ⟨fun _ _ _ hb => (hr.mem_backers.1 hb).1, fun _ _ hb => (hr.mem_conns.1 hb).1, fun _ hg => hr.gone ▸ hg⟩
  · unfold removeConnFromChannel
    split
    · exact .refl h
    · next state hget =>
      rw [if_pos hc]
      constructor
      · intro ch' m' c' hb
        by_cases hch : ch' = ch
        · subst hch
          simpa only [backers, stateOf, get_set, if_true, hget, Option.getD_some] using hb
        · simpa only [backers, stateOf, get_set, if_neg hch] using hb
      · intro ch' c' hb
        by_cases hch : ch' = ch
        · subst hch
          simp only [conns, stateOf, get_set, if_true, hget, Option.getD_some] at hb ⊢
          exact (mem_remove.1 hb).1
        · simpa only [conns, stateOf, get_set, if_neg hch] using hb
      · exact fun _ => id

theorem shrinks_leave (h : ChannelHub) (ch m : String) (c : ConnId) : Shrinks h (h.leave ch m c) := by
  unfold leave
  split
  · exact .refl h
  · exact shrinks_removeConnFromChannel h ch m c

theorem shrinks_disconnect (h : ChannelHub) (c : ConnId) : Shrinks h (h.disconnect c) := by
  unfold disconnect
  split
  · exact .of_eq rfl fun _ hg => mem_add.2 (.inl hg)
  · exact .of_eq rfl fun _ hg => mem_add.2 (.inl hg)

theorem mem_gone_disconnect (h : ChannelHub) (c : ConnId) : c ∈ (h.disconnect c).gone := by
  unfold disconnect
  split
  · exact mem_add.2 (.inr rfl)
  · exact mem_add.2 (.inr rfl)

theorem shrinks_publish (h : ChannelHub) (ch : String) (exceptConnId exceptMemberId : Option String) :
    Shrinks h (h.publish ch exceptConnId exceptMemberId) := by
  unfold publish
  split
  · exact .refl h
  · exact .of_eq rfl fun _ => id

theorem shrinks_proceed (h : ChannelHub) : Shrinks h (h.proceed none) := by
  unfold proceed
  split
  · exact .refl h
  · exact .of_eq rfl fun _ => id
  · split
    · exact .of_eq rfl fun _ => id
    · exact .of_eq rfl fun _ => id
  · next channel rest _ =>
    split
    · -- the channel that is dropped is empty
      constructor
      · intro ch m c hc
        by_cases hch : ch = channel
        · simp [backers, stateOf, get_delete, hch, ChannelState.empty] at hc
        · simpa only [backers, stateOf, get_delete, if_neg hch] using hc
      · intro ch c hc
        by_cases hch : ch = channel
        · simp [conns, stateOf, get_delete, hch, ChannelState.empty] at hc
        · simpa only [conns, stateOf, get_delete, if_neg hch] using hc
      · exact fun _ => id
    · exact .of_eq rfl fun _ => id
  · exact .of_eq rfl fun _ => id
  · next c channel memberId todo rest _ =>
    split
    · have hr := shrinks_removeConnFromChannel { h with stack := .backed c channel todo :: rest } channel memberId c
      exact { hr with }
    · exact .of_eq rfl fun _ => id
  · exact .of_eq rfl fun _ => id
  · exact .of_eq rfl fun _ => id

/-- A connection that left for a member does not back it. -/
theorem not_mem_leave (h : ChannelHub) (ch m : String) (c : ConnId) : c ∉ (h.leave ch m c).backers ch m := by
  intro hc
  have hold := (shrinks_leave h ch m c).backers ch m c hc
  unfold leave at hc
  rw [get_of_mem_backers hold] at hc
  have := ((removeConnFromChannel_removed hold).mem_backers.1 hc).2
  exact this ⟨rfl, rfl, rfl⟩

theorem mem_backers_join {ch m : String} (hch : ch ≠ "") (hm : m ≠ "") {c c' : ConnId} {ch' m' : String}
    (hc : c' ∈ (h.join ch m c).backers ch' m') : c' ∈ h.backers ch' m' ∨ ch' = ch ∧ m' = m ∧ c' = c := by
  have hj : c' ∈ (h.joinedHub ch m c).backers ch' m' := by
    rw [join_eq h c hch hm] at hc
    split at hc
    · exact hc
    · exact hc
  rw [joinedHub_backers] at hj
  split at hj
  · next heq =>
    rcases mem_add.1 hj with hold | rfl
    · exact .inl (by rw [heq.1, heq.2]; exact hold)
    · exact .inr ⟨heq.1, heq.2, rfl⟩
  · exact .inl hj

theorem mem_conns_join {ch m : String} (hch : ch ≠ "") (hm : m ≠ "") {c c' : ConnId} {ch' : String}
    (hc : c' ∈ (h.join ch m c).conns ch') : c' ∈ h.conns ch' ∨ ch' = ch ∧ c' = c := by
  have hj : c' ∈ (h.joinedHub ch m c).conns ch' := by
    rw [join_eq h c hch hm] at hc
    split at hc
    · exact hc
    · exact hc
  rw [joinedHub_conns] at hj
  split at hj
  · next heq =>
    rcases mem_add.1 hj with hold | rfl
    · exact .inl (by rw [heq]; exact hold)
    · exact .inr ⟨heq, rfl⟩
  · exact .inl hj

theorem mem_gone_join {ch m : String} {c c' : ConnId} (hne : c' ≠ c) (hg : c' ∈ h.gone) : c' ∈ (h.join ch m c).gone := by
  unfold join
  split
  · exact hg
  · simp only
    split
    · exact mem_remove.2 ⟨hg, hne⟩
    · exact mem_remove.2 ⟨hg, hne⟩

end StreetJS.WebSocket.ChannelHub
