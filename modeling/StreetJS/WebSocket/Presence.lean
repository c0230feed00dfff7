/-
The invariant of a hub, which also holds while an operation is broadcasting, up to what its stack is still to
do: what a channel delivers to, the channels a connection is listed in, the members present and typing and the
presence events broadcast all say the same. Here: removing a connection, and one step of an operation under way.
-/
import StreetJS.WebSocket.ChannelHub

namespace StreetJS.WebSocket

open StreetJS.Lib List OrderedMap

namespace ChannelHub

/-! ## Sets -/

theorem mem_add {xs : List String} {x y : String} : y ∈ add xs x ↔ y ∈ xs ∨ y = x := by
  unfold add
  split
  · next h =>
    constructor
    · exact .inl
    · rintro (hy | rfl)
      · exact hy
      · exact h
  · rw [mem_append, mem_singleton]

theorem mem_remove {xs : List String} {x y : String} : y ∈ remove xs x ↔ y ∈ xs ∧ y ≠ x := by
  rw [remove, mem_filter, decide_eq_true_eq]

theorem add_ne_nil (xs : List String) (x : String) : add xs x ≠ [] :=
  ne_nil_of_mem (mem_add.2 (.inr rfl))

/-! ## Presence events -/

/-- Whether the last presence event of a member in a channel was a join. -/
def presentIn (channel memberId : String) (log : List PresenceEvent) : Bool :=
  log.foldl (fun present e => if e.channel = channel ∧ e.memberId = memberId then e.joined else present) false

theorem presentIn_concat (channel memberId : String) (log : List PresenceEvent) (e : PresenceEvent) :
    presentIn channel memberId (log ++ [e]) =
      if e.channel = channel ∧ e.memberId = memberId then e.joined else presentIn channel memberId log := by
  rw [presentIn, foldl_append]
  rfl

/-- Joins of a member are broadcast only while it is absent, leaves only while it is present. -/
def Alternates (log : List PresenceEvent) : Prop :=
  ∀ before e after, log = before ++ e :: after → e.joined = !presentIn e.channel e.memberId before

theorem Alternates.concat {log : List PresenceEvent} (h : Alternates log) {e : PresenceEvent}
    (he : e.joined = !presentIn e.channel e.memberId log) : Alternates (log ++ [e]) := by
  intro before e' after heq
  rcases eq_nil_or_concat after with rfl | ⟨after', last, rfl⟩
  · obtain ⟨rfl, hlast⟩ := append_inj' heq rfl
    cases hlast
    exact he
  · rw [concat_eq_append, ← cons_append, ← append_assoc] at heq
    exact h before e' after' (append_inj' heq rfl).1

/-! ## What the stack is still to do -/

/-- For every disconnect under way, the channels the connection is still in: those it has not come to, and
one that an inner loop above it works on. -/
def Leaving (conns : String → List ConnId) (covered : ConnId → String → Prop) : List Frame → Prop
  | [] => True
  | .disconnecting c chans :: fs =>
    (∀ ch, c ∈ conns ch → ch ∈ chans ∨ covered c ch) ∧ Leaving conns covered fs
  | .backed c ch _ :: fs => Leaving conns (fun c' ch' => c' = c ∧ ch' = ch ∨ covered c' ch') fs
  | .broadcast _ _ :: fs => Leaving conns covered fs
  | .dropIfEmpty _ :: fs => Leaving conns covered fs

theorem Leaving.mono {conns conns' : String → List ConnId} : ∀ {fs : List Frame} {covered covered' : ConnId → String → Prop},
      (∀ c ch, c ∈ conns' ch → c ∈ conns ch ∧ (covered c ch → covered' c ch)) →
      Leaving conns covered fs → Leaving conns' covered' fs
  | [], _, _, _, _ => trivial
  | .disconnecting c _ :: _, _, _, hsub, h =>
    ⟨fun ch hc => (h.1 ch (hsub c ch hc).1).imp_right (hsub c ch hc).2, h.2.mono hsub⟩
  | .backed _ _ _ :: fs, _, _, hsub, h =>
    show Leaving _ _ fs from
      Leaving.mono (fun c' ch' hc => ⟨(hsub c' ch' hc).1, Or.imp_right (hsub c' ch' hc).2⟩) (show Leaving _ _ fs from h)
  | .broadcast _ _ :: fs, _, _, hsub, h => show Leaving _ _ fs from Leaving.mono hsub (show Leaving _ _ fs from h)
  | .dropIfEmpty _ :: fs, _, _, hsub, h => show Leaving _ _ fs from Leaving.mono hsub (show Leaving _ _ fs from h)

/-- What holds of a hub whatever its stack is still to do, but for the members an inner loop is to visit. -/
structure Core (h : ChannelHub) : Prop where
  backed : ∀ ch m c, c ∈ h.backers ch m → c ∈ h.conns ch ∨ ∃ ms, .backed c ch ms ∈ h.stack
  conns_backed : ∀ ch c, c ∈ h.conns ch → ∃ m, c ∈ h.backers ch m
  index : ∀ ch c, ch ∈ h.joined c ↔ c ∈ h.conns ch
  nonempty : ∀ ch m, (h.stateOf ch).members.get m ≠ some []
  typing : ∀ ch m, (h.stateOf ch).typing.get m ≠ none → h.backers ch m ≠ []
  timers : ∀ t ∈ h.timers, (h.stateOf t.2.1).typing.get t.2.2 = some (some t.1)
  kept : ∀ ch st, h.channels.get ch = some st → st.conns ≠ [] ∨ st.members ≠ [] ∨ .dropIfEmpty ch ∈ h.stack
  alternates : Alternates h.presence
  present : ∀ ch m, presentIn ch m h.presence = true ↔ h.backers ch m ≠ []
  gone : ∀ c ∈ h.gone, ∀ ch m, c ∈ h.backers ch m → (∃ chans, .disconnecting c chans ∈ h.stack ∧ ch ∈ chans) ∨ ∃ ms, .backed c ch ms ∈ h.stack
  leaving : Leaving h.conns (fun _ _ => False) h.stack

/-- The inner loop of a disconnect is still to visit every member that the connection backs. -/
def Visiting (h : ChannelHub) : Prop :=
  ∀ c ch ms, .backed c ch ms ∈ h.stack → ∀ m, c ∈ h.backers ch m → m ∈ ms

/-- The invariant of every state of a run. -/
def Inv (h : ChannelHub) : Prop := h.Core ∧ h.Visiting

theorem inv_new (ttl : Nat) : (new ttl).Inv := by
  refine ⟨⟨?_, ?_, ?_, ?_, ?_, ?_, ?_, ?_, ?_, ?_, trivial⟩, ?_⟩
  · exact fun _ _ _ h => absurd h not_mem_nil
  · exact fun _ _ h => absurd h not_mem_nil
  · exact fun _ _ => ⟨fun h => absurd h not_mem_nil, fun h => absurd h not_mem_nil⟩
  · exact fun _ _ => nofun
  · exact fun _ _ h => absurd rfl h
  · exact fun _ h => absurd h not_mem_nil
  · exact fun _ _ h => nomatch h
  · intro before e after h
    exact absurd h.symm (append_ne_nil_of_right_ne_nil _ (cons_ne_nil _ _))
  · exact fun _ _ => ⟨nofun, fun h => absurd rfl h⟩
  · exact fun _ h => absurd h not_mem_nil
  · exact fun _ _ _ h => absurd h not_mem_nil

/-! ## Removing a connection -/

theorem stateOf_of_get {h : ChannelHub} {ch : String} {st : ChannelState} (hst : h.channels.get ch = some st) : h.stateOf ch = st := by
  rw [stateOf, hst, Option.getD_some]

theorem get_of_mem_backers {h : ChannelHub} {ch m : String} {c : ConnId} (hc : c ∈ h.backers ch m) :
    h.channels.get ch = some (h.stateOf ch) := by
  cases hget : h.channels.get ch with
  | none =>
    rw [backers, stateOf, hget, Option.getD_none] at hc
    cases hc
  | some st => rw [stateOf_of_get hget]

section

variable {h h' : ChannelHub} {ch m : String} {st : ChannelState} (hset : h'.channels = h.channels.set ch st)
include hset

theorem stateOf_of_set (ch' : String) : h'.stateOf ch' = if ch' = ch then st else h.stateOf ch' := by
  rw [stateOf, hset, get_set]
  split
  · rfl
  · rfl

theorem conns_of_set {cs : List ConnId} (hcs : st.conns = cs) (ch' : String) : h'.conns ch' = if ch' = ch then cs else h.conns ch' := by
  rw [conns, stateOf_of_set hset]
  split
  · exact hcs
  · rfl

theorem backers_of_set {cs : List ConnId} (hm : ∀ m', (st.members.get m').getD [] = if m' = m then cs else h.backers ch m')
    (ch' m' : String) : h'.backers ch' m' = if ch' = ch ∧ m' = m then cs else h.backers ch' m' := by
  rw [backers, stateOf_of_set hset]
  by_cases hch : ch' = ch
  · simp only [hch, if_true, hm, true_and]
  · simp only [hch, if_false, false_and, backers]

end

/-- What removing a connection of a member leaves of the hub, with the two ways it ends: the member stays with
other connections, or it is no longer there. -/
structure Removed (h h' : ChannelHub) (ch m : String) (c : ConnId) : Prop where
  backers : ∀ ch' m', h'.backers ch' m' = if ch' = ch ∧ m' = m then remove (h.backers ch m) c else h.backers ch' m'
  conns : ∀ ch', h'.conns ch' = if ch' = ch then remove (h.conns ch) c else h.conns ch'
  joined : ∀ c', h'.joined c' = if c' = c then remove (h.joined c) ch else h.joined c'
  gone : h'.gone = h.gone
  nonempty : (∀ ch' m', (h.stateOf ch').members.get m' ≠ some []) → ∀ ch' m', (h'.stateOf ch').members.get m' ≠ some []
  typing : ∀ ch' m', (h'.stateOf ch').typing.get m' =
    if ch' = ch ∧ m' = m ∧ remove (h.backers ch m) c = [] then none else (h.stateOf ch').typing.get m'
  timers : ∀ t ∈ h'.timers, t ∈ h.timers ∧ (remove (h.backers ch m) c = [] → (h.stateOf ch).typing.get m ≠ some (some t.1))
  presence : h'.presence = if remove (h.backers ch m) c = [] then h.presence ++ [⟨false, ch, m⟩] else h.presence
  channels : ∀ ch', ch' ≠ ch → h'.channels.get ch' = h.channels.get ch'
  stack : h'.stack = .dropIfEmpty ch :: h.stack ∨ ∃ todo, h'.stack = .broadcast ch todo :: .dropIfEmpty ch :: h.stack

theorem joined_set_remove (h : ChannelHub) (ch : String) (c c' : ConnId) : (OrderedMap.get (match h.connChannels.get c with
      | none => h.connChannels
      | some chans => h.connChannels.set c (remove chans ch)) c').getD [] =
      if c' = c then remove (h.joined c) ch else h.joined c' := by
  unfold joined
  split
  · next hnone =>
    split
    · next heq => rw [heq, hnone]; rfl
    · rfl
  · next chans hsome =>
    rw [get_set]
    split
    · rw [hsome]; rfl
    · rfl

theorem removeConnFromChannel_removed {h : ChannelHub} {ch m : String} {c : ConnId} (hc : c ∈ h.backers ch m) :
    Removed h (h.removeConnFromChannel ch m c) ch m c := by
  have hget := get_of_mem_backers hc
  unfold removeConnFromChannel
  rw [hget]
  simp only [not_not.2 hc, if_false]
  split
  · next hleft =>
    refine ⟨backers_of_set rfl fun m' => ?_, conns_of_set rfl rfl, joined_set_remove h ch c, rfl, fun hall ch' m' => ?_,
      fun ch' m' => ?_, fun t ht => ?_, (if_pos hleft).symm, fun ch' hch => ?_, .inr ⟨_, rfl⟩⟩
    · rw [get_delete]
      split
      · exact hleft.symm
      · rfl
    · rw [stateOf_of_set rfl]
      split
      · next heq =>
        rw [get_delete]
        split
        · simp
        · exact hall ch m'
      · exact hall ch' m'
    · rw [stateOf_of_set rfl]
      by_cases hch : ch' = ch
      · simp only [hch, if_true, get_delete, hleft, and_true, true_and]
      · simp only [hch, if_false, false_and]
    · obtain ⟨ht, hne'⟩ := mem_filter.1 ht
      refine ⟨ht, fun _ heq => ?_⟩
      rw [heq] at hne'
      exact of_decide_eq_true hne' rfl
    · simp only [get_set, hch, if_false]
  · next hleft =>
    refine ⟨backers_of_set rfl fun m' => ?_, conns_of_set rfl rfl, joined_set_remove h ch c, rfl, fun hall ch' m' => ?_,
      fun ch' m' => ?_, fun t ht => ⟨ht, fun hnil => absurd hnil hleft⟩, (if_neg hleft).symm, fun ch' hch => ?_, .inl rfl⟩
    · rw [get_set]
      split
      · rfl
      · rfl
    · rw [stateOf_of_set rfl]
      split
      · next heq =>
        rw [get_set]
        split
        · exact fun heq => hleft (Option.some.inj heq)
        · exact hall ch m'
      · exact hall ch' m'
    · rw [stateOf_of_set rfl]
      by_cases hch : ch' = ch
      · simp only [hch, if_true, hleft, and_false, if_false]
      · simp only [hch, if_false, false_and]
    · simp only [get_set, hch, if_false]

section

variable {h h' : ChannelHub} {ch m : String} {c : ConnId}

variable {ch' : String} {c' : ConnId}

section

variable (hr : Removed h h' ch m c)
include hr

theorem Removed.mem_backers {m' : String} : c' ∈ h'.backers ch' m' ↔ c' ∈ h.backers ch' m' ∧ ¬(c' = c ∧ ch' = ch ∧ m' = m) := by
  rw [hr.backers]
  split
  · next heq =>
    obtain ⟨rfl, rfl⟩ := heq
    rw [mem_remove]
    simp only [and_true, ne_eq]
  · next hne => exact ⟨fun hc' => ⟨hc', fun heq => hne heq.2⟩, And.left⟩

theorem Removed.mem_conns : c' ∈ h'.conns ch' ↔ c' ∈ h.conns ch' ∧ ¬(c' = c ∧ ch' = ch) := by
  rw [hr.conns]
  split
  · next heq =>
    subst heq
    rw [mem_remove]
    simp only [and_true, ne_eq]
  · next hne => exact ⟨fun hc' => ⟨hc', fun heq => hne heq.2⟩, And.left⟩

theorem Removed.mem_joined : ch' ∈ h'.joined c' ↔ ch' ∈ h.joined c' ∧ ¬(c' = c ∧ ch' = ch) := by
  rw [hr.joined]
  split
  · next heq =>
    subst heq
    rw [mem_remove]
    simp only [true_and, ne_eq]
  · next hne => exact ⟨fun hc' => ⟨hc', fun heq => hne heq.1⟩, And.left⟩

theorem Removed.mem_stack {f : Frame} (hf : f ∈ h.stack) : f ∈ h'.stack := by
  rcases hr.stack with heq | ⟨todo, heq⟩
  · rw [heq]
    exact mem_cons_of_mem _ hf
  · rw [heq]
    exact mem_cons_of_mem _ (mem_cons_of_mem _ hf)

theorem Removed.backed_mem {ms : List String} (hf : .backed c' ch' ms ∈ h'.stack) : .backed c' ch' ms ∈ h.stack := by
  rcases hr.stack with heq | ⟨todo, heq⟩
  · rw [heq, mem_cons] at hf
    exact hf.resolve_left nofun
  · rw [heq, mem_cons, mem_cons] at hf
    exact (hf.resolve_left nofun).resolve_left nofun

theorem Removed.visiting (hvisiting : ∀ c' ch' ms, .backed c' ch' ms ∈ h.stack → ∀ m', c' ∈ h.backers ch' m' →
      m' ∈ ms ∨ c' = c ∧ ch' = ch ∧ m' = m) : h'.Visiting := by
  intro c' ch' ms hf m' hc'
  obtain ⟨hc', hne⟩ := hr.mem_backers.1 hc'
  exact (hvisiting c' ch' ms (hr.backed_mem hf) m' hc').resolve_right hne

end

theorem Core.removed (hcore : h.Core) (hr : Removed h h' ch m c) (hc : c ∈ h.backers ch m)
    (hother : ∀ m', m' ≠ m → c ∈ h.backers ch m' → ∃ ms, .backed c ch ms ∈ h.stack) : h'.Core where
  backed ch' m' c' hc' := by
    obtain ⟨hc', hne⟩ := hr.mem_backers.1 hc'
    rcases hcore.backed ch' m' c' hc' with hconn | ⟨ms, hf⟩
    · by_cases heq : c' = c ∧ ch' = ch
      · -- another member still has the connection that was removed
        obtain ⟨rfl, rfl⟩ := heq
        obtain ⟨ms, hf⟩ := hother m' (fun hm => hne ⟨rfl, rfl, hm⟩) hc'
        exact .inr ⟨ms, hr.mem_stack hf⟩
      · exact .inl (hr.mem_conns.2 ⟨hconn, heq⟩)
    · exact .inr ⟨ms, hr.mem_stack hf⟩
  conns_backed ch' c' hc' := by
    obtain ⟨hc', hne⟩ := hr.mem_conns.1 hc'
    obtain ⟨m', hm'⟩ := hcore.conns_backed ch' c' hc'
    exact ⟨m', hr.mem_backers.2 ⟨hm', fun heq => hne ⟨heq.1, heq.2.1⟩⟩⟩
  index ch' c' := by rw [hr.mem_joined, hr.mem_conns, hcore.index]
  nonempty := hr.nonempty hcore.nonempty
  typing ch' m' htyping := by
    rw [hr.typing] at htyping
    split at htyping
    · exact absurd rfl htyping
    · next hne =>
      rw [hr.backers]
      split
      · next heq => exact fun hnil => hne ⟨heq.1, heq.2, hnil⟩
      · exact hcore.typing ch' m' htyping
  timers t ht := by
    obtain ⟨ht, hcleared⟩ := hr.timers t ht
    have htimer := hcore.timers t ht
    rw [hr.typing]
    split
    · next heq =>
      rw [heq.1, heq.2.1] at htimer
      exact absurd htimer (hcleared heq.2.2)
    · exact htimer
  kept ch' st hst := by
    by_cases hch : ch' = ch
    · refine .inr (.inr ?_)
      rw [hch]
      rcases hr.stack with heq | ⟨todo, heq⟩
      · rw [heq]
        exact mem_cons_self
      · rw [heq]
        exact mem_cons_of_mem _ mem_cons_self
    · rw [hr.channels ch' hch] at hst
      exact (hcore.kept ch' st hst).imp_right (Or.imp_right hr.mem_stack)
  alternates := by
    rw [hr.presence]
    split
    · refine hcore.alternates.concat ?_
      rw [(hcore.present ch m).2 (ne_nil_of_mem hc)]
      rfl
    · exact hcore.alternates
  present ch' m' := by
    rw [hr.presence, hr.backers]
    split
    · next hleft =>
      rw [presentIn_concat]
      by_cases heq : ch' = ch ∧ m' = m
      · rw [if_pos ⟨heq.1.symm, heq.2.symm⟩, if_pos heq]
        exact ⟨by simp, fun hne => absurd hleft hne⟩
      · rw [if_neg fun h => heq ⟨h.1.symm, h.2.symm⟩, if_neg heq]
        exact hcore.present ch' m'
    · next hleft =>
      split
      · next heq =>
        rw [heq.1, heq.2, hcore.present]
        exact ⟨fun _ => hleft, fun _ => ne_nil_of_mem hc⟩
      · exact hcore.present ch' m'
  gone c' hgone ch' m' hc' := by
    rw [hr.gone] at hgone
    rcases hcore.gone c' hgone ch' m' (hr.mem_backers.1 hc').1 with ⟨chans, hf, hch'⟩ | ⟨ms, hf⟩
    · exact .inl ⟨chans, hr.mem_stack hf, hch'⟩
    · exact .inr ⟨ms, hr.mem_stack hf⟩
  leaving := by
    have hmono : Leaving h'.conns (fun _ _ => False) h.stack :=
      hcore.leaving.mono fun c' ch' hc' => ⟨(hr.mem_conns.1 hc').1, id⟩
    rcases hr.stack with heq | ⟨todo, heq⟩
    · rw [heq]
      exact hmono
    · rw [heq]
      exact hmono

end

/-! ## Changing the stack -/

section

variable {h h' : ChannelHub}

theorem Core.restack (hcore : h.Core) {fs : List Frame}
    (hbacked : ∀ c ch ms, .backed c ch ms ∈ h.stack → (∃ m, c ∈ h.backers ch m) → ∃ ms', .backed c ch ms' ∈ fs)
    (hdrop : ∀ ch st, h.channels.get ch = some st → .dropIfEmpty ch ∈ h.stack → .dropIfEmpty ch ∈ fs ∨ st.conns ≠ [] ∨ st.members ≠ [])
    (hgone : ∀ c chans ch, .disconnecting c chans ∈ h.stack → ch ∈ chans →
      (∃ chans', .disconnecting c chans' ∈ fs ∧ ch ∈ chans') ∨ ∃ ms, .backed c ch ms ∈ fs)
    (hleaving : Leaving h.conns (fun _ _ => False) fs) : Core { h with stack := fs } where
  backed ch m c hc := by
    rcases hcore.backed ch m c hc with hconn | ⟨ms, hf⟩
    · exact .inl hconn
    · exact .inr (hbacked c ch ms hf ⟨m, hc⟩)
  conns_backed := hcore.conns_backed
  index := hcore.index
  nonempty := hcore.nonempty
  typing := hcore.typing
  timers := hcore.timers
  kept ch st hst := by
    rcases hcore.kept ch st hst with hk | hk | hk
    · exact .inl hk
    · exact .inr (.inl hk)
    · rcases hdrop ch st hst hk with hf | hk
      · exact .inr (.inr hf)
      · exact hk.imp_right .inl
  alternates := hcore.alternates
  present := hcore.present
  gone c hc ch m hb := by
    rcases hcore.gone c hc ch m hb with ⟨chans, hf, hch⟩ | ⟨ms, hf⟩
    · exact hgone c chans ch hf hch
    · exact .inr (hbacked c ch ms hf ⟨m, hb⟩)
  leaving := hleaving

/-- The invariant is about what a hub says, not about how its maps are written. -/
theorem Core.congr (hcore : h.Core) (hmembers : ∀ ch m, (h'.stateOf ch).members.get m = (h.stateOf ch).members.get m)
    (hconns : ∀ ch, h'.conns ch = h.conns ch) (hjoined : ∀ c, h'.joined c = h.joined c)
    (htyping : ∀ ch m, (h'.stateOf ch).typing.get m = (h.stateOf ch).typing.get m) (htimers : h'.timers = h.timers)
    (hpresence : h'.presence = h.presence) (hgone : h'.gone = h.gone) (hstack : h'.stack = h.stack)
    (hkept : ∀ ch st, h'.channels.get ch = some st → h.channels.get ch = some st) : h'.Core := by
  have hbackers : ∀ ch m, h'.backers ch m = h.backers ch m := fun ch m => by rw [backers, hmembers, backers]
  have hconns' : h'.conns = h.conns := funext hconns
  constructor
  · simpa only [hbackers, hconns, hstack] using hcore.backed
  · simpa only [hbackers, hconns] using hcore.conns_backed
  · simpa only [hjoined, hconns] using hcore.index
  · simpa only [hmembers] using hcore.nonempty
  · simpa only [htyping, hbackers] using hcore.typing
  · simpa only [htimers, htyping] using hcore.timers
  · intro ch st hst
    rw [hstack]
    exact hcore.kept ch st (hkept ch st hst)
  · rw [hpresence]
    exact hcore.alternates
  · simpa only [hpresence, hbackers] using hcore.present
  · simpa only [hgone, hbackers, hstack] using hcore.gone
  · rw [hconns', hstack]
    exact hcore.leaving

theorem Core.broadcast (hcore : h.Core) (ch : String) (deliver : ConnId → Bool) : (h.broadcast ch deliver).Core :=
  hcore.restack (fun _ _ ms hf _ => ⟨ms, mem_cons_of_mem _ hf⟩) (fun _ _ _ hf => .inl (mem_cons_of_mem _ hf))
    (fun _ chans _ hf hch => .inl ⟨chans, mem_cons_of_mem _ hf, hch⟩) hcore.leaving

theorem Inv.broadcast (hinv : h.Inv) (ch : String) (deliver : ConnId → Bool) : (h.broadcast ch deliver).Inv := by
  refine ⟨hinv.1.broadcast ch deliver, fun c ch' ms hf => ?_⟩
  exact hinv.2 c ch' ms ((mem_cons.1 hf).resolve_left nofun)

/-! ## Disconnecting -/

theorem Inv.disconnect (hinv : h.Inv) (d : ConnId) : (h.disconnect d).Inv := by
  obtain ⟨hcore, hvisiting⟩ := hinv
  unfold ChannelHub.disconnect
  cases hget : h.connChannels.get d with
  | none =>
    -- the connection is in no channel, so an inner loop is at work on each member it still backs
    have hnone : ∀ ch, d ∉ h.conns ch := by
      intro ch hd
      have hj := (hcore.index ch d).2 hd
      rw [joined, hget] at hj
      cases hj
    refine ⟨⟨hcore.backed, hcore.conns_backed, hcore.index, hcore.nonempty, hcore.typing, hcore.timers, hcore.kept,
      hcore.alternates, hcore.present, ?_, hcore.leaving⟩, hvisiting⟩
    intro c hc ch m hb
    rcases mem_add.1 hc with hc | rfl
    · exact hcore.gone c hc ch m hb
    · exact .inr ((hcore.backed ch m c hb).resolve_left (hnone ch))
  | some chans =>
    have hchans : ∀ ch, d ∈ h.conns ch → ch ∈ chans := by
      intro ch hd
      have hj := (hcore.index ch d).2 hd
      rwa [joined, hget] at hj
    have hpushed : Core { h with stack := .disconnecting d chans :: h.stack } :=
      hcore.restack (fun _ _ ms hf _ => ⟨ms, mem_cons_of_mem _ hf⟩) (fun _ _ _ hf => .inl (mem_cons_of_mem _ hf))
        (fun _ chans' _ hf hch => .inl ⟨chans', mem_cons_of_mem _ hf, hch⟩)
        ⟨fun ch hd => .inl (hchans ch hd), hcore.leaving⟩
    refine ⟨⟨hpushed.backed, hpushed.conns_backed, hpushed.index, hpushed.nonempty, hpushed.typing, hpushed.timers,
      hpushed.kept, hpushed.alternates, hpushed.present, ?_, hpushed.leaving⟩, ?_⟩
    · intro c hc ch m hb
      rcases mem_add.1 hc with hc | rfl
      · exact hpushed.gone c hc ch m hb
      · rcases hcore.backed ch m c hb with hconn | ⟨ms, hf⟩
        · exact .inl ⟨chans, mem_cons_self, hchans ch hconn⟩
        · exact .inr ⟨ms, mem_cons_of_mem _ hf⟩
    · intro c ch ms hf
      exact hvisiting c ch ms ((mem_cons.1 hf).resolve_left nofun)

/-! ## One step of an operation under way -/

variable {ch : String} {rest : List Frame}

theorem Inv.dropIfEmpty (hinv : h.Inv) (hstack : h.stack = .dropIfEmpty ch :: rest) (closing : Option ConnId) : (h.proceed closing).Inv := by
  obtain ⟨hcore, hvisiting⟩ := hinv
  have hv : Visiting { h with stack := rest } := fun c ch' ms hf =>
    hvisiting c ch' ms (by rw [hstack]; exact mem_cons_of_mem _ hf)
  have hbacked : ∀ c ch' ms, .backed c ch' ms ∈ h.stack → (∃ m, c ∈ h.backers ch' m) → ∃ ms', .backed c ch' ms' ∈ rest := by
    intro c ch' ms hf _
    rw [hstack] at hf
    exact ⟨ms, (mem_cons.1 hf).resolve_left nofun⟩
  have hgone : ∀ c chans ch', .disconnecting c chans ∈ h.stack → ch' ∈ chans →
      (∃ chans', .disconnecting c chans' ∈ rest ∧ ch' ∈ chans') ∨ ∃ ms, .backed c ch' ms ∈ rest := by
    intro c chans ch' hf hch
    rw [hstack] at hf
    exact .inl ⟨chans, (mem_cons.1 hf).resolve_left nofun, hch⟩
  have hleaving := hcore.leaving
  rw [hstack] at hleaving
  unfold proceed
  rw [hstack]
  simp only
  split
  · next hempty =>
    -- the channel's typing map is empty too, so nothing the hub says changes
    let h₁ : ChannelHub := { h with channels := h.channels.delete ch }
    have hget : ∀ ch' st, h₁.channels.get ch' = some st → ch' ≠ ch ∧ h.channels.get ch' = some st := by
      intro ch' st hst
      rw [get_delete] at hst
      split at hst
      · cases hst
      · next hne => exact ⟨hne, hst⟩
    have hstate : ∀ ch', ch' ≠ ch → h₁.stateOf ch' = h.stateOf ch' := by
      intro ch' hne
      rw [stateOf, get_delete, if_neg hne, stateOf]
    have hstate' : h₁.stateOf ch = .empty := by
      rw [stateOf, get_delete, if_pos rfl, Option.getD_none]
    have hbackers : ∀ m, h.backers ch m = [] := by
      intro m
      rw [backers, hempty.2]
      rfl
    have htyping : ∀ m, (h.stateOf ch).typing.get m = none := fun m =>
      Classical.byContradiction fun hne => hcore.typing ch m hne (hbackers m)
    have hcore₁ : h₁.Core := by
      refine hcore.congr ?_ ?_ (fun _ => rfl) ?_ rfl rfl rfl rfl fun ch' st hst => (hget ch' st hst).2
      · intro ch' m
        by_cases hch : ch' = ch
        · rw [hch, hstate', hempty.2]
          rfl
        · rw [hstate ch' hch]
      · intro ch'
        by_cases hch : ch' = ch
        · rw [conns, conns, hch, hstate', hempty.1]
          rfl
        · rw [conns, conns, hstate ch' hch]
      · intro ch' m
        by_cases hch : ch' = ch
        · rw [hch, hstate', htyping]
          rfl
        · rw [hstate ch' hch]
    have hbackers₁ : ∀ ch' m, h₁.backers ch' m = h.backers ch' m := by
      intro ch' m
      by_cases hch : ch' = ch
      · rw [hch, hbackers, backers, hstate']
        rfl
      · rw [backers, backers, hstate ch' hch]
    refine ⟨hcore₁.restack (fun c ch' ms hf hb => hbacked c ch' ms hf (by simpa only [hbackers₁] using hb)) ?_ hgone
      (hleaving.mono fun c ch' hc => ⟨?_, id⟩), ?_⟩
    · intro ch' st hst hf
      rw [show h₁.stack = _ from hstack] at hf
      exact .inl ((mem_cons.1 hf).resolve_left fun heq => (hget ch' st hst).1 (by cases heq; rfl))
    · by_cases hch : ch' = ch
      · rw [hch, conns, hstate'] at hc
        cases hc
      · rwa [conns, hstate ch' hch] at hc
    · intro c ch' ms hf m hb
      exact hv c ch' ms hf m ((hbackers₁ ch' m) ▸ hb)
  · next hnonempty =>
    refine ⟨hcore.restack hbacked ?_ hgone hleaving, hv⟩
    intro ch' st hst hf
    rw [hstack] at hf
    rcases mem_cons.1 hf with heq | hf
    · cases heq
      rw [stateOf_of_get hst] at hnonempty
      by_cases hconns : st.conns = []
      · exact .inr (.inr fun hmembers => hnonempty ⟨hconns, hmembers⟩)
      · exact .inr (.inl hconns)
    · exact .inl hf

theorem Inv.nextBroadcast (hinv : h.Inv) {todo : List ConnId} (hstack : h.stack = .broadcast ch todo :: rest) {fs : List Frame}
    (hfs : fs = rest ∨ ∃ todo', fs = .broadcast ch todo' :: rest) : Inv { h with stack := fs } := by
  obtain ⟨hcore, hvisiting⟩ := hinv
  have hleaving := hcore.leaving
  rw [hstack] at hleaving
  have hmem : ∀ f, f ∈ h.stack → (∀ todo, f ≠ .broadcast ch todo) → f ∈ fs := by
    intro f hf hne
    rw [hstack] at hf
    have hrest := (mem_cons.1 hf).resolve_left (hne todo)
    rcases hfs with rfl | ⟨todo', rfl⟩
    · exact hrest
    · exact mem_cons_of_mem _ hrest
  refine ⟨hcore.restack (fun c ch' ms hf _ => ⟨ms, hmem _ hf fun _ => nofun⟩) (fun ch' st _ hf => .inl (hmem _ hf fun _ => nofun))
    (fun c chans ch' hf hch => .inl ⟨chans, hmem _ hf fun _ => nofun, hch⟩) ?_, ?_⟩
  · rcases hfs with rfl | ⟨todo', rfl⟩
    · exact hleaving
    · exact hleaving
  · intro c ch' ms hf
    refine hvisiting c ch' ms ?_
    rw [hstack]
    rcases hfs with rfl | ⟨todo', rfl⟩
    · exact mem_cons_of_mem _ hf
    · exact mem_cons_of_mem _ ((mem_cons.1 hf).resolve_left nofun)

variable {c : ConnId}

theorem Inv.backed_done (hinv : h.Inv) (hstack : h.stack = .backed c ch [] :: rest) : Inv { h with stack := rest } := by
  obtain ⟨hcore, hvisiting⟩ := hinv
  -- no member has the connection any more
  have hgone : ∀ m, c ∉ h.backers ch m := by
    intro m hb
    have hm := hvisiting c ch [] (by rw [hstack]; exact mem_cons_self) m hb
    cases hm
  have hleaving := hcore.leaving
  rw [hstack] at hleaving
  replace hleaving : Leaving h.conns (fun c' ch' => c' = c ∧ ch' = ch ∨ False) rest := hleaving
  refine ⟨⟨?_, hcore.conns_backed, hcore.index, hcore.nonempty, hcore.typing, hcore.timers, ?_, hcore.alternates,
    hcore.present, ?_, hleaving.mono ?_⟩, ?_⟩
  · intro ch' m c' hb
    refine (hcore.backed ch' m c' hb).imp_right ?_
    rintro ⟨ms, hf⟩
    rw [hstack] at hf
    rcases mem_cons.1 hf with heq | hf
    · cases heq
      exact absurd hb (hgone m)
    · exact ⟨ms, hf⟩
  · intro ch' st hst
    refine (hcore.kept ch' st hst).imp_right (Or.imp_right fun hf => ?_)
    rw [hstack] at hf
    exact (mem_cons.1 hf).resolve_left nofun
  · intro c' hc' ch' m hb
    rcases hcore.gone c' hc' ch' m hb with ⟨chans, hf, hch⟩ | ⟨ms, hf⟩
    · rw [hstack] at hf
      exact .inl ⟨chans, (mem_cons.1 hf).resolve_left nofun, hch⟩
    · rw [hstack] at hf
      rcases mem_cons.1 hf with heq | hf
      · cases heq
        exact absurd hb (hgone m)
      · exact .inr ⟨ms, hf⟩
  · intro c' ch' hc'
    refine ⟨hc', ?_⟩
    rintro (⟨rfl, rfl⟩ | hfalse)
    · obtain ⟨m, hb⟩ := hcore.conns_backed ch' c' hc'
      exact hgone m hb
    · exact hfalse
  · intro c' ch' ms hf
    refine hvisiting c' ch' ms ?_
    rw [hstack]
    exact mem_cons_of_mem _ hf

theorem Inv.backed_next (hinv : h.Inv) {m : String} {todo : List String}
    (hstack : h.stack = .backed c ch (m :: todo) :: rest) (closing : Option ConnId) : (h.proceed closing).Inv := by
  obtain ⟨hcore, hvisiting⟩ := hinv
  have hleaving := hcore.leaving
  rw [hstack] at hleaving
  have hmem : ∀ f, f ∈ h.stack → f = .backed c ch (m :: todo) ∨ f ∈ rest := by
    intro f hf
    rw [hstack] at hf
    exact mem_cons.1 hf
  let h₁ : ChannelHub := { h with stack := .backed c ch todo :: rest }
  have hcore₁ : h₁.Core := by
    refine hcore.restack ?_ ?_ ?_ hleaving
    · intro c' ch' ms hf _
      rcases hmem _ hf with heq | hf
      · cases heq
        exact ⟨todo, mem_cons_self⟩
      · exact ⟨ms, mem_cons_of_mem _ hf⟩
    · exact fun ch' st _ hf => .inl (mem_cons_of_mem _ ((hmem _ hf).resolve_left nofun))
    · exact fun c' chans ch' hf hch => .inl ⟨chans, mem_cons_of_mem _ ((hmem _ hf).resolve_left nofun), hch⟩
  -- only the member just visited may be missing from the rest of the loop
  have hvisiting₁ : ∀ c' ch' ms, .backed c' ch' ms ∈ h₁.stack → ∀ m', c' ∈ h₁.backers ch' m' → m' ∈ ms ∨ c' = c ∧ ch' = ch ∧ m' = m := by
    intro c' ch' ms hf m' hb
    rcases mem_cons.1 hf with heq | hf
    · cases heq
      have hm := hvisiting c ch (m :: todo) (by rw [hstack]; exact mem_cons_self) m' hb
      exact (mem_cons.1 hm).symm.imp_right fun heq => ⟨rfl, rfl, heq⟩
    · exact .inl (hvisiting c' ch' ms (by rw [hstack]; exact mem_cons_of_mem _ hf) m' hb)
  unfold proceed
  rw [hstack]
  simp only
  split
  · next hc =>
    have hr := removeConnFromChannel_removed (h := h₁) hc
    exact ⟨hcore₁.removed hr hc fun _ _ _ => ⟨todo, mem_cons_self⟩, hr.visiting hvisiting₁⟩
  · next hc =>
    refine ⟨hcore₁, fun c' ch' ms hf m' hb => (hvisiting₁ c' ch' ms hf m' hb).resolve_right ?_⟩
    rintro ⟨rfl, rfl, rfl⟩
    exact hc hb

theorem Inv.disconnecting_done (hinv : h.Inv) (hstack : h.stack = .disconnecting c [] :: rest) :
    Inv { h with stack := rest, connChannels := h.connChannels.delete c } := by
  obtain ⟨hcore, hvisiting⟩ := hinv
  have hleaving := hcore.leaving
  rw [hstack] at hleaving
  obtain ⟨hleft, hleaving⟩ := hleaving
  have hnone : ∀ ch, c ∉ h.conns ch := fun ch hc => (hleft ch hc).elim (fun hmem => by cases hmem) id
  have hrest : ∀ f, f ∈ h.stack → (∀ chans, f ≠ .disconnecting c chans) → f ∈ rest := by
    intro f hf hne
    rw [hstack] at hf
    exact (mem_cons.1 hf).resolve_left (hne [])
  have hpopped : Core { h with stack := rest } := by
    refine hcore.restack (fun c' ch ms hf _ => ⟨ms, hrest _ hf fun _ => nofun⟩)
      (fun ch st _ hf => .inl (hrest _ hf fun _ => nofun)) ?_ hleaving
    intro c' chans ch hf hch
    rw [hstack] at hf
    rcases mem_cons.1 hf with heq | hf
    · cases heq
      cases hch
    · exact .inl ⟨chans, hf, hch⟩
  refine ⟨hpopped.congr (fun _ _ => rfl) (fun _ => rfl) ?_ (fun _ _ => rfl) rfl rfl rfl rfl fun _ _ => id, ?_⟩
  · intro c'
    have hjoined : h.joined c = [] := eq_nil_iff_forall_not_mem.2 fun ch hj => hnone ch ((hcore.index ch c).1 hj)
    simp only [joined, get_delete] at hjoined ⊢
    split
    · next heq => rw [heq, hjoined]; rfl
    · rfl
  · intro c' ch ms hf
    exact hvisiting c' ch ms (by rw [hstack]; exact mem_cons_of_mem _ hf)

theorem mem_keys_of_backers {m : String} (hc : c ∈ h.backers ch m) : m ∈ (h.stateOf ch).members.map Prod.fst := by
  refine has_iff_mem_keys.1 ?_
  rw [OrderedMap.has]
  rw [backers] at hc
  cases hget : (h.stateOf ch).members.get m with
  | none =>
    rw [hget] at hc
    cases hc
  | some set => rfl

theorem Inv.disconnecting_next (hinv : h.Inv) {todo : List String} (hstack : h.stack = .disconnecting c (ch :: todo) :: rest) : Inv { h with
      stack := .backed c ch ((h.stateOf ch).members.map Prod.fst) :: .disconnecting c todo :: rest } := by
  obtain ⟨hcore, hvisiting⟩ := hinv
  have hleaving := hcore.leaving
  rw [hstack] at hleaving
  have hrest : ∀ f, f ∈ h.stack → (∀ chans, f ≠ .disconnecting c chans) → f ∈ rest := by
    intro f hf hne
    rw [hstack] at hf
    exact (mem_cons.1 hf).resolve_left (hne _)
  have hpush : ∀ f, f ∈ rest → f ∈ Frame.backed c ch ((h.stateOf ch).members.map Prod.fst) ::
      .disconnecting c todo :: rest := fun f hf => mem_cons_of_mem _ (mem_cons_of_mem _ hf)
  refine ⟨hcore.restack (fun c' ch' ms hf _ => ⟨ms, hpush _ (hrest _ hf fun _ => nofun)⟩)
    (fun ch' st _ hf => .inl (hpush _ (hrest _ hf fun _ => nofun))) ?_ ?_, ?_⟩
  · intro c' chans ch' hf hch
    rw [hstack] at hf
    rcases mem_cons.1 hf with heq | hf
    · cases heq
      rcases mem_cons.1 hch with rfl | hch
      · exact .inr ⟨_, mem_cons_self⟩
      · exact .inl ⟨todo, mem_cons_of_mem _ mem_cons_self, hch⟩
    · exact .inl ⟨chans, hpush _ hf, hch⟩
  · refine ⟨fun ch' hc => ?_, hleaving.2.mono fun _ _ hc => ⟨hc, .inr⟩⟩
    rcases hleaving.1 ch' hc with hch | hfalse
    · rcases mem_cons.1 hch with rfl | hch
      · exact .inr (.inl ⟨rfl, rfl⟩)
      · exact .inl hch
    · exact hfalse.elim
  · intro c' ch' ms hf m hb
    rcases mem_cons.1 hf with heq | hf
    · cases heq
      exact mem_keys_of_backers (h := h) hb
    · refine hvisiting c' ch' ms ?_ m hb
      rw [hstack]
      exact mem_cons_of_mem _ ((mem_cons.1 hf).resolve_left nofun)

/-- **Every step of an operation under way keeps the invariant**, whichever connection closes meanwhile. -/
theorem Inv.proceed (hinv : h.Inv) (closing : Option ConnId) : (h.proceed closing).Inv := by
  cases hstack : h.stack with
  | nil =>
    unfold ChannelHub.proceed
    rw [hstack]
    exact hinv
  | cons f rest =>
    cases f with
    | broadcast ch todo =>
      unfold ChannelHub.proceed
      rw [hstack]
      cases todo with
      | nil => exact hinv.nextBroadcast hstack (.inl rfl)
      | cons c todo =>
        have hnext := hinv.nextBroadcast hstack (.inr ⟨todo, rfl⟩)
        simp only
        split
        · exact hnext
        · cases closing with
          | none => exact hnext
          | some d => exact hnext.disconnect d
    | dropIfEmpty ch => exact hinv.dropIfEmpty hstack closing
    | backed c ch todo =>
      cases todo with
      | nil =>
        unfold ChannelHub.proceed
        rw [hstack]
        exact hinv.backed_done hstack
      | cons m todo => exact hinv.backed_next hstack closing
    | disconnecting c todo =>
      unfold ChannelHub.proceed
      rw [hstack]
      cases todo with
      | nil => exact hinv.disconnecting_done hstack
      | cons ch todo => exact hinv.disconnecting_next hstack

end

end ChannelHub

end StreetJS.WebSocket
