/-
Runs of a hub: between operations it is coherent, provided that no `leave` names a connection that backs
another member of the channel and `setTyping` is about a present member. Every operation ends, whichever
connections close while it broadcasts.
-/
import StreetJS.WebSocket.Presence

namespace StreetJS.WebSocket

open StreetJS.Lib List OrderedMap

namespace ChannelHub

section

variable {h : ChannelHub}

/-! ## Operations -/

/-- Between operations nothing is left to visit. -/
theorem Core.inv_of_quiet (hcore : h.Core) (hstack : h.stack = []) : h.Inv :=
  ⟨hcore, fun c ch ms hf => by rw [hstack] at hf; cases hf⟩

variable {ch : String} {c : ConnId}

theorem Core.mem_conns_iff (hcore : h.Core) (hstack : h.stack = []) : c ∈ h.conns ch ↔ ∃ m, c ∈ h.backers ch m := by
  constructor
  · exact hcore.conns_backed ch c
  · rintro ⟨m, hb⟩
    refine (hcore.backed ch m c hb).resolve_right ?_
    rintro ⟨ms, hf⟩
    rw [hstack] at hf
    cases hf

variable {m : String}

theorem Core.backed_of_quiet (hcore : h.Core) (hstack : h.stack = []) (hb : c ∈ h.backers ch m) : c ∈ h.conns ch :=
  (hcore.mem_conns_iff hstack).2 ⟨m, hb⟩

theorem Core.not_gone (hcore : h.Core) (hstack : h.stack = []) (hc : c ∈ h.gone) (ch m : String) : c ∉ h.backers ch m := by
  intro hb
  rcases hcore.gone c hc ch m hb with ⟨_, hf, _⟩ | ⟨_, hf⟩
  · rw [hstack] at hf
    cases hf
  · rw [hstack] at hf
    cases hf

/-- A join before its event is broadcast. -/
def joinedHub (h : ChannelHub) (ch m : String) (c : ConnId) : ChannelHub :=
  { h with
    channels := h.channels.set ch { h.stateOf ch with
      conns := add (h.stateOf ch).conns c, members := (h.stateOf ch).members.set m (add (h.backers ch m) c) }
    connChannels := h.connChannels.set c (add (h.joined c) ch)
    gone := remove h.gone c
    presence := if h.backers ch m = [] then h.presence ++ [⟨true, ch, m⟩] else h.presence }

theorem joinedHub_backers (h : ChannelHub) (ch m : String) (c : ConnId) (ch' m' : String) :
    (h.joinedHub ch m c).backers ch' m' = if ch' = ch ∧ m' = m then add (h.backers ch m) c else h.backers ch' m' := by
  refine backers_of_set rfl (fun m' => ?_) ch' m'
  rw [get_set]
  split
  · rfl
  · rfl

theorem joinedHub_conns (h : ChannelHub) (ch m : String) (c : ConnId) (ch' : String) :
    (h.joinedHub ch m c).conns ch' = if ch' = ch then add (h.conns ch) c else h.conns ch' := by
  rw [joinedHub, conns_of_set rfl rfl]
  rfl

theorem joinedHub_joined (h : ChannelHub) (ch m : String) (c c' : ConnId) :
    (h.joinedHub ch m c).joined c' = if c' = c then add (h.joined c) ch else h.joined c' := by
  simp only [joined, joinedHub, get_set]
  split
  · rfl
  · rfl

theorem joinedHub_typing (h : ChannelHub) (ch m : String) (c : ConnId) (ch' : String) :
    ((h.joinedHub ch m c).stateOf ch').typing = (h.stateOf ch').typing := by
  rw [joinedHub, stateOf_of_set rfl]
  split
  · next heq => rw [heq]
  · rfl

theorem join_eq (h : ChannelHub) (c : ConnId) (hch : ch ≠ "") (hm : m ≠ "") : h.join ch m c =
      if h.backers ch m = [] then (h.joinedHub ch m c).broadcast ch fun c' => c' ≠ c else h.joinedHub ch m c := by
  unfold join joinedHub
  rw [if_neg (not_or.2 ⟨hch, hm⟩)]
  split
  · next hnil =>
    simp only [hnil, if_true]
  · next hne => simp only [hne, if_false]

theorem Core.joinedHub (hcore : h.Core) (hstack : h.stack = []) (ch m : String) (c : ConnId) : (h.joinedHub ch m c).Core where
  backed ch' m' c' hb := by
    rw [joinedHub_backers] at hb
    rw [joinedHub_conns]
    refine .inl ?_
    split at hb
    · next heq =>
      rw [if_pos heq.1]
      exact mem_add.2 ((mem_add.1 hb).imp_left (hcore.backed_of_quiet hstack))
    · have hconn := hcore.backed_of_quiet hstack hb
      split
      · next heq => exact mem_add.2 (.inl (heq ▸ hconn))
      · exact hconn
  conns_backed ch' c' hc' := by
    rw [joinedHub_conns] at hc'
    simp only [joinedHub_backers]
    have old : c' ∈ h.conns ch' → ∃ m', c' ∈ if ch' = ch ∧ m' = m then add (h.backers ch m) c else h.backers ch' m' := by
      intro hold
      obtain ⟨m', hb⟩ := hcore.conns_backed ch' c' hold
      refine ⟨m', ?_⟩
      split
      · next heq => exact mem_add.2 (.inl (heq.1 ▸ heq.2 ▸ hb))
      · exact hb
    split at hc'
    · next heq =>
      rcases mem_add.1 hc' with hold | rfl
      · exact old (heq ▸ hold)
      · exact ⟨m, by rw [if_pos ⟨heq, rfl⟩]; exact mem_add.2 (.inr rfl)⟩
    · exact old hc'
  index ch' c' := by
    rw [joinedHub_joined, joinedHub_conns]
    split
    · next hc =>
      rw [mem_add]
      split
      · next hch =>
        rw [mem_add]
        exact ⟨fun _ => .inr hc, fun _ => .inr hch⟩
      · next hch => rw [hc, ← hcore.index]; exact ⟨fun h => h.resolve_right hch, .inl⟩
    · next hc =>
      rw [hcore.index]
      split
      · next hch => rw [mem_add, hch]; exact ⟨.inl, fun h => h.resolve_right hc⟩
      · rfl
  nonempty ch' m' := by
    simp only [stateOf, ChannelHub.joinedHub, get_set]
    by_cases hch : ch' = ch
    · subst hch
      simp only [if_true, Option.getD_some, get_set]
      split
      · exact fun heq => add_ne_nil _ _ (Option.some.inj heq)
      · exact hcore.nonempty ch' m'
    · simp only [hch, if_false]
      exact hcore.nonempty ch' m'
  typing ch' m' htyping := by
    rw [joinedHub_typing] at htyping
    rw [joinedHub_backers]
    split
    · exact add_ne_nil _ _
    · exact hcore.typing ch' m' htyping
  timers t ht := by
    rw [joinedHub_typing]
    exact hcore.timers t ht
  kept ch' st hst := by
    simp only [ChannelHub.joinedHub, get_set] at hst
    split at hst
    · cases hst
      exact .inl (add_ne_nil _ _)
    · exact hcore.kept ch' st hst
  alternates := by
    simp only [ChannelHub.joinedHub]
    split
    · next hnil =>
      refine hcore.alternates.concat ?_
      have habsent : presentIn ch m h.presence = false := by
        rw [Bool.eq_false_iff]
        exact fun hp => (hcore.present ch m).1 hp hnil
      rw [habsent]
      rfl
    · exact hcore.alternates
  present ch' m' := by
    rw [joinedHub_backers]
    simp only [ChannelHub.joinedHub]
    by_cases heq : ch' = ch ∧ m' = m
    · rw [if_pos heq, heq.1, heq.2]
      refine ⟨fun _ => add_ne_nil _ _, fun _ => ?_⟩
      split
      · rw [presentIn_concat, if_pos ⟨rfl, rfl⟩]
      · next hne => exact (hcore.present ch m).2 hne
    · split
      · rw [presentIn_concat, if_neg fun h => heq ⟨h.1.symm, h.2.symm⟩, hcore.present]
      · exact hcore.present ch' m'
  gone c' hc' ch' m' hb := by
    obtain ⟨hold, hne⟩ := mem_remove.1 hc'
    rw [joinedHub_backers] at hb
    split at hb
    · exact absurd ((mem_add.1 hb).resolve_right hne) (hcore.not_gone hstack hold ch m)
    · exact absurd hb (hcore.not_gone hstack hold ch' m')
  leaving := by
    rw [show (h.joinedHub ch m c).stack = [] from hstack]
    trivial

theorem Inv.join (hinv : h.Inv) (hstack : h.stack = []) (ch m : String) (c : ConnId) : (h.join ch m c).Inv := by
  by_cases hnames : ch = "" ∨ m = ""
  · rw [ChannelHub.join, if_pos hnames]
    exact hinv
  · obtain ⟨hch, hm⟩ := not_or.1 hnames
    have hjoined := (hinv.1.joinedHub hstack ch m c).inv_of_quiet hstack
    rw [join_eq h c hch hm]
    split
    · exact hjoined.broadcast ch _
    · exact hjoined

theorem Inv.leave (hinv : h.Inv) (hstack : h.stack = []) (hother : ∀ m', m' ≠ m → c ∉ h.backers ch m') : (h.leave ch m c).Inv := by
  unfold ChannelHub.leave
  split
  · exact hinv
  · next st hget =>
    by_cases hc : c ∈ h.backers ch m
    · have hr := removeConnFromChannel_removed hc
      refine ⟨hinv.1.removed hr hc fun m' hm' hb => absurd hb (hother m' hm'), hr.visiting ?_⟩
      intro c' ch' ms hf
      rw [hstack] at hf
      cases hf
    · -- the connection is not in the channel, and nothing changes
      have hnotin : c ∉ h.conns ch := by
        intro hconn
        obtain ⟨m', hb⟩ := hinv.1.conns_backed ch c hconn
        by_cases hm' : m' = m
        · exact hc (hm' ▸ hb)
        · exact hother m' hm' hb
      have hst := stateOf_of_get hget
      have hstate : ({ st with conns := remove st.conns c } : ChannelState) = st := by
        have hsame : remove st.conns c = st.conns := by
          refine filter_eq_self.2 fun x hx => decide_eq_true ?_
          rintro rfl
          rw [conns, hst] at hnotin
          exact hnotin hx
        rw [hsame]
      have hchannels : ∀ ch', (h.channels.set ch st).get ch' = h.channels.get ch' := by
        intro ch'
        rw [get_set]
        split
        · next heq => rw [heq, hget]
        · rfl
      unfold removeConnFromChannel
      rw [hget]
      simp only [hc, not_false_eq_true, if_true, hstate]
      refine Core.inv_of_quiet (hinv.1.congr ?_ ?_ ?_ ?_ rfl rfl rfl rfl ?_) hstack
      · exact fun ch' m' => by rw [stateOf, hchannels, stateOf]
      · exact fun ch' => by rw [conns, stateOf, hchannels, conns, stateOf]
      · intro c'
        refine (joined_set_remove h ch c c').trans ?_
        split
        · next heq =>
          rw [heq]
          refine filter_eq_self.2 fun x hx => decide_eq_true ?_
          rintro rfl
          exact hnotin ((hinv.1.index x c).1 hx)
        · rfl
      · exact fun ch' m' => by rw [stateOf, hchannels, stateOf]
      · exact fun ch' st' hst' => by rwa [hchannels] at hst'

theorem Inv.publish (hinv : h.Inv) (ch : String) (exceptConnId exceptMemberId : Option String) :
    (h.publish ch exceptConnId exceptMemberId).Inv := by
  unfold ChannelHub.publish
  split
  · exact hinv
  · exact hinv.broadcast ch _

theorem Core.withTyping (hcore : h.Core) (hkey : h.channels.get ch ≠ none)
    {typing : OrderedMap String (Option Nat)} {timers : List (Nat × String × String)} {next : Nat}
    (htyping : ∀ m, typing.get m ≠ none → h.backers ch m ≠ [])
    (htimers : ∀ t ∈ timers, (if t.2.1 = ch then typing else (h.stateOf t.2.1).typing).get t.2.2 = some (some t.1)) :
    Core { h with
      channels := h.channels.set ch { h.stateOf ch with typing := typing }, timers := timers, nextTimer := next } := by
  obtain ⟨st, hst⟩ := Option.ne_none_iff_exists'.1 hkey
  let h' : ChannelHub := { h with
    channels := h.channels.set ch { h.stateOf ch with typing := typing }, timers := timers, nextTimer := next }
  have hstate : ∀ ch', h'.stateOf ch' = if ch' = ch then { h.stateOf ch with typing := typing } else h.stateOf ch' := by
    intro ch'
    simp only [stateOf, h', get_set]
    split
    · rfl
    · rfl
  have hmembers : ∀ ch', (h'.stateOf ch').members = (h.stateOf ch').members := by
    intro ch'
    rw [hstate]
    split
    · next heq => rw [heq]
    · rfl
  have hconns : h'.conns = h.conns := by
    funext ch'
    rw [conns, hstate]
    split
    · next heq => rw [heq, conns]
    · rfl
  have hbackers : h'.backers = h.backers := by
    funext ch' m
    rw [backers, hmembers, backers]
  show h'.Core
  constructor
  · rw [hbackers, hconns]
    exact hcore.backed
  · rw [hbackers, hconns]
    exact hcore.conns_backed
  · rw [hconns]
    exact hcore.index
  · simpa only [hmembers] using hcore.nonempty
  · intro ch' m hne
    rw [hstate] at hne
    rw [hbackers]
    split at hne
    · next heq => exact heq ▸ htyping m hne
    · exact hcore.typing ch' m hne
  · intro t ht
    have htimer := htimers t ht
    rw [hstate]
    split
    · next heq => rwa [if_pos heq] at htimer
    · next hne => rwa [if_neg hne] at htimer
  · intro ch' st' hst'
    rw [get_set] at hst'
    split at hst'
    · next heq =>
      cases hst'
      rw [stateOf_of_get hst, heq]
      exact hcore.kept ch st hst
    · exact hcore.kept ch' st' hst'
  · exact hcore.alternates
  · rw [hbackers]
    exact hcore.present
  · rw [hbackers]
    exact hcore.gone
  · rw [hconns]
    exact hcore.leaving

theorem get_ne_none_of_backers (h' : h.backers ch m ≠ []) : h.channels.get ch ≠ none := by
  obtain ⟨c, hc⟩ := exists_mem_of_ne_nil _ h'
  rw [get_of_mem_backers hc]
  exact nofun

theorem Inv.setTyping (hinv : h.Inv) (hstack : h.stack = []) {typing : Bool} {conn : Option ConnId}
    (hpresent : if typing then h.backers ch m ≠ [] else h.channels.get ch ≠ none) :
    (h.setTyping ch m typing conn).Inv := by
  unfold ChannelHub.setTyping
  split
  · exact hinv
  refine Inv.broadcast ?_ ch _
  -- the timers of other members stay, and the member's own is cleared
  have old : ∀ t ∈ h.timers.filter fun t => ((h.stateOf ch).typing.get m).join ≠ some t.1,
      (h.stateOf t.2.1).typing.get t.2.2 = some (some t.1) ∧ (t.2.1 = ch → t.2.2 ≠ m) := by
    intro t ht
    obtain ⟨ht, hne⟩ := mem_filter.1 ht
    have htimer := hinv.1.timers t ht
    refine ⟨htimer, fun hch hm => of_decide_eq_true hne ?_⟩
    rw [← hch, ← hm, htimer]
    rfl
  have hset : ∀ (timer : Option Nat), h.backers ch m ≠ [] → ∀ m',
      ((h.stateOf ch).typing.set m timer).get m' ≠ none → h.backers ch m' ≠ [] := by
    intro timer hb m' hne
    rw [get_set] at hne
    split at hne
    · next heq => exact heq ▸ hb
    · exact hinv.1.typing ch m' hne
  have hsetOld : ∀ (timer : Option Nat), ∀ t ∈ h.timers.filter fun t => ((h.stateOf ch).typing.get m).join ≠ some t.1,
      (if t.2.1 = ch then (h.stateOf ch).typing.set m timer else (h.stateOf t.2.1).typing).get t.2.2 = some (some t.1) := by
    intro timer t ht
    obtain ⟨htimer, hne⟩ := old t ht
    split
    · next heq =>
      rw [get_set, if_neg (hne heq), ← heq]
      exact htimer
    · exact htimer
  cases typing with
  | true =>
    have hkey := get_ne_none_of_backers hpresent
    simp only [if_true]
    split
    · refine (hinv.1.withTyping hkey (hset (some h.nextTimer) hpresent) ?_).inv_of_quiet hstack
      intro t ht
      rcases mem_append.1 ht with ht | ht
      · exact hsetOld (some h.nextTimer) t ht
      · cases mem_singleton.1 ht
        rw [if_pos rfl, get_set, if_pos rfl]
    · exact (hinv.1.withTyping hkey (hset none hpresent) (hsetOld none)).inv_of_quiet hstack
  | false =>
    refine (hinv.1.withTyping hpresent ?_ ?_).inv_of_quiet hstack
    · intro m' hne
      rw [get_delete] at hne
      split at hne
      · exact absurd rfl hne
      · exact hinv.1.typing ch m' hne
    · intro t ht
      obtain ⟨htimer, hne⟩ := old t ht
      split
      · next heq =>
        rw [get_delete, if_neg (hne heq), ← heq]
        exact htimer
      · exact htimer

/-- A timer set for a member that is still there when it goes off. -/
theorem Inv.timeout (hinv : h.Inv) (hstack : h.stack = []) (id : Nat) : (h.timeout id).Inv := by
  unfold ChannelHub.timeout
  split
  · exact hinv
  · next t hfind =>
    have htimer := hinv.1.timers t (mem_of_find?_eq_some hfind)
    have hpresent : h.backers t.2.1 t.2.2 ≠ [] := hinv.1.typing _ _ (by rw [htimer]; exact nofun)
    have hcore : Core { h with timers := h.timers.filter fun t => t.1 ≠ id } :=
      ⟨hinv.1.backed, hinv.1.conns_backed, hinv.1.index, hinv.1.nonempty, hinv.1.typing,
        fun t' ht' => hinv.1.timers t' (mem_of_mem_filter ht'), hinv.1.kept, hinv.1.alternates, hinv.1.present,
        hinv.1.gone, hinv.1.leaving⟩
    exact (hcore.inv_of_quiet hstack).setTyping hstack (get_ne_none_of_backers (h := h) hpresent)

end

end ChannelHub

/-! ## Runs -/

/-- Conditions on the calls: a `leave` is of a connection that backs no other member of the channel, and
`setTyping` is about a present member, or an existing channel when it clears. -/
def Matched (h : ChannelHub) : Event → Prop
  | .leave ch m c => h.stack = [] → ∀ m', m' ≠ m → c ∉ h.backers ch m'
  | .setTyping ch m typing _ =>
    h.stack = [] → ch ≠ "" → m ≠ "" → if typing then h.backers ch m ≠ [] else h.channels.get ch ≠ none
  | _ => True

/-- What a hub is to say between operations. -/
structure Coherent (h : ChannelHub) : Prop where
  /-- a channel delivers to the connections of its members -/
  delivery : ∀ ch c, c ∈ h.conns ch ↔ ∃ m, c ∈ h.backers ch m
  /-- a connection's index lists the channels it is in -/
  index : ∀ c ch, ch ∈ h.joined c ↔ c ∈ h.conns ch
  /-- a disconnected connection backs no member -/
  gone : ∀ c ∈ h.gone, ∀ ch m, c ∉ h.backers ch m
  /-- presence events alternate and match presence -/
  alternates : ChannelHub.Alternates h.presence
  present : ∀ ch m, ChannelHub.presentIn ch m h.presence = true ↔ h.backers ch m ≠ []
  /-- typing members are present -/
  typing : ∀ ch m, (h.stateOf ch).typing.get m ≠ none → h.backers ch m ≠ []
  /-- no channel without connections is kept -/
  kept : ∀ ch, h.channels.get ch ≠ none → h.conns ch ≠ []

theorem coherent_of_inv {h : ChannelHub} (hinv : h.Inv) (hstack : h.stack = []) : Coherent h where
  delivery _ _ := hinv.1.mem_conns_iff hstack
  index c ch := hinv.1.index ch c
  gone _ hc ch m := hinv.1.not_gone hstack hc ch m
  alternates := hinv.1.alternates
  present := hinv.1.present
  typing := hinv.1.typing
  kept ch hkey := by
    obtain ⟨st, hst⟩ := Option.ne_none_iff_exists'.1 hkey
    have hstate := ChannelHub.stateOf_of_get hst
    rcases hinv.1.kept ch st hst with hconns | hmembers | hf
    · rw [ChannelHub.conns, hstate]
      exact hconns
    · -- a channel with a member has that member's connections
      obtain ⟨⟨m, set⟩, hm⟩ := exists_mem_of_ne_nil _ hmembers
      have hhas : st.members.has m = true := has_iff_mem_keys.2 (mem_map_of_mem hm)
      obtain ⟨set', hget⟩ := Option.isSome_iff_exists.1 hhas
      have hne := hinv.1.nonempty ch m
      rw [hstate, hget] at hne
      obtain ⟨c, hc⟩ := exists_mem_of_ne_nil set' fun hnil => hne (by rw [hnil])
      have hb : c ∈ h.backers ch m := by
        rw [ChannelHub.backers, hstate, hget]
        exact hc
      exact ne_nil_of_mem (hinv.1.backed_of_quiet hstack hb)
    · rw [hstack] at hf
      cases hf

theorem inv_step {h : ChannelHub} (hinv : h.Inv) {e : Event} (he : Matched h e) : (step h e).Inv := by
  by_cases hstack : h.stack = []
  · cases e with
    | join ch m c =>
      simp only [step, hstack, ne_eq, not_true_eq_false, if_false]
      exact hinv.join hstack ch m c
    | leave ch m c =>
      simp only [step, hstack, ne_eq, not_true_eq_false, if_false]
      exact hinv.leave hstack (he hstack)
    | disconnect c =>
      simp only [step, hstack, ne_eq, not_true_eq_false, if_false]
      exact hinv.disconnect c
    | publish ch exceptConnId exceptMemberId =>
      simp only [step, hstack, ne_eq, not_true_eq_false, if_false]
      exact hinv.publish ch exceptConnId exceptMemberId
    | setTyping ch m typing conn =>
      simp only [step, hstack, ne_eq, not_true_eq_false, if_false]
      by_cases hnames : ch = "" ∨ m = ""
      · rw [ChannelHub.setTyping, if_pos hnames]
        exact hinv
      · obtain ⟨hch, hm⟩ := not_or.1 hnames
        exact hinv.setTyping hstack (he hstack hch hm)
    | timeout id =>
      simp only [step, hstack, ne_eq, not_true_eq_false, if_false]
      exact hinv.timeout hstack id
    | proceed closing => exact hinv.proceed closing
  · cases e with
    | proceed closing => exact hinv.proceed closing
    | _ =>
      simp only [step, hstack, ne_eq, not_false_eq_true, if_true]
      exact hinv

/-! ## Operations end -/

namespace ChannelHub

/-- The connections of all members of a channel. -/
def ChannelState.size (st : ChannelState) : Nat := (st.members.map fun e => e.2.length).sum

def memberships (h : ChannelHub) : Nat := (h.channels.map fun e => ChannelState.size e.2).sum

/-- The connections that broadcasts are still to visit. -/
def visits (fs : List Frame) : Nat :=
  (fs.map fun
    | .broadcast _ todo => todo.length
    | _ => 0).sum

/-- What the outer loops of disconnects are still to do. -/
def outerWork (fs : List Frame) : Nat :=
  (fs.map fun
    | .disconnecting _ todo => todo.length + 1
    | _ => 0).sum

/-- What the other frames are still to do. -/
def innerWork (fs : List Frame) : Nat :=
  (fs.map fun
    | .broadcast _ _ => 1
    | .dropIfEmpty _ => 1
    | .backed _ _ todo => todo.length + 1
    | .disconnecting _ _ => 0).sum

/-- Some work is done: a connection of a member is removed, or else a delivery is made, or else a channel of a
disconnect is begun, or else a loop goes on. -/
def Progress (h h' : ChannelHub) : Prop :=
  h'.memberships < h.memberships ∨ h'.memberships = h.memberships ∧ (visits h'.stack < visits h.stack ∨
      visits h'.stack = visits h.stack ∧ (outerWork h'.stack < outerWork h.stack ∨
        outerWork h'.stack = outerWork h.stack ∧ innerWork h'.stack < innerWork h.stack))

theorem progress_of_stack {h h' : ChannelHub} (hm : h'.memberships ≤ h.memberships) (hs : visits h'.stack < visits h.stack ∨
      visits h'.stack = visits h.stack ∧ (outerWork h'.stack < outerWork h.stack ∨
        outerWork h'.stack = outerWork h.stack ∧ innerWork h'.stack < innerWork h.stack)) : Progress h h' := by
  rcases Nat.lt_or_eq_of_le hm with hlt | heq
  · exact .inl hlt
  · exact .inr ⟨heq, hs⟩

theorem length_remove_lt {xs : List String} {x : String} (h : x ∈ xs) : (remove xs x).length < xs.length :=
  length_filter_lt_length_iff_exists.2 ⟨x, h, by simp⟩

theorem memberships_removed {h : ChannelHub} {ch m : String} {c : ConnId} (hc : c ∈ h.backers ch m) :
    (h.removeConnFromChannel ch m c).memberships < h.memberships := by
  have hget := get_of_mem_backers hc
  obtain ⟨set, hset⟩ : ∃ set, (h.stateOf ch).members.get m = some set := by
    cases hm : (h.stateOf ch).members.get m with
    | none =>
      rw [backers, hm] at hc
      cases hc
    | some set => exact ⟨set, rfl⟩
  have hbackers : h.backers ch m = set := by rw [backers, hset, Option.getD_some]
  unfold removeConnFromChannel
  rw [hget]
  simp only [not_not.2 hc, if_false]
  split
  · refine sum_set_lt ChannelState.size hget ?_
    exact sum_delete_lt List.length hset (length_pos_of_mem (hbackers ▸ hc))
  · refine sum_set_lt ChannelState.size hget ?_
    rw [hbackers]
    exact sum_set_lt List.length hset (length_remove_lt (hbackers ▸ hc))

theorem visits_disconnect (h : ChannelHub) (d : ConnId) :
    (h.disconnect d).memberships = h.memberships ∧ visits (h.disconnect d).stack = visits h.stack := by
  unfold disconnect
  split
  · exact ⟨rfl, rfl⟩
  · exact ⟨rfl, Nat.zero_add _⟩

/-- **A step of an operation under way makes progress.** -/
theorem progress_proceed {h : ChannelHub} (hstack : h.stack ≠ []) (closing : Option ConnId) : Progress h (h.proceed closing) := by
  cases hs : h.stack with
  | nil => exact absurd hs hstack
  | cons f rest =>
    unfold proceed
    rw [hs]
    cases f with
    | broadcast ch todo =>
      cases todo with
      | nil =>
        refine progress_of_stack (Nat.le_refl _) ?_
        simp only [hs, visits, outerWork, innerWork, map_cons, sum_cons, length_nil]
        omega
      | cons c todo =>
        have hlt : visits (.broadcast ch todo :: rest) < visits h.stack := by
          simp only [hs, visits, map_cons, sum_cons, length_cons]
          omega
        simp only
        split
        · exact progress_of_stack (Nat.le_refl _) (.inl hlt)
        · cases closing with
          | none => exact progress_of_stack (Nat.le_refl _) (.inl hlt)
          | some d =>
            obtain ⟨hm, hv⟩ := visits_disconnect { h with stack := .broadcast ch todo :: rest } d
            exact progress_of_stack (Nat.le_of_eq hm) (.inl (by rw [hv]; exact hlt))
    | dropIfEmpty ch =>
      have hwork : visits rest = visits h.stack ∧ outerWork rest = outerWork h.stack ∧ innerWork rest < innerWork h.stack := by
        rw [hs]
        refine ⟨(Nat.zero_add _).symm, (Nat.zero_add _).symm, ?_⟩
        simp only [innerWork, map_cons, sum_cons]
        omega
      simp only
      split
      · exact progress_of_stack (sum_delete_le ChannelState.size h.channels ch) (.inr ⟨hwork.1, .inr hwork.2⟩)
      · exact progress_of_stack (Nat.le_refl _) (.inr ⟨hwork.1, .inr hwork.2⟩)
    | backed c ch todo =>
      cases todo with
      | nil =>
        refine progress_of_stack (Nat.le_refl _) ?_
        simp only [hs, visits, outerWork, innerWork, map_cons, sum_cons, length_nil]
        omega
      | cons m todo =>
        simp only
        split
        · next hc => exact .inl (memberships_removed (h := { h with stack := .backed c ch todo :: rest }) hc)
        · have hwork : visits (.backed c ch todo :: rest) = visits h.stack ∧ outerWork (.backed c ch todo :: rest) = outerWork h.stack ∧
              innerWork (.backed c ch todo :: rest) < innerWork h.stack := by
            rw [hs]
            refine ⟨rfl, rfl, ?_⟩
            simp only [innerWork, map_cons, sum_cons, length_cons]
            omega
          exact progress_of_stack (Nat.le_refl _) (.inr ⟨hwork.1, .inr hwork.2⟩)
    | disconnecting c todo =>
      cases todo with
      | nil =>
        refine progress_of_stack (Nat.le_refl _) ?_
        simp only [hs, visits, outerWork, innerWork, map_cons, sum_cons, length_nil]
        omega
      | cons ch todo =>
        refine progress_of_stack (Nat.le_refl _) ?_
        simp only [hs, visits, outerWork, innerWork, map_cons, sum_cons, length_cons]
        omega

/-- **Every operation ends**, whichever connections close while it broadcasts. -/
theorem operation_ends (h : ChannelHub) (closing : Nat → Option ConnId) :
    ∃ n, (run step h ((List.range n).map fun i => .proceed (closing i))).stack = [] := by
  by_cases hstack : h.stack = []
  · exact ⟨0, hstack⟩
  · have hprogress := progress_proceed hstack (closing 0)
    obtain ⟨n, hn⟩ := operation_ends (h.proceed (closing 0)) fun i => closing (i + 1)
    refine ⟨n + 1, ?_⟩
    rw [range_succ_eq_map, map_cons, run_cons, map_map]
    exact hn
termination_by (h.memberships, visits h.stack, outerWork h.stack, innerWork h.stack)
decreasing_by
  rcases hprogress with hlt | ⟨heq, hlt | ⟨heq', hlt | ⟨heq'', hlt⟩⟩⟩
  · exact .left _ _ hlt
  · rw [heq]
    exact .right _ (.left _ _ hlt)
  · rw [heq, heq']
    exact .right _ (.right _ (.left _ _ hlt))
  · rw [heq, heq', heq'']
    exact .right _ (.right _ (.right _ hlt))

end ChannelHub

/-- **Presence is coherent between operations**, and every operation ends, in runs whose calls meet `Matched`. -/
theorem coherent_of_matched (ttl : Nat) (es : List Event) (h : Guarded step Matched (.new ttl) es) : (∀ closing : Nat → Option ConnId,
      ∃ n, (run step (run step (.new ttl) es) ((List.range n).map fun i => .proceed (closing i))).stack = []) ∧
    ((run step (.new ttl) es).stack = [] → Coherent (run step (.new ttl) es)) :=
  have hinv : (run step (.new ttl) es).Inv :=
    run_invariant_of_guarded step (P := ChannelHub.Inv) (fun _ _ hinv he => inv_step hinv he) es h (ChannelHub.inv_new ttl)
  ⟨ChannelHub.operation_ends _, coherent_of_inv hinv⟩

/-- Two members type and talk; the second one's connection closes while the first one leaves. -/
def meeting : List Event :=
  [.join "x" "a" "c", .proceed none, .join "x" "b" "d", .proceed none, .proceed none, .setTyping "x" "a" true none,
    .proceed none, .proceed none, .proceed none, .disconnect "c", .proceed none, .proceed none, .proceed (some "d")]

theorem coherent_of_matched_meeting : (∀ closing : Nat → Option ConnId,
      ∃ n, (run step (run step (.new 5) meeting) ((List.range n).map fun i => .proceed (closing i))).stack = []) ∧
    ((run step (.new 5) meeting).stack = [] → Coherent (run step (.new 5) meeting)) :=
  coherent_of_matched 5 meeting
    ⟨trivial, trivial, trivial, trivial, trivial, fun _ _ _ => by decide, trivial, trivial, trivial, trivial, trivial,
      trivial, trivial, trivial⟩

/-- A connection that backs two members of a channel leaves for one of them. -/
def sharedLeave : List Event :=
  [.join "x" "a" "c", .proceed none, .join "x" "b" "c", .proceed none, .leave "x" "a" "c", .proceed none, .proceed none]

/-- The channel no longer delivers to the connection that still backs the other member. -/
theorem sharedLeave_counterexample : (run step (.new 0) sharedLeave).stack = [] ∧ ¬ Coherent (run step (.new 0) sharedLeave) := by
  refine ⟨by decide, fun h => ?_⟩
  have hdelivery := (h.delivery "x" "c").2 ⟨"b", by decide⟩
  exact absurd hdelivery (by decide)

end StreetJS.WebSocket
