/-
Redirects come from the cluster: a caller follows the redirects that nodes ask for and no others, an ASKING stands
right before its command, and `get` returns what is stored, while no text reads as what it is not and no other command
comes between an ASKING and its command.
-/
import StreetJS.Lib.Runs
import StreetJS.Lib.ListSet
import StreetJS.Redis.Wire

namespace StreetJS.Redis

open StreetJS.Lib List
open Option (getD_some map_some some.inj some.injEq)

/-! ## What the routing promises -/

/-- A caller has followed the redirects that nodes asked for: it returns the first reply that is none, and is where
the last redirect sent it. -/
def Caller.Follows (maxRedirects : Nat) (c : Caller) : Prop :=
  match c.phase with
  | .returned v => ∃ redirects last, c.answers = redirects ++ [last] ∧ redirects.length ≤ maxRedirects ∧
      (∀ r ∈ redirects, r.redirect.isSome) ∧ last.redirect = none ∧ v = last.value
  | .exceeded => c.answers.length = maxRedirects + 1 ∧ ∀ r ∈ c.answers, r.redirect.isSome
  | _ => c.answers.length ≤ maxRedirects ∧ (∀ r ∈ c.answers, r.redirect.isSome) ∧ ∀ r ∈ c.answers.getLast?, ∃ slot,
        r.redirect = some { kind := if c.asking then .ask else .moved, slot, node := c.target }

/-- `get` returns what is stored, and null when there is nothing. -/
def Caller.Got (c : Caller) : Prop :=
  ∀ v, c.op = .get → c.phase = .returned v →
    (∀ s, c.answers.getLast? = some (.bulk s) → getResult v = some s) ∧ (c.answers.getLast? = some .null → getResult v = none)

/-- The writes of a caller that are its command. -/
def commands (i : Nat) (writes : List Write) : List Write := writes.filter fun x => x.caller = some i ∧ x.asking = false

/-- What is written on the connection of a node. -/
def onNode (node : ClusterNode) (writes : List Write) : List Write := writes.filter (·.node = node)

structure ClusterWorld.Routed (w : ClusterWorld) : Prop where
  follows : ∀ (i : Nat) c, w.callers[i]? = some c → c.Follows w.maxRedirects
  bounded : ∀ i, (commands i w.writes).length ≤ w.maxRedirects + 1
  askingFirst : ∀ pre x post, w.writes = pre ++ x :: post → x.asking = false → x.afterAsk = true →
    (onNode x.node pre).getLast? = some { node := x.node, caller := x.caller, asking := true }
  got : ∀ (i : Nat) c, w.callers[i]? = some c → c.Got

/-! ## When it is kept -/

/-- A reply that reads as what it is: a redirect names a host, nothing else parses as a redirect, and no stored text begins
like an error. -/
def Reply.Plain (op : KeyedOp) : Reply → Prop
  | .moved _ host _ | .ask _ host _ => HostOk host
  | .simple s => redirectOf (.text s) = none
  | .bulk s => redirectOf (.text s) = none ∧ (op = .get → isErr s = false)
  | .error message => parseRedirect message = none
  | .integer _ | .null => True

/-- No other caller waits for the reply to an ASKING on the node. -/
def ClusterWorld.NotAsking (w : ClusterWorld) (i : Option Nat) (node : ClusterNode) : Prop :=
  ∀ j c, w.callers[j]? = some c → i ≠ some j → c.phase = .asking → c.target ≠ node

def ClusterWorld.Unambiguous (w : ClusterWorld) : ClusterEvent → Prop
  | .reply i r => ∀ c, w.callers[i]? = some c → c.phase = .sent → r.Plain c.op
  | .connected i => ∀ c, w.callers[i]? = some c → c.phase = .connecting → w.NotAsking (some i) c.target
  | .other node => w.NotAsking none node
  | _ => True

theorem Reply.Plain.redirectOf {op : KeyedOp} {r : Reply} (h : r.Plain op) : redirectOf r.value = r.redirect := by
  cases r with
  | moved slot host port => exact redirectOf_redirect rfl h
  | ask slot host port => exact redirectOf_redirect rfl h
  | simple s => exact h
  | bulk s => exact h.1
  | error message => exact h
  | integer n => rfl
  | null => rfl

theorem Reply.Plain.got {r : Reply} (h : r.Plain .get) :
    (∀ s, r = .bulk s → getResult r.value = some s) ∧ (r = .null → getResult r.value = none) := by
  constructor
  · rintro s rfl
    simp [Reply.value, getResult, h.2 rfl]
  · rintro rfl
    rfl

theorem Reply.kind_of_redirect {r : Reply} {redirect : Redirect} (h : r.redirect = some redirect) :
    decide (redirect.kind = .ask) = match some r with
      | some (.ask _ _ _) => true
      | _ => false := by
  cases r with
  | moved slot host port =>
    obtain rfl := some.inj h
    rfl
  | ask slot host port =>
    obtain rfl := some.inj h
    rfl
  | _ => cases h

/-! ## Writes -/

@[simp] theorem commands_append (i : Nat) (ws vs : List Write) : commands i (ws ++ vs) = commands i ws ++ commands i vs :=
  filter_append ..

@[simp] theorem onNode_append (node : ClusterNode) (ws vs : List Write) : onNode node (ws ++ vs) = onNode node ws ++ onNode node vs :=
  filter_append ..

theorem commands_other {i : Nat} {x : Write} (h : x.caller ≠ some i ∨ x.asking = true) : commands i [x] = [] := by
  rcases h with h | h <;> simp [commands, h]

theorem onNode_other {node : ClusterNode} {x : Write} (h : x.node ≠ node) : onNode node [x] = [] := by
  simp [onNode, h]

/-- The last write on the connection of the target is the ASKING of the caller. -/
def JustAsked (writes : List Write) (i : Nat) (c : Caller) : Prop :=
  (onNode c.target writes).getLast? = some { node := c.target, caller := some i, asking := true }

/-- The phases in which `route` goes on. -/
def RoutePhase.Live : RoutePhase → Prop
  | .connecting | .asking | .sent => True
  | _ => False

/-- What is known of a caller. -/
structure CallerInv (writes : List Write) (maxRedirects i : Nat) (c : Caller) : Prop where
  follows : c.Follows maxRedirects
  got : c.Got
  attempt : c.phase.Live → c.attempt = c.answers.length ∧ c.asking = c.afterAsk
  sent : (commands i writes).length = c.answers.length + if c.phase matches .sent then 1 else 0
  asked : c.phase = .asking → c.asking = true ∧ JustAsked writes i c

theorem CallerInv.append {writes : List Write} {m i : Nat} {c : Caller} (h : CallerInv writes m i c) {x : Write}
    (hx : x.caller ≠ some i) (hfree : c.phase = .asking → c.target ≠ x.node) : CallerInv (writes ++ [x]) m i c where
  follows := h.follows
  got := h.got
  attempt := h.attempt
  sent := by rw [commands_append, commands_other (.inl hx), append_nil, h.sent]
  asked := by
    intro hp
    obtain ⟨ha, hj⟩ := h.asked hp
    refine ⟨ha, ?_⟩
    rw [JustAsked, onNode_append, onNode_other fun hn => hfree hp hn.symm, append_nil]
    exact hj

/-- Every command behind an ASK has its ASKING right before it. -/
def AskingFirst (writes : List Write) : Prop :=
  ∀ pre x post, writes = pre ++ x :: post → x.asking = false → x.afterAsk = true →
    (onNode x.node pre).getLast? = some { node := x.node, caller := x.caller, asking := true }

theorem AskingFirst.append {writes : List Write} (h : AskingFirst writes) {x : Write} (hx : x.asking = false → x.afterAsk = true →
      (onNode x.node writes).getLast? = some { node := x.node, caller := x.caller, asking := true }) :
    AskingFirst (writes ++ [x]) := by
  intro pre y post heq ha hk
  rcases eq_nil_or_concat post with rfl | ⟨post, z, rfl⟩
  · obtain ⟨rfl, hy⟩ := append_inj' heq rfl
    obtain rfl : x = y := by simpa using hy
    exact hx ha hk
  · rw [concat_eq_append, ← cons_append, ← append_assoc] at heq
    obtain ⟨rfl, -⟩ := append_inj' heq rfl
    exact h pre y post rfl ha hk

/-! ## One caller -/

section

variable {writes : List Write} {m i : Nat} {c : Caller} (h : CallerInv writes m i c)

include h

theorem CallerInv.live (hp : c.phase.Live) : c.answers.length ≤ m ∧ (∀ r ∈ c.answers, r.redirect.isSome) ∧
      ∀ r ∈ c.answers.getLast?, ∃ slot, r.redirect = some { kind := if c.asking then .ask else .moved, slot, node := c.target } := by
  have hf := h.follows
  rw [Caller.Follows] at hf
  revert hp hf
  cases c.phase with
  | connecting | asking | sent => exact fun _ hf => hf
  | returned | exceeded | refused => exact fun hp => hp.elim

theorem CallerInv.ask (hp : c.phase = .connecting) (ha : c.asking = true) :
    CallerInv (writes ++ [{ node := c.target, caller := some i, asking := true }]) m i { c with phase := .asking } where
  follows := h.live (hp ▸ trivial)
  got := nofun
  attempt _ := h.attempt (hp ▸ trivial)
  sent := by
    have hs := h.sent
    rw [hp] at hs
    rw [commands_append, commands_other (.inr rfl), append_nil]
    exact hs
  asked := by
    rintro -
    refine ⟨ha, ?_⟩
    simp [JustAsked, onNode]

/-- The command is written. -/
theorem CallerInv.send (hp : c.phase = .connecting ∨ c.phase = .asking) {x : Write} (hx : x.caller = some i)
    (ha : x.asking = false) : CallerInv (writes ++ [x]) m i { c with phase := .sent } where
  follows := h.live (by rcases hp with hp | hp <;> rw [hp] <;> trivial)
  got := nofun
  attempt _ := h.attempt (by rcases hp with hp | hp <;> rw [hp] <;> trivial)
  sent := by
    have hs := h.sent
    have hcommand : commands i [x] = [x] := by simp [commands, hx, ha]
    rw [commands_append, hcommand, length_append, hs]
    rcases hp with hp | hp <;> simp [hp]
  asked := nofun

theorem CallerInv.refuse (hp : c.phase = .connecting) : CallerInv writes m i { c with phase := .refused } where
  follows := h.live (hp ▸ trivial)
  got := nofun
  attempt := nofun
  sent := by
    have hs := h.sent
    rw [hp] at hs
    exact hs
  asked := nofun

theorem CallerInv.return (hp : c.phase = .sent) {r : Reply} (hr : r.redirect = none) (hplain : r.Plain c.op) :
    CallerInv writes m i { c with phase := .returned r.value, answers := c.answers ++ [r] } where
  follows := by
    obtain ⟨hlen, hall, -⟩ := h.live (hp ▸ trivial)
    exact ⟨c.answers, r, rfl, hlen, hall, hr, rfl⟩
  got := by
    intro v hop hv
    obtain rfl := RoutePhase.returned.inj hv
    rw [getLast?_concat]
    simp only [some.injEq]
    exact Reply.Plain.got (hop ▸ hplain)
  attempt := nofun
  sent := by
    have hs := h.sent
    rw [hp] at hs
    rw [hs, length_append]
    rfl
  asked := nofun

theorem CallerInv.redirect (hp : c.phase = .sent) {r : Reply} {redirect : Redirect} (hr : r.redirect = some redirect) :
    CallerInv writes m i { c with
        target := redirect.node, asking := redirect.kind = .ask, attempt := c.attempt + 1, answers := c.answers ++ [r]
        phase := if c.attempt + 1 ≤ m then .connecting else .exceeded } := by
  obtain ⟨hlen, hall, -⟩ := h.live (hp ▸ trivial)
  obtain ⟨hattempt, -⟩ := h.attempt (hp ▸ trivial)
  have hall' : ∀ s ∈ c.answers ++ [r], s.redirect.isSome := by
    intro s hs
    rcases mem_append.1 hs with hs | hs
    · exact hall s hs
    · rw [mem_singleton.1 hs, hr]
      rfl
  have hs := h.sent
  rw [hp] at hs
  by_cases hm : c.attempt + 1 ≤ m
  · rw [if_pos hm]
    refine ⟨⟨?_, hall', ?_⟩, nofun, fun _ => ⟨?_, ?_⟩, ?_, nofun⟩
    · rw [length_append, length_singleton]
      omega
    · rw [getLast?_concat]
      rintro s ⟨⟩
      refine ⟨redirect.slot, ?_⟩
      rw [hr]
      obtain ⟨kind, slot, node⟩ := redirect
      cases kind <;> rfl
    · rw [length_append, hattempt]
      rfl
    · rw [Caller.afterAsk, getLast?_concat]
      exact Reply.kind_of_redirect hr
    · rw [hs, length_append]
      rfl
  · rw [if_neg hm]
    refine ⟨⟨?_, hall'⟩, nofun, nofun, ?_, nofun⟩
    · rw [length_append, length_singleton]
      omega
    · rw [hs, length_append]
      rfl

theorem CallerInv.bounded : (commands i writes).length ≤ m + 1 := by
  have hf := h.follows
  have hs := h.sent
  rw [Caller.Follows] at hf
  revert hf hs
  cases c.phase with
  | returned v =>
    rintro ⟨redirects, last, hans, hlen, -⟩ hs
    rw [hans, length_append, length_singleton] at hs
    simp only [Bool.false_eq_true, if_false] at hs
    omega
  | _ =>
    rintro ⟨hlen, -⟩ hs
    simp only [Bool.false_eq_true, if_false, if_true] at hs
    omega

end

/-! ## All callers -/

namespace ClusterWorld

structure Inv (w : ClusterWorld) : Prop where
  callers : ∀ (i : Nat) c, w.callers[i]? = some c → CallerInv w.writes w.maxRedirects i c
  known : ∀ x ∈ w.writes, ∀ i, x.caller = some i → i < w.callers.length
  askingFirst : AskingFirst w.writes

variable {w : ClusterWorld}

section

variable (h : w.Inv)
include h

theorem Inv.commands_of_not_known {i : Nat} (hi : w.callers.length ≤ i) : commands i w.writes = [] := by
  refine filter_eq_nil_iff.2 fun x hx => ?_
  have hknown := h.known x hx i
  rw [decide_eq_true_eq]
  rintro ⟨hcaller, -⟩
  have := hknown hcaller
  omega

theorem Inv.routed : w.Routed where
  follows i c hc := (h.callers i c hc).follows
  bounded i := by
    cases hc : w.callers[i]? with
    | none =>
      rw [h.commands_of_not_known (getElem?_eq_none_iff.1 hc)]
      exact Nat.zero_le _
    | some c => exact (h.callers i c hc).bounded
  askingFirst := h.askingFirst
  got i c hc := (h.callers i c hc).got

theorem Inv.set {i : Nat} {c : Caller} (hc : CallerInv w.writes w.maxRedirects i c) : (w.setCaller i c).Inv where
  callers j d hd := by
    rcases getElem?_set_cases hd with ⟨rfl, rfl⟩ | ⟨-, hd⟩
    · exact hc
    · exact h.callers j d hd
  known x hx j hj := by
    rw [setCaller, length_set]
    exact h.known x hx j hj
  askingFirst := h.askingFirst

theorem Inv.write {i : Nat} (hi : i < w.callers.length) {c : Caller} {x : Write} (hx : x.caller = some i)
    (hc : CallerInv (w.writes ++ [x]) w.maxRedirects i c) (hfree : w.NotAsking (some i) x.node)
    (hfirst : x.asking = false → x.afterAsk = true →
      (onNode x.node w.writes).getLast? = some { node := x.node, caller := x.caller, asking := true }) :
    Inv { w.setCaller i c with writes := w.writes ++ [x] } where
  callers j d hd := by
    rcases getElem?_set_cases hd with ⟨rfl, rfl⟩ | ⟨hne, hd⟩
    · exact hc
    · have hother : some i ≠ some j := fun h => hne (some.inj h).symm
      exact (h.callers j d hd).append (hx ▸ hother) (hfree j d hd hother)
  known y hy j hj := by
    have hlen : (w.callers.set i c).length = w.callers.length := length_set
    rw [setCaller, hlen]
    rcases mem_append.1 hy with hy | hy
    · exact h.known y hy j hj
    · rw [mem_singleton.1 hy, hx] at hj
      exact some.inj hj ▸ hi
  askingFirst := h.askingFirst.append hfirst

theorem Inv.notAsking {i : Nat} {c : Caller} (hc : w.callers[i]? = some c) (hp : c.phase = .asking) : w.NotAsking (some i) c.target := by
  intro j d hd hne hq htarget
  have hi := ((h.callers i c hc).asked hp).2
  have hj := ((h.callers j d hd).asked hq).2
  rw [JustAsked, htarget, hi, some.injEq, Write.mk.injEq] at hj
  exact hne hj.2.1

theorem Inv.send {i : Nat} {c : Caller} (hc : w.callers[i]? = some c)
    (hp : c.phase = .connecting ∧ c.asking = false ∨ c.phase = .asking) (hfree : w.NotAsking (some i) c.target) :
    (w.send i c).Inv := by
  have hinv := h.callers i c hc
  refine h.write (lt_length hc) rfl (hinv.send (hp.imp_left And.left) rfl rfl) hfree fun _ hafter => ?_
  rcases hp with ⟨hp, ha⟩ | hp
  · obtain ⟨-, hasking⟩ := hinv.attempt (hp ▸ trivial)
    rw [← hasking, ha] at hafter
    cases hafter
  · exact (hinv.asked hp).2

theorem Inv.receive {i : Nat} {c : Caller} (hc : w.callers[i]? = some c) (hp : c.phase = .sent) {r : Reply}
    (hplain : r.Plain c.op) : (w.receive i c r).Inv := by
  have hinv := h.callers i c hc
  rw [ClusterWorld.receive, hplain.redirectOf]
  cases hr : r.redirect with
  | none => exact h.set (hinv.return hp hr hplain)
  | some redirect =>
    have hset := h.set (hinv.redirect hp hr)
    exact ⟨hset.callers, hset.known, hset.askingFirst⟩

theorem Inv.step (e : ClusterEvent) (hg : w.Unambiguous e) : (w.step e).Inv := by
  have hcaller : ∀ i, (∀ c, w.callers[i]? = some c → (w.stepCaller i c e).Inv) →
      ((w.callers[i]?.map fun c => w.stepCaller i c e).getD w).Inv := by
    intro i hstep
    cases hc : w.callers[i]? with
    | none => exact h
    | some c => exact hstep c hc
  cases e with
  | call key op =>
    refine ⟨fun j d hd => ?_, fun x hx j hj => ?_, h.askingFirst⟩
    · rcases getElem?_concat_cases hd with hd | ⟨rfl, rfl⟩
      · exact h.callers j d hd
      · refine ⟨⟨Nat.zero_le _, nofun, nofun⟩, nofun, fun _ => ⟨rfl, rfl⟩, ?_, nofun⟩
        change (commands w.callers.length w.writes).length = 0
        rw [h.commands_of_not_known le_rfl, length_nil]
    · have hlt := h.known x hx j hj
      rw [ClusterWorld.step, length_append]
      omega
  | other node =>
    refine ⟨fun j d hd => ?_, fun x hx j hj => ?_, h.askingFirst.append nofun⟩
    · exact (h.callers j d hd).append nofun fun hp => hg j d hd nofun hp
    · rcases mem_append.1 hx with hx | hx
      · exact h.known x hx j hj
      · rw [mem_singleton.1 hx] at hj
        cases hj
  | refresh slotMap => exact ⟨h.callers, h.known, h.askingFirst⟩
  | connected i =>
    refine hcaller i fun c hc => ?_
    rw [stepCaller]
    cases hp : c.phase with
    | connecting =>
      have hfree := hg c hc hp
      simp only
      split
      case isTrue ha =>
        exact h.write (lt_length hc) rfl ((h.callers i c hc).ask hp ha) hfree nofun
      case isFalse ha => exact h.send hc (.inl ⟨hp, eq_false_of_ne_true ha⟩) hfree
    | _ => exact h
  | refused i =>
    refine hcaller i fun c hc => ?_
    rw [stepCaller]
    cases hp : c.phase with
    | connecting => exact h.set ((h.callers i c hc).refuse hp)
    | _ => exact h
  | asked i =>
    refine hcaller i fun c hc => ?_
    rw [stepCaller]
    cases hp : c.phase with
    | asking => exact h.send hc (.inr hp) (h.notAsking hc hp)
    | _ => exact h
  | reply i r =>
    refine hcaller i fun c hc => ?_
    rw [stepCaller]
    cases hp : c.phase with
    | sent => exact h.receive hc hp (hg c hc hp)
    | _ => exact h

end

/-- A client with one seed, and the node that a redirect names. -/
def seedNode : ClusterNode := { host := ['a'], port := 1 }

def otherNode : ClusterNode := { host := ['h'], port := 2 }

/-- `MOVED 1 h:2`, as a text. -/
def movedText : Text := ['M', 'O', 'V', 'E', 'D', ' ', '1', ' ', 'h', ':', '2']

end ClusterWorld

end StreetJS.Redis
