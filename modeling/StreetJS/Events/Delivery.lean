/-
What the facade guarantees. Along every run in which `publish` is not called while emitted events wait, and no
listener throws what cannot be serialized, the dispatches of emitted events follow one another, every listener has
its turn once and in order, and the sequence numbers follow the calls.
-/
import StreetJS.Events.Registry

namespace StreetJS.Events

open StreetJS.Lib List
open Option (any_some bind_some some.inj)

/-! ## Guarantees -/

def Entry.dispatch : Entry → Nat
  | .opened d _ => d
  | .turn d _ _ => d
  | .settled d _ => d

/-- The subscription that has its turn in the dispatch. -/
def Entry.turnOf (d : Nat) : Entry → Option Nat
  | .turn d' s _ => if d' = d then some s else none
  | _ => none

/-- The subscription is invoked. -/
def Entry.invokes (s : Nat) : Entry → Bool
  | .turn _ s' active => active && s' = s
  | _ => false

/-- The place in the queue of an emitted event. -/
def Dispatch.job? (dispatch : Dispatch) : Option Nat :=
  match dispatch.origin with
  | .emitted job _ => some job
  | _ => none

/-- The call that a dispatch is made for. -/
def Dispatch.call? (dispatch : Dispatch) : Option Nat :=
  match dispatch.origin with
  | .published call => some call
  | .emitted _ call => some call
  | .replayed _ => none

def EventsFacade.jobOf (w : EventsFacade) (d : Nat) : Option Nat := w.dispatches[d]?.bind Dispatch.job?

/-- The subscriptions whose turn is still to come. -/
def DispatchPhase.rest : DispatchPhase → List Nat
  | .delivering rest => rest
  | .listening _ rest => rest
  | _ => []

def DispatchPhase.isOpen : DispatchPhase → Bool
  | .persisting => false
  | .opening => false
  | _ => true

structure Guarantees (w : EventsFacade) : Prop where
  /-- what the dispatches of emitted events do is in the order of their emission, without overlap -/
  emitted : (w.log.filterMap fun entry => w.jobOf entry.dispatch).Pairwise (· ≤ ·)
  /-- a dispatch goes through the subscriptions that were active and matched, each of which has one turn -/
  opened : ∀ (d : Nat) dispatch, w.dispatches[d]? = some dispatch → dispatch.phase.isOpen = true →
    ∃ active, .opened d active ∈ w.log ∧ dispatch.snapshot = active.filter (w.emitter.covers dispatch.name)
  turns : ∀ (d : Nat) dispatch, w.dispatches[d]? = some dispatch → w.log.filterMap (Entry.turnOf d) ++ dispatch.phase.rest = dispatch.snapshot
  once : ∀ (s : Nat) sub, w.emitter.subs[s]? = some sub → sub.once = true → w.log.countP (Entry.invokes s) ≤ 1
  isolated : ∀ dispatch ∈ w.dispatches, dispatch.phase ≠ .rejected
  replayed : ∀ phase ∈ w.replays, phase ≠ .rejected
  seqs : ∀ dispatch ∈ w.dispatches, ∀ dispatch' ∈ w.dispatches, ∀ call call', dispatch.call? = some call →
    dispatch'.call? = some call' → call < call' → dispatch.seq < dispatch'.seq

/-! ## The condition -/

def Orderly (w : EventsFacade) : Event → Prop
  | .publish _ => w.begun = w.jobs.length
  | .settle _ outcome => outcome ≠ .threw false
  | _ => True

instance (w : EventsFacade) (e : Event) : Decidable (Orderly w e) := by
  unfold Orderly
  split <;> infer_instance

/-! ## The invariant -/

/-- The calls of the dispatches and their numbers grow together. -/
def Grows (dispatch dispatch' : Dispatch) : Prop :=
  ∀ call call', dispatch.call? = some call → dispatch'.call? = some call' → call < call' ∧ dispatch.seq < dispatch'.seq

structure Inv (w : EventsFacade) : Prop where
  emitter : w.emitter.Inv
  entries : ∀ entry ∈ w.log, entry.dispatch < w.dispatches.length
  emitted : (w.log.filterMap fun entry => w.jobOf entry.dispatch).Pairwise (· ≤ ·)
  begun : ∀ (d : Nat) dispatch job, w.dispatches[d]? = some dispatch → dispatch.job? = some job → job < w.begun ∧
    (dispatch.phase.isSettled = false → w.emitting = some d ∧ job + 1 = w.begun)
  opened : ∀ (d : Nat) dispatch, w.dispatches[d]? = some dispatch → dispatch.phase.isOpen = true →
    ∃ active, .opened d active ∈ w.log ∧ (∀ s ∈ active, s < w.emitter.subs.length) ∧
      dispatch.snapshot = active.filter (w.emitter.covers dispatch.name)
  turns : ∀ (d : Nat) dispatch, w.dispatches[d]? = some dispatch → w.log.filterMap (Entry.turnOf d) ++ dispatch.phase.rest = dispatch.snapshot
  closed : ∀ dispatch ∈ w.dispatches, dispatch.phase.isOpen = false → dispatch.snapshot = []
  named : ∀ entry ∈ w.log, ∀ s, entry.invokes s = true → s < w.emitter.subs.length
  once : ∀ (s : Nat) sub, w.emitter.subs[s]? = some sub → sub.once = true →
    w.log.countP (Entry.invokes s) + (if sub.active = true then 1 else 0) ≤ 1
  isolated : ∀ dispatch ∈ w.dispatches, dispatch.phase ≠ .rejected
  replayed : ∀ phase ∈ w.replays, phase ≠ .rejected
  grows : w.dispatches.Pairwise Grows
  numbered : ∀ dispatch ∈ w.dispatches, ∀ call, dispatch.call? = some call → call < w.calls ∧ dispatch.seq < w.seq ∧
    ∀ job ∈ w.jobs.drop w.begun, call < job.call
  jobs : w.jobs.Pairwise fun job job' => job.call < job'.call
  called : ∀ job ∈ w.jobs, job.call < w.calls

theorem Inv.new (store persist : Bool) : Inv (.new store persist) where
  emitter := Emitter.Inv.empty
  entries := fun _ hentry => absurd hentry not_mem_nil
  emitted := List.Pairwise.nil
  begun := fun _ _ _ hd => nomatch hd
  opened := fun _ _ hd => nomatch hd
  turns := fun _ _ hd => nomatch hd
  closed := fun _ hmem => absurd hmem not_mem_nil
  named := fun _ hentry => absurd hentry not_mem_nil
  once := fun _ _ hsub => nomatch hsub
  isolated := fun _ hmem => absurd hmem not_mem_nil
  replayed := fun _ hmem => absurd hmem not_mem_nil
  grows := List.Pairwise.nil
  numbered := fun _ hmem => absurd hmem not_mem_nil
  jobs := List.Pairwise.nil
  called := fun _ hmem => absurd hmem not_mem_nil

theorem Inv.guarantees {w : EventsFacade} (h : Inv w) : Guarantees w where
  emitted := h.emitted
  opened := fun d dispatch hd hopen =>
    let ⟨active, hmem, _, hsnapshot⟩ := h.opened d dispatch hd hopen
    ⟨active, hmem, hsnapshot⟩
  turns := h.turns
  once := fun s sub hsub honce => le_trans (Nat.le_add_right _ _) (h.once s sub hsub honce)
  isolated := h.isolated
  replayed := h.replayed
  seqs := by
    intro dispatch hmem dispatch' hmem' call call' hcall hcall' hlt
    obtain ⟨d, hd⟩ := getElem?_of_mem hmem
    obtain ⟨d', hd'⟩ := getElem?_of_mem hmem'
    obtain ⟨hlen, rfl⟩ := List.getElem?_eq_some_iff.1 hd
    obtain ⟨hlen', rfl⟩ := List.getElem?_eq_some_iff.1 hd'
    rcases Nat.lt_trichotomy d d' with hdd | rfl | hdd
    · exact (pairwise_iff_getElem.1 h.grows d d' hlen hlen' hdd call call' hcall hcall').2
    · rw [hcall] at hcall'
      cases hcall'
      exact absurd hlt (lt_irrefl _)
    · -- the later dispatch would have the earlier call
      have hcalls := (pairwise_iff_getElem.1 h.grows d' d hlen' hlen hdd call' call hcall' hcall).1
      omega

namespace Inv

variable {w : EventsFacade} {d : Nat} {dispatch : Dispatch}

/-! ### A dispatch goes on -/

theorem turnOf_eq_none {entry : Entry} (h : entry.dispatch ≠ d) : entry.turnOf d = none := by
  cases entry with
  | turn d' s active => exact if_neg h
  | opened d' active => rfl
  | settled d' s => rfl

/-- What a dispatch may come to: it keeps its event, writes about itself only, and its subscriptions have their turns
in order. -/
structure Progress (w : EventsFacade) (d : Nat) (dispatch dispatch' : Dispatch) (emitter : Emitter) (entries : List Entry) : Prop where
  going : dispatch.phase.isSettled = false
  name : dispatch'.name = dispatch.name
  seq : dispatch'.seq = dispatch.seq
  origin : dispatch'.origin = dispatch.origin
  isolated : dispatch'.phase ≠ .rejected
  registry : emitter.Inv
  subs : Emitter.Extends w.emitter emitter
  length : emitter.subs.length = w.emitter.subs.length
  own : ∀ entry ∈ entries, entry.dispatch = d
  turns : (w.log ++ entries).filterMap (Entry.turnOf d) ++ dispatch'.phase.rest = dispatch'.snapshot
  opened : dispatch'.phase.isOpen = true → ∃ active, .opened d active ∈ w.log ++ entries ∧
    (∀ s ∈ active, s < emitter.subs.length) ∧ dispatch'.snapshot = active.filter (emitter.covers dispatch'.name)
  closed : dispatch'.phase.isOpen = false → dispatch'.snapshot = []
  named : ∀ entry ∈ entries, ∀ s, entry.invokes s = true → s < w.emitter.subs.length
  once : ∀ (s : Nat) sub, emitter.subs[s]? = some sub → sub.once = true →
    (w.log ++ entries).countP (Entry.invokes s) + (if sub.active = true then 1 else 0) ≤ 1

theorem advance (h : Inv w) (hd : w.dispatches[d]? = some dispatch) {dispatch' : Dispatch} {emitter : Emitter}
    {entries : List Entry} (hp : Progress w d dispatch dispatch' emitter entries) :
    Inv { w.setDispatch d dispatch' with emitter := emitter, log := w.log ++ entries } := by
  have hlength : (w.dispatches.set d dispatch').length = w.dispatches.length := length_set
  have hjob : dispatch'.job? = dispatch.job? := by
    unfold Dispatch.job?
    rw [hp.origin]
  have hcall : dispatch'.call? = dispatch.call? := by
    unfold Dispatch.call?
    rw [hp.origin]
  have hjobOf : ∀ e : Nat, (w.dispatches.set d dispatch')[e]?.bind Dispatch.job? = w.jobOf e := by
    intro e
    rw [EventsFacade.jobOf, getElem?_set]
    split
    · next heq =>
      subst heq
      rw [hd, if_pos (lt_length hd), bind_some, bind_some, hjob]
    · rfl
  have hfar : ∀ e, e ≠ d → entries.filterMap (Entry.turnOf e) = [] := fun e hne =>
    filterMap_eq_nil_iff.2 fun entry hentry => turnOf_eq_none fun heq => hne (heq.symm.trans (hp.own entry hentry))
  refine ⟨hp.registry, ?entries, ?emitted, ?begun, ?opened, ?turns, ?closed, ?named, hp.once, ?isolated, h.replayed, ?grows,
    ?numbered, h.jobs, h.called⟩
  case entries =>
    intro entry hentry
    refine Nat.lt_of_lt_of_eq ?_ hlength.symm
    rcases mem_append.1 hentry with hentry | hentry
    · exact h.entries entry hentry
    · rw [hp.own entry hentry]
      exact (lt_length hd)
  case emitted =>
    have hall : ((w.log ++ entries).filterMap fun entry => w.jobOf entry.dispatch).Pairwise (· ≤ ·) := by
      rw [filterMap_append, pairwise_append]
      -- the entries that are new are of the dispatch that is the last off the queue
      have hnew : ∀ job ∈ entries.filterMap (fun entry => w.jobOf entry.dispatch), job + 1 = w.begun := by
        intro job hmem
        obtain ⟨entry, hentry, hof⟩ := mem_filterMap.1 hmem
        rw [hp.own entry hentry, EventsFacade.jobOf, hd, bind_some] at hof
        exact ((h.begun d dispatch job hd hof).2 hp.going).2
      refine ⟨h.emitted, ?_, ?_⟩
      · refine pairwise_of_forall_mem_list fun job hmem job' hmem' => ?_
        have heq := hnew job hmem
        have heq' := hnew job' hmem'
        omega
      · intro job hmem job' hmem'
        obtain ⟨entry, -, hof⟩ := mem_filterMap.1 hmem
        obtain ⟨earlier, hearlier, hofEarlier⟩ := Option.bind_eq_some_iff.1 hof
        have hlt := (h.begun _ earlier job hearlier hofEarlier).1
        have heq' := hnew job' hmem'
        omega
    have hsame : (fun entry : Entry => w.jobOf entry.dispatch) =
        fun entry => (w.dispatches.set d dispatch')[entry.dispatch]?.bind Dispatch.job? := by
      funext entry
      exact (hjobOf entry.dispatch).symm
    rw [hsame] at hall
    exact hall
  case begun =>
    intro e other job he hof
    rcases getElem?_set_cases he with ⟨rfl, rfl⟩ | ⟨-, he⟩
    · rw [hjob] at hof
      exact ⟨(h.begun e dispatch job hd hof).1, fun _ => (h.begun e dispatch job hd hof).2 hp.going⟩
    · exact h.begun e other job he hof
  case opened =>
    intro e other he hopen
    rcases getElem?_set_cases he with ⟨rfl, rfl⟩ | ⟨-, he⟩
    · exact hp.opened hopen
    · obtain ⟨active, hmem, hlt, hsnapshot⟩ := h.opened e other he hopen
      refine ⟨active, mem_append_left _ hmem, fun s hs => hp.length ▸ hlt s hs, hsnapshot.trans ?_⟩
      exact filter_congr fun s hs => (hp.subs.covers (hlt s hs)).symm
  case turns =>
    intro e other he
    rcases getElem?_set_cases he with ⟨rfl, rfl⟩ | ⟨hne, he⟩
    · exact hp.turns
    · have hturns : (w.log ++ entries).filterMap (Entry.turnOf e) ++ other.phase.rest = other.snapshot := by
        rw [filterMap_append, hfar e hne, append_nil]
        exact h.turns e other he
      exact hturns
  case closed =>
    intro other hmem
    rcases mem_or_eq_of_mem_set hmem with hold | rfl
    · exact h.closed other hold
    · exact hp.closed
  case named =>
    intro entry hentry s hs
    refine Nat.lt_of_lt_of_eq ?_ hp.length.symm
    rcases mem_append.1 hentry with hentry | hentry
    · exact h.named entry hentry s hs
    · exact hp.named entry hentry s hs
  case isolated =>
    intro other hmem
    rcases mem_or_eq_of_mem_set hmem with hold | rfl
    · exact h.isolated other hold
    · exact hp.isolated
  case grows =>
    have hheads : (w.dispatches.set d dispatch').map (fun x => (x.call?, x.seq)) =
        w.dispatches.map fun x => (x.call?, x.seq) := map_set_eq hd (Prod.ext hcall hp.seq)
    have hgrows : (w.dispatches.map fun x => (x.call?, x.seq)).Pairwise fun x y =>
        ∀ call call', x.1 = some call → y.1 = some call' → call < call' ∧ x.2 < y.2 := by
      rw [pairwise_map]
      exact h.grows
    rw [← hheads, pairwise_map] at hgrows
    exact hgrows
  case numbered =>
    intro other hmem call hof
    rcases mem_or_eq_of_mem_set hmem with hold | rfl
    · exact h.numbered other hold call hof
    · rw [hcall] at hof
      rw [hp.seq]
      exact h.numbered dispatch (mem_of_getElem? hd) call hof

/-- The registry changes while nothing is delivered. -/
theorem register (h : Inv w) {emitter : Emitter} (hinv : emitter.Inv) (hsubs : Emitter.Extends w.emitter emitter)
    (honce : ∀ (s : Nat) sub, emitter.subs[s]? = some sub → sub.once = true →
      w.log.countP (Entry.invokes s) + (if sub.active = true then 1 else 0) ≤ 1) :
    Inv { w with emitter := emitter } := by
  refine { h with emitter := hinv, opened := ?_, named := ?_, once := honce }
  · intro e other he hopen
    obtain ⟨active, hmem, hlt, hsnapshot⟩ := h.opened e other he hopen
    refine ⟨active, hmem, fun s hs => lt_of_lt_of_le (hlt s hs) hsubs.length, hsnapshot.trans ?_⟩
    exact filter_congr fun s hs => (hsubs.covers (hlt s hs)).symm
  · exact fun entry hentry s hs => lt_of_lt_of_le (h.named entry hentry s hs) hsubs.length

theorem subscribe (h : Inv w) (key : String) (once : Bool) : Inv { w with emitter := w.emitter.add key once } := by
  refine h.register (h.emitter.add key once) (Emitter.extends_add _ _ _) fun s sub hsub honce => ?_
  rw [Emitter.add_subs] at hsub
  rcases getElem?_concat_cases hsub with hsub | ⟨rfl, rfl⟩
  · exact h.once s sub hsub honce
  · -- a subscription that is new was never invoked
    have hzero : w.log.countP (Entry.invokes w.emitter.subs.length) = 0 := by
      refine countP_eq_zero.2 fun entry hentry hinvokes => ?_
      exact lt_irrefl _ (h.named entry hentry _ hinvokes)
    rw [hzero, if_pos rfl]

theorem once_remove (h : Inv w) (s : Nat) : ∀ (s' : Nat) sub, (w.emitter.remove s).subs[s']? = some sub →
    sub.once = true → w.log.countP (Entry.invokes s') + (if sub.active = true then 1 else 0) ≤ 1 := by
  intro s' sub hsub honce
  rw [Emitter.remove_getElem?] at hsub
  split at hsub
  · obtain ⟨sub', hsub', rfl⟩ := Option.map_eq_some_iff.1 hsub
    have hold := h.once s' sub' hsub' honce
    rw [if_neg (by exact Bool.false_ne_true)]
    omega
  · exact h.once s' sub hsub honce

theorem unsubscribe (h : Inv w) (s : Nat) : Inv { w with emitter := w.emitter.remove s } :=
  h.register (h.emitter.remove s) (Emitter.extends_remove _ _) (h.once_remove s)

theorem length_remove (m : Emitter) (s : Nat) : (m.remove s).subs.length = m.subs.length := by
  rw [Emitter.remove_subs, length_modify]

theorem advanceSilent (h : Inv w) (hd : w.dispatches[d]? = some dispatch) (hgoing : dispatch.phase.isSettled = false)
    {phase : DispatchPhase} (hisolated : phase ≠ .rejected) (hrest : phase.rest = dispatch.phase.rest)
    (hopen : phase.isOpen = dispatch.phase.isOpen) : Inv (w.setDispatch d { dispatch with phase := phase }) := by
  have hp : Progress w d dispatch { dispatch with phase := phase } w.emitter [] := by
    refine ⟨hgoing, rfl, rfl, rfl, hisolated, h.emitter, Emitter.Extends.refl _, rfl,
      fun _ hentry => absurd hentry not_mem_nil, ?_, ?_, ?_, fun _ hentry => absurd hentry not_mem_nil, ?_⟩
    · rw [append_nil]
      rw [hrest]
      exact h.turns d dispatch hd
    · rw [append_nil]
      rw [hopen]
      exact h.opened d dispatch hd
    · rw [hopen]
      exact h.closed dispatch (mem_of_getElem? hd)
    · rw [append_nil]
      exact h.once
  have hinv := h.advance hd hp
  rw [append_nil] at hinv
  exact hinv

theorem stored (h : Inv w) (hd : w.dispatches[d]? = some dispatch) : Inv (w.stored d dispatch) := by
  unfold EventsFacade.stored
  split
  · next hphase => exact h.advanceSilent hd (by rw [hphase]; rfl) nofun (by rw [hphase]; rfl) (by rw [hphase]; rfl)
  · exact h

theorem count_of_not_invokes {entry : Entry} (hentry : ∀ s, entry.invokes s = false) (log : List Entry) (s : Nat) :
    (log ++ [entry]).countP (Entry.invokes s) = log.countP (Entry.invokes s) := by
  rw [countP_append, countP_singleton, hentry s]
  rfl

section

variable (h : Inv w) (hd : w.dispatches[d]? = some dispatch)
include h hd

theorem advanceWith (hgoing : dispatch.phase.isSettled = false)
    {dispatch' : Dispatch} {entry : Entry} (hname : dispatch'.name = dispatch.name)
    (hseq : dispatch'.seq = dispatch.seq)
    (horigin : dispatch'.origin = dispatch.origin) (hisolated : dispatch'.phase ≠ .rejected)
    (hopen : dispatch'.phase.isOpen = true) (hown : entry.dispatch = d) (hinvokes : ∀ s, entry.invokes s = false)
    (hturns : (w.log ++ [entry]).filterMap (Entry.turnOf d) ++ dispatch'.phase.rest = dispatch'.snapshot)
    (hopened : ∃ active, .opened d active ∈ w.log ++ [entry] ∧ (∀ s ∈ active, s < w.emitter.subs.length) ∧
      dispatch'.snapshot = active.filter (w.emitter.covers dispatch'.name)) :
    Inv ((w.setDispatch d dispatch').write entry) := by
  have hp : Progress w d dispatch dispatch' w.emitter [entry] := by
    refine ⟨hgoing, hname, hseq, horigin, hisolated, h.emitter, Emitter.Extends.refl _, rfl, ?_, hturns, fun _ => hopened, ?_, ?_, ?_⟩
    · exact fun entry' hentry => mem_singleton.1 hentry ▸ hown
    · intro hclosed
      rw [hopen] at hclosed
      cases hclosed
    · intro entry' hentry s hs
      rw [mem_singleton.1 hentry, hinvokes s] at hs
      cases hs
    · intro s sub hsub honce
      rw [count_of_not_invokes hinvokes]
      exact h.once s sub hsub honce
  exact h.advance hd hp

theorem opens (hphase : dispatch.phase = .opening) : Inv ((w.setDispatch d { dispatch with
      snapshot := w.emitter.resolve dispatch.name
      phase := .delivering (w.emitter.resolve dispatch.name) }).write (.opened d w.emitter.active)) := by
  have hempty : dispatch.snapshot = [] := h.closed dispatch (mem_of_getElem? hd) (by rw [hphase]; rfl)
  have hnone : w.log.filterMap (Entry.turnOf d) = [] := by
    have hturns := h.turns d dispatch hd
    rw [hempty] at hturns
    exact (append_eq_nil_iff.1 hturns).1
  refine h.advanceWith hd (by rw [hphase]; rfl) rfl rfl rfl nofun rfl rfl (fun _ => rfl) ?_ ?_
  · rw [filterMap_append, hnone]
    rfl
  · refine ⟨w.emitter.active, mem_append_right _ (mem_singleton.2 rfl), fun s hs => ?_, Emitter.resolve_eq h.emitter dispatch.name⟩
    obtain ⟨sub, hsub, -⟩ := Emitter.isActive_iff.1 (Emitter.mem_active.1 hs)
    exact (lt_length hsub)

theorem opened_concat (hopen : dispatch.phase.isOpen = true)
    (entry : Entry) : ∃ active, .opened d active ∈ w.log ++ [entry] ∧ (∀ s ∈ active, s < w.emitter.subs.length) ∧
      dispatch.snapshot = active.filter (w.emitter.covers dispatch.name) := by
  obtain ⟨active, hmem, hrest⟩ := h.opened d dispatch hd hopen
  exact ⟨active, mem_append_left _ hmem, hrest⟩

theorem turns_concat {s : Nat} {rest : List Nat} (hphase : dispatch.phase = .delivering (s :: rest)) (active : Bool) :
    List.filterMap (Entry.turnOf d) (w.log ++ [.turn d s active]) ++ rest = dispatch.snapshot := by
  have hturns := h.turns d dispatch hd
  rw [hphase] at hturns
  rw [filterMap_append, ← hturns, append_assoc]
  simp only [filterMap_cons, Entry.turnOf, filterMap_nil]
  rfl

end

/-- **A subscription's turn.** -/
theorem turn (h : Inv w) (hd : w.dispatches[d]? = some dispatch) {s : Nat} {rest : List Nat}
    (hphase : dispatch.phase = .delivering (s :: rest)) : Inv (w.turn d dispatch s rest) := by
  have hgoing : dispatch.phase.isSettled = false := by rw [hphase]; rfl
  have hopen : dispatch.phase.isOpen = true := by rw [hphase]; rfl
  unfold EventsFacade.turn
  split
  · next hactive =>
    obtain ⟨sub, hsub, hsubActive⟩ := Emitter.isActive_iff.1 hactive
    have hlt := (lt_length hsub)
    obtain ⟨active, hmem, hactiveLt, hsnapshot⟩ := h.opened_concat hd hopen (.turn d s true)
    have hcount : ∀ s', List.countP (Entry.invokes s') (w.log ++ [.turn d s true]) =
        w.log.countP (Entry.invokes s') + if s = s' then 1 else 0 := by
      intro s'
      rw [countP_append, countP_singleton]
      simp only [Entry.invokes, Bool.true_and, decide_eq_true_eq]
    have hnamed : ∀ entry ∈ [Entry.turn d s true], ∀ s', entry.invokes s' = true → s' < w.emitter.subs.length := by
      intro entry hentry s' hs'
      rw [mem_singleton.1 hentry] at hs'
      simp only [Entry.invokes, Bool.true_and, decide_eq_true_eq] at hs'
      exact hs' ▸ hlt
    cases honce : sub.once with
    | true =>
      -- it was active, so it was never invoked, and it is removed
      have hp : Progress w d dispatch { dispatch with phase := .listening s rest } (w.emitter.remove s) [.turn d s true] := by
        refine ⟨hgoing, rfl, rfl, rfl, nofun, h.emitter.remove s, Emitter.extends_remove _ _, length_remove _ _,
          fun entry hentry => mem_singleton.1 hentry ▸ rfl, h.turns_concat hd hphase true, fun _ => ?_, nofun,
          hnamed, ?_⟩
        · refine ⟨active, hmem, fun s' hs' => (length_remove _ _).symm ▸ hactiveLt s' hs', hsnapshot.trans ?_⟩
          exact filter_congr fun s' hs' => ((Emitter.extends_remove _ _).covers (hactiveLt s' hs')).symm
        · intro s' sub' hsub' honce'
          rw [hcount]
          have hold := h.once_remove s s' sub' hsub' honce'
          by_cases heq : s = s'
          · subst heq
            have hbefore := h.once s sub hsub honce
            rw [if_pos hsubActive] at hbefore
            have hinactive : sub'.active = false := Bool.eq_false_iff.2 fun hactive' =>
              (Emitter.remove_getElem?_active.1 ⟨hsub', hactive'⟩).1 rfl
            rw [if_pos rfl, hinactive, if_neg Bool.false_ne_true]
            omega
          · rw [if_neg heq]
            exact hold
      have hinv := h.advance hd hp
      rw [hsub, any_some, honce]
      exact hinv
    | false =>
      have hp : Progress w d dispatch { dispatch with phase := .listening s rest } w.emitter [.turn d s true] := by
        refine ⟨hgoing, rfl, rfl, rfl, nofun, h.emitter, Emitter.Extends.refl _, rfl,
          fun entry hentry => mem_singleton.1 hentry ▸ rfl, h.turns_concat hd hphase true,
          fun _ => ⟨active, hmem, hactiveLt, hsnapshot⟩, nofun, hnamed, ?_⟩
        intro s' sub' hsub' honce'
        rw [hcount, if_neg]
        · exact h.once s' sub' hsub' honce'
        · rintro rfl
          rw [hsub] at hsub'
          cases hsub'
          rw [honce] at honce'
          cases honce'
      have hinv := h.advance hd hp
      rw [hsub, any_some, honce]
      exact hinv
  · exact h.advanceWith hd hgoing rfl rfl rfl nofun rfl rfl (fun _ => rfl) (h.turns_concat hd hphase false) (h.opened_concat hd hopen _)

theorem goOn (h : Inv w) (hd : w.dispatches[d]? = some dispatch) : Inv (w.goOn d dispatch) := by
  unfold EventsFacade.goOn
  split
  · next hphase => exact h.opens hd hphase
  · next hphase => exact h.advanceSilent hd (by rw [hphase]; rfl) nofun (by rw [hphase]; rfl) (by rw [hphase]; rfl)
  · next hphase => exact h.turn hd hphase
  · exact h

theorem settle (h : Inv w) (hd : w.dispatches[d]? = some dispatch) {outcome : Outcome} (houtcome : outcome ≠ .threw false) :
    Inv (w.settle d dispatch outcome) := by
  unfold EventsFacade.settle
  split
  · next s rest hphase =>
    split
    · exact absurd rfl houtcome
    · refine h.advanceWith hd (by rw [hphase]; rfl) rfl rfl rfl nofun rfl rfl (fun _ => rfl) ?_ (h.opened_concat hd (by rw [hphase]; rfl) _)
      have hturns := h.turns d dispatch hd
      rw [hphase] at hturns
      rw [filterMap_append, ← hturns]
      exact congrArg (· ++ rest) (append_nil _)
  · exact h

/-! ### A dispatch begins -/

/-- A dispatch that begins is the last of its calls, and that of an emitted event is off the queue. -/
structure Begins (w : EventsFacade) (dispatch : Dispatch) (begun : Nat) (emitting : Option Nat) (seq calls : Nat) : Prop where
  fresh : dispatch.snapshot = []
  closed : dispatch.phase.isOpen = false
  going : dispatch.phase.isSettled = false
  rest : dispatch.phase.rest = []
  grows : ∀ earlier ∈ w.dispatches, Grows earlier dispatch
  numbered : ∀ call, dispatch.call? = some call → call < calls ∧ dispatch.seq < seq ∧ ∀ job ∈ w.jobs.drop begun, call < job.call
  calls : w.calls ≤ calls
  seqs : w.seq ≤ seq
  queue : w.begun ≤ begun
  emitted : ∀ job, dispatch.job? = some job → job + 1 = begun ∧ emitting = some w.dispatches.length
  others : (begun = w.begun ∧ emitting = w.emitting) ∨ w.emitting.all w.isSettled = true

theorem dispatched (h : Inv w) {begun seq calls : Nat} {emitting : Option Nat} (hb : Begins w dispatch begun emitting seq calls) :
    Inv { w with
      seq := seq
      calls := calls
      begun := begun
      emitting := emitting
      dispatches := w.dispatches ++ [dispatch] } := by
  have hlt : ∀ entry ∈ w.log, entry.dispatch < w.dispatches.length := h.entries
  have hnew : ∀ (d : Nat) other, (w.dispatches ++ [dispatch])[d]? = some other →
      w.dispatches[d]? = some other ∨ d = w.dispatches.length ∧ other = dispatch := fun _ _ => getElem?_concat_cases
  have hmem : ∀ other ∈ w.dispatches ++ [dispatch], other ∈ w.dispatches ∨ other = dispatch := fun other hother =>
    (mem_append.1 hother).imp_right mem_singleton.1
  have hclosed : dispatch.phase ≠ .rejected := by
    intro heq
    have hgoing := hb.going
    rw [heq] at hgoing
    cases hgoing
  refine ⟨h.emitter, ?entries, ?emitted, ?begun, ?opens, ?turns, ?closed, h.named, h.once, ?isolated, h.replayed, ?grows,
    ?numbered, h.jobs, ?called⟩
  case entries =>
    intro entry hentry
    rw [length_append]
    exact Nat.lt_succ_of_lt (hlt entry hentry)
  case emitted =>
    have hsame : w.log.filterMap (fun entry => (w.dispatches ++ [dispatch])[entry.dispatch]?.bind Dispatch.job?) =
        w.log.filterMap fun entry => w.jobOf entry.dispatch :=
      filterMap_congr fun entry hentry => by
        rw [getElem?_append_left (hlt entry hentry)]
        rfl
    have hall := h.emitted
    rw [← hsame] at hall
    exact hall
  case begun =>
    intro d other job hd hjob
    rcases hnew d other hd with hd | ⟨rfl, rfl⟩
    · obtain ⟨hltJob, hlast⟩ := h.begun d other job hd hjob
      refine ⟨lt_of_lt_of_le hltJob hb.queue, fun hgoing => ?_⟩
      rcases hb.others with ⟨hbegun, hemitting⟩ | hsettled
      · rw [hbegun, hemitting]
        exact hlast hgoing
      · -- the dispatch before it has settled
        rw [(hlast hgoing).1, Option.all_some, EventsFacade.isSettled, hd, any_some, hgoing] at hsettled
        cases hsettled
    · obtain ⟨hlast, hemitting⟩ := hb.emitted job hjob
      exact ⟨Nat.lt_of_succ_le (le_of_eq hlast), fun _ => ⟨hemitting, hlast⟩⟩
  case opens =>
    intro d other hd hopen
    rcases hnew d other hd with hd | ⟨rfl, rfl⟩
    · exact h.opened d other hd hopen
    · rw [hb.closed] at hopen
      cases hopen
  case turns =>
    intro d other hd
    rcases hnew d other hd with hd | ⟨rfl, rfl⟩
    · exact h.turns d other hd
    · have hnone : w.log.filterMap (Entry.turnOf w.dispatches.length) = [] :=
        filterMap_eq_nil_iff.2 fun entry hentry => turnOf_eq_none (Nat.ne_of_lt (hlt entry hentry))
      have hturns : w.log.filterMap (Entry.turnOf w.dispatches.length) ++ other.phase.rest = other.snapshot := by
        rw [hnone, hb.rest, hb.fresh]
        rfl
      exact hturns
  case closed =>
    intro other hother
    rcases hmem other hother with hother | rfl
    · exact h.closed other hother
    · exact fun _ => hb.fresh
  case isolated =>
    intro other hother
    rcases hmem other hother with hother | rfl
    · exact h.isolated other hother
    · exact hclosed
  case grows =>
    refine pairwise_append.2 ⟨h.grows, pairwise_singleton _ _, fun earlier hearlier later hlater => ?_⟩
    rw [mem_singleton.1 hlater]
    exact hb.grows earlier hearlier
  case numbered =>
    intro other hother call hcall
    rcases hmem other hother with hother | rfl
    · obtain ⟨hcalls, hseq, hjobs⟩ := h.numbered other hother call hcall
      refine ⟨lt_of_lt_of_le hcalls hb.calls, lt_of_lt_of_le hseq hb.seqs, fun job hjob => ?_⟩
      exact hjobs job ((drop_sublist_drop_left w.jobs hb.queue).subset hjob)
    · exact hb.numbered call hcall
  case called => exact fun job hjob => lt_of_lt_of_le (h.called job hjob) hb.calls

theorem first_phase {store : Bool} {phase : DispatchPhase} (hphase : phase = if store then .persisting else .opening) :
    phase.isOpen = false ∧ phase.isSettled = false ∧ phase.rest = [] := by
  subst hphase
  cases store <;> exact ⟨rfl, rfl, rfl⟩

theorem publish (h : Inv w) (name : String) (hqueue : w.begun = w.jobs.length) : Inv (w.publish name) := by
  obtain ⟨hclosed, hgoing, hrest⟩ := @first_phase (w.store && w.persist) _ rfl
  have hdrop : w.jobs.drop w.begun = [] := drop_of_length_le (le_of_eq hqueue.symm)
  refine h.dispatched ⟨rfl, hclosed, hgoing, hrest, ?_, ?_, Nat.le_succ _, Nat.le_succ _, le_rfl, nofun, .inl ⟨rfl, rfl⟩⟩
  · intro earlier hearlier call call' hcall hcall'
    obtain ⟨hcalls, hseq, -⟩ := h.numbered earlier hearlier call hcall
    obtain rfl := some.inj hcall'
    exact ⟨hcalls, hseq⟩
  · intro call hcall
    obtain rfl := some.inj hcall
    refine ⟨Nat.lt_succ_self _, Nat.lt_succ_self _, fun job hjob => ?_⟩
    have hjob' : job ∈ w.jobs.drop w.begun := hjob
    rw [hdrop] at hjob'
    exact absurd hjob' not_mem_nil

theorem publishAsync (h : Inv w) (name : String) : Inv (w.publishAsync name) := by
  refine { h with numbered := ?_, jobs := ?_, called := ?_ }
  · intro dispatch hdispatch call hcall
    obtain ⟨hcalls, hseq, hjobs⟩ := h.numbered dispatch hdispatch call hcall
    refine ⟨Nat.lt_succ_of_lt hcalls, hseq, fun job hjob => ?_⟩
    have hjob' : job ∈ List.drop w.begun (w.jobs ++ [⟨name, w.calls⟩]) := hjob
    rw [drop_append] at hjob'
    rcases mem_append.1 hjob' with hjob' | hjob'
    · exact hjobs job hjob'
    · rw [mem_singleton.1 (mem_of_mem_drop hjob')]
      exact hcalls
  · refine pairwise_append.2 ⟨h.jobs, pairwise_singleton _ _, fun job hjob job' hjob' => ?_⟩
    rw [mem_singleton.1 hjob']
    exact h.called job hjob
  · intro job hjob
    rcases mem_append.1 hjob with hjob | hjob
    · exact Nat.lt_succ_of_lt (h.called job hjob)
    · rw [mem_singleton.1 hjob]
      exact Nat.lt_succ_self _

theorem begin (h : Inv w) : Inv w.begin := by
  unfold EventsFacade.begin
  split
  · exact h
  · next job hjob =>
    split
    · next hsettled =>
      obtain ⟨hclosed, hgoing, hrest⟩ := @first_phase (w.store && w.persist) _ rfl
      obtain ⟨hlt, hget⟩ := List.getElem?_eq_some_iff.1 hjob
      have hdrop : w.jobs.drop w.begun = job :: w.jobs.drop (w.begun + 1) := by
        rw [drop_eq_getElem_cons hlt, hget]
      refine h.dispatched ⟨rfl, hclosed, hgoing, hrest, ?_, ?_, le_rfl, Nat.le_succ _, Nat.le_succ _, ?_, .inr hsettled⟩
      · intro earlier hearlier call call' hcall hcall'
        obtain ⟨-, hseq, hjobs⟩ := h.numbered earlier hearlier call hcall
        obtain rfl := some.inj hcall'
        exact ⟨hjobs job (hdrop ▸ mem_cons_self), hseq⟩
      · intro call hcall
        obtain rfl := some.inj hcall
        refine ⟨h.called job (mem_of_getElem? hjob), Nat.lt_succ_self _, ?_⟩
        have hpairwise := h.jobs.drop (i := w.begun)
        rw [hdrop] at hpairwise
        exact fun later hlater => rel_of_pairwise_cons hpairwise hlater
      · intro place hplace
        obtain rfl := some.inj hplace
        exact ⟨rfl, rfl⟩
    · exact h

/-! ### Replays -/

theorem setReplays (h : Inv w) {replays : List ReplayPhase} (hreplays : ∀ phase ∈ replays, phase ≠ .rejected) :
    Inv { w with replays := replays } :=
  ⟨h.emitter, h.entries, h.emitted, h.begun, h.opened, h.turns, h.closed, h.named, h.once, h.isolated, hreplays, h.grows,
    h.numbered, h.jobs, h.called⟩

theorem setReplay (h : Inv w) (r : Nat) {phase : ReplayPhase} (hphase : phase ≠ .rejected) :
    Inv { w with replays := w.replays.set r phase } :=
  h.setReplays fun other hother => by
    rcases mem_or_eq_of_mem_set hother with hold | rfl
    · exact h.replayed other hold
    · exact hphase

theorem replay (h : Inv w) : Inv w.replay := by
  unfold EventsFacade.replay
  split
  · refine h.setReplays fun phase hphase => ?_
    rcases mem_append.1 hphase with hphase | hphase
    · exact h.replayed phase hphase
    · rw [mem_singleton.1 hphase]
      exact nofun
  · exact h

theorem replayOn (h : Inv w) (r : Nat) (phase : ReplayPhase) : Inv (w.replayOn r phase) := by
  unfold EventsFacade.replayOn
  split
  · next rest current =>
    split
    · next hrejected =>
      -- no dispatch is rejected
      obtain ⟨hsome, hany⟩ := (Option.any_eq_true_iff_get _ _).1 hrejected
      obtain ⟨hsome', hphase⟩ := (Option.any_eq_true_iff_get _ _).1 hany
      have hmem := mem_of_getElem? (Option.some_get hsome').symm
      exact absurd (of_decide_eq_true hphase) (h.isolated _ hmem)
    split
    · split
      · exact h.setReplay r nofun
      · next name seq rest =>
        have hbegins : Begins w ⟨name, seq, .replayed r, [], .opening⟩ w.begun w.emitting w.seq w.calls :=
          ⟨rfl, rfl, rfl, rfl, (fun _ _ _ _ _ hcall => nomatch hcall), (fun _ hcall => nomatch hcall), le_rfl, le_rfl,
            le_rfl, (fun _ hjob => nomatch hjob), .inl ⟨rfl, rfl⟩⟩
        exact (h.dispatched hbegins).setReplay r nofun
    · exact h
  · exact h

theorem step (h : Inv w) (e : Event) (hgo : Orderly w e) : Inv (stepFacade w e) := by
  unfold stepFacade
  cases e with
  | subscribe key once => exact h.subscribe key once
  | unsubscribe s => exact h.unsubscribe s
  | publish name => exact h.publish name hgo
  | emit name => exact h.publishAsync name
  | begin => exact h.begin
  | stored d =>
    dsimp only
    split
    · next hd => exact h.stored hd
    · exact h
  | goOn d =>
    dsimp only
    split
    · next hd => exact h.goOn hd
    · exact h
  | settle d outcome =>
    dsimp only
    split
    · next hd => exact h.settle hd hgo
    · exact h
  | replay => exact h.replay
  | read r envelopes =>
    dsimp only
    split
    · exact h.setReplay r nofun
    · exact h
  | replayOn r =>
    dsimp only
    split
    · exact h.replayOn r _
    · exact h

end Inv

/-! ## Runs -/

/-- A one-shot wildcard listener and an exact one; `publish` while nothing waits, then `emit`. -/
def orderlyRun : List Event :=
  [.subscribe "user.*" true, .subscribe "user.created" false, .publish "user.created", .goOn 0, .goOn 0, .emit "user.created",
    .settle 0 (.threw true), .goOn 0, .begin, .goOn 1, .settle 0 .returned, .goOn 0, .goOn 1, .settle 1 .returned, .goOn 1]

/-- `emit`, and `publish` before the queue goes on. -/
def publishedMeanwhile : List Event := [.emit "user.created", .publish "user.updated", .begin]

/-- A listener throws an object without a prototype. -/
def unserializable : List Event :=
  [.subscribe "user.created" false, .subscribe "user.created" false, .publish "user.created", .goOn 0, .goOn 0, .settle 0 (.threw false)]

end StreetJS.Events
