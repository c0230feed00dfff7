/-
Publishes are confirmed: a publish resolves only for a message whose tag the broker has acked, and one that is nacked
is rejected, exactly when every publish that finds the exchange declared finds confirms enabled on its connection.
-/
import StreetJS.Lib.Runs
import StreetJS.Lib.ListSet
import StreetJS.Amqp.Publisher

namespace StreetJS.Amqp

open StreetJS.Lib List OrderedMap
open Option (some.injEq)

/-! ## Verdicts -/

theorem verdict_append (fs gs : List Confirm) (tag : Nat) : verdict (fs ++ gs) tag = (verdict fs tag).or (verdict gs tag) := by
  unfold verdict
  rw [find?_append]
  cases fs.find? fun f => f.covers tag <;> rfl

theorem verdict_singleton (f : Confirm) (tag : Nat) : verdict [f] tag = if f.covers tag then some f.nack else none := by
  unfold verdict
  cases hf : f.covers tag <;> simp [hf]

theorem verdict_above {fs : List Confirm} {n tag : Nat} (h : ∀ f ∈ fs, f.tag ≤ n) (htag : n < tag) : verdict fs tag = none := by
  unfold verdict
  rw [Option.map_eq_none_iff, find?_eq_none]
  intro f hf hcovers
  have := h f hf
  unfold Confirm.covers at hcovers
  split at hcovers
  all_goals
    rw [decide_eq_true_eq] at hcovers
    omega

/-- What a verdict makes of the promise of a message. -/
def outcomeOf : Option Bool → Outcome
  | none => .pending
  | some true => .rejected
  | some false => .resolved

/-! ## The confirm of a connection -/

section

variable (c : AmqpConnection) (nack : Bool)

theorem get_resolveTags (keys : List Nat) (tag : Nat) : (keys.foldl (fun c key => c.resolveTag key nack) c).confirmWaiters.get tag =
      if tag ∈ keys then none else c.confirmWaiters.get tag := by
  induction keys generalizing c with
  | nil => rfl
  | cons key keys ih =>
    rw [foldl_cons, ih]
    have hkey : (c.resolveTag key nack).confirmWaiters.get tag = if tag = key then none else c.confirmWaiters.get tag := by
      unfold AmqpConnection.resolveTag
      cases hget : c.confirmWaiters.get key with
      | some message => exact get_delete _ _ _
      | none =>
        by_cases htag : tag = key
        · rw [if_pos htag, htag]
          exact hget
        · rw [if_neg htag]
    rw [hkey]
    by_cases htag : tag = key
    · simp [htag]
    · simp [htag]

theorem settled_resolveTags (keys : List Nat) {m : Nat} {o : Outcome} (ho : o ≠ .pending)
    (hm : c.publishes[m]? = some o) : (keys.foldl (fun c key => c.resolveTag key nack) c).publishes[m]? = some o := by
  induction keys generalizing c with
  | nil => exact hm
  | cons key keys ih =>
    rw [foldl_cons]
    apply ih
    unfold AmqpConnection.resolveTag
    split
    · rw [getElem?_modify, hm]
      cases o with
      | pending => exact absurd rfl ho
      | _ => split <;> rfl
    · exact hm

theorem untouched_resolveTags (keys : List Nat) {m : Nat} (hm : ∀ tag ∈ keys, c.confirmWaiters.get tag ≠ some m) :
    (keys.foldl (fun c key => c.resolveTag key nack) c).publishes[m]? = c.publishes[m]? := by
  induction keys generalizing c with
  | nil => rfl
  | cons key keys ih =>
    have hkey : (c.resolveTag key nack).publishes[m]? = c.publishes[m]? := by
      unfold AmqpConnection.resolveTag
      split
      · next message hget =>
        have hne : message ≠ m := by
          rintro rfl
          exact hm key mem_cons_self hget
        simp only [getElem?_modify, if_neg hne, id_map']
      · rfl
    rw [foldl_cons, ih, hkey]
    intro tag htag hget
    have hsame := get_resolveTags c nack [key] tag
    rw [foldl_cons, foldl_nil] at hsame
    rw [hsame] at hget
    split at hget
    · cases hget
    · exact hm tag (mem_cons_of_mem _ htag) hget

theorem settle_resolveTags {keys : List Nat} {m tag : Nat} (htag : tag ∈ keys) (hget : c.confirmWaiters.get tag = some m)
    (hm : c.publishes[m]? = some .pending) :
    (keys.foldl (fun c key => c.resolveTag key nack) c).publishes[m]? = some (if nack then .rejected else .resolved) := by
  induction keys generalizing c with
  | nil => cases htag
  | cons key keys ih =>
    rw [foldl_cons]
    by_cases hkey : c.confirmWaiters.get key = some m
    · apply settled_resolveTags
      · split <;> simp
      · unfold AmqpConnection.resolveTag
        simp [hkey, hm, Outcome.settle]
    · have hne : tag ≠ key := by
        rintro rfl
        exact hkey hget
      have hget' := get_resolveTags c nack [key] tag
      have hm' := untouched_resolveTags c nack [key] (m := m) (by simpa using hkey)
      rw [foldl_cons, foldl_nil] at hget' hm'
      refine ih (c.resolveTag key nack) ?_ ?_ ?_
      · rcases mem_cons.1 htag with rfl | htag
        · exact absurd rfl hne
        · exact htag
      · rw [hget', if_neg (by simpa using hne), hget]
      · rw [hm', hm]

theorem length_resolveTags (keys : List Nat) : (keys.foldl (fun c key => c.resolveTag key nack) c).publishes.length = c.publishes.length := by
  induction keys generalizing c with
  | nil => rfl
  | cons key keys ih =>
    rw [foldl_cons, ih]
    unfold AmqpConnection.resolveTag
    split <;> simp

theorem confirm_eq_resolveTags (f : Confirm) : ∃ keys : List Nat, c.confirm f.tag f.multiple f.nack =
    keys.foldl (fun c key => c.resolveTag key f.nack) c ∧
      ∀ tag m, c.confirmWaiters.get tag = some m → (tag ∈ keys ↔ f.covers tag = true) := by
  unfold AmqpConnection.confirm Confirm.covers
  cases f.multiple with
  | true =>
    refine ⟨_, rfl, fun tag m hget => ?_⟩
    rw [if_pos rfl, mem_filter]
    exact and_iff_right (mem_map.2 ⟨_, get_mem hget, rfl⟩)
  | false => exact ⟨[f.tag], rfl, fun tag m _ => by simp⟩

end

/-! ## Messages and tags -/

/-- The messages among the frames. -/
def messages (frames : List ClientFrame) : List Nat :=
  frames.filterMap fun
    | .publish m => some m
    | .request _ _ => none

@[simp] theorem messages_append (fs gs : List ClientFrame) : messages (fs ++ gs) = messages fs ++ messages gs :=
  filterMap_append

@[simp] theorem messages_publish (m : Nat) (fs : List ClientFrame) : messages (.publish m :: fs) = m :: messages fs := rfl

@[simp] theorem messages_nil : messages [] = [] := rfl

@[simp] theorem messages_request (i : Nat) (op : Op) (fs : List ClientFrame) : messages (.request i op :: fs) = messages fs := rfl

/-- The messages that have been sent, in order. -/
def Link.wire (L : Link) : List Nat := L.tagged ++ messages L.conn.sent

/-- A message that is sent has, as its tag, its place among them; its promise is as the confirms that have come for
the tag say. -/
structure TagOk (L : Link) : Prop where
  assigned : ∀ f ∈ L.arrived ++ L.inbox, 1 ≤ f.tag ∧ f.tag ≤ L.tagged.length
  nextTag : L.conn.connected = true → L.conn.nextPublishTag = L.wire.length + 1
  nextTag_le : L.wire.length + 1 ≤ L.conn.nextPublishTag
  fresh : ∀ m ∈ L.wire, m < L.conn.publishes.length
  nodup : L.wire.Nodup
  tag : ∀ t m, L.wire[t]? = some m → L.conn.publishes[m]? = some (outcomeOf (verdict L.arrived (t + 1))) ∧
    L.conn.confirmWaiters.get (t + 1) = if verdict L.arrived (t + 1) = none then some m else none
  waits : ∀ tag m, L.conn.confirmWaiters.get tag = some m → (∃ t, tag = t + 1 ∧ L.wire[t]? = some m) ∨ L.conn.publishes[m]? = some .rejected
  unsent : ∀ m o, L.conn.publishes[m]? = some o → m ∈ L.wire ∨ o = .rejected

namespace TagOk

variable {L : Link}

theorem init : TagOk {} where
  assigned := by simp
  nextTag := fun _ => rfl
  nextTag_le := le_rfl
  fresh := by simp [Link.wire]
  nodup := nodup_nil
  tag := by simp [Link.wire]
  waits := by simp
  unsent := by simp

theorem frame (h : TagOk L) {L' : Link} (hwire : L'.wire = L.wire) (htagged : L.tagged.length ≤ L'.tagged.length)
    (harrived : L'.arrived = L.arrived) (hinbox : L'.inbox = L.inbox)
    (hconnected : L'.conn.connected = true → L.conn.connected = true)
    (hnext : L'.conn.nextPublishTag = L.conn.nextPublishTag) (hwaiters : L'.conn.confirmWaiters = L.conn.confirmWaiters)
    (hpublishes : L'.conn.publishes = L.conn.publishes) : TagOk L' where
  assigned := by
    rw [harrived, hinbox]
    exact fun f hf => ⟨(h.assigned f hf).1, le_trans (h.assigned f hf).2 htagged⟩
  nextTag := by
    rw [hnext, hwire]
    exact fun hc => h.nextTag (hconnected hc)
  nextTag_le := by rw [hnext, hwire]; exact h.nextTag_le
  fresh := by rw [hwire, hpublishes]; exact h.fresh
  nodup := by rw [hwire]; exact h.nodup
  tag := by rw [hwire, harrived, hwaiters, hpublishes]; exact h.tag
  waits := by rw [hwire, hwaiters, hpublishes]; exact h.waits
  unsent := by rw [hwire, hpublishes]; exact h.unsent

theorem verdict_wire (h : TagOk L) {t : Nat} (ht : L.wire.length ≤ t) : verdict L.arrived (t + 1) = none := by
  have hlen : L.tagged.length ≤ L.wire.length := by
    rw [Link.wire, length_append]
    omega
  exact verdict_above (fun f hf => (h.assigned f (mem_append_left _ hf)).2) (by omega)

theorem publish (h : TagOk L) (hc : L.conn.connected = true) (he : L.conn.confirmEnabled = true) :
    TagOk { L with conn := L.conn.publish } := by
  obtain ⟨L', hL'⟩ : ∃ L', L' = ({ L with conn := L.conn.publish } : Link) := ⟨_, rfl⟩
  have hwire : L'.wire = L.wire ++ [L.conn.publishes.length] := by
    rw [hL']
    simp [Link.wire, AmqpConnection.publish, hc]
  have hpublishes : L'.conn.publishes = L.conn.publishes ++ [.pending] := by
    rw [hL']
    simp [AmqpConnection.publish, hc, he]
  have hwaiters : L'.conn.confirmWaiters = L.conn.confirmWaiters.set L.conn.nextPublishTag L.conn.publishes.length := by
    rw [hL']
    simp [AmqpConnection.publish, hc, he]
  have hnext : L'.conn.nextPublishTag = L.conn.nextPublishTag + 1 := by
    rw [hL']
    simp [AmqpConnection.publish, hc, he]
  have harrived : L'.arrived = L.arrived := by rw [hL']
  have htag := h.nextTag hc
  rw [← hL']
  refine ⟨by rw [hL']; exact h.assigned, fun _ => ?_, ?_, fun m hm => ?_, ?_, fun t m hm => ?_, fun tag m hm => ?_, fun m o hm => ?_⟩
  · rw [hnext, hwire, htag, length_append, length_singleton]
  · rw [hnext, hwire, htag, length_append, length_singleton]
  · rw [hwire, mem_append, mem_singleton] at hm
    rw [hpublishes, length_append, length_singleton]
    rcases hm with hm | rfl
    · have := h.fresh m hm
      omega
    · omega
  · rw [hwire, nodup_append]
    refine ⟨h.nodup, nodup_cons.2 ⟨not_mem_nil, nodup_nil⟩, fun m hm m' hm' => ?_⟩
    rw [mem_singleton] at hm'
    subst hm'
    exact Nat.ne_of_lt (h.fresh m hm)
  · rw [hwire] at hm
    rw [hpublishes, harrived, hwaiters, get_set, htag, getElem?_concat_iff]
    rcases getElem?_concat_cases hm with hm | ⟨rfl, rfl⟩
    · obtain ⟨hp, hw⟩ := h.tag t m hm
      have hlt := (lt_length hm)
      exact ⟨.inl hp, by rw [if_neg (by omega)]; exact hw⟩
    · rw [h.verdict_wire le_rfl]
      exact ⟨.inr ⟨rfl, rfl⟩, by simp⟩
  · rw [hwaiters, get_set, htag] at hm
    rw [hwire, hpublishes]
    by_cases htag' : tag = L.wire.length + 1
    · rw [if_pos htag', some.injEq] at hm
      exact .inl ⟨L.wire.length, htag', getElem?_concat_iff.2 (.inr ⟨rfl, hm.symm⟩)⟩
    · rw [if_neg htag'] at hm
      rcases h.waits tag m hm with ⟨t, rfl, ht⟩ | hrej
      · exact .inl ⟨t, rfl, getElem?_concat_iff.2 (.inl ht)⟩
      · exact .inr (getElem?_concat_iff.2 (.inl hrej))
  · rw [hpublishes] at hm
    rw [hwire, mem_append, mem_singleton]
    rcases getElem?_concat_cases hm with hm | ⟨hm, -⟩
    · exact (h.unsent m o hm).imp .inl id
    · exact .inl (.inr hm)

theorem publish_disconnected (h : TagOk L) (hc : L.conn.connected = false) : TagOk { L with conn := L.conn.publish } := by
  obtain ⟨L', hL'⟩ : ∃ L', L' = ({ L with conn := L.conn.publish } : Link) := ⟨_, rfl⟩
  have hwire : L'.wire = L.wire := by
    rw [hL']
    unfold Link.wire AmqpConnection.publish
    split_ifs <;> simp_all
  have hpublishes : L'.conn.publishes = L.conn.publishes ++ [.rejected] := by
    rw [hL']
    simp [AmqpConnection.publish, hc]
  have hwaiters : ∀ tag, L'.conn.confirmWaiters.get tag = L.conn.confirmWaiters.get tag ∨
      tag = L.conn.nextPublishTag ∧ L'.conn.confirmWaiters.get tag = some L.conn.publishes.length := by
    intro tag
    rw [hL']
    cases he : L.conn.confirmEnabled with
    | false => exact .inl (by simp [AmqpConnection.publish, hc, he])
    | true =>
      by_cases htag : tag = L.conn.nextPublishTag
      · exact .inr ⟨htag, by simp [AmqpConnection.publish, hc, he, htag]⟩
      · exact .inl (by simp [AmqpConnection.publish, hc, he, htag])
  have hnext : L.conn.nextPublishTag ≤ L'.conn.nextPublishTag := by
    rw [hL']
    unfold AmqpConnection.publish
    split_ifs <;> simp
  have hconn : L'.conn.connected = false := by
    rw [hL']
    unfold AmqpConnection.publish
    split_ifs <;> simp_all
  have harrived : L'.arrived = L.arrived := by rw [hL']
  have hle := h.nextTag_le
  rw [← hL']
  refine ⟨by rw [hL']; exact h.assigned, fun hc' => ?_, ?_, fun m hm => ?_, by rw [hwire]; exact h.nodup, fun t m hm => ?_,
    fun tag m hm => ?_, fun m o hm => ?_⟩
  · rw [hconn] at hc'
    cases hc'
  · rw [hwire]
    exact le_trans hle hnext
  · rw [hwire] at hm
    rw [hpublishes, length_append]
    exact Nat.lt_add_right _ (h.fresh m hm)
  · rw [hwire] at hm
    obtain ⟨hp, hw⟩ := h.tag t m hm
    have hlt := (lt_length hm)
    rw [hpublishes, harrived]
    refine ⟨getElem?_concat_iff.2 (.inl hp), ?_⟩
    rcases hwaiters (t + 1) with hsame | ⟨htag, -⟩
    · rw [hsame]
      exact hw
    · omega
  · rw [hwire, hpublishes]
    rcases hwaiters tag with hsame | ⟨-, hnew⟩
    · rw [hsame] at hm
      exact (h.waits tag m hm).imp id fun hrej => getElem?_concat_iff.2 (.inl hrej)
    · rw [hnew, some.injEq] at hm
      exact .inr (getElem?_concat_iff.2 (.inr ⟨hm.symm, rfl⟩))
  · rw [hpublishes] at hm
    rw [hwire]
    rcases getElem?_concat_cases hm with hm | ⟨-, rfl⟩
    · exact h.unsent m o hm
    · exact .inr rfl

theorem send (h : TagOk L) (f : Confirm) : TagOk (L.send f) := by
  unfold Link.send
  split
  · next hf =>
    refine ⟨fun g hg => ?_, h.nextTag, h.nextTag_le, h.fresh, h.nodup, h.tag, h.waits, h.unsent⟩
    rw [← append_assoc, mem_append, mem_singleton] at hg
    rcases hg with hg | rfl
    · exact h.assigned g hg
    · exact hf
  · exact h

theorem arrive (h : TagOk L) : TagOk L.arrive := by
  unfold Link.arrive
  split
  · exact h
  next f rest hinbox =>
  obtain ⟨keys, hconfirm, hkeys⟩ := confirm_eq_resolveTags L.conn f
  obtain ⟨publishes, confirmWaiters, hconn⟩ := L.conn.confirm_eq f.tag f.multiple f.nack
  have hlen := length_resolveTags L.conn f.nack keys
  have hget := get_resolveTags L.conn f.nack keys
  have hsettled := fun m o => @settled_resolveTags L.conn f.nack keys m o
  have huntouched := fun m => @untouched_resolveTags L.conn f.nack keys m
  have hsettle := fun m tag => @settle_resolveTags L.conn f.nack keys m tag
  simp only [← hconfirm, hconn] at hlen hget hsettled huntouched hsettle
  rw [hconn]
  refine ⟨fun g hg => ?_, h.nextTag, h.nextTag_le, fun m hm => ?_, h.nodup, fun t m hm => ?_, fun tag m hm => ?_, fun m o hm => ?_⟩
  · rw [append_assoc, singleton_append, ← hinbox] at hg
    exact h.assigned g hg
  · rw [hlen]
    exact h.fresh m hm
  · obtain ⟨hp, hw⟩ := h.tag t m hm
    rw [verdict_append, verdict_singleton, hget]
    cases hv : verdict L.arrived (t + 1) with
    | some nack =>
      rw [hv] at hp hw
      refine ⟨hsettled m _ (by cases nack <;> simp [outcomeOf]) hp, ?_⟩
      rw [hw]
      simp
    | none =>
      rw [hv] at hp hw
      have hmem := hkeys (t + 1) m hw
      by_cases hcovers : f.covers (t + 1) = true
      · rw [if_pos hcovers, if_pos (hmem.2 hcovers)]
        refine ⟨?_, by simp⟩
        rw [hsettle m (t + 1) (hmem.2 hcovers) hw hp]
        cases f.nack <;> rfl
      · rw [if_neg hcovers, if_neg (mt hmem.1 hcovers)]
        refine ⟨?_, hw⟩
        -- the message waits for no other tag
        rw [huntouched m fun tag htag hother => ?_]
        · exact hp
        · rcases h.waits tag m hother with ⟨s, rfl, hs⟩ | hrej
          · have hst : s = t := by
              have hlt := (lt_length hs)
              exact (getElem?_inj hlt h.nodup).1 (hs.trans hm.symm)
            subst hst
            exact hcovers (hmem.1 htag)
          · rw [hp] at hrej
            simp [outcomeOf] at hrej
  · rw [hget] at hm
    split at hm
    · cases hm
    · exact (h.waits tag m hm).imp id fun hrej => hsettled m _ (by simp) hrej
  · have hlt := (lt_length hm)
    rw [hlen] at hlt
    rcases h.unsent m _ (getElem?_eq_getElem hlt) with hwire | hrej
    · exact .inl hwire
    · have hrej' := hsettled m .rejected (by simp) (by rw [getElem?_eq_getElem hlt, hrej])
      rw [hrej', some.injEq] at hm
      exact .inr hm.symm

end TagOk

/-! ## Confirm mode -/

/-- Confirms are enabled, and messages are sent, only when the broker has been asked for confirms. -/
structure SelectOk (L : Link) : Prop where
  waiter : ∀ key i, L.conn.waiters.get key = some i → ∃ call, L.conn.calls[i]? = some call ∧ call.op.expects = key
  replied : ∀ (i : Nat) args, L.conn.calls[i]? = some { op := .enableConfirms, outcome := .replied args } →
    L.selected = true ∧ (i ∈ L.conn.microtasks ∨ L.conn.confirmEnabled = true)
  resolved : ∀ (i : Nat) op, L.conn.calls[i]? = some { op, outcome := .resolved } → L.conn.confirmEnabled = true
  enabled : L.conn.confirmEnabled = true → L.selected = true
  queued : ∀ m ∈ messages L.conn.sent, L.selected = true

namespace SelectOk

variable {L : Link}

theorem init : SelectOk {} where
  waiter := by simp
  replied := by simp
  resolved := by simp
  enabled := by simp
  queued := by simp

theorem frame (h : SelectOk L) {L' : Link} (hcalls : L'.conn.calls = L.conn.calls) (hwaiters : L'.conn.waiters = L.conn.waiters)
    (hmicrotasks : L'.conn.microtasks = L.conn.microtasks) (henabled : L'.conn.confirmEnabled = L.conn.confirmEnabled)
    (hselected : L'.selected = L.selected) (hqueued : ∀ m ∈ messages L'.conn.sent, L.selected = true) : SelectOk L' where
  waiter := by rw [hcalls, hwaiters]; exact h.waiter
  replied := by rw [hcalls, hmicrotasks, henabled, hselected]; exact h.replied
  resolved := by rw [hcalls, henabled]; exact h.resolved
  enabled := by rw [henabled, hselected]; exact h.enabled
  queued := by rw [hselected]; exact hqueued

theorem call (h : SelectOk L) (op : Op) : SelectOk { L with conn := L.conn.call op } := by
  -- the calls that are added have no reply
  have hadd : ∀ {calls : List Call} {o : Outcome}, calls = L.conn.calls ++ [{ op, outcome := o }] →
      (∀ args, o ≠ .replied args) → ∀ (i : Nat) args, calls[i]? = some { op := .enableConfirms, outcome := .replied args } →
      L.conn.calls[i]? = some { op := .enableConfirms, outcome := .replied args } := by
    rintro calls o rfl ho i args hi
    rcases getElem?_concat_cases hi with hi | ⟨-, hi⟩
    · exact hi
    · rw [Call.mk.injEq] at hi
      exact absurd hi.2.symm (ho args)
  unfold AmqpConnection.call
  split
  · next he =>
    refine ⟨fun key i hi => ?_, fun i args hi => h.replied i args (hadd rfl (by simp) i args hi), fun _ _ _ => he.2, h.enabled, h.queued⟩
    obtain ⟨call, hcall, hexp⟩ := h.waiter key i hi
    exact ⟨call, getElem?_concat_iff.2 (.inl hcall), hexp⟩
  · have hcalls : ∃ o, o ≠ .resolved ∧ (∀ args, o ≠ .replied args) ∧ (L.conn.rpc op).calls = L.conn.calls ++ [{ op, outcome := o }] := by
      cases hc : L.conn.connected with
      | true => exact ⟨.pending, by simp, by simp, by simp [AmqpConnection.rpc, hc]⟩
      | false => exact ⟨.rejected, by simp, by simp, by simp [AmqpConnection.rpc, hc]⟩
    obtain ⟨o, hres, hrep, hcalls⟩ := hcalls
    have hwaiters : (L.conn.rpc op).waiters = L.conn.waiters.set op.expects L.conn.calls.length := by
      unfold AmqpConnection.rpc
      split <;> rfl
    have henabled : (L.conn.rpc op).confirmEnabled = L.conn.confirmEnabled := by
      unfold AmqpConnection.rpc
      split <;> rfl
    have hmicrotasks : (L.conn.rpc op).microtasks = L.conn.microtasks := by
      unfold AmqpConnection.rpc
      split <;> rfl
    have hmessages : messages (L.conn.rpc op).sent = messages L.conn.sent := by
      unfold AmqpConnection.rpc
      split <;> simp
    refine ⟨fun key i hi => ?_, fun i args hi => ?_, fun i op' hi => ?_, ?_, ?_⟩
    · simp only [hwaiters, get_set] at hi
      simp only [hcalls]
      by_cases hkey : key = op.expects
      · rw [if_pos hkey, some.injEq] at hi
        exact ⟨_, getElem?_concat_iff.2 (.inr ⟨hi.symm, rfl⟩), hkey.symm⟩
      · rw [if_neg hkey] at hi
        obtain ⟨call, hcall, hexp⟩ := h.waiter key i hi
        exact ⟨call, getElem?_concat_iff.2 (.inl hcall), hexp⟩
    · simp only [hmicrotasks, henabled]
      exact h.replied i args (hadd hcalls hrep i args hi)
    · simp only [hcalls] at hi
      simp only [henabled]
      rcases getElem?_concat_cases hi with hi | ⟨-, hi⟩
      · exact h.resolved i op' hi
      · rw [Call.mk.injEq] at hi
        exact absurd hi.2.symm hres
    · simpa only [henabled] using h.enabled
    · simpa only [hmessages] using h.queued

theorem serve (h : SelectOk L) (args : Bytes) : SelectOk (L.serve args) := by
  unfold Link.serve
  split
  · exact h
  · next m rest hsent =>
    refine h.frame rfl rfl rfl rfl rfl fun m' hm' => h.queued m' ?_
    rw [hsent, messages_publish]
    exact mem_cons_of_mem _ hm'
  · next i op rest hsent =>
    have hselected : L.selected = true → (L.selected || decide (op = .enableConfirms)) = true := fun hs => by rw [hs]; rfl
    have hqueued : ∀ m ∈ messages rest, L.selected = true := fun m hm => h.queued m (by rw [hsent]; exact hm)
    unfold AmqpConnection.handleReply
    split
    · next j hj =>
      obtain ⟨call, hcall, hexp⟩ := h.waiter _ j hj
      have hcases : ∀ {k : Nat} {op' : Op} {o : Outcome},
          ({ L.conn with sent := rest }.settleCall j (.replied args)).calls[k]? = some { op := op', outcome := o } →
          L.conn.calls[k]? = some { op := op', outcome := o } ∨ k = j ∧ op' = call.op ∧ o = .replied args := by
        intro k op' o hk
        simp only [AmqpConnection.settleCall, getElem?_modify] at hk
        by_cases hkj : j = k
        · obtain ⟨cop, cout⟩ := call
          cases cout <;> simp_all [Outcome.settle]
        · simp only [hkj, if_false, id_map'] at hk
          exact .inl hk
      refine ⟨fun key k hk => ?_, fun k args' hk => ?_, fun k op' hk => ?_, fun he => hselected (h.enabled he),
        fun m hm => hselected (hqueued m hm)⟩
      · simp only [get_delete] at hk
        split at hk
        · cases hk
        · obtain ⟨call', hcall', hexp'⟩ := h.waiter key k hk
          simp only [AmqpConnection.settleCall, getElem?_modify, hcall']
          exact ⟨_, rfl, by split <;> exact hexp'⟩
      · rcases hcases hk with hk | ⟨rfl, hop, -⟩
        · obtain ⟨hs, hrest⟩ := h.replied k args' hk
          exact ⟨hselected hs, hrest.imp (mem_append_left _) id⟩
        · refine ⟨?_, .inl (mem_append_right _ (mem_singleton.2 rfl))⟩
          have hop' : op = .enableConfirms := by
            rw [← hop] at hexp
            cases op <;> simp [Op.expects] at hexp ⊢
          simp [hop']
      · rcases hcases hk with hk | ⟨-, -, ho⟩
        · exact h.resolved k op' hk
        · cases ho
    · exact ⟨h.waiter, fun k args' hk => ⟨hselected (h.replied k args' hk).1, (h.replied k args' hk).2⟩, h.resolved,
        fun he => hselected (h.enabled he), fun m hm => hselected (hqueued m hm)⟩

theorem runMicrotask (h : SelectOk L) : SelectOk { L with conn := L.conn.runMicrotask } := by
  unfold AmqpConnection.runMicrotask
  split
  · exact h
  next i rest hmicrotasks =>
  have hreplied : ∀ (j : Nat) args, L.conn.calls[j]? = some { op := .enableConfirms, outcome := .replied args } → j ≠ i →
      L.selected = true ∧ (j ∈ rest ∨ L.conn.confirmEnabled = true) := by
    intro j args hj hne
    obtain ⟨hs, hrest⟩ := h.replied j args hj
    rw [hmicrotasks, mem_cons] at hrest
    refine ⟨hs, ?_⟩
    rcases hrest with (hji | hmem) | he
    · exact absurd hji hne
    · exact .inl hmem
    · exact .inr he
  unfold AmqpConnection.continueCall
  split
  · next args hi =>
    have hs := (h.replied i args hi).1
    exact ⟨h.waiter, fun j args' hj => ⟨hs, .inr rfl⟩, fun _ _ _ => rfl, fun _ => hs, h.queued⟩
  all_goals
    have hne : ∀ (j : Nat) args, L.conn.calls[j]? = some { op := .enableConfirms, outcome := .replied args } → j ≠ i := by
      rintro j args hj rfl
      simp_all
    try split
    all_goals
      exact ⟨h.waiter, fun j args' hj => hreplied j args' hj (hne j args' hj), h.resolved, h.enabled, h.queued⟩

end SelectOk

/-! ## Links -/

structure LinkOk (L : Link) : Prop where
  tags : TagOk L
  select : SelectOk L

/-- Calls are kept. -/
def Link.Extends (L L' : Link) : Prop :=
  ∀ (i : Nat) call, L.conn.calls[i]? = some call → ∃ call', L'.conn.calls[i]? = some call' ∧ call'.op = call.op

namespace LinkOk

variable {L : Link}

theorem extends_of_calls {L' : Link} (h : L'.conn.calls = L.conn.calls) : L.Extends L' :=
  fun _ call hi => ⟨call, by rw [h]; exact hi, rfl⟩

theorem call (h : LinkOk L) (op : Op) : LinkOk { L with conn := L.conn.call op } ∧ L.Extends { L with conn := L.conn.call op } ∧
      ∃ call, (L.conn.call op).calls[L.conn.calls.length]? = some call ∧ call.op = op := by
  have hcalls : ∃ o, (L.conn.call op).calls = L.conn.calls ++ [{ op, outcome := o }] := by
    unfold AmqpConnection.call AmqpConnection.rpc
    split_ifs
    all_goals exact ⟨_, rfl⟩
  obtain ⟨o, hcalls⟩ := hcalls
  refine ⟨⟨?_, h.select.call op⟩, fun i call hi => ⟨call, ?_, rfl⟩, _, by rw [hcalls]; exact getElem?_concat_length, rfl⟩
  · unfold AmqpConnection.call AmqpConnection.rpc
    split_ifs
    · exact h.tags.frame rfl le_rfl rfl rfl id rfl rfl rfl
    · refine h.tags.frame ?_ le_rfl rfl rfl id rfl rfl rfl
      simp [Link.wire]
    · exact h.tags.frame rfl le_rfl rfl rfl id rfl rfl rfl
  · rw [hcalls]
    exact getElem?_concat_iff.2 (.inl hi)

theorem serve (h : LinkOk L) (args : Bytes) : LinkOk (L.serve args) ∧ L.Extends (L.serve args) := by
  refine ⟨⟨?_, h.select.serve args⟩, ?_⟩
  · unfold Link.serve
    split
    · exact h.tags
    · next m rest hsent =>
      have hs := h.select.queued m (by rw [hsent]; exact mem_cons_self)
      refine h.tags.frame ?_ ?_ rfl rfl id rfl rfl rfl
      · simp [Link.wire, hs, hsent]
      · simp [hs]
    · next i op rest hsent =>
      unfold AmqpConnection.handleReply
      split
      all_goals
        refine h.tags.frame ?_ le_rfl rfl rfl id rfl rfl rfl
        simp [Link.wire, hsent, AmqpConnection.settleCall]
  · unfold Link.serve AmqpConnection.handleReply
    split
    · exact extends_of_calls rfl
    · exact extends_of_calls rfl
    · split
      · intro j call hj
        simp only [AmqpConnection.settleCall, getElem?_modify, hj]
        exact ⟨_, rfl, by split <;> rfl⟩
      · exact extends_of_calls rfl

theorem runMicrotask (h : LinkOk L) : LinkOk { L with conn := L.conn.runMicrotask } ∧ L.Extends { L with conn := L.conn.runMicrotask } := by
  obtain ⟨microtasks, confirmEnabled, consumers, hconn⟩ := L.conn.runMicrotask_eq
  refine ⟨⟨?_, h.select.runMicrotask⟩, extends_of_calls (by rw [hconn])⟩
  rw [hconn]
  exact h.tags.frame rfl le_rfl rfl rfl id rfl rfl rfl

theorem publish (h : LinkOk L) (he : L.conn.connected = true → L.conn.confirmEnabled = true) :
    LinkOk { L with conn := L.conn.publish } ∧ L.Extends { L with conn := L.conn.publish } := by
  have hselect : ∀ m ∈ messages L.conn.publish.sent, L.selected = true := by
    cases hc : L.conn.connected with
    | true => exact fun _ _ => h.select.enabled (he hc)
    | false =>
      have hsent : L.conn.publish.sent = L.conn.sent := by
        unfold AmqpConnection.publish
        split_ifs <;> simp_all
      rw [hsent]
      exact h.select.queued
  have hcalls : L.conn.publish.calls = L.conn.calls := by
    unfold AmqpConnection.publish
    split_ifs <;> rfl
  refine ⟨⟨?_, h.select.frame hcalls ?_ ?_ ?_ rfl hselect⟩, extends_of_calls hcalls⟩
  · cases hc : L.conn.connected with
    | true => exact h.tags.publish hc (he hc)
    | false => exact h.tags.publish_disconnected hc
  all_goals
    unfold AmqpConnection.publish
    split_ifs <;> rfl

theorem send (h : LinkOk L) (f : Confirm) : LinkOk (L.send f) ∧ L.Extends (L.send f) := by
  refine ⟨⟨h.tags.send f, ?_⟩, ?_⟩
  all_goals unfold Link.send
  all_goals split
  · exact { h.select with }
  · exact h.select
  all_goals exact extends_of_calls rfl

theorem arrive (h : LinkOk L) : LinkOk L.arrive ∧ L.Extends L.arrive := by
  refine ⟨⟨h.tags.arrive, ?_⟩, ?_⟩
  all_goals unfold Link.arrive
  all_goals split
  · exact h.select
  · next f rest _ =>
    obtain ⟨publishes, confirmWaiters, hconn⟩ := L.conn.confirm_eq f.tag f.multiple f.nack
    rw [hconn]
    exact { h.select with }
  · exact extends_of_calls rfl
  · next f rest _ =>
    obtain ⟨publishes, confirmWaiters, hconn⟩ := L.conn.confirm_eq f.tag f.multiple f.nack
    rw [hconn]
    exact extends_of_calls rfl

theorem destroy (h : LinkOk L) : LinkOk { L with conn := { L.conn with connected := false } } ∧
    L.Extends { L with conn := { L.conn with connected := false } } := by
  refine ⟨⟨?_, { h.select with }⟩, extends_of_calls rfl⟩
  exact h.tags.frame rfl le_rfl rfl rfl (fun hc => by cases hc) rfl rfl rfl

end LinkOk

/-! ## Publishes -/

/-- A promise that is resolved is that of a message whose tag is acked; one whose tag is nacked is rejected when the
nack has come. -/
structure Link.Answered (L : Link) (m : Nat) : Prop where
  resolved : L.conn.publishes[m]? = some .resolved → ∃ t, L.tagged[t]? = some m ∧ verdict L.confirms (t + 1) = some false
  nacked : ∀ t, L.tagged[t]? = some m → verdict L.confirms (t + 1) = some true →
    L.conn.publishes[m]? = some .rejected ∨ verdict L.inbox (t + 1) = some true

theorem TagOk.answered {L : Link} (h : TagOk L) (m : Nat) : L.Answered m := by
  have hwire : ∀ {t : Nat} {m : Nat}, L.tagged[t]? = some m → L.wire[t]? = some m := fun ht => by
    rw [Link.wire, getElem?_append_left (lt_length ht), ht]
  constructor
  · intro hm
    rcases h.unsent m _ hm with hmem | hrej
    · obtain ⟨t, ht⟩ := mem_iff_getElem?.1 hmem
      obtain ⟨hp, -⟩ := h.tag t m ht
      rw [hm] at hp
      cases hv : verdict L.arrived (t + 1) with
      | none =>
        rw [hv] at hp
        simp [outcomeOf] at hp
      | some nack =>
        rw [hv] at hp
        have hlt : t < L.tagged.length := by
          by_contra hle
          have := @verdict_above L.arrived L.tagged.length (t + 1) (fun f hf => (h.assigned f (mem_append_left _ hf)).2) (by omega)
          rw [hv] at this
          cases this
        refine ⟨t, ?_, ?_⟩
        · rw [Link.wire, getElem?_append_left hlt] at ht
          exact ht
        · rw [Link.confirms, verdict_append, hv]
          cases nack with
          | true => simp [outcomeOf] at hp
          | false => rfl
    · cases hrej
  · intro t ht hv
    obtain ⟨hp, -⟩ := h.tag t m (hwire ht)
    rw [Link.confirms, verdict_append] at hv
    cases harrived : verdict L.arrived (t + 1) with
    | none =>
      rw [harrived, Option.none_or] at hv
      exact .inr hv
    | some nack =>
      rw [harrived, Option.some_or, some.injEq] at hv
      rw [hp, harrived, hv]
      exact .inl rfl

namespace PublisherWorld

variable {w : PublisherWorld}

/-- Each publish whose message has been given to a connection is answered as its tag is. -/
def Confirmed (w : PublisherWorld) : Prop :=
  ∀ (p k m : Nat) L, w.publishes[p]? = some (.sent k m) → w.links[k]? = some L → L.Answered m

/-- A publish that finds the exchange declared finds confirms enabled on its connection, if that is connected. -/
def Confirming (w : PublisherWorld) : PublisherEvent → Prop
  | .resume p => ∀ k L, w.publishes[p]? = some (.connected k) → w.exchangeReady = true → w.links[k]? = some L →
      L.conn.connected = true → L.conn.confirmEnabled = true
  | _ => True

/-- The call of a publish that enables confirms. -/
def Enabling (w : PublisherWorld) (k i : Nat) : Prop :=
  ∃ L call, w.links[k]? = some L ∧ L.conn.calls[i]? = some call ∧ call.op = .enableConfirms

structure Inv (w : PublisherWorld) : Prop where
  links : ∀ (k : Nat) L, w.links[k]? = some L → LinkOk L
  enabling : ∀ (p k i : Nat), w.publishes[p]? = some (.enabling k i) → w.Enabling k i

theorem inv_init : Inv {} where
  links := by simp
  enabling := by simp

section

variable (h : Inv w)
include h

theorem Inv.confirmed : w.Confirmed := fun _ k m L _ hL => (h.links k L hL).tags.answered m

/-- A step that keeps the calls of the connections. -/
theorem Inv.update {w' : PublisherWorld} (hlinks : ∀ (k : Nat) L, w'.links[k]? = some L → LinkOk L)
    (hext : ∀ (k : Nat) L, w.links[k]? = some L → ∃ L', w'.links[k]? = some L' ∧ L.Extends L')
    (hphases : ∀ (p k i : Nat), w'.publishes[p]? = some (.enabling k i) →
      w.publishes[p]? = some (.enabling k i) ∨ w'.Enabling k i) : Inv w' where
  links := hlinks
  enabling := by
    intro p k i hp
    rcases hphases p k i hp with hp | hnew
    · obtain ⟨L, call, hL, hcall, hop⟩ := h.enabling p k i hp
      obtain ⟨L', hL', hE⟩ := hext k L hL
      obtain ⟨call', hcall', hop'⟩ := hE i call hcall
      exact ⟨L', call', hL', hcall', hop'.trans hop⟩
    · exact hnew

theorem Inv.onLink (k : Nat) {f : Link → Link} (hf : ∀ L, LinkOk L → LinkOk (f L) ∧ L.Extends (f L)) : Inv (w.onLink k f) := by
  refine h.update (fun j L hL => ?_) (fun j L hL => ?_) fun _ _ _ hp => .inl hp
  · simp only [PublisherWorld.onLink, getElem?_modify] at hL
    obtain ⟨L₀, hL₀, rfl⟩ := Option.map_eq_some_iff.1 hL
    split
    · exact (hf L₀ (h.links j L₀ hL₀)).1
    · exact h.links j L₀ hL₀
  · simp only [PublisherWorld.onLink, getElem?_modify, hL]
    refine ⟨_, rfl, ?_⟩
    split
    · exact (hf L (h.links j L hL)).2
    · exact LinkOk.extends_of_calls rfl

theorem Inv.setLink {k : Nat} {L : Link} (hk : w.links[k]? = some L) {L' : Link} (hok : LinkOk L')
    (hext : L.Extends L') (p : Nat) {phase : PublishPhase} (ready : Bool) (hphase : ∀ j i, phase = .enabling j i → j = k ∧
      ∃ call, L'.conn.calls[i]? = some call ∧ call.op = .enableConfirms) :
    Inv (PublisherWorld.setPhase { w with links := w.links.set k L', exchangeReady := ready } p phase) := by
  have hlt := (lt_length hk)
  refine h.update (fun j M hM => ?_) (fun j M hM => ?_) fun q j i hq => ?_
  · rcases getElem?_set_cases hM with ⟨-, rfl⟩ | ⟨-, hM⟩
    · exact hok
    · exact h.links j M hM
  · by_cases hjk : j = k
    · subst hjk
      rw [hk, some.injEq] at hM
      subst hM
      exact ⟨L', getElem?_set_self hlt, hext⟩
    · refine ⟨M, ?_, LinkOk.extends_of_calls rfl⟩
      simp only [PublisherWorld.setPhase]
      rw [getElem?_set_ne (Ne.symm hjk), hM]
  · rcases getElem?_set_cases hq with ⟨-, heq⟩ | ⟨-, hq⟩
    · obtain ⟨rfl, call, hcall, hop⟩ := hphase j i heq.symm
      exact .inr ⟨L', call, getElem?_set_self hlt, hcall, hop⟩
    · exact .inl hq

theorem Inv.setPhase (p : Nat) {phase : PublishPhase} (hphase : ∀ j i, phase ≠ .enabling j i) : Inv (w.setPhase p phase) := by
  refine h.update (fun k L hL => h.links k L hL) (fun k L hL => ⟨L, hL, LinkOk.extends_of_calls rfl⟩) fun q j i hq => ?_
  rcases getElem?_set_cases hq with ⟨-, heq⟩ | ⟨-, hq⟩
  · exact absurd heq.symm (hphase j i)
  · exact .inl hq

theorem inv_startCall (p : Nat) {k : Nat} {L : Link} (hk : w.links[k]? = some L) (op : Op)
    {phase : Nat → PublishPhase} (hphase : ∀ n j i, phase n = .enabling j i → j = k ∧ i = n ∧ op = .enableConfirms) :
    Inv (w.startCall p k L op phase) := by
  obtain ⟨hok, hext, call, hcall, hop⟩ := (h.links k L hk).call op
  refine h.setLink hk hok hext p w.exchangeReady fun j i hji => ?_
  obtain ⟨rfl, rfl, henable⟩ := hphase _ j i hji
  exact ⟨rfl, call, hcall, hop.trans henable⟩

theorem inv_sendMessage (p : Nat) {k : Nat} {L : Link} (hk : w.links[k]? = some L) (ready : Bool)
    (he : L.conn.connected = true → L.conn.confirmEnabled = true) :
    Inv ({ w with exchangeReady := ready }.sendMessage p k L) := by
  obtain ⟨hok, hext⟩ := (h.links k L hk).publish he
  exact h.setLink hk hok hext p ready fun j i hji => by cases hji

theorem Inv.enabled {p k i : Nat} (hp : w.publishes[p]? = some (.enabling k i)) {L : Link}
    (hk : w.links[k]? = some L) (hsettled : L.conn.settled i = some true) : L.conn.confirmEnabled = true := by
  obtain ⟨L', call, hL', hcall, hop⟩ := h.enabling p k i hp
  rw [hk, some.injEq] at hL'
  subst hL'
  obtain ⟨op, o⟩ := call
  subst hop
  have hselect := (h.links k L hk).select
  unfold AmqpConnection.settled at hsettled
  rw [hcall] at hsettled
  cases o with
  | replied args =>
    obtain ⟨-, hi | he⟩ := hselect.replied i args hcall
    · simp [hi] at hsettled
    · exact he
  | resolved => exact hselect.resolved i _ hcall
  | pending => simp at hsettled
  | rejected => simp at hsettled

theorem inv_resume {p : Nat} (he : Confirming w (.resume p)) {phase : PublishPhase}
    (hp : w.publishes[p]? = some phase) : Inv (w.resume p phase) := by
  unfold resume
  split
  · split
    · exact h.setPhase p (by simp)
    · exact h.setPhase p (by simp)
    · exact h
  · next k =>
    split
    · next L hk =>
      split
      · next hready => exact inv_sendMessage h p hk w.exchangeReady (he k L hp hready hk)
      · exact inv_startCall h p hk _ (by simp)
    · exact h
  · next k i =>
    split
    · next L hk =>
      split
      · exact inv_startCall h p hk _ (by simp +contextual)
      · exact h.setPhase p (by simp)
      · exact h
    · exact h
  · next k i =>
    split
    · next L hk =>
      split
      · next hsettled => exact inv_sendMessage h p hk true fun _ => h.enabled hp hk hsettled
      · exact h.setPhase p (by simp)
      · exact h
    · exact h
  · exact h
  · exact h

theorem inv_step {e : PublisherEvent} (he : Confirming w e) : Inv (step w e) := by
  have hmanager : ∀ manager, Inv { w with manager } := fun manager => ⟨h.links, h.enabling⟩
  cases e with
  | publish =>
    refine h.update (fun k L hL => h.links k L hL) (fun k L hL => ⟨L, hL, LinkOk.extends_of_calls rfl⟩) fun q j i hq => ?_
    rcases getElem?_concat_cases hq with hq | ⟨-, heq⟩
    · exact .inl hq
    · split at heq <;> cases heq
  | resume p =>
    simp only [step]
    cases hp : w.publishes[p]? with
    | none => exact h
    | some phase => exact inv_resume h he hp
  | opened a =>
    simp only [step]
    split
    · refine h.update (fun k L hL => ?_) (fun k L hL => ⟨L, getElem?_concat_iff.2 (.inl hL), LinkOk.extends_of_calls rfl⟩)
        fun _ _ _ hq => .inl hq
      rcases getElem?_concat_cases hL with hL | ⟨-, rfl⟩
      · exact h.links k L hL
      · exact ⟨TagOk.init, SelectOk.init⟩
    · exact h
  | retry a => exact hmanager _
  | call k op => exact h.onLink k fun L hL => ⟨(hL.call op).1, (hL.call op).2.1⟩
  | serve k args =>
    simp only [step]
    split
    · exact h.onLink k fun L hL => hL.serve args
    · exact h
  | «continue» k => exact h.onLink k fun L hL => hL.runMicrotask
  | confirm k f => exact h.onLink k fun L hL => hL.send f
  | arrive k =>
    simp only [step]
    split
    · exact h.onLink k fun L hL => hL.arrive
    · exact h
  | destroy k => exact h.onLink k fun L hL => hL.destroy
  | disconnect k =>
    simp only [step]
    split
    · exact h
    · exact hmanager _
  | close =>
    simp only [step]
    cases hconn : w.manager.conn with
    | none => exact hmanager _
    | some k =>
      have hdown := h.onLink k fun L hL => hL.destroy
      exact ⟨hdown.links, hdown.enabling⟩

theorem confirming_of_confirmed {e : PublisherEvent} (hconfirmed : (step w e).Confirmed) : Confirming w e := by
  cases e with
  | resume p =>
    intro k L hp hready hk hc
    by_contra he
    have hstep : step w (.resume p) = w.sendMessage p k L := by simp [step, hp, resume, hk, hready]
    have hlt := (lt_length hk)
    have hplt := (lt_length hp)
    rw [hstep] at hconfirmed
    have hanswered := hconfirmed p k L.conn.publishes.length { L with conn := L.conn.publish }
      (getElem?_set_self hplt) (getElem?_set_self hlt)
    obtain ⟨t, ht, -⟩ := hanswered.resolved (by simp [AmqpConnection.publish, hc, he])
    have hfresh := (h.links k L hk).tags.fresh _ (mem_append_left _ (mem_of_getElem? ht))
    omega
  | _ => trivial

end

/-- In every state of a run the publishes are answered as the broker has confirmed their tags, exactly when every publish
that finds the exchange declared finds confirms enabled. -/
theorem confirmed_iff_confirming (es : List PublisherEvent) : (∀ n, (run step {} (es.take n)).Confirmed) ↔ Guarded step Confirming {} es :=
  forall_take_iff_guarded (D := fun _ _ => True) step (fun _ h => h.confirmed) (fun _ _ h _ he => inv_step h he)
    (fun _ _ h _ hc => confirming_of_confirmed h hc) es inv_init (guarded_of_forall step (fun _ _ => trivial) _ es)

/-- After a reconnect the exchange is still taken to be declared: the second publish resolves without a confirm. -/
theorem reconnect_counterexample : ¬ ∀ es, (run step {} es).Confirmed := by
  intro h
  have hsent := h [.publish, .opened 0, .resume 0, .resume 0, .serve 0 [], .continue 0, .resume 0, .serve 0 [], .continue 0,
    .resume 0, .serve 0 [], .confirm 0 ⟨1, false, false⟩, .arrive 0, .destroy 0, .disconnect 0, .opened 1, .publish,
    .resume 1] 1 1 0 _ rfl rfl
  obtain ⟨t, ht, -⟩ := hsent.resolved rfl
  cases ht

end PublisherWorld

end StreetJS.Amqp
