/-
Coherence of `DistributedCache` nodes: what a `get` obtains is not older than any `set` or `invalidate` whose
call has completed and whose messages are delivered, nor past its `ttlMs`. The code keeps this up only as
long as a `set` meets no copy on another node and no other `set` of the key under way, an answer is cached only
while it is what the store holds, and no node still has a value when its `ttlMs` runs out.
-/
import StreetJS.Cache.DistributedCache

namespace StreetJS.Cache

open StreetJS.Lib List OrderedMap
open Option (bind_some map_eq_some_iff some.inj)

namespace Cluster

/-! ## What coherence is about -/

/-- The moment the store took up the write of a call. -/
def stampOf (s : Cluster) (i : Nat) : Option Nat := (s.calls[i]?).bind Call.stamp

/-- When the value stored by a call runs out. -/
def deadlineOf (s : Cluster) (i : Nat) : Option Nat := (s.calls[i]?).bind Call.deadline

/-- The write of call `o` was taken up before that of call `i`. -/
def Older (s : Cluster) (o i : Nat) : Prop := ∃ m n, s.stampOf o = some m ∧ s.stampOf i = some n ∧ m < n

/-- Call `i` wrote `key`, has completed, and its messages are delivered. -/
def Settled (s : Cluster) (i : Nat) (key : String) : Prop :=
  ∃ c, s.calls[i]? = some c ∧ c.op.key = key ∧ c.phase = .done ∧ ∀ m ∈ s.messages, m.origin ≠ i

/-- What a `get` obtains at an event: locally when it is called, else when the transport reads the store. -/
def obtains (s : Cluster) : Event → Option (String × Copy)
  | .get node key => (s.local? node key).map fun copy => (key, copy)
  | .serve i =>
    match s.calls[i]? with
    | some ⟨_, .get key, .requested, _, _⟩ => (s.stored key).map fun copy => (key, copy)
    | _ => none
  | _ => none

/-- What a `get` obtains is neither older than a settled write nor past its time to live. -/
def Coherent (s : Cluster) (e : Event) : Prop :=
  ∀ key copy, s.obtains e = some (key, copy) →
    (∀ i, s.Settled i key → ¬ s.Older copy.origin i) ∧ ∀ deadline, s.deadlineOf copy.origin = some deadline → s.now ≤ deadline

/-- A `set` of the key is on its way to the store. -/
def Setting (s : Cluster) (key : String) : Prop :=
  ∃ (i : Nat) (c : Call) (value : String) (ttlMs : Option Nat), s.calls[i]? = some c ∧ c.op = .set key value ttlMs ∧ c.phase = .requested

/-- The conditions on calls, answers and time. -/
def Orderly (s : Cluster) : Event → Prop
  | .set node key _ _ => ¬ s.Setting key ∧ ∀ other, other ≠ node → s.local? other key = none
  | .resume i => ∀ c key copy, s.calls[i]? = some c → c.op = .get key → c.phase = .answered (some copy) →
      s.stored key = some copy ∧ ¬ s.Setting key
  | .pass ms => ∀ node key copy, Cluster.local? { s with now := s.now + ms } node key = some copy →
      ∀ deadline, s.deadlineOf copy.origin = some deadline → s.now + ms ≤ deadline
  | _ => True

/-! ## The invariant -/

/-- An invalidation whose message is not yet sent out. -/
def Unsent : Phase → Prop
  | .answered _ => True
  | .publishing => True
  | _ => False

/-- The message of call `i` about `key` is still to reach a node. -/
def Pending (s : Cluster) (i : Nat) (c : Call) (node : Nat) (key : String) : Prop :=
  Unsent c.phase ∧ c.op = .invalidate key ∨ ⟨node, key, i⟩ ∈ s.messages

structure Inv (s : Cluster) : Prop where
  stamps_lt : ∀ (i : Nat) c n, s.calls[i]? = some c → c.stamp = some n → n < s.stamps
  requested : ∀ (i : Nat) c, s.calls[i]? = some c → c.phase = .requested → c.stamp = none ∧ c.deadline = none
  store : ∀ key e, s.store.get key = some e →
    ∃ c m, s.calls[e.copy.origin]? = some c ∧ c.op.key = key ∧ c.stamp = some m ∧ c.deadline = e.deadline ∧
      ∀ (j : Nat) c' n, s.calls[j]? = some c' → c'.op.key = key → c'.stamp = some n → n ≤ m
  copies : ∀ node key copy, s.local? node key = some copy → ∃ c, s.calls[copy.origin]? = some c ∧ c.op.key = key ∧
      (∀ deadline, c.deadline = some deadline → s.now ≤ deadline) ∧
      ∀ m, c.stamp = some m → ∀ (j : Nat) c' n, s.calls[j]? = some c' → c'.op.key = key → c'.stamp = some n → m < n → s.Pending j c' node key
  setting : ∀ (i : Nat) c key value ttlMs, s.calls[i]? = some c → c.op = .set key value ttlMs → c.phase = .requested →
    (∀ node copy, s.local? node key = some copy → copy.origin = i) ∧
    ∀ (j : Nat) c' value' ttlMs', s.calls[j]? = some c' → c'.op = .set key value' ttlMs' → c'.phase = .requested → j = i

section

variable {s : Cluster}

variable {i : Nat}

theorem stampOf_eq {c : Call} (h : s.calls[i]? = some c) : s.stampOf i = c.stamp := by
  rw [stampOf, h, bind_some]

theorem deadlineOf_eq {c : Call} (h : s.calls[i]? = some c) : s.deadlineOf i = c.deadline := by
  rw [deadlineOf, h, bind_some]

variable {key : String} {copy : Copy}

theorem stored_eq_some (h : s.stored key = some copy) :
    ∃ e, s.store.get key = some e ∧ e.copy = copy ∧ ∀ deadline, e.deadline = some deadline → s.now ≤ deadline := by
  unfold stored at h
  cases hget : s.store.get key with
  | none =>
    rw [hget] at h
    cases h
  | some e =>
    rw [hget] at h
    dsimp only at h
    split at h
    · cases h
    · next hlive =>
      refine ⟨e, rfl, some.inj h, fun deadline hd => ?_⟩
      rw [hd, Option.any_some, decide_eq_true_eq] at hlive
      exact not_lt.1 hlive

/-- **The invariant makes every `get` coherent.** -/
theorem Inv.coherent (hinv : s.Inv) (e : Event) : s.Coherent e := by
  have settled_not_pending : ∀ {i : Nat} {c : Call} {node : Nat} {key : String},
      s.calls[i]? = some c → s.Settled i key → ¬ s.Pending i c node key := by
    rintro i c node key hc ⟨c', hc', -, hdone, hmessages⟩ (⟨hunsent, -⟩ | hmem)
    · rw [hc] at hc'
      cases hc'
      rw [hdone] at hunsent
      exact hunsent
    · exact hmessages _ hmem rfl
  have fromLocal : ∀ node key copy, s.local? node key = some copy → (∀ i, s.Settled i key → ¬ s.Older copy.origin i) ∧
        ∀ deadline, s.deadlineOf copy.origin = some deadline → s.now ≤ deadline := by
    intro node key copy hcopy
    obtain ⟨c, hc, hkey, hdeadline, hpending⟩ := hinv.copies node key copy hcopy
    refine ⟨?_, fun deadline hd => hdeadline deadline (deadlineOf_eq hc ▸ hd)⟩
    rintro i hsettled ⟨m, n, hm, hn, hlt⟩
    obtain ⟨c', hc', hkey', -, -⟩ := id hsettled
    rw [stampOf_eq hc] at hm
    rw [stampOf_eq hc'] at hn
    exact settled_not_pending hc' hsettled (hpending m hm i c' n hc' hkey' hn hlt)
  have fromStore : ∀ key copy, s.stored key = some copy → (∀ i, s.Settled i key → ¬ s.Older copy.origin i) ∧
        ∀ deadline, s.deadlineOf copy.origin = some deadline → s.now ≤ deadline := by
    intro key copy hcopy
    obtain ⟨e, he, rfl, hlive⟩ := stored_eq_some hcopy
    obtain ⟨c, m, hc, hkey, hstamp, hdeadline, hlatest⟩ := hinv.store key e he
    refine ⟨?_, fun deadline hd => hlive deadline (by rw [← hdeadline, ← deadlineOf_eq hc, hd])⟩
    rintro i ⟨c', hc', hkey', -, -⟩ ⟨m', n, hm, hn, hlt⟩
    rw [stampOf_eq hc, hstamp] at hm
    rw [stampOf_eq hc'] at hn
    cases hm
    exact absurd (hlatest i c' n hc' hkey' hn) (not_le.2 hlt)
  intro key copy h
  cases e with
  | get node key' =>
    simp only [obtains, map_eq_some_iff, Prod.mk.injEq] at h
    obtain ⟨copy', hcopy, rfl, rfl⟩ := h
    exact fromLocal node key' copy' hcopy
  | serve i =>
    simp only [obtains] at h
    split at h
    · simp only [map_eq_some_iff, Prod.mk.injEq] at h
      obtain ⟨copy', hcopy, rfl, rfl⟩ := h
      exact fromStore _ copy' hcopy
    · cases h
  | _ => cases h

/-! ## Local copies -/

variable {node : Nat} {lru : LruCache String Copy}

theorem local?_set_node {lru' : LruCache String Copy} (hlru : s.nodes[node]? = some lru) {node' : Nat} :
    local? { s with nodes := s.nodes.set node lru' } node' key = if node' = node then lru'.read s.now key else s.local? node' key := by
  unfold local?
  split
  · next heq =>
    rw [heq, getElem?_set_self (lt_length hlru), bind_some]
  · next hne => rw [getElem?_set_ne fun heq => hne heq.symm]

theorem local?_of_node (hlru : s.nodes[node]? = some lru) (key : String) : s.local? node key = lru.read s.now key := by
  rw [local?, hlru, bind_some]

theorem local?_shrinks {lru' : LruCache String Copy} (hlru : s.nodes[node]? = some lru)
    (hshrinks : LruCache.Shrinks lru s.now lru' s.now) {node' : Nat}
    (h : local? { s with nodes := s.nodes.set node lru' } node' key = some copy) : s.local? node' key =
    some copy := by
  rw [local?_set_node hlru] at h
  split at h
  · next heq =>
    rw [heq, local?_of_node hlru]
    exact hshrinks key copy h
  · exact h

theorem Inv.shrink (hinv : s.Inv) {nodes : List (LruCache String Copy)}
    (h : ∀ node key copy, local? { s with nodes := nodes } node key = some copy → s.local? node key = some copy) :
    Inv { s with nodes := nodes } where
  stamps_lt := hinv.stamps_lt
  requested := hinv.requested
  store := hinv.store
  copies node key copy hcopy := hinv.copies node key copy (h node key copy hcopy)
  setting i c key value ttlMs hc hop hphase :=
    ⟨fun node copy hcopy => (hinv.setting i c key value ttlMs hc hop hphase).1 node copy (h node key copy hcopy),
      (hinv.setting i c key value ttlMs hc hop hphase).2⟩

/-! ## New calls -/

/-- A call that has not reached the store comes in; the copies are as before, save that one of a key to be set is
the call's. -/
theorem Inv.enter (hinv : s.Inv) {nodes : List (LruCache String Copy)} {call : Call} (hstamp : call.stamp = none)
    (hdeadline : call.deadline = none) (hset : ∀ key value ttlMs, call.op = .set key value ttlMs → ¬ s.Setting key)
    (hlocal : ∀ node key copy, local? { s with nodes } node key = some copy →
      (∀ value ttlMs, call.op ≠ .set key value ttlMs) ∧ s.local? node key = some copy ∨
        (∃ value ttlMs, call.op = .set key value ttlMs) ∧ copy.origin = s.calls.length) :
    Inv { s with nodes, calls := s.calls ++ [call] } := by
  have old : ∀ {i : Nat} {c : Call}, s.calls[i]? = some c → (s.calls ++ [call])[i]? = some c := fun h =>
    getElem?_concat_iff.2 (.inl h)
  have hnone : ∀ {i : Nat} {c : Call} {n : Nat}, (s.calls ++ [call])[i]? = some c → c.stamp = some n → s.calls[i]? = some c := by
    intro i c n hc hn
    rcases getElem?_concat_cases hc with hc | ⟨-, rfl⟩
    · exact hc
    · rw [hstamp] at hn
      cases hn
  constructor
  · exact fun i c n hc hn => hinv.stamps_lt i c n (hnone hc hn) hn
  · intro i c hc hphase
    rcases getElem?_concat_cases hc with hc | ⟨-, rfl⟩
    · exact hinv.requested i c hc hphase
    · exact ⟨hstamp, hdeadline⟩
  · intro key e he
    obtain ⟨c, m, hc, hkey, hm, hd, hlatest⟩ := hinv.store key e he
    exact ⟨c, m, old hc, hkey, hm, hd, fun j c' n hc' hkey' hn => hlatest j c' n (hnone hc' hn) hkey' hn⟩
  · intro node key copy hcopy
    rcases hlocal node key copy hcopy with ⟨-, hcopy⟩ | ⟨⟨value, ttlMs, hop⟩, horigin⟩
    · obtain ⟨c, hc, hkey, hd, hpending⟩ := hinv.copies node key copy hcopy
      exact ⟨c, old hc, hkey, hd, fun m hm j c' n hc' hkey' hn => hpending m hm j c' n (hnone hc' hn) hkey' hn⟩
    · refine ⟨call, getElem?_concat_iff.2 (.inr ⟨horigin, rfl⟩), by rw [hop]; rfl, fun deadline h => ?_, fun m h => ?_⟩
      · rw [hdeadline] at h
        cases h
      · rw [hstamp] at h
        cases h
  · intro i c key value ttlMs hc hop hphase
    rcases getElem?_concat_cases hc with hc | ⟨rfl, rfl⟩
    · -- a set under way is of another key
      have hother : ∀ value' ttlMs', call.op ≠ .set key value' ttlMs' := fun _ _ h =>
        hset _ _ _ h ⟨i, c, value, ttlMs, hc, hop, hphase⟩
      obtain ⟨horigin, halone⟩ := hinv.setting i c key value ttlMs hc hop hphase
      refine ⟨fun node copy hcopy => ?_, fun j c' value' ttlMs' hc' hop' hphase' => ?_⟩
      · rcases hlocal node key copy hcopy with ⟨-, hcopy⟩ | ⟨⟨value', ttlMs', h⟩, -⟩
        · exact horigin node copy hcopy
        · exact absurd h (hother _ _)
      · rcases getElem?_concat_cases hc' with hc' | ⟨-, rfl⟩
        · exact halone j c' value' ttlMs' hc' hop' hphase'
        · exact absurd hop' (hother _ _)
    · refine ⟨fun node copy hcopy => ?_, fun j c' value' ttlMs' hc' hop' hphase' => ?_⟩
      · rcases hlocal node key copy hcopy with ⟨hne, -⟩ | ⟨-, h⟩
        · exact absurd hop (hne _ _)
        · exact h
      · rcases getElem?_concat_cases hc' with hc' | ⟨rfl, -⟩
        · exact absurd ⟨j, c', value', ttlMs', hc', hop', hphase'⟩ (hset _ _ _ hop)
        · rfl

theorem Inv.append (hinv : s.Inv) {call : Call} (hstamp : call.stamp = none) (hdeadline : call.deadline = none)
    (hset : ∀ key value ttlMs, call.op ≠ .set key value ttlMs) : Inv { s with calls := s.calls ++ [call] } :=
  hinv.enter hstamp hdeadline (fun _ _ _ h => absurd h (hset _ _ _)) fun _ _ _ h => .inl ⟨hset _, h⟩

theorem Inv.get (hinv : s.Inv) (node : Nat) (key : String) : (s.get node key).Inv := by
  unfold Cluster.get
  split
  · exact hinv
  · next lru hlru =>
    have hshrinks := LruCache.shrinks_get lru s.now key
    have hshrunk : Inv { s with nodes := s.nodes.set node (lru.get s.now key).2 } :=
      hinv.shrink fun _ _ _ h => local?_shrinks hlru hshrinks h
    split
    · next copy lru' hget =>
      rw [hget] at hshrunk
      exact hshrunk
    · next lru' hget =>
      rw [hget] at hshrunk
      exact hshrunk.append rfl rfl fun _ _ _ => nofun

theorem Inv.invalidate (hinv : s.Inv) (node : Nat) (key : String) : (s.invalidate node key).Inv := by
  unfold Cluster.invalidate
  split
  · exact hinv
  · next lru hlru =>
    have hshrunk : Inv { s with nodes := s.nodes.set node (lru.delete key) } :=
      hinv.shrink fun _ _ _ h => local?_shrinks hlru (lru.shrinks_keep s.now _) h
    exact hshrunk.append rfl rfl fun _ _ _ => nofun

theorem Inv.sweep (hinv : s.Inv) (node : Nat) : (s.sweep node).Inv := by
  unfold Cluster.sweep
  split
  · exact hinv
  · next lru hlru => exact hinv.shrink fun _ _ _ h => local?_shrinks hlru (lru.shrinks_keep s.now _) h

theorem Inv.set (hinv : s.Inv) {node : Nat} {key value : String} {ttlMs : Option Nat} (hsetting : ¬ s.Setting key)
    (hothers : ∀ other, other ≠ node → s.local? other key = none) : (s.set node key value ttlMs).Inv := by
  unfold Cluster.set
  split
  · exact hinv
  next lru hlru =>
  refine hinv.enter rfl rfl (fun key' _ _ h => ?_) fun node' key' copy hread => ?_
  · cases h
    exact hsetting
  -- the key reads as the new value on this node, and as nothing on the others
  rw [local?_set_node hlru] at hread
  split at hread
  · next heq =>
    rcases LruCache.read_set hread with ⟨rfl, rfl⟩ | ⟨hkey, hread⟩
    · exact .inr ⟨⟨value, ttlMs, rfl⟩, rfl⟩
    · rw [heq, local?_of_node hlru]
      refine .inl ⟨fun value' ttlMs' h => ?_, hread⟩
      cases h
      exact hkey rfl
  · next hne =>
    refine .inl ⟨fun value' ttlMs' h => ?_, hread⟩
    cases h
    rw [hothers node' hne] at hread
    cases hread

/-! ## Calls that go on -/

theorem node_lt_of_local? (h : s.local? node key = some copy) : node < s.nodes.length := by
  cases hnode : s.nodes[node]? with
  | none =>
    rw [local?, hnode] at h
    cases h
  | some lru => exact (lt_length hnode)

section

variable (hinv : s.Inv)
include hinv

/-- A call that goes on without a write: an invalidation stays unsent until its message is on the way to every
node. -/
theorem Inv.rephase {c : Call} (hc : s.calls[i]? = some c) {p : Phase} (hp : p ≠ .requested)
    (hunsent : Unsent c.phase → ∀ key, c.op = .invalidate key → Unsent p ∨ ∀ node < s.nodes.length, ⟨node, key, i⟩ ∈ s.messages) :
    Inv { s with calls := s.calls.set i { c with phase := p } } := by
  have back : ∀ {j : Nat} {c' : Call}, (s.calls.set i { c with phase := p })[j]? = some c' →
      ∃ c₀, s.calls[j]? = some c₀ ∧ c'.op = c₀.op ∧ c'.stamp = c₀.stamp ∧ c'.deadline = c₀.deadline ∧ (c'.phase = .requested → c' = c₀) := by
    intro j c' hc'
    rcases getElem?_set_cases hc' with ⟨rfl, rfl⟩ | ⟨-, hc'⟩
    · exact ⟨c, hc, rfl, rfl, rfl, fun h => absurd h hp⟩
    · exact ⟨c', hc', rfl, rfl, rfl, fun _ => rfl⟩
  have forth : ∀ {j : Nat} {c₀ : Call}, s.calls[j]? = some c₀ →
      ∃ c', (s.calls.set i { c with phase := p })[j]? = some c' ∧ c'.op = c₀.op ∧ c'.stamp = c₀.stamp ∧ c'.deadline = c₀.deadline := by
    intro j c₀ hc₀
    by_cases hj : j = i
    · rw [hj] at hc₀ ⊢
      rw [hc] at hc₀
      cases hc₀
      exact ⟨_, getElem?_set_self (lt_length hc), rfl, rfl, rfl⟩
    · exact ⟨c₀, (getElem?_set_ne fun h => hj h.symm).trans hc₀, rfl, rfl, rfl⟩
  constructor
  · intro j c' n hc' hn
    obtain ⟨c₀, hc₀, -, hstamp, -⟩ := back hc'
    exact hinv.stamps_lt j c₀ n hc₀ (hstamp ▸ hn)
  · intro j c' hc' hphase
    obtain ⟨c₀, hc₀, -, -, -, hsame⟩ := back hc'
    obtain rfl := hsame hphase
    exact hinv.requested j c' hc₀ hphase
  · intro key e he
    obtain ⟨c₀, m, hc₀, hkey, hm, hd, hlatest⟩ := hinv.store key e he
    obtain ⟨c', hc', hop, hstamp, hdeadline⟩ := forth hc₀
    refine ⟨c', m, hc', hop ▸ hkey, hstamp.trans hm, hdeadline.trans hd, fun j c'' n hc'' hkey'' hn => ?_⟩
    obtain ⟨c₁, hc₁, hop₁, hstamp₁, -⟩ := back hc''
    exact hlatest j c₁ n hc₁ (hop₁ ▸ hkey'') (hstamp₁ ▸ hn)
  · intro node key copy hcopy
    have hnode := node_lt_of_local? (s := s) hcopy
    obtain ⟨c₀, hc₀, hkey, hd, hpending⟩ := hinv.copies node key copy hcopy
    obtain ⟨c', hc', hop, hstamp, hdeadline⟩ := forth hc₀
    refine ⟨c', hc', hop ▸ hkey, fun deadline h => hd deadline (hdeadline ▸ h), fun m hm j c'' n hc'' hkey'' hn hlt => ?_⟩
    rcases getElem?_set_cases hc'' with ⟨rfl, rfl⟩ | ⟨-, hc''⟩
    · rcases hpending m (hstamp ▸ hm) j c n hc hkey'' hn hlt with ⟨hunsent', hop'⟩ | hmem
      · rcases hunsent hunsent' key hop' with h | h
        · exact .inl ⟨h, hop'⟩
        · exact .inr (h node hnode)
      · exact .inr hmem
    · exact hpending m (hstamp ▸ hm) j c'' n hc'' hkey'' hn hlt
  · intro j c' key value ttlMs hc' hop hphase
    obtain ⟨c₀, hc₀, -, -, -, hsame⟩ := back hc'
    obtain rfl := hsame hphase
    refine ⟨(hinv.setting j c' key value ttlMs hc₀ hop hphase).1, fun k c'' value' ttlMs' hc'' hop'' hphase'' => ?_⟩
    obtain ⟨c₁, hc₁, -, -, -, hsame₁⟩ := back hc''
    obtain rfl := hsame₁ hphase''
    exact (hinv.setting j c' key value ttlMs hc₀ hop hphase).2 k c'' value' ttlMs' hc₁ hop'' hphase''

theorem Inv.announce (messages : List Message) : Inv { s with messages := s.messages ++ messages } where
  stamps_lt := hinv.stamps_lt
  requested := hinv.requested
  store := hinv.store
  copies node key copy hcopy := by
    obtain ⟨c, hc, hkey, hd, hpending⟩ := hinv.copies node key copy hcopy
    exact ⟨c, hc, hkey, hd, fun m hm j c' n hc' hkey' hn hlt =>
      (hpending m hm j c' n hc' hkey' hn hlt).imp_right (mem_append_left _)⟩
  setting := hinv.setting

theorem Inv.write {c : Call} (hc : s.calls[i]? = some c) (hphase : c.phase = .requested)
    (hkey : c.op.key = key) {deadline : Option Nat} {store : OrderedMap String StoreEntry}
    (hlive : ∀ d, deadline = some d → s.now ≤ d)
    (hstore : ∀ e, store.get key = some e → e.copy.origin = i ∧ e.deadline = deadline)
    (hother : ∀ key' e, key' ≠ key → store.get key' = some e → s.store.get key' = some e)
    (hcopies : ∀ node copy, s.local? node key = some copy → copy.origin = i ∨ c.op = .invalidate key) :
    Inv { s with store := store, stamps := s.stamps + 1, calls := s.calls.set i
                   { c with phase := .answered none, stamp := some s.stamps, deadline := deadline } } := by
  obtain ⟨hnostamp, -⟩ := hinv.requested i c hc hphase
  let served : Call := { c with phase := .answered none, stamp := some s.stamps, deadline := deadline }
  have hserved : (s.calls.set i served)[i]? = some served :=
    getElem?_set_self (lt_length hc)
  have hothers : ∀ {j : Nat}, j ≠ i → (s.calls.set i served)[j]? = s.calls[j]? := fun hj =>
    getElem?_set_ne fun h => hj h.symm
  have horigin : ∀ {o : Nat} {c₀ : Call} {m : Nat}, s.calls[o]? = some c₀ → c₀.stamp = some m → o ≠ i := by
    rintro o c₀ m hc₀ hm rfl
    rw [hc] at hc₀
    cases hc₀
    rw [hnostamp] at hm
    cases hm
  constructor
  · intro j c' n hc' hn
    rcases getElem?_set_cases hc' with ⟨rfl, rfl⟩ | ⟨-, hc'⟩
    · cases hn
      exact Nat.lt_succ_self _
    · exact Nat.lt_succ_of_lt (hinv.stamps_lt j c' n hc' hn)
  · intro j c' hc' hphase'
    rcases getElem?_set_cases hc' with ⟨rfl, rfl⟩ | ⟨-, hc'⟩
    · cases hphase'
    · exact hinv.requested j c' hc' hphase'
  · intro key' e he
    by_cases hk : key' = key
    · rw [hk] at he ⊢
      obtain ⟨ho, hd⟩ := hstore e he
      refine ⟨served, s.stamps, ho ▸ hserved, hkey, rfl, hd.symm, fun j c' n hc' _ hn => ?_⟩
      rcases getElem?_set_cases hc' with ⟨rfl, rfl⟩ | ⟨-, hc'⟩
      · cases hn
        exact le_rfl
      · exact le_of_lt (hinv.stamps_lt j c' n hc' hn)
    · obtain ⟨c₀, m, hc₀, hkey₀, hm, hd, hlatest⟩ := hinv.store key' e (hother key' e hk he)
      refine ⟨c₀, m, (hothers (horigin hc₀ hm)).trans hc₀, hkey₀, hm, hd, fun j c' n hc' hkey' hn => ?_⟩
      rcases getElem?_set_cases hc' with ⟨rfl, rfl⟩ | ⟨-, hc'⟩
      · exact absurd (hkey'.symm.trans hkey) hk
      · exact hlatest j c' n hc' hkey' hn
  · intro node key' copy hcopy
    obtain ⟨c₀, hc₀, hkey₀, hd, hpending⟩ := hinv.copies node key' copy hcopy
    by_cases ho : copy.origin = i
    · rw [ho, hc] at hc₀
      cases hc₀
      -- the copy is of the value just stored
      refine ⟨served, ho ▸ hserved, hkey₀, hlive, fun m hm j c' n hc' _ hn hlt => ?_⟩
      cases hm
      rcases getElem?_set_cases hc' with ⟨rfl, rfl⟩ | ⟨-, hc'⟩
      · cases hn
        exact absurd hlt (lt_irrefl _)
      · exact absurd (hinv.stamps_lt j c' n hc' hn) (Nat.lt_asymm hlt)
    · refine ⟨c₀, (hothers ho).trans hc₀, hkey₀, hd, fun m hm j c' n hc' hkey' hn hlt => ?_⟩
      rcases getElem?_set_cases hc' with ⟨rfl, rfl⟩ | ⟨-, hc'⟩
      · -- an invalidation, whose message is to come
        have hk : key' = key := hkey'.symm.trans hkey
        rw [hk] at hcopy ⊢
        exact .inl ⟨trivial, (hcopies node copy hcopy).resolve_left ho⟩
      · exact hpending m hm j c' n hc' hkey' hn hlt
  · intro j c' key' value ttlMs hc' hop hphase'
    rcases getElem?_set_cases hc' with ⟨rfl, rfl⟩ | ⟨-, hc'⟩
    · cases hphase'
    · refine ⟨(hinv.setting j c' key' value ttlMs hc' hop hphase').1,
      fun k c'' value' ttlMs' hc'' hop'' hphase'' => ?_⟩
      rcases getElem?_set_cases hc'' with ⟨rfl, rfl⟩ | ⟨-, hc''⟩
      · cases hphase''
      · exact (hinv.setting j c' key' value ttlMs hc' hop hphase').2 k c'' value' ttlMs' hc'' hop'' hphase''

theorem Inv.serve (i : Nat) : (s.serve i).Inv := by
  unfold Cluster.serve
  split
  · exact hinv
  next c hc =>
  split
  · next key hphase hop => exact hinv.rephase hc nofun (fun h => by rw [hphase] at h; exact h.elim)
  · next key value ttlMs hphase hop =>
    have hkey : c.op.key = key := by rw [hop]; rfl
    refine hinv.write hc hphase hkey ?_ ?_ ?_ ?_
    · intro d hd
      obtain ⟨ttl, -, rfl⟩ := Option.map_eq_some_iff.1 hd
      exact Nat.le_add_right _ _
    · intro e he
      rw [get_set, if_pos rfl] at he
      cases he
      exact ⟨rfl, rfl⟩
    · intro key' e hne he
      rwa [get_set, if_neg hne] at he
    · exact fun node copy hcopy => .inl ((hinv.setting i c key value ttlMs hc hop hphase).1 node copy hcopy)
  · next key hphase hop =>
    have hkey : c.op.key = key := by rw [hop]; rfl
    have hlive : ∀ d, c.deadline = some d → s.now ≤ d := by
      rw [(hinv.requested i c hc hphase).2]
      exact fun _ => nofun
    refine hinv.write hc hphase hkey hlive ?_ ?_ fun _ _ _ => .inr hop
    · intro e he
      rw [get_delete, if_pos rfl] at he
      cases he
    · intro key' e hne he
      rwa [get_delete, if_neg hne] at he
  · next key hphase hop =>
    refine (hinv.announce _).rephase hc nofun fun _ key' hop' => .inr ?_
    intro node hnode
    rw [hop] at hop'
    cases hop'
    exact mem_append_right _ (mem_map_of_mem (mem_range.2 hnode))
  · exact hinv

/-- A message is handled: what it was pending for is no longer cached on the node. -/
theorem Inv.deliver (j : Nat) : (s.deliver j).Inv := by
  unfold Cluster.deliver
  split
  · exact hinv
  next m hm =>
  have hmem : ∀ {m'}, m' ∈ s.messages → m' = m ∨ m' ∈ s.messages.eraseIdx j := by
    intro m' hm'
    obtain ⟨k, hk⟩ := getElem?_of_mem hm'
    by_cases hkj : k = j
    · rw [hkj, hm] at hk
      exact .inl (some.inj hk).symm
    · exact .inr (mem_eraseIdx_iff_getElem?.2 ⟨k, hkj, hk⟩)
  -- a copy that is left is not the one the message was for
  have handled : ∀ {nodes : List (LruCache String Copy)}, (∀ node key copy, local? { s with nodes := nodes } node key = some copy →
        s.local? node key = some copy ∧ ¬ (node = m.node ∧ key = m.key)) →
      Inv { s with messages := s.messages.eraseIdx j, nodes := nodes } := by
    intro nodes hnodes
    have hshrunk : Inv { s with nodes := nodes } := hinv.shrink fun node key copy h => (hnodes node key copy h).1
    refine { hshrunk with copies := ?_ }
    intro node key copy hcopy
    obtain ⟨c, hc, hkey, hd, hpending⟩ := hshrunk.copies node key copy hcopy
    refine ⟨c, hc, hkey, hd, fun n hn k c' n' hc' hkey' hn' hlt => ?_⟩
    rcases hpending n hn k c' n' hc' hkey' hn' hlt with hunsent | hmessage
    · exact .inl hunsent
    · rcases hmem hmessage with heq | hleft
      · exact absurd ⟨congrArg Message.node heq, congrArg Message.key heq⟩ (hnodes node key copy hcopy).2
      · exact .inr hleft
  split
  · next hnone =>
    refine handled fun node key copy hcopy => ⟨hcopy, ?_⟩
    rintro ⟨rfl, -⟩
    rw [local?, show Cluster.nodes { s with nodes := s.nodes } = s.nodes from rfl, hnone] at hcopy
    cases hcopy
  · next lru hlru =>
    refine handled fun node key copy hcopy => ⟨local?_shrinks hlru (lru.shrinks_keep s.now _) hcopy, ?_⟩
    rintro ⟨rfl, rfl⟩
    rw [local?_set_node hlru, if_pos rfl, LruCache.read_delete_self] at hcopy
    cases hcopy

theorem Inv.fill (hlru : s.nodes[node]? = some lru) (hstored : s.stored key = some copy) (hsetting : ¬ s.Setting key) :
    Inv { s with nodes := s.nodes.set node (lru.set s.now key copy) } := by
  have hlocal : ∀ {node' : Nat} {key' : String} {copy' : Copy},
      local? { s with nodes := s.nodes.set node (lru.set s.now key copy) } node' key' = some copy' →
      key' = key ∧ copy' = copy ∨ s.local? node' key' = some copy' := by
    intro node' key' copy' h
    rw [local?_set_node hlru] at h
    split at h
    · next heq =>
      rcases LruCache.read_set h with hnew | ⟨-, hread⟩
      · exact .inl hnew
      · exact .inr (by rw [heq, local?_of_node hlru]; exact hread)
    · exact .inr h
  refine { hinv with copies := ?_, setting := ?_ }
  · intro node' key' copy' hcopy
    rcases hlocal hcopy with ⟨rfl, rfl⟩ | hcopy
    · obtain ⟨e, he, rfl, hlive⟩ := stored_eq_some hstored
      obtain ⟨c, m, hc, hkey, hm, hd, hlatest⟩ := hinv.store key' e he
      refine ⟨c, hc, hkey, fun deadline h => hlive deadline (hd ▸ h), fun m' hm' j c' n hc' hkey' hn hlt => ?_⟩
      rw [hm] at hm'
      cases hm'
      exact absurd (hlatest j c' n hc' hkey' hn) (not_le.2 hlt)
    · exact hinv.copies node' key' copy' hcopy
  · intro i c key' value ttlMs hc hop hphase
    refine ⟨fun node' copy' hcopy => ?_, (hinv.setting i c key' value ttlMs hc hop hphase).2⟩
    rcases hlocal hcopy with ⟨rfl, -⟩ | hcopy
    · exact absurd ⟨i, c, value, ttlMs, hc, hop, hphase⟩ hsetting
    · exact (hinv.setting i c key' value ttlMs hc hop hphase).1 node' copy' hcopy

theorem Inv.resume (h : s.Orderly (.resume i)) : (s.resume i).Inv := by
  unfold Cluster.resume
  split
  · exact hinv
  next c hc =>
  split
  · next found key hphase hop =>
    have hdone : ∀ {s' : Cluster}, s'.Inv → s'.calls = s.calls →
        Inv { s' with calls := s'.calls.set i { c with phase := .done } } := fun h' hcalls =>
      h'.rephase (by rw [hcalls]; exact hc) nofun fun _ key' hop' => by rw [hop] at hop'; cases hop'
    split
    · next copy lru hlru =>
      obtain ⟨hstored, hsetting⟩ := h c key copy hc hop hphase
      exact hdone (hinv.fill hlru hstored hsetting) rfl
    · exact hdone hinv rfl
  · next key value ttlMs hphase hop =>
    exact hinv.rephase hc nofun fun _ key' hop' => by rw [hop] at hop'; cases hop'
  · exact hinv.rephase hc nofun fun _ _ _ => .inl trivial
  · next key hphase hop => exact hinv.rephase hc nofun fun hunsent => by rw [hphase] at hunsent; exact hunsent.elim
  · exact hinv

theorem Inv.pass {ms : Nat} (h : s.Orderly (.pass ms)) : Inv { s with now := s.now + ms } := by
  have hlocal : ∀ {node key copy}, local? { s with now := s.now + ms } node key = some copy → s.local? node key = some copy := by
    intro node key copy hcopy
    unfold local? at hcopy ⊢
    obtain ⟨lru, hlru, hread⟩ := Option.bind_eq_some_iff.1 hcopy
    rw [hlru, bind_some]
    exact LruCache.shrinks_of_mem (Nat.le_add_right _ _) (fun _ => id) key copy hread
  refine { hinv with copies := ?_, setting := ?_ }
  · intro node key copy hcopy
    obtain ⟨c, hc, hkey, -, hpending⟩ := hinv.copies node key copy (hlocal hcopy)
    exact ⟨c, hc, hkey, fun deadline hd => h node key copy hcopy deadline ((deadlineOf_eq hc).trans hd), hpending⟩
  · intro i c key value ttlMs hc hop hphase
    exact ⟨fun node copy hcopy => (hinv.setting i c key value ttlMs hc hop hphase).1 node copy (hlocal hcopy),
      (hinv.setting i c key value ttlMs hc hop hphase).2⟩

end

end

end Cluster

/-! ## Runs -/

theorem inv_step {s : Cluster} (hinv : s.Inv) {e : Event} (h : s.Orderly e) : (step s e).Inv := by
  cases e with
  | get node key => exact hinv.get node key
  | set node key value ttlMs => exact hinv.set h.1 h.2
  | invalidate node key => exact hinv.invalidate node key
  | serve i => exact hinv.serve i
  | resume i => exact hinv.resume h
  | deliver j => exact hinv.deliver j
  | sweep node => exact hinv.sweep node
  | pass ms => exact hinv.pass h

theorem inv_start (nodes : List (LruCache String Copy)) : (start nodes).Inv := by
  have hnone : ∀ {i : Nat} {c : Call}, ¬ (start nodes).calls[i]? = some c := nofun
  refine ⟨fun i c n hc => absurd hc hnone, fun i c hc => absurd hc hnone, fun _ _ => nofun, ?_, fun i c _ _ _ hc => absurd hc hnone⟩
  intro node key copy hcopy
  unfold Cluster.local? start at hcopy
  rw [getElem?_map] at hcopy
  cases hnode : nodes[node]? with
  | none =>
    rw [hnode] at hcopy
    cases hcopy
  | some lru =>
    rw [hnode, Option.map_some, bind_some] at hcopy
    obtain ⟨e, he, -⟩ := LruCache.read_eq_some.1 hcopy
    exact absurd (mem_filter.1 he).2 nofun

/-- **No `get` is stale**: in every run whose steps are orderly, what each `get` obtains is neither older than a
settled write of its key nor past its time to live. -/
theorem coherent_of_orderly (nodes : List (LruCache String Copy)) (es : List Event)
    (h : Guarded step Cluster.Orderly (start nodes) es) : Guarded step Cluster.Coherent (start nodes) es :=
  guarded_of_invariant step (fun _ _ hinv hg => inv_step hinv hg) (fun _ e hinv _ => hinv.coherent e) es h (inv_start nodes)

/-! ## Two nodes -/

/-- Caches of ten entries that live for an hour. -/
def twoNodes : List (LruCache String Copy) := [.new 10 3600000 (by decide), .new 10 3600000 (by decide)]

/-- The second node reads and caches what the first one set, until it is invalidated. -/
def orderlyRun : List Event :=
  [.set 0 "k" "v" (some 50), .serve 0, .resume 0, .get 1 "k", .serve 1, .resume 1, .invalidate 0 "k", .serve 2,
    .resume 2, .serve 2, .deliver 1, .resume 2, .get 1 "k"]

theorem coherent_of_orderly_twoNodes : Guarded step Cluster.Coherent (start twoNodes) orderlyRun := by
  refine coherent_of_orderly twoNodes orderlyRun
    ⟨⟨?_, ?_⟩, trivial, ?_, trivial, trivial, ?_, trivial, trivial, ?_, trivial, trivial, ?_, trivial, trivial⟩
  · rintro ⟨i, c, value, ttlMs, hc, -⟩
    cases hc
  · intro other _
    match other with
    | 0 => rfl
    | 1 => rfl
    | _ + 2 => rfl
  · intro c key copy hc hop
    cases hc
    cases hop
  · intro c key copy hc hop hphase
    cases hc
    cases hop
    cases hphase
    refine ⟨by decide, ?_⟩
    rintro ⟨i, c, value, ttlMs, hc, hop, hphase⟩
    match i with
    | 0 => cases hc; cases hphase
    | 1 => cases hc; cases hop
    | _ + 2 => cases hc
  · intro c key copy hc hop
    cases hc
    cases hop
  · intro c key copy hc hop
    cases hc
    cases hop

/-- The second node has a copy when the first one sets a new value. -/
def staleRun : List Event :=
  [.set 0 "k" "old" none, .serve 0, .resume 0, .get 1 "k", .serve 1, .resume 1, .set 0 "k" "new" none, .serve 2, .resume 2, .get 1 "k"]

/-- The second node still reads the old value when the new one has been set. -/
theorem staleRun_counterexample : ¬ Guarded step Cluster.Coherent (start twoNodes) staleRun := by
  intro h
  obtain ⟨-, -, -, -, -, -, -, -, -, hget, -⟩ := h
  obtain ⟨hfresh, -⟩ := hget "k" ⟨"old", 0⟩ (by decide)
  refine hfresh 2 ⟨_, rfl, rfl, rfl, ?_⟩ ⟨0, 1, rfl, rfl, by decide⟩
  exact fun m hm => absurd hm not_mem_nil

end StreetJS.Cache
