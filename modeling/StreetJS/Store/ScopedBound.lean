/-
Whether a key is let through more often in a window than the limit says. Between the count of a request and
its hit others may hit; the in-memory store is bounded in keys and in instants of a key; Redis has a clock of
its own.
-/
import StreetJS.Store.ScopedRateLimit

namespace StreetJS.Store

open StreetJS.Lib SlidingWindow InMemoryRateLimitStore List OrderedMap
open Prod (fst)

/-! ## The property and its condition -/

/-- The requests of a key that are let through, at instants from `lo` to `hi`. -/
def Limiter.admittedWithin (s : Limiter) (key : String) (lo hi : Int) : Nat :=
  s.requests.countP fun r => r.key = key ∧ r.phase = .admitted ∧ lo ≤ r.now ∧ r.now ≤ hi

/-- No window of a key has more requests than the limit. -/
def LimitKept (opts : ScopedRateLimitOptions) (s : Limiter) : Prop :=
  ∀ key t, s.admittedWithin key (t - opts.windowMs) t ≤ opts.requests

/-- The instants that the store has of a key. -/
def RateStore.kept : RateStore → String → List Int
  | .memory m, key => m.timestamps key
  | .redis sets, key => (sets.zset key).members.map (·.1)

/-- A request whose hit is in the store. -/
def Phase.recorded : Phase → Bool
  | .expire | .cardForHit | .admitted => true
  | _ => false

/-- A request that has dropped what is before its window. -/
def Phase.trimmed : RateStore → Phase → Bool
  | .memory _, phase => decide (phase = .admitted)
  | .redis _, phase => decide (phase ≠ .trimForCount)

/-- The count of a request still stands: the store has fewer than the limit in its window. And the clock was
not read later by a sweep, nor by a request of the key that has trimmed it. -/
structure Current (opts : ScopedRateLimitOptions) (s : Limiter) (r : Request) : Prop where
  room : since (r.now - opts.windowMs) (s.store.kept r.key) < opts.requests
  latest : ∀ r' ∈ s.requests, r'.key = r.key → r'.phase.trimmed s.store = true → r'.now ≤ r.now
  swept : ∀ n ∈ s.swept, n ≤ r.now

/-- A hit finds the count current and the store with a place for it; a sweep leaves the window; Redis lets a key
expire only when all its members are before the window of the request that finds it so. -/
def Undisturbed (opts : ScopedRateLimitOptions) (s : Limiter) : LimiterEvent → Prop
  | .arrive _ _ _ => True
  | .proceed x storeNow => ∀ r, s.requests[x]? = some r → match s.store with
    | .memory m => r.phase = .hit → Current opts s r ∧ opts.requests ≤ opts.memory.maxRequestsPerKey ∧
        (m.has r.key = true ∨ m.length < opts.memory.maxKeys)
    | .redis sets =>
      (RedisSets.ZSet.expired (sets.zset r.key) storeNow = true → ∀ a ∈ s.store.kept r.key, a < r.now - opts.windowMs) ∧
        (r.phase = .add → Current opts s r ∧ (r.now, r.suffix) ∉ (sets.zset r.key).members)
  | .sweep _ => ∀ retentionMs, opts.retentionMs = some retentionMs → opts.windowMs ≤ retentionMs

/-! ## What the commands keep -/

namespace RedisSets

variable (sets : RedisSets) (key key' : String)

@[simp] theorem members_put (set : ZSet) :
    (zset (put sets key set) key').members = if key' = key then set.members else (zset sets key').members := by
  unfold put zset
  by_cases hset : set.members = []
  · rw [if_pos hset, get_delete]
    by_cases hk : key' = key <;> simp [hk, hset]
  · rw [if_neg hset, get_set]
    by_cases hk : key' = key <;> simp [hk]

theorem members_live (storeNow : Int) : (zset (live sets key storeNow) key').members =
      if key' = key ∧ ZSet.expired (zset sets key) storeNow = true then [] else (zset sets key').members := by
  unfold live
  by_cases he : ZSet.expired (zset sets key) storeNow = true
  · by_cases hk : key' = key <;> simp [hk, he]
  · rw [if_neg he, if_neg fun h => he h.2]

@[simp] theorem members_zremrangebyscore (cutoff : Int) : (zset (zremrangebyscore sets key cutoff) key').members =
      if key' = key then (zset sets key').members.filter fun m => decide (cutoff ≤ m.1) else (zset sets key').members := by
  unfold zremrangebyscore
  by_cases hk : key' = key <;> simp [hk]

theorem members_zadd {score : Int} {suffix : String} (h : (score, suffix) ∉ (zset sets key).members) :
    (zset (zadd sets key score suffix) key').members =
      if key' = key then (zset sets key').members ++ [(score, suffix)] else (zset sets key').members := by
  unfold zadd
  rw [if_neg h, members_put]
  by_cases hk : key' = key <;> simp [hk]

@[simp] theorem members_pexpire (ms storeNow : Int) : (zset (pexpire sets key ms storeNow) key').members = (zset sets key').members := by
  unfold pexpire
  by_cases hk : key' = key <;> simp [hk]

end RedisSets

variable {store : InMemoryRateLimitStore}

theorem timestamps_sweep (hn : (store.map fst).Nodup) (cutoff : Int) (key : String) :
    (store.sweep cutoff).timestamps key = prune cutoff (store.timestamps key) := by
  unfold sweep timestamps
  rw [get_filterMap (remaining cutoff) hn]
  cases store.get key with
  | none => rfl
  | some instants =>
    simp only [Option.bind_some, Option.getD_some, remaining]
    split
    · rename_i h
      rw [h]
      rfl
    · rfl

theorem keys_sweep_nodup (hn : (store.map fst).Nodup) (cutoff : Int) : ((store.sweep cutoff).map fst).Nodup := by
  refine hn.sublist ?_
  unfold sweep
  induction store with
  | nil => exact List.Sublist.refl _
  | cons entry store ih =>
    rw [map_cons, nodup_cons] at hn
    cases hr : remaining cutoff entry.2 with
    | none =>
      rw [filterMap_cons_none (by rw [hr]; rfl)]
      exact (ih hn.2).cons _
    | some instants =>
      rw [filterMap_cons_some (by rw [hr]; rfl)]
      exact (ih hn.2).cons_cons _

theorem keys_hit_nodup (hn : (store.map fst).Nodup) (opts : RateLimitStoreOptions)
    (key : String) (now windowMs : Int) : ((hit opts store key now windowMs).1.map fst).Nodup := by
  apply keys_set_nodup
  split
  · exact hn.sublist ((tail_sublist store).map _)
  · exact hn

/-! ## Requests -/

namespace Limiter

variable {s : Limiter}

/-- The requests of a key whose hits are in the store, at instants that meet `p`. -/
def recordedWhere (s : Limiter) (key : String) (p : Int → Bool) : Nat :=
  s.requests.countP fun r => decide (r.key = key) && r.phase.recorded && p r.now

variable {r : Request}

theorem recordedWhere_move {x : Nat} (hx : s.requests[x]? = some r) (store : RateStore) (phase : Phase) (key : String) (p : Int → Bool) :
    (s.move x r store phase).recordedWhere key p + (decide (r.key = key) && r.phase.recorded && p r.now).toNat =
      s.recordedWhere key p + (decide (r.key = key) && phase.recorded && p r.now).toNat :=
  countP_set_add (fun r : Request => decide (r.key = key) && r.phase.recorded && p r.now) hx { r with phase }

theorem mem_move {x : Nat} {r' : Request} {store : RateStore} {phase : Phase}
    (h : r' ∈ (s.move x r store phase).requests) : r' ∈ s.requests ∨ r' = { r with phase } :=
  mem_or_eq_of_mem_set h

theorem mem_move_self {x : Nat} (hx : s.requests[x]? = some r) (store : RateStore) (phase : Phase) :
    { r with phase } ∈ (s.move x r store phase).requests :=
  mem_set (lt_length hx) _

theorem mem_move_of_mem {x : Nat} {r' : Request} (hx : s.requests[x]? = some r) (store : RateStore) (phase : Phase)
    (h : r' ∈ s.requests) : r' ∈ (s.move x r store phase).requests ∨ r' = r := by
  obtain ⟨y, hy⟩ := mem_iff_getElem?.1 h
  by_cases hyx : y = x
  · subst hyx
    rw [hx] at hy
    cases hy
    exact .inr rfl
  · left
    apply mem_iff_getElem?.2
    refine ⟨y, ?_⟩
    simp only [move]
    rw [getElem?_set_ne fun h => hyx h.symm]
    exact hy

end Limiter

/-! ## The bound -/

/-- What the store has of a key tells how many were recorded in every window that no reading of the clock has
cut; those that are recorded keep to the limit. -/
structure Paced (opts : ScopedRateLimitOptions) (s : Limiter) : Prop where
  keys : ∀ m, s.store = .memory m → (m.map fst).Nodup
  ascending : ∀ m, s.store = .memory m → ∀ key, (m.timestamps key).Pairwise (· ≤ ·)
  held : ∀ key, ∀ a ∈ s.store.kept key, ∃ r ∈ s.requests, r.key = key ∧ r.phase.trimmed s.store = true ∧ r.now = a
  trimmed : ∀ r ∈ s.requests, r.phase.recorded = true → r.phase.trimmed s.store = true
  faithful : ∀ key now, (∀ r ∈ s.requests, r.key = key → r.phase.trimmed s.store = true → r.now ≤ now) →
    (∀ n ∈ s.swept, n ≤ now) → since (now - opts.windowMs) (s.store.kept key) = s.recordedWhere key fun a => decide (now - opts.windowMs ≤ a)
  bound : ∀ key t, s.recordedWhere key (fun a => decide (t - opts.windowMs ≤ a ∧ a ≤ t)) ≤ opts.requests

section

variable {opts : ScopedRateLimitOptions} {s : Limiter}

theorem Paced.kept (h : Paced opts s) : LimitKept opts s := by
  intro key t
  apply le_trans _ (h.bound key t)
  apply countP_mono_left
  intro r _ hr
  simp only [decide_eq_true_eq] at hr
  obtain ⟨hk, hp, hlo, hhi⟩ := hr
  simp [hk, hp, hlo, hhi, Phase.recorded]

theorem paced_start (store : RateStore) (hempty : store = .memory [] ∨ store = .redis []) : Paced opts { store } where
  keys m hm := by
    rcases hempty with rfl | rfl <;> cases hm
    exact nodup_nil
  ascending m hm key := by
    rcases hempty with rfl | rfl <;> cases hm
    exact List.Pairwise.nil
  held key a ha := by
    rcases hempty with rfl | rfl <;> cases ha
  trimmed r hr := absurd hr not_mem_nil
  faithful key now _ _ := by
    rcases hempty with rfl | rfl <;> rfl
  bound key t := Nat.zero_le _

theorem Paced.arrive (h : Paced opts s) (key : String) (now : Int) (suffix : String) : Paced opts (s.step opts (.arrive key now suffix)) := by
  have hrecorded : (Limiter.firstPhase s.store).recorded = false := by
    cases s.store <;> rfl
  have hwhere : ∀ key' p, (s.step opts (.arrive key now suffix)).recordedWhere key' p = s.recordedWhere key' p := by
    intro key' p
    simp [Limiter.recordedWhere, Limiter.step, countP_append, hrecorded]
  constructor
  · exact h.keys
  · exact h.ascending
  · intro key' a ha
    obtain ⟨r, hr, hrest⟩ := h.held key' a ha
    exact ⟨r, mem_append_left _ hr, hrest⟩
  · intro r hr hrec
    rcases mem_append.1 hr with hr | hr
    · exact h.trimmed r hr hrec
    · rw [mem_singleton.1 hr, hrecorded] at hrec
      cases hrec
  · intro key' now' hlatest hswept
    rw [hwhere]
    exact h.faithful key' now' (fun r hr => hlatest r (mem_append_left _ hr)) hswept
  · intro key' t
    rw [hwhere]
    exact h.bound key' t

theorem Paced.sweep (h : Paced opts s) {now : Int} (hg : Undisturbed opts s (.sweep now)) : Paced opts (s.step opts (.sweep now)) := by
  unfold Limiter.step
  dsimp only
  split
  · rename_i m retentionMs hm hretention
    have hle := hg retentionMs hretention
    have hkept : ∀ key, m.timestamps key = s.store.kept key := fun key => by rw [hm]; rfl
    have htrimmed : ∀ phase : Phase, phase.trimmed (.memory (m.sweep (now - retentionMs))) = phase.trimmed s.store := by
      intro phase
      rw [hm]
      rfl
    have hnodup := h.keys m hm
    constructor
    · intro m' hm'
      cases hm'
      exact keys_sweep_nodup hnodup _
    · intro m' hm' key
      cases hm'
      rw [timestamps_sweep hnodup]
      exact (h.ascending m hm key).sublist prune_sublist
    · intro key a ha
      have ha' : a ∈ prune (now - retentionMs) (m.timestamps key) := by
        rw [← timestamps_sweep hnodup]
        exact ha
      obtain ⟨r, hr, hk, ht, hn⟩ := h.held key a (by rw [← hkept]; exact prune_sublist.subset ha')
      exact ⟨r, hr, hk, (htrimmed r.phase).trans ht, hn⟩
    · intro r hr hrec
      exact (htrimmed r.phase).trans (h.trimmed r hr hrec)
    · intro key now' hlatest hswept
      have hnow : now ≤ now' := hswept now (mem_append_right _ (mem_singleton_self now))
      have hold := h.faithful key now' (fun r hr hk ht => hlatest r hr hk ((htrimmed r.phase).trans ht))
        fun n hn => hswept n (mem_append_left _ hn)
      show since (now' - opts.windowMs) ((m.sweep (now - retentionMs)).timestamps key) = _
      rw [timestamps_sweep hnodup, since_prune (by omega), hkept]
      exact hold
    · exact h.bound
  · exact h

variable {x : Nat} {r : Request} {store : RateStore} {phase : Phase}

/-- What a request that moves on has to respect: the store is of the same kind and the other keys are as they
were, and a request that has trimmed stays so. -/
structure Moves (s : Limiter) (x : Nat) (r : Request) (store : RateStore) (phase : Phase) : Prop where
  found : s.requests[x]? = some r
  kind : ∀ p : Phase, p.trimmed store = p.trimmed s.store
  trimmed : r.phase.trimmed s.store = true → phase.trimmed s.store = true
  other : ∀ key, key ≠ r.key → store.kept key = s.store.kept key
  keys : ∀ m, store = .memory m → (m.map fst).Nodup
  ascending : ∀ m, store = .memory m → ∀ key, (m.timestamps key).Pairwise (· ≤ ·)

variable {key : String}

/-- Readings that are no later than `now` after a move were so before, and the request is among them if it has
trimmed. -/
theorem Moves.latest (h : Moves s x r store phase) {now : Int}
    (hlatest : ∀ r' ∈ (s.move x r store phase).requests, r'.key = key → r'.phase.trimmed store = true → r'.now ≤ now) :
    (∀ r' ∈ s.requests, r'.key = key → r'.phase.trimmed s.store = true → r'.now ≤ now) ∧
      (r.key = key → phase.trimmed s.store = true → r.now ≤ now) := by
  have hself : r.key = key → phase.trimmed s.store = true → r.now ≤ now := by
    intro hk ht
    exact hlatest { r with phase } (Limiter.mem_move_self h.found store phase) hk ((h.kind phase).trans ht)
  refine ⟨fun r' hr' hk ht => ?_, hself⟩
  rcases Limiter.mem_move_of_mem h.found store phase hr' with hr' | rfl
  · exact hlatest r' hr' hk ((h.kind r'.phase).trans ht)
  · exact hself hk (h.trimmed ht)

section

variable (h : Paced opts s) (hm : Moves s x r store phase)
include h hm

theorem Paced.heldMove {a : Int} (ha : a ∈ s.store.kept key) :
    ∃ r' ∈ (s.move x r store phase).requests, r'.key = key ∧ r'.phase.trimmed store = true ∧ r'.now = a := by
  obtain ⟨r', hr', hk, ht, hn⟩ := h.held key a ha
  rcases Limiter.mem_move_of_mem hm.found store phase hr' with hr' | rfl
  · exact ⟨r', hr', hk, (hm.kind r'.phase).trans ht, hn⟩
  · exact ⟨_, Limiter.mem_move_self hm.found store phase, hk, (hm.kind phase).trans (hm.trimmed ht), hn⟩

theorem Paced.still (hrec : phase.recorded = r.phase.recorded) (hkept : ∀ c, (phase.trimmed s.store = true → r.now - opts.windowMs ≤ c) →
      since c (store.kept r.key) = since c (s.store.kept r.key))
    (hsub : ∀ a ∈ store.kept r.key, a ∈ s.store.kept r.key) : Paced opts (s.move x r store phase) := by
  have hwhere : ∀ key p, (s.move x r store phase).recordedWhere key p = s.recordedWhere key p := by
    intro key p
    have hmove := Limiter.recordedWhere_move hm.found store phase key p
    rw [hrec] at hmove
    exact Nat.add_right_cancel hmove
  constructor
  · exact hm.keys
  · exact hm.ascending
  · intro key a ha
    by_cases hk : key = r.key
    · subst hk
      exact h.heldMove hm (hsub a ha)
    · have ha' : a ∈ store.kept key := ha
      rw [hm.other key hk] at ha'
      exact h.heldMove hm ha'
  · intro r' hr' hrec'
    rcases Limiter.mem_move hr' with hr' | rfl
    · exact (hm.kind r'.phase).trans (h.trimmed r' hr' hrec')
    · have hr := h.trimmed r (mem_of_getElem? hm.found) (hrec ▸ hrec')
      exact (hm.kind phase).trans (hm.trimmed hr)
  · intro key now hlatest hswept
    obtain ⟨hlatest', hself⟩ := hm.latest hlatest
    have hold := h.faithful key now hlatest' hswept
    rw [hwhere, ← hold]
    by_cases hk : key = r.key
    · subst hk
      apply hkept
      intro ht
      have := hself rfl ht
      omega
    · show since _ (store.kept key) = _
      rw [hm.other key hk]
  · intro key t
    rw [hwhere]
    exact h.bound key t

theorem Paced.record (hcurrent : Current opts s r)
    (hbefore : r.phase.recorded = false) (hafter : phase.recorded = true) (htrimmed : phase.trimmed s.store = true)
    (hkept : ∀ c, r.now - opts.windowMs ≤ c → since c (store.kept r.key) = since c (s.store.kept r.key) + if c ≤ r.now then 1 else 0)
    (hsub : ∀ a ∈ store.kept r.key, a ∈ s.store.kept r.key ∨ a = r.now) : Paced opts (s.move x r store phase) := by
  have hwhere : ∀ key p, (s.move x r store phase).recordedWhere key p = s.recordedWhere key p + (decide (r.key = key) && p r.now).toNat := by
    intro key p
    have hmove := Limiter.recordedWhere_move hm.found store phase key p
    simpa [hbefore, hafter] using hmove
  have hroom : s.recordedWhere r.key (fun a => decide (r.now - opts.windowMs ≤ a)) < opts.requests := by
    rw [← h.faithful r.key r.now hcurrent.latest hcurrent.swept]
    exact hcurrent.room
  constructor
  · exact hm.keys
  · exact hm.ascending
  · intro key a ha
    by_cases hk : key = r.key
    · subst hk
      rcases hsub a ha with ha | rfl
      · exact h.heldMove hm ha
      · exact ⟨_, Limiter.mem_move_self hm.found store phase, rfl, (hm.kind phase).trans htrimmed, rfl⟩
    · have ha' : a ∈ store.kept key := ha
      rw [hm.other key hk] at ha'
      exact h.heldMove hm ha'
  · intro r' hr' hrec'
    rcases Limiter.mem_move hr' with hr' | rfl
    · exact (hm.kind r'.phase).trans (h.trimmed r' hr' hrec')
    · exact (hm.kind phase).trans htrimmed
  · intro key now hlatest hswept
    obtain ⟨hlatest', hself⟩ := hm.latest hlatest
    have hold := h.faithful key now hlatest' hswept
    rw [hwhere, ← hold]
    by_cases hk : key = r.key
    · subst hk
      have hle := hself rfl htrimmed
      have := hkept (now - opts.windowMs) (by omega)
      rw [show (s.move x r store phase).store.kept r.key = store.kept r.key from rfl, this]
      by_cases hc : now - opts.windowMs ≤ r.now <;> simp [hc]
    · show since _ (store.kept key) = _
      rw [hm.other key hk]
      simp [Ne.symm hk]
  · intro key t
    rw [hwhere]
    by_cases hin : r.key = key ∧ t - opts.windowMs ≤ r.now ∧ r.now ≤ t
    · obtain ⟨rfl, hlo, hhi⟩ := hin
      -- what is in a window with the request is in the window behind it, or is later and was counted with it
      have hmono : s.recordedWhere r.key (fun a => decide (t - opts.windowMs ≤ a ∧ a ≤ t)) ≤
          s.recordedWhere r.key fun a => decide (r.now - opts.windowMs ≤ a) := by
        apply countP_mono_left
        intro r' _ hr'
        simp only [Bool.and_eq_true, decide_eq_true_eq] at hr' ⊢
        exact ⟨hr'.1, by omega⟩
      have hone : (decide (r.key = r.key) && decide (t - opts.windowMs ≤ r.now ∧ r.now ≤ t)).toNat ≤ 1 := Bool.toNat_le _
      omega
    · have hzero : (decide (r.key = key) && decide (t - opts.windowMs ≤ r.now ∧ r.now ≤ t)).toNat = 0 := by
        by_cases hk : r.key = key
        · have hno : ¬ (t - opts.windowMs ≤ r.now ∧ r.now ≤ t) := fun h' => hin ⟨hk, h'⟩
          rw [decide_eq_false hno, Bool.and_false]
          rfl
        · rw [decide_eq_false hk]
          rfl
      rw [hzero, Nat.add_zero]
      exact h.bound key t

end

theorem Paced.proceedMemory (h : Paced opts s) {m : InMemoryRateLimitStore} (hs : s.store = .memory m) (hx : s.requests[x]? = some r)
    (hg : r.phase = .hit → Current opts s r ∧ opts.requests ≤ opts.memory.maxRequestsPerKey ∧
      (m.has r.key = true ∨ m.length < opts.memory.maxKeys)) :
    Paced opts (s.proceedMemory opts x r m) := by
  have hkeys := h.keys m hs
  have hasc := h.ascending m hs
  have hkept : ∀ key, s.store.kept key = m.timestamps key := fun key => by rw [hs]; rfl
  unfold Limiter.proceedMemory
  cases hp : r.phase with
  | count =>
    dsimp only
    have hrec : ∀ phase : Phase, phase = .rejected ∨ phase = .hit → Paced opts (s.move x r (.memory m) phase) := by
      intro phase hphase
      have hm : Moves s x r (.memory m) phase := by
        refine ⟨hx, fun p => by rw [hs], ?_, fun key _ => (hkept key).symm, ?_, ?_⟩
        · intro ht
          rw [hs, hp] at ht
          cases ht
        · intro m' hm'
          cases hm'
          exact hkeys
        · intro m' hm'
          cases hm'
          exact hasc
      apply h.still hm
      · rw [hp]
        rcases hphase with rfl | rfl <;> rfl
      · intro c _
        rw [hkept]
        rfl
      · intro a ha
        rw [hkept]
        exact ha
    split
    · exact hrec .rejected (.inl rfl)
    · exact hrec .hit (.inr rfl)
  | hit =>
    obtain ⟨hcurrent, hcap, hroom⟩ := hg hp
    have hcount : m.count r.key r.now opts.windowMs < opts.memory.maxRequestsPerKey := by
      have := hcurrent.room
      rw [hkept] at this
      exact lt_of_lt_of_le this hcap
    have hhit := timestamps_hit (hasc r.key) hcount
    have hle : ∀ a ∈ m.timestamps r.key, a ≤ r.now := by
      intro a ha
      obtain ⟨r', hr', hk, ht, rfl⟩ := h.held r.key a (by rw [hkept]; exact ha)
      exact hcurrent.latest r' hr' hk ht
    have hother : ∀ key, key ≠ r.key → (m.hit opts.memory r.key r.now opts.windowMs).1.timestamps key = m.timestamps key :=
      fun key hk => timestamps_hit_of_ne hroom hk
    have hm : Moves s x r (.memory (m.hit opts.memory r.key r.now opts.windowMs).1) .admitted := by
      refine ⟨hx, fun p => by rw [hs]; rfl, fun _ => by rw [hs]; rfl, ?_, ?_, ?_⟩
      · intro key hk
        rw [hkept]
        exact hother key hk
      · intro m' hm'
        cases hm'
        exact keys_hit_nodup hkeys _ _ _ _
      · intro m' hm' key
        cases hm'
        by_cases hk : key = r.key
        · subst hk
          rw [hhit, pairwise_append]
          refine ⟨(hasc r.key).sublist prune_sublist, pairwise_singleton _ _, ?_⟩
          intro a ha b hb
          rw [mem_singleton.1 hb]
          exact hle a (prune_sublist.subset ha)
        · rw [hother key hk]
          exact hasc key
    apply h.record hm hcurrent
    · rw [hp]
      rfl
    · rfl
    · rw [hs]
      rfl
    · intro c hc
      show since c ((m.hit opts.memory r.key r.now opts.windowMs).1.timestamps r.key) = _
      rw [hhit, since_append_singleton, since_prune hc, hkept]
    · intro a ha
      have ha' : a ∈ (m.hit opts.memory r.key r.now opts.windowMs).1.timestamps r.key := ha
      rw [hhit, mem_append, mem_singleton] at ha'
      rw [hkept]
      exact ha'.imp (fun ha => prune_sublist.subset ha) id
  | _ => exact h

variable {sets : RedisSets}

theorem Moves.redis {sets' : RedisSets} (hs : s.store = .redis sets) (hx : s.requests[x]? = some r)
    (hphase : phase ≠ .trimForCount) (hother : ∀ key, key ≠ r.key → (sets'.zset key).members = (sets.zset key).members) :
    Moves s x r (.redis sets') phase where
  found := hx
  kind p := by rw [hs]; rfl
  trimmed _ := by
    rw [hs]
    simpa [Phase.trimmed] using hphase
  other key hk := by
    rw [hs]
    simp only [RateStore.kept, hother key hk]
  keys m hm := by cases hm
  ascending m hm := by cases hm

theorem since_live {storeNow cutoff c : Int} (hexpiry : RedisSets.ZSet.expired (sets.zset key) storeNow = true →
      ∀ a ∈ (RateStore.redis sets).kept key, a < cutoff) (hc : cutoff ≤ c) :
    since c ((RateStore.redis (sets.live key storeNow)).kept key) = since c ((RateStore.redis sets).kept key) := by
  simp only [RateStore.kept, RedisSets.members_live, true_and]
  split
  · rename_i he
    have hzero : since c ((sets.zset key).members.map (·.1)) = 0 := by
      unfold since
      rw [countP_eq_zero]
      intro a ha
      have := hexpiry he a ha
      simp only [decide_eq_true_eq]
      omega
    rw [hzero]
    rfl
  · rfl

theorem mem_live {storeNow : Int} {m : Int × String} (h : m ∈ ((sets.live key storeNow).zset key).members) : m ∈ (sets.zset key).members := by
  rw [RedisSets.members_live] at h
  split at h
  · cases h
  · exact h

theorem Paced.proceedRedis (h : Paced opts s) (hs : s.store = .redis sets) (hx : s.requests[x]? = some r) {storeNow : Int}
    (hexpiry : RedisSets.ZSet.expired (sets.zset r.key) storeNow = true → ∀ a ∈ s.store.kept r.key, a < r.now - opts.windowMs)
    (hg : r.phase = .add → Current opts s r ∧ (r.now, r.suffix) ∉ (sets.zset r.key).members) :
    Paced opts (s.proceedRedis opts x r sets storeNow) := by
  have hlive : ∀ key, key ≠ r.key → ((sets.live r.key storeNow).zset key).members = (sets.zset key).members := by
    intro key hk
    rw [RedisSets.members_live, if_neg fun h' => hk h'.1]
  have hsince : ∀ c, r.now - opts.windowMs ≤ c →
      since c ((RateStore.redis (sets.live r.key storeNow)).kept r.key) = since c (s.store.kept r.key) := by
    intro c hc
    rw [hs] at hexpiry ⊢
    exact since_live hexpiry hc
  have hmem : ∀ a ∈ (RateStore.redis (sets.live r.key storeNow)).kept r.key, a ∈ s.store.kept r.key := by
    intro a ha
    obtain ⟨m, hm, rfl⟩ := mem_map.1 ha
    rw [hs]
    exact mem_map.2 ⟨m, mem_live hm, rfl⟩
  have htrimmed : ∀ phase : Phase, phase ≠ .trimForCount → phase.trimmed s.store = true := by
    intro phase hphase
    rw [hs]
    simpa [Phase.trimmed] using hphase
  -- the commands that leave the members as they are
  have hkeep : ∀ (sets' : RedisSets) (phase : Phase), phase ≠ .trimForCount → phase.recorded = r.phase.recorded →
      (∀ key, (sets'.zset key).members = ((sets.live r.key storeNow).zset key).members) →
      Paced opts (s.move x r (.redis sets') phase) := by
    intro sets' phase hphase hrec hmembers
    have hkept : ∀ key, (RateStore.redis sets').kept key = (RateStore.redis (sets.live r.key storeNow)).kept key := by
      intro key
      simp only [RateStore.kept, hmembers]
    apply h.still (Moves.redis hs hx hphase fun key hk => (hmembers key).trans (hlive key hk)) hrec
    · intro c hc
      rw [hkept]
      exact hsince c (hc (htrimmed phase hphase))
    · intro a ha
      rw [hkept] at ha
      exact hmem a ha
  -- the trims, to the window of the request
  have htrim : ∀ phase : Phase, phase ≠ .trimForCount → phase.recorded = r.phase.recorded → Paced opts (s.move x r
        (.redis ((sets.live r.key storeNow).zremrangebyscore r.key (r.now - opts.windowMs))) phase) := by
    intro phase hphase hrec
    have hkept : (RateStore.redis ((sets.live r.key storeNow).zremrangebyscore r.key (r.now - opts.windowMs))).kept r.key =
        ((RateStore.redis (sets.live r.key storeNow)).kept r.key).filter fun a => decide (r.now - opts.windowMs ≤ a) := by
      simp only [RateStore.kept, RedisSets.members_zremrangebyscore, if_true, filter_map]
      rfl
    apply h.still (Moves.redis hs hx hphase _) hrec
    · intro c hc
      have hle := hc (htrimmed phase hphase)
      rw [hkept, since_filter hle]
      exact hsince c hle
    · intro a ha
      rw [hkept] at ha
      exact hmem a (mem_filter.1 ha).1
    · intro key hk
      rw [RedisSets.members_zremrangebyscore, if_neg hk]
      exact hlive key hk
  unfold Limiter.proceedRedis
  cases hp : r.phase with
  | trimForCount => exact htrim .cardForCount (by decide) (by rw [hp]; rfl)
  | cardForCount =>
    dsimp only
    split
    · exact hkeep _ .rejected (by decide) (by rw [hp]; rfl) fun _ => rfl
    · exact hkeep _ .trimForHit (by decide) (by rw [hp]; rfl) fun _ => rfl
  | trimForHit => exact htrim .add (by decide) (by rw [hp]; rfl)
  | add =>
    obtain ⟨hcurrent, hfresh⟩ := hg hp
    have hadd : ∀ key, (((sets.live r.key storeNow).zadd r.key r.now r.suffix).zset key).members =
        if key = r.key then ((sets.live r.key storeNow).zset key).members ++ [(r.now, r.suffix)]
        else ((sets.live r.key storeNow).zset key).members :=
      fun key => RedisSets.members_zadd _ _ _ fun h' => hfresh (mem_live h')
    have hkept : (RateStore.redis ((sets.live r.key storeNow).zadd r.key r.now r.suffix)).kept r.key =
        (RateStore.redis (sets.live r.key storeNow)).kept r.key ++ [r.now] := by
      simp only [RateStore.kept, hadd, if_true, map_append, map_cons, map_nil]
    apply h.record (Moves.redis hs hx (by decide) _) hcurrent
    · rw [hp]
      rfl
    · rfl
    · exact htrimmed .expire (by decide)
    · intro c hc
      rw [hkept, since_append_singleton, hsince c hc]
    · intro a ha
      rw [hkept, mem_append, mem_singleton] at ha
      exact ha.imp (hmem a) id
    · intro key hk
      rw [hadd, if_neg hk]
      exact hlive key hk
  | expire => exact hkeep _ .cardForHit (by decide) (by rw [hp]; rfl) fun key => RedisSets.members_pexpire _ _ _ _ _
  | cardForHit => exact hkeep _ .admitted (by decide) (by rw [hp]; rfl) fun _ => rfl
  | _ => exact h

theorem Paced.step (h : Paced opts s) {ev : LimiterEvent} (hg : Undisturbed opts s ev) : Paced opts (s.step opts ev) := by
  cases ev with
  | arrive key now suffix => exact h.arrive key now suffix
  | sweep now => exact h.sweep hg
  | proceed x storeNow =>
    simp only [Limiter.step]
    cases hx : s.requests[x]? with
    | none => exact h
    | some r =>
      have hgr := hg r hx
      cases hs : s.store with
      | memory m =>
        rw [hs] at hgr
        exact h.proceedMemory hs hx hgr
      | redis sets =>
        simp only [hs] at hgr
        exact h.proceedRedis hs hx (by rw [hs]; exact hgr.1) hgr.2

end

/-! ## Runs -/

/-- For every limit, window and store that starts empty, and every interleaving of requests, awaits and sweeps
that are undisturbed: in every state no window of a key has more admitted requests than the limit. -/
theorem limit_kept_of_undisturbed (opts : ScopedRateLimitOptions) (store : RateStore)
    (hempty : store = .memory [] ∨ store = .redis []) (evs : List LimiterEvent)
    (h : Guarded (Limiter.step opts) (Undisturbed opts) { store } evs) :
    LimitKept opts (run (Limiter.step opts) { store } evs) :=
  (run_invariant_of_guarded (Limiter.step opts) (fun _ _ hp hg => hp.step hg) evs h (paced_start store hempty)).kept

/-- One request in a second. -/
def onePerSecond : ScopedRateLimitOptions := { requests := 1, windowMs := 1000 }

/-- A request that is let through, and one that is turned away. -/
theorem limit_kept_of_undisturbed_inTurn : LimitKept onePerSecond (run (Limiter.step onePerSecond) { store := .memory [] }
      [.arrive "ip:a" 0 "s", .proceed 0 0, .proceed 0 0, .arrive "ip:a" 10 "t", .proceed 1 10]) := by
  apply limit_kept_of_undisturbed onePerSecond (.memory []) (.inl rfl)
  refine ⟨trivial, ?_, ?_, trivial, ?_, trivial⟩
  · rintro r hr
    cases hr
    rintro ⟨⟩
  · rintro r hr
    cases hr
    rintro -
    refine ⟨⟨by decide, ?_, fun n hn => absurd hn not_mem_nil⟩, by decide, .inr (by decide)⟩
    rintro r' hr' - ht
    cases mem_singleton.1 hr'
    cases ht
  · rintro r hr
    cases hr
    rintro ⟨⟩

/-- Two requests count before either hits. -/
theorem raced_requests_counterexample : ¬ LimitKept onePerSecond (run (Limiter.step onePerSecond) { store := .memory [] }
      [.arrive "ip:a" 0 "s", .proceed 0 0, .arrive "ip:a" 0 "t", .proceed 1 0, .proceed 0 0, .proceed 1 0]) := by
  intro h
  have hwindow := h "ip:a" 0
  revert hwindow
  decide

end StreetJS.Store
