/-
The two rate limit stores call by call. Of a key the in-memory store (`store/src/store.ts`) filters what it has;
`RedisRateLimitStore` (`ratelimit/src/ratelimit.ts`) trims its sorted set to the window of each call and lets it
expire.
-/
import StreetJS.Store.ScopedBound

namespace StreetJS.Store

open StreetJS.Lib SlidingWindow InMemoryRateLimitStore List OrderedMap

/-! ## The calls of `RedisRateLimitStore` -/

namespace RedisSets

variable (sets : RedisSets)

/-- Four commands, each with the clock of the server then. -/
def hit (key : String) (now windowMs : Int) (suffix : String) (trimAt addAt expireAt cardAt : Int) : RedisSets × Nat :=
  let sets := (sets.live key trimAt).zremrangebyscore key (now - windowMs)
  let sets := (sets.live key addAt).zadd key now suffix
  let sets := (sets.live key expireAt).pexpire key (max 1 windowMs) expireAt
  let sets := sets.live key cardAt
  (sets, sets.zcard key)

def count (key : String) (now windowMs : Int) (trimAt cardAt : Int) : RedisSets × Nat :=
  let sets := (sets.live key trimAt).zremrangebyscore key (now - windowMs)
  let sets := sets.live key cardAt
  (sets, sets.zcard key)

/-- The instants that a key still has. -/
def instants (key : String) : List Int := (zset sets key).members.map (·.1)

end RedisSets

/-! ## What the commands leave of a key -/

namespace RedisSets

variable {sets : RedisSets} {key : String}

theorem zset_put (set : ZSet) : zset (put sets key set) key = if set.members = [] then {} else set := by
  unfold put zset
  split
  · rw [get_delete, if_pos rfl]
    rfl
  · rw [get_set, if_pos rfl]
    rfl

@[simp] theorem zset_put_of_ne {key' : String} (h : key' ≠ key) (set : ZSet) : zset (put sets key set) key' = zset sets key' := by
  unfold put zset
  split
  · rw [get_delete, if_neg h]
  · rw [get_set, if_neg h]

theorem expired_congr {set set' : ZSet} (h : set.expiresAt = set'.expiresAt) (storeNow : Int) :
    ZSet.expired set storeNow = ZSet.expired set' storeNow := by
  unfold ZSet.expired
  rw [h]

theorem zset_live_of_expired {storeNow : Int} (h : ZSet.expired (zset sets key) storeNow = true) :
    zset (live sets key storeNow) key = {} := by
  unfold live
  rw [if_pos h, zset_put, if_pos rfl]

theorem zset_live {storeNow : Int} (h : ZSet.expired (zset sets key) storeNow = false) :
    zset (live sets key storeNow) key = zset sets key := by
  unfold live
  rw [h, if_neg (by decide)]

/-- The members that a trim keeps. -/
def within (sets : RedisSets) (key : String) (cutoff : Int) : List (Int × String) :=
  (zset sets key).members.filter fun m => decide (cutoff ≤ m.1)

theorem zset_zremrangebyscore (cutoff : Int) : zset (zremrangebyscore sets key cutoff) key =
      if within sets key cutoff = [] then {} else ⟨within sets key cutoff, (zset sets key).expiresAt⟩ :=
  zset_put _

theorem zset_zadd {score : Int} {suffix : String} (h : (score, suffix) ∉ (zset sets key).members) :
    zset (zadd sets key score suffix) key = ⟨(zset sets key).members ++ [(score, suffix)], (zset sets key).expiresAt⟩ := by
  unfold zadd
  rw [if_neg h, zset_put, if_neg (by simp)]

theorem zset_pexpire (ms storeNow : Int) : zset (pexpire sets key ms storeNow) key =
      if (zset sets key).members = [] then {} else ⟨(zset sets key).members, some (storeNow + ms)⟩ :=
  zset_put _

section

variable {now windowMs cutoff storeNow trimAt addAt expireAt cardAt : Int} {suffix : String} {readAt : List Int}

theorem map_within : (within sets key cutoff).map (·.1) = (sets.instants key).filter fun a => decide (cutoff ≤ a) := by
  unfold within instants
  rw [filter_map]
  rfl

theorem within_ne_nil_iff : within sets key cutoff ≠ [] ↔ ∃ a ∈ sets.instants key, cutoff ≤ a := by
  simp [within, instants, filter_eq_nil_iff]

theorem within_congr {sets' : RedisSets} (h : zset sets' key = zset sets key) : within sets' key cutoff = within sets key cutoff := by
  unfold within
  rw [h]

theorem zset_trim_gone (h : ZSet.expired (zset sets key) trimAt = true ∨ within sets key cutoff = []) :
    zset (zremrangebyscore (live sets key trimAt) key cutoff) key = {} := by
  rw [zset_zremrangebyscore]
  refine if_pos ?_
  cases he : ZSet.expired (zset sets key) trimAt with
  | true =>
    unfold within
    rw [zset_live_of_expired he]
    rfl
  | false =>
    rw [within_congr (zset_live he)]
    exact h.resolve_left (by rw [he]; decide)

theorem zset_trim (he : ZSet.expired (zset sets key) trimAt = false) (h : within sets key cutoff ≠ []) :
    zset (zremrangebyscore (live sets key trimAt) key cutoff) key = ⟨within sets key cutoff, (zset sets key).expiresAt⟩ := by
  rw [zset_zremrangebyscore, within_congr (zset_live he), zset_live he, if_neg h]

theorem zset_record_live {ms : Int} (hfresh : (now, suffix) ∉ (zset (live sets key addAt) key).members) :
    zset (pexpire (live (zadd (live sets key addAt) key now suffix) key expireAt) key ms expireAt) key =
      if ZSet.expired (zset (live sets key addAt) key) expireAt then {}
      else ⟨(zset (live sets key addAt) key).members ++ [(now, suffix)], some (expireAt + ms)⟩ := by
  have hadded := zset_zadd hfresh
  have hexpired : ZSet.expired (zset (zadd (live sets key addAt) key now suffix) key) expireAt =
      ZSet.expired (zset (live sets key addAt) key) expireAt := by
    rw [hadded]
    exact expired_congr rfl expireAt
  rw [zset_pexpire, ← hexpired]
  cases hgone : ZSet.expired (zset (zadd (live sets key addAt) key now suffix) key) expireAt with
  | true => rw [zset_live_of_expired hgone, if_pos rfl, if_pos rfl]
  | false => rw [zset_live hgone, hadded, if_neg (by simp), if_neg (by decide)]

theorem zset_record {ms : Int} (hfresh : (now, suffix) ∉ (zset sets key).members)
    (hadd : ZSet.expired (zset sets key) addAt = false) (hexpire : ZSet.expired (zset sets key) expireAt = false) :
    zset (pexpire (live (zadd (live sets key addAt) key now suffix) key expireAt) key ms expireAt) key =
      ⟨(zset sets key).members ++ [(now, suffix)], some (expireAt + ms)⟩ := by
  rw [zset_record_live (by rwa [zset_live hadd]), zset_live hadd, hexpire]
  rfl

theorem zset_record_gone {ms : Int} (hadd : ZSet.expired (zset sets key) addAt = true) :
    zset (pexpire (live (zadd (live sets key addAt) key now suffix) key expireAt) key ms expireAt) key =
      ⟨[(now, suffix)], some (expireAt + ms)⟩ := by
  rw [zset_record_live (by rw [zset_live_of_expired hadd]; exact not_mem_nil), zset_live_of_expired hadd]
  rfl

theorem zset_record_lost {ms : Int} (hfresh : (now, suffix) ∉ (zset sets key).members)
    (hadd : ZSet.expired (zset sets key) addAt = false) (hexpire : ZSet.expired (zset sets key) expireAt = true) :
    zset (pexpire (live (zadd (live sets key addAt) key now suffix) key expireAt) key ms expireAt) key = {} := by
  rw [zset_record_live (by rwa [zset_live hadd]), zset_live hadd, if_pos hexpire]

/-! ## What the calls leave of a key, and return -/

theorem zset_live_of_ne {key' : String} (h : key' ≠ key) : zset (live sets key storeNow) key' = zset sets key' := by
  unfold live
  split
  · exact zset_put_of_ne h _
  · rfl

theorem zset_count_of_ne {key' : String} (h : key' ≠ key) : zset (count sets key now windowMs trimAt cardAt).1 key' = zset sets key' := by
  unfold count zremrangebyscore
  rw [zset_live_of_ne h, zset_put_of_ne h, zset_live_of_ne h]

theorem zset_zadd_of_ne {key' : String} (h : key' ≠ key) : zset (zadd sets key now suffix) key' = zset sets key' := by
  unfold zadd
  dsimp only
  split
  · rfl
  · exact zset_put_of_ne h _

theorem zset_hit_of_ne {key' : String} (h : key' ≠ key) :
    zset (hit sets key now windowMs suffix trimAt addAt expireAt cardAt).1 key' = zset sets key' := by
  unfold hit pexpire zremrangebyscore
  rw [zset_live_of_ne h, zset_put_of_ne h, zset_live_of_ne h, zset_zadd_of_ne h, zset_live_of_ne h, zset_put_of_ne h, zset_live_of_ne h]

/-- Where some of the members are in the window, the key expires at none of the times. -/
def Lasting (sets : RedisSets) (key : String) (cutoff : Int) (readAt : List Int) : Prop :=
  (∃ a ∈ sets.instants key, cutoff ≤ a) → ∀ storeNow ∈ readAt, ZSet.expired (zset sets key) storeNow = false

theorem not_lasting (h : within sets key cutoff ≠ []) (hmem : storeNow ∈ readAt)
    (he : ZSet.expired (zset sets key) storeNow = true) : ¬ Lasting sets key cutoff readAt := by
  intro hlasting
  rw [hlasting (within_ne_nil_iff.1 h) storeNow hmem] at he
  cases he

theorem count_snd : (count sets key now windowMs trimAt cardAt).2 = ((count sets key now windowMs trimAt cardAt).1.instants key).length := by
  unfold count zcard instants
  rw [length_map]

theorem hit_snd : (hit sets key now windowMs suffix trimAt addAt expireAt cardAt).2 =
    ((hit sets key now windowMs suffix trimAt addAt expireAt cardAt).1.instants key).length := by
  unfold hit zcard instants
  rw [length_map]

theorem count_cases : (Lasting sets key (now - windowMs) [trimAt, cardAt] ∧
      (count sets key now windowMs trimAt cardAt).1.instants key = (within sets key (now - windowMs)).map (·.1)) ∨
    (¬ Lasting sets key (now - windowMs) [trimAt, cardAt] ∧ within sets key (now - windowMs) ≠ [] ∧
      (count sets key now windowMs trimAt cardAt).1.instants key = []) := by
  have hinst : (count sets key now windowMs trimAt cardAt).1.instants key =
      (zset (live (zremrangebyscore (live sets key trimAt) key (now - windowMs)) key cardAt) key).members.map (·.1) := by
    rfl
  rw [hinst]
  by_cases hnone : within sets key (now - windowMs) = []
  · have htrim : zset (zremrangebyscore (live sets key trimAt) key (now - windowMs)) key = {} := zset_trim_gone (.inr hnone)
    left
    constructor
    · intro hsome
      exact absurd hnone (within_ne_nil_iff.2 hsome)
    · rw [zset_live (by rw [htrim]; rfl), htrim, hnone]
  · cases htrimAt : ZSet.expired (zset sets key) trimAt with
    | true =>
      have htrim : zset (zremrangebyscore (live sets key trimAt) key (now - windowMs)) key = {} :=
        zset_trim_gone (.inl htrimAt)
      right
      refine ⟨not_lasting hnone (by simp) htrimAt, hnone, ?_⟩
      rw [zset_live (by rw [htrim]; rfl), htrim]
      rfl
    | false =>
      have htrim := zset_trim htrimAt hnone
      have hexpired : ZSet.expired (zset (zremrangebyscore (live sets key trimAt) key (now - windowMs)) key) cardAt =
          ZSet.expired (zset sets key) cardAt := by
        rw [htrim]
        exact expired_congr rfl cardAt
      cases hcardAt : ZSet.expired (zset sets key) cardAt with
      | true =>
        right
        refine ⟨not_lasting hnone (by simp) hcardAt, hnone, ?_⟩
        rw [zset_live_of_expired (hexpired.trans hcardAt)]
        rfl
      | false =>
        left
        constructor
        · intro _ storeNow hmem
          simp only [mem_cons, not_mem_nil, or_false] at hmem
          rcases hmem with rfl | rfl
          · exact htrimAt
          · exact hcardAt
        · rw [zset_live (hexpired.trans hcardAt), htrim]

theorem hit_cases (hfresh : (now, suffix) ∉ (zset sets key).members) :
    ((Lasting sets key (now - windowMs) [trimAt, addAt, expireAt] ∧ cardAt < expireAt + max 1 windowMs) ∧
      (hit sets key now windowMs suffix trimAt addAt expireAt cardAt).1.instants key =
        (within sets key (now - windowMs)).map (·.1) ++ [now]) ∨
    (¬ (Lasting sets key (now - windowMs) [trimAt, addAt, expireAt] ∧ cardAt < expireAt + max 1 windowMs) ∧
      ((hit sets key now windowMs suffix trimAt addAt expireAt cardAt).1.instants key = [] ∨ within sets key (now - windowMs) ≠ [] ∧
          (hit sets key now windowMs suffix trimAt addAt expireAt cardAt).1.instants key = [now])) := by
  obtain ⟨trimmed, htrimmed⟩ : ∃ trimmed, trimmed = zremrangebyscore (live sets key trimAt) key (now - windowMs) := ⟨_, rfl⟩
  obtain ⟨recorded, hrecorded⟩ : ∃ recorded, recorded =
      pexpire (live (zadd (live trimmed key addAt) key now suffix) key expireAt) key (max 1 windowMs) expireAt := ⟨_, rfl⟩
  have hinst : (hit sets key now windowMs suffix trimAt addAt expireAt cardAt).1.instants key =
      (zset (live recorded key cardAt) key).members.map (·.1) := by
    unfold hit instants
    rw [hrecorded, htrimmed]
  rw [hinst]
  -- what `ZCARD` finds, by whether the member has expired again
  have hcard : ∀ members, zset recorded key = ⟨members, some (expireAt + max 1 windowMs)⟩ →
      (cardAt < expireAt + max 1 windowMs ∧ (zset (live recorded key cardAt) key).members = members) ∨
      (¬ cardAt < expireAt + max 1 windowMs ∧ (zset (live recorded key cardAt) key).members = []) := by
    intro members hz
    by_cases hlate : cardAt < expireAt + max 1 windowMs
    · left
      refine ⟨hlate, ?_⟩
      rw [zset_live (by rw [hz]; simpa [ZSet.expired] using hlate), hz]
    · right
      refine ⟨hlate, ?_⟩
      rw [zset_live_of_expired (by rw [hz]; simpa [ZSet.expired] using hlate)]
  -- the new member alone, where the window had others
  have halone : within sets key (now - windowMs) ≠ [] → zset recorded key = ⟨[(now, suffix)], some (expireAt + max 1 windowMs)⟩ →
      (zset (live recorded key cardAt) key).members.map (·.1) = [] ∨
        within sets key (now - windowMs) ≠ [] ∧ (zset (live recorded key cardAt) key).members.map (·.1) = [now] := by
    intro hsome hz
    rcases hcard _ hz with ⟨-, hmembers⟩ | ⟨-, hmembers⟩
    · exact .inr ⟨hsome, by rw [hmembers]; rfl⟩
    · exact .inl (by rw [hmembers]; rfl)
  -- a set that the trim leaves empty
  have hempty : zset trimmed key = {} → zset recorded key = ⟨[(now, suffix)], some (expireAt + max 1 windowMs)⟩ := by
    intro hz
    rw [hrecorded, zset_record (by rw [hz]; exact not_mem_nil) (by rw [hz]; rfl) (by rw [hz]; rfl), hz]
    rfl
  by_cases hnone : within sets key (now - windowMs) = []
  · have hz := hempty (by rw [htrimmed]; exact zset_trim_gone (.inr hnone))
    have hlasting : Lasting sets key (now - windowMs) [trimAt, addAt, expireAt] :=
      fun hsome => absurd hnone (within_ne_nil_iff.2 hsome)
    rcases hcard _ hz with ⟨hlate, hmembers⟩ | ⟨hlate, hmembers⟩
    · left
      refine ⟨⟨hlasting, hlate⟩, ?_⟩
      rw [hmembers, hnone]
      rfl
    · right
      refine ⟨fun h => hlate h.2, .inl ?_⟩
      rw [hmembers]
      rfl
  · cases htrimAt : ZSet.expired (zset sets key) trimAt with
    | true =>
      right
      refine ⟨fun h => not_lasting hnone (by simp) htrimAt h.1, halone hnone (hempty ?_)⟩
      rw [htrimmed]
      exact zset_trim_gone (.inl htrimAt)
    | false =>
      have hz : zset trimmed key = ⟨within sets key (now - windowMs), (zset sets key).expiresAt⟩ := by
        rw [htrimmed]
        exact zset_trim htrimAt hnone
      have hexpired : ∀ storeNow, ZSet.expired (zset trimmed key) storeNow = ZSet.expired (zset sets key) storeNow :=
        expired_congr (by rw [hz])
      have hnew : (now, suffix) ∉ (zset trimmed key).members := by
        rw [hz]
        exact fun hmem => hfresh (mem_filter.1 hmem).1
      cases haddAt : ZSet.expired (zset sets key) addAt with
      | true =>
        right
        refine ⟨fun h => not_lasting hnone (by simp) haddAt h.1, halone hnone ?_⟩
        rw [hrecorded, zset_record_gone ((hexpired addAt).trans haddAt)]
      | false =>
        cases hexpireAt : ZSet.expired (zset sets key) expireAt with
        | true =>
          right
          refine ⟨fun h => not_lasting hnone (by simp) hexpireAt h.1, .inl ?_⟩
          have hlost : zset recorded key = {} := by
            rw [hrecorded]
            exact zset_record_lost hnew ((hexpired addAt).trans haddAt) ((hexpired expireAt).trans hexpireAt)
          rw [zset_live (by rw [hlost]; rfl), hlost]
          rfl
        | false =>
          have hall : zset recorded key = ⟨within sets key (now - windowMs) ++ [(now, suffix)], some (expireAt + max 1 windowMs)⟩ := by
            rw [hrecorded, zset_record hnew ((hexpired addAt).trans haddAt) ((hexpired expireAt).trans hexpireAt), hz]
          rcases hcard _ hall with ⟨hlate, hmembers⟩ | ⟨hlate, hmembers⟩
          · left
            refine ⟨⟨fun _ storeNow hmem => ?_, hlate⟩, ?_⟩
            · simp only [mem_cons, not_mem_nil, or_false] at hmem
              rcases hmem with rfl | rfl | rfl
              · exact htrimAt
              · exact haddAt
              · exact hexpireAt
            · rw [hmembers, map_append]
              rfl
          · right
            refine ⟨fun h => hlate h.2, .inl ?_⟩
            rw [hmembers]
            rfl

end

end RedisSets

/-! ## Calls of both stores -/

structure StorePair where
  memory : InMemoryRateLimitStore := []
  redis : RedisSets := []

/-- A call with the clock of its caller; for Redis, the random suffix of its member and the clock of the server. -/
inductive StoreCall where
  | hit (key : String) (now windowMs : Int) (suffix : String) (trimAt addAt expireAt cardAt : Int)
  | count (key : String) (now windowMs : Int) (trimAt cardAt : Int)

namespace StorePair

variable (opts : RateLimitStoreOptions)

def step (s : StorePair) : StoreCall → StorePair
  | .hit key now windowMs suffix trimAt addAt expireAt cardAt =>
    { memory := (s.memory.hit opts key now windowMs).1
      redis := (s.redis.hit key now windowMs suffix trimAt addAt expireAt cardAt).1 }
  | .count key now windowMs trimAt cardAt => { s with redis := (s.redis.count key now windowMs trimAt cardAt).1 }

/-- What the in-memory store and Redis return. -/
def returned (s : StorePair) : StoreCall → Option (Nat × Nat)
  | .hit key now windowMs suffix trimAt addAt expireAt cardAt =>
    some ((s.memory.hit opts key now windowMs).2, (s.redis.hit key now windowMs suffix trimAt addAt expireAt cardAt).2)
  | .count key now windowMs trimAt cardAt =>
    some (s.memory.count key now windowMs, (s.redis.count key now windowMs trimAt cardAt).2)

/-- Call by call, the stores return the same counts. -/
def Agree (s : StorePair) (calls : List StoreCall) : Prop :=
  ∀ counts ∈ observe (step opts) (returned opts) s calls, counts.1 = counts.2

/-! ## The condition -/

/-- A hit finds a place in the in-memory store, which has fewer than its cap of the key, and its member is new. -/
def Placed (s : StorePair) : StoreCall → Prop
  | .hit key now windowMs suffix .. =>
    (prune (now - windowMs) (s.memory.timestamps key)).length < opts.maxRequestsPerKey ∧
      (OrderedMap.has s.memory key = true ∨ s.memory.length < opts.maxKeys) ∧
      (now, suffix) ∉ (s.redis.zset key).members
  | .count .. => True

/-- The instants of a key that the in-memory store has and Redis has lost. -/
def lost (s : StorePair) (key : String) : List Int := (s.memory.timestamps key).diff (s.redis.instants key)

/-- Redis has what the in-memory store has of a window, and the key does not expire under commands that run at
`readAt` while there is any of it. -/
structure Holds (s : StorePair) (key : String) (cutoff : Int) (readAt : List Int) : Prop where
  lost : ∀ a ∈ s.lost key, a < cutoff
  lasting : RedisSets.Lasting s.redis key cutoff readAt

/-- Redis has the window of the call. And a hit leaves nothing in the in-memory store that is before its window, and
ends before its member expires. -/
def Fits (s : StorePair) : StoreCall → Prop
  | .hit key now windowMs _ trimAt addAt expireAt cardAt =>
    s.Holds key (now - windowMs) [trimAt, addAt, expireAt] ∧
      (∀ a ∈ prune (now - windowMs) (s.memory.timestamps key), now - windowMs ≤ a) ∧ cardAt < expireAt + max 1 windowMs
  | .count key now windowMs trimAt cardAt => s.Holds key (now - windowMs) [trimAt, cardAt]

/-! ## Redis never has more than the in-memory store -/

/-- Every instant that Redis has, the in-memory store has. -/
def Backed (s : StorePair) : Prop := ∀ key, (s.redis.instants key).Subperm (s.memory.timestamps key)

section

variable {opts} {s : StorePair}

theorem length_within (s : StorePair) (key : String) (cutoff : Int) :
    ((s.redis.within key cutoff).map (·.1)).length = since cutoff (s.redis.instants key) := by
  rw [RedisSets.map_within, since, countP_eq_length_filter]

theorem since_pos {key : String} {cutoff : Int} (h : s.redis.within key cutoff ≠ []) : 0 < since cutoff (s.redis.instants key) := by
  rw [← length_within, length_map]
  exact length_pos_iff.2 h

theorem Backed.within (h : Backed s) (key : String) (cutoff : Int) :
    ((s.redis.within key cutoff).map (·.1)).Subperm (prune cutoff (s.memory.timestamps key)) := by
  rw [RedisSets.map_within]
  exact ((h key).filter _).trans filter_sublist_prune.subperm

theorem Backed.step (h : Backed s) {call : StoreCall} (hp : Placed opts s call) : Backed (s.step opts call) := by
  intro key'
  cases call with
  | count key now windowMs trimAt cardAt =>
    simp only [StorePair.step]
    by_cases hk : key' = key
    · subst hk
      rcases RedisSets.count_cases with ⟨-, hinst⟩ | ⟨-, -, hinst⟩
      · rw [hinst]
        exact (h.within key' _).trans prune_sublist.subperm
      · rw [hinst]
        exact nil_subperm
    · unfold RedisSets.instants
      rw [RedisSets.zset_count_of_ne hk]
      exact h key'
  | hit key now windowMs suffix trimAt addAt expireAt cardAt =>
    obtain ⟨hcap, hroom, hfresh⟩ := hp
    simp only [StorePair.step]
    by_cases hk : key' = key
    · subst hk
      rw [timestamps_hit_of_length_lt hcap]
      have hall : ((s.redis.within key' (now - windowMs)).map (·.1) ++ [now]).Subperm
          (prune (now - windowMs) (s.memory.timestamps key') ++ [now]) :=
        (subperm_append_right [now]).2 (h.within key' _)
      rcases RedisSets.hit_cases hfresh with ⟨-, hinst⟩ | ⟨-, hinst | ⟨-, hinst⟩⟩
      · rw [hinst]
        exact hall
      · rw [hinst]
        exact nil_subperm
      · rw [hinst]
        exact (sublist_append_right _ _).subperm.trans hall
    · unfold RedisSets.instants
      rw [RedisSets.zset_hit_of_ne hk, timestamps_hit_of_ne hroom hk]
      exact h key'

/-! ## A call -/

theorem Backed.lost_iff (h : Backed s) (key : String) (cutoff : Int) :
    (∀ a ∈ s.lost key, a < cutoff) ↔ since cutoff (s.redis.instants key) = since cutoff (s.memory.timestamps key) :=
  (since_eq_iff_of_subperm (h key)).symm

theorem Backed.returned_iff (h : Backed s) {call : StoreCall} (hp : Placed opts s call) :
    (∀ counts ∈ s.returned opts call, counts.1 = counts.2) ↔ s.Fits call := by
  cases call with
  | count key now windowMs trimAt cardAt =>
    have hlost := h.lost_iff key (now - windowMs)
    have hlen := length_within s key (now - windowMs)
    have hle : since (now - windowMs) (s.redis.instants key) ≤ since (now - windowMs) (s.memory.timestamps key) :=
      (h key).countP_le _
    simp only [returned, Option.mem_def, Option.some.injEq, forall_eq', RedisSets.count_snd, InMemoryRateLimitStore.count]
    rcases RedisSets.count_cases with ⟨hlasting, hinst⟩ | ⟨hlasting, hsome, hinst⟩
    · rw [hinst, hlen]
      constructor
      · intro heq
        exact ⟨hlost.2 heq.symm, hlasting⟩
      · intro hfits
        exact (hlost.1 hfits.lost).symm
    · rw [hinst]
      constructor
      · intro heq
        -- the window of Redis was not empty
        have hpos := since_pos hsome
        rw [length_nil] at heq
        omega
      · intro hfits
        exact absurd hfits.lasting hlasting
  | hit key now windowMs suffix trimAt addAt expireAt cardAt =>
    obtain ⟨hcap, hroom, hfresh⟩ := hp
    have hlost := h.lost_iff key (now - windowMs)
    have hprune : (prune (now - windowMs) (s.memory.timestamps key)).length = since (now - windowMs) (s.memory.timestamps key) ↔
        ∀ a ∈ prune (now - windowMs) (s.memory.timestamps key), now - windowMs ≤ a := length_prune_eq_iff
    have hlen := length_within s key (now - windowMs)
    have hle : since (now - windowMs) (s.redis.instants key) ≤ since (now - windowMs) (s.memory.timestamps key) :=
      (h key).countP_le _
    have hle' : since (now - windowMs) (s.memory.timestamps key) ≤ (prune (now - windowMs) (s.memory.timestamps key)).length :=
      since_le_length_prune
    simp only [returned, Option.mem_def, Option.some.injEq, forall_eq', RedisSets.hit_snd, hit_snd_of_length_lt hcap]
    rcases RedisSets.hit_cases hfresh with ⟨⟨hlasting, hlate⟩, hinst⟩ | ⟨hno, hinst⟩
    · rw [hinst, length_append, hlen, length_singleton]
      constructor
      · intro heq
        exact ⟨⟨hlost.2 (by omega), hlasting⟩, hprune.1 (by omega), hlate⟩
      · rintro ⟨hholds, hall, -⟩
        rw [hprune.2 hall, hlost.1 hholds.lost]
    · constructor
      · intro heq
        rcases hinst with hinst | ⟨hsome, hinst⟩
        · rw [hinst, length_nil] at heq
          omega
        · -- the window of Redis was not empty
          have hpos := since_pos hsome
          rw [hinst, length_singleton] at heq
          omega
      · rintro ⟨hholds, -, hlate⟩
        exact absurd ⟨hholds.lasting, hlate⟩ hno

/-! ## Sequences of calls -/

theorem agree_iff_fits : ∀ {calls : List StoreCall} {s : StorePair}, Backed s → Guarded (step opts) (Placed opts) s calls →
    (Agree opts s calls ↔ Guarded (step opts) Fits s calls)
  | [], _, _, _ => by simp [Agree, observe, Guarded]
  | call :: calls, s, h, hp => by
    have ih := agree_iff_fits (h.step hp.1) hp.2
    have hcall := h.returned_iff hp.1
    simp only [Agree, observe, mem_append, Option.mem_toList, Guarded] at ih hcall ⊢
    constructor
    · intro hagree
      exact ⟨hcall.1 fun counts hc => hagree counts (.inl hc), ih.1 fun counts hc => hagree counts (.inr hc)⟩
    · rintro ⟨hfits, hrest⟩ counts (hc | hc)
      · exact hcall.2 hfits counts hc
      · exact ih.2 hrest counts hc

end

end StorePair

end StreetJS.Store
