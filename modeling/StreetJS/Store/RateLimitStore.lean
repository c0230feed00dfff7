/-
The in-memory rate limit store: the instants of the hits of each key, bounded in keys and in hits of a
key.
-/
import StreetJS.Lib.OrderedMap
import StreetJS.Lib.SlidingWindow
import Mathlib.Algebra.Order.Ring.Int

namespace StreetJS.Store

open StreetJS.Lib SlidingWindow

structure RateLimitStoreOptions where
  maxKeys : Nat := 100000
  maxRequestsPerKey : Nat := 1000

/-- The instants of each key, in order of its first hit. -/
abbrev InMemoryRateLimitStore := OrderedMap String (List Int)

namespace InMemoryRateLimitStore

variable (opts : RateLimitStoreOptions) (store : InMemoryRateLimitStore)

/-- The hits of a key. -/
def timestamps (key : String) : List Int := (store.get key).getD []

/-- A hit is recorded unless the key is full; a new key takes the place of the oldest when there are as many
as there may be. -/
def hit (key : String) (now windowMs : Int) : InMemoryRateLimitStore × Nat :=
  let kept := prune (now - windowMs) (timestamps store key)
  let recorded := if kept.length < opts.maxRequestsPerKey then kept ++ [now] else kept
  let room := if store.has key = false ∧ opts.maxKeys ≤ store.length then store.tail else store
  (OrderedMap.set room key recorded, recorded.length)

def count (key : String) (now windowMs : Int) : Nat := since (now - windowMs) (timestamps store key)

/-! ## What a hit records -/

section

variable {opts : RateLimitStoreOptions} {store : InMemoryRateLimitStore} {key : String} {now windowMs : Int}

theorem timestamps_hit_of_length_lt (h : (prune (now - windowMs) (timestamps store key)).length < opts.maxRequestsPerKey) :
    timestamps (hit opts store key now windowMs).1 key = prune (now - windowMs) (timestamps store key) ++ [now] := by
  unfold hit
  rw [timestamps, OrderedMap.get_set, if_pos rfl, Option.getD_some, if_pos h]

theorem hit_snd_of_length_lt (h : (prune (now - windowMs) (timestamps store key)).length < opts.maxRequestsPerKey) :
    (hit opts store key now windowMs).2 = (prune (now - windowMs) (timestamps store key)).length + 1 := by
  unfold hit
  dsimp only
  rw [if_pos h, List.length_append, List.length_singleton]

theorem timestamps_hit (hsorted : (timestamps store key).Pairwise (· ≤ ·)) (hcap : count store key now windowMs < opts.maxRequestsPerKey) :
    timestamps (hit opts store key now windowMs).1 key = prune (now - windowMs) (timestamps store key) ++ [now] := by
  apply timestamps_hit_of_length_lt
  rw [length_prune hsorted]
  exact hcap

theorem timestamps_hit_of_ne (hroom : store.has key = true ∨ store.length < opts.maxKeys) {key' : String}
    (h : key' ≠ key) : timestamps (hit opts store key now windowMs).1 key' = timestamps store key' := by
  have hno : ¬ (store.has key = false ∧ opts.maxKeys ≤ store.length) := by
    rintro ⟨hhas, hle⟩
    rcases hroom with h | h
    · rw [hhas] at h
      cases h
    · omega
  unfold hit timestamps
  rw [if_neg hno, OrderedMap.get_set, if_neg h]

end

end InMemoryRateLimitStore

end StreetJS.Store
