/-
`LruCache`: a bounded cache with one time to live for all entries. The map and the linked list are one
list of entries here, most recently used first. What a key reads as only changes by `set`, or to nothing.
-/
import Mathlib.Data.List.Nodup

namespace StreetJS.Cache

open List

structure CacheEntry (K V : Type) where
  key : K
  value : V
  expiresAt : Nat
  deriving DecidableEq

/-- A cache holds each key once, and no more entries than its bound. -/
structure LruCache (K V : Type) where
  entries : List (CacheEntry K V)
  maxEntries : Nat
  ttlMs : Nat
  pos : 1 ≤ maxEntries
  nodup : (entries.map CacheEntry.key).Nodup
  bounded : entries.length ≤ maxEntries

namespace LruCache

variable {K V : Type} [DecidableEq K]

def new (maxEntries ttlMs : Nat) (pos : 1 ≤ maxEntries) : LruCache K V :=
  ⟨[], maxEntries, ttlMs, pos, .nil, Nat.zero_le _⟩

/-- `map.get(key)`. -/
def entry (c : LruCache K V) (key : K) : Option (CacheEntry K V) := c.entries.find? fun e => e.key = key

/-- The entries that meet a test. -/
def keep (c : LruCache K V) (p : CacheEntry K V → Bool) : LruCache K V where
  entries := c.entries.filter p
  maxEntries := c.maxEntries
  ttlMs := c.ttlMs
  pos := c.pos
  nodup := c.nodup.sublist (filter_sublist.map _)
  bounded := Nat.le_trans (length_filter_le _ _) c.bounded

/-- `_remove`. -/
def delete (c : LruCache K V) (key : K) : LruCache K V := c.keep fun e => e.key ≠ key

/-- `_sweepExpired`. -/
def sweep (c : LruCache K V) (now : Nat) : LruCache K V := c.keep fun e => ¬ now > e.expiresAt

variable {c : LruCache K V} {key : K} {e : CacheEntry K V}

theorem length_delete_lt (h : c.entry key = some e) : (c.delete key).entries.length < c.entries.length := by
  have hkey := find?_some h
  refine length_filter_lt_length_iff_exists.2 ⟨e, mem_of_find?_eq_some h, ?_⟩
  simpa using hkey

theorem nodup_cons_delete (c : LruCache K V) (e : CacheEntry K V) : ((e :: (c.delete e.key).entries).map CacheEntry.key).Nodup := by
  rw [map_cons, nodup_cons]
  refine ⟨fun h => ?_, (c.delete e.key).nodup⟩
  obtain ⟨e', he', hkey⟩ := mem_map.1 h
  exact absurd hkey (of_decide_eq_true (mem_filter.1 he').2)

/-- An entry put first in place of the one its key has, if it has one; the last entry of a full cache goes
otherwise (`_moveToHead` after an update, or the insertion of a new entry with `_evictTail`). -/
def putFirst (c : LruCache K V) (e : CacheEntry K V) : LruCache K V :=
  match h : c.entry e.key with
  | some _ =>
    { c with
      entries := e :: (c.delete e.key).entries
      nodup := c.nodup_cons_delete e
      bounded := Nat.le_trans (length_delete_lt h) c.bounded }
  | none =>
    let entries := e :: (c.delete e.key).entries
    if hfull : entries.length > c.maxEntries then
      { c with
        entries := entries.dropLast
        nodup := (c.nodup_cons_delete e).sublist ((dropLast_sublist _).map _)
        bounded := by
          have hle : (c.delete e.key).entries.length ≤ c.maxEntries := (c.delete e.key).bounded
          rw [length_dropLast]
          exact hle }
    else { c with entries := entries, nodup := c.nodup_cons_delete e, bounded := Nat.not_lt.1 hfull }

def get (c : LruCache K V) (now : Nat) (key : K) : Option V × LruCache K V :=
  match c.entry key with
  | none => (none, c)
  | some e => if now > e.expiresAt then (none, c.delete key) else (some e.value, c.putFirst e)

def set (c : LruCache K V) (now : Nat) (key : K) (value : V) : LruCache K V :=
  c.putFirst ⟨key, value, now + c.ttlMs⟩

/-! ## What a key reads as -/

/-- What `get` returns. -/
def read (c : LruCache K V) (now : Nat) (key : K) : Option V :=
  match c.entry key with
  | none => none
  | some e => if now > e.expiresAt then none else some e.value

theorem mem_of_entry (h : c.entry key = some e) : e ∈ c.entries ∧ e.key = key :=
  ⟨mem_of_find?_eq_some h, by simpa using find?_some h⟩

theorem entry_of_mem (h : e ∈ c.entries) : c.entry e.key = some e := by
  cases hentry : c.entry e.key with
  | none => exact absurd (decide_eq_true rfl) (find?_eq_none.1 hentry e h)
  | some e' =>
    obtain ⟨hmem, hkey⟩ := mem_of_entry hentry
    rw [inj_on_of_nodup_map c.nodup hmem h hkey]

theorem read_eq_some {now : Nat} {v : V} : c.read now key = some v ↔ ∃ e ∈ c.entries, e.key = key ∧ now ≤ e.expiresAt ∧ e.value = v := by
  unfold read
  cases hentry : c.entry key with
  | none =>
    refine ⟨nofun, ?_⟩
    rintro ⟨e, he, rfl, -, -⟩
    rw [entry_of_mem he] at hentry
    cases hentry
  | some e =>
    obtain ⟨hmem, hkey⟩ := mem_of_entry hentry
    have huniq : ∀ e' ∈ c.entries, e'.key = key → e' = e := by
      rintro e' he' rfl
      rw [entry_of_mem he'] at hentry
      exact Option.some.inj hentry
    dsimp only
    split
    · next hlt =>
      refine ⟨nofun, ?_⟩
      rintro ⟨e', he', hk, hle, -⟩
      rw [huniq e' he' hk] at hle
      omega
    · next hle =>
      constructor
      · intro h
        exact ⟨e, hmem, hkey, Nat.not_lt.1 hle, Option.some.inj h⟩
      · rintro ⟨e', he', hk, -, rfl⟩
        rw [huniq e' he' hk]

theorem mem_delete : e ∈ (c.delete key).entries ↔ e ∈ c.entries ∧ e.key ≠ key := by
  rw [delete, keep, mem_filter, decide_eq_true_eq]

theorem mem_putFirst {e' : CacheEntry K V} (h : e' ∈ (c.putFirst e).entries) : e' = e ∨ e' ∈ c.entries ∧ e'.key ≠ e.key := by
  have hmem : e' ∈ e :: (c.delete e.key).entries := by
    unfold putFirst at h
    split at h
    · exact h
    · dsimp only at h
      split at h
      · exact (dropLast_sublist _).subset h
      · exact h
  exact (mem_cons.1 hmem).imp_right mem_delete.1

/-- Each key reads as before, or as nothing. -/
def Shrinks (c : LruCache K V) (now : Nat) (c' : LruCache K V) (now' : Nat) : Prop :=
  ∀ key v, c'.read now' key = some v → c.read now key = some v

theorem Shrinks.refl (c : LruCache K V) (now : Nat) : Shrinks c now c now := fun _ _ => id

theorem shrinks_of_mem {c' : LruCache K V} {now now' : Nat} (hnow : now ≤ now')
    (h : ∀ e ∈ c'.entries, e ∈ c.entries) : Shrinks c now c' now' := by
  intro key v hv
  obtain ⟨e, he, hkey, hle, hev⟩ := read_eq_some.1 hv
  exact read_eq_some.2 ⟨e, h e he, hkey, Nat.le_trans hnow hle, hev⟩

theorem shrinks_keep (c : LruCache K V) (now : Nat) (p : CacheEntry K V → Bool) : Shrinks c now (c.keep p) now :=
  shrinks_of_mem (Nat.le_refl _) fun _ he => mem_of_mem_filter he

theorem shrinks_get (c : LruCache K V) (now : Nat) (key : K) : Shrinks c now (c.get now key).2 now := by
  unfold get
  cases hentry : c.entry key with
  | none => exact Shrinks.refl c now
  | some e =>
    dsimp only
    split
    · exact c.shrinks_keep now _
    · refine shrinks_of_mem (Nat.le_refl _) fun e' he' => ?_
      rcases mem_putFirst he' with rfl | he'
      · exact (mem_of_entry hentry).1
      · exact he'.1

theorem read_delete_self (c : LruCache K V) (now : Nat) (key : K) : (c.delete key).read now key = none := by
  cases hread : (c.delete key).read now key with
  | none => rfl
  | some v =>
    obtain ⟨e, he, hkey, -, -⟩ := read_eq_some.1 hread
    exact absurd hkey (mem_delete.1 he).2

theorem read_set {now : Nat} {key' : K} {v w : V} (h : (c.set now key v).read now key' = some w) :
    key' = key ∧ w = v ∨ key' ≠ key ∧ c.read now key' = some w := by
  obtain ⟨e, he, hkey, hle, hev⟩ := read_eq_some.1 h
  rcases mem_putFirst he with rfl | ⟨he, hne⟩
  · exact .inl ⟨hkey.symm, hev.symm⟩
  · exact .inr ⟨fun heq => hne (hkey.trans heq), read_eq_some.2 ⟨e, he, hkey, hle, hev⟩⟩

end LruCache

end StreetJS.Cache
