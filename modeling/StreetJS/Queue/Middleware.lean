/-
The queue's middleware runner (`queue/src/middleware.ts`): a chain whose `next` is refused when the chain
has come as far already. A middleware calls its `next` whenever it likes.
-/
import StreetJS.Lib.Runs
import Mathlib.Tactic

namespace StreetJS.Queue

open StreetJS.Lib List

/-- One execution of a composed chain: the index that was invoked last, the indices in order of invocation,
and the errors of the calls of `next` that were refused. -/
structure ChainRun where
  lastIndex : Int := -1
  invoked : List Nat := []
  refused : List String := []

namespace ChainRun

/-- The index after the last middleware is the handler. -/
def invoke (s : ChainRun) (index : Nat) : ChainRun :=
  if (index : Int) ≤ s.lastIndex then
    { s with refused := s.refused ++ ["next() called multiple times in a queue middleware."] }
  else { s with lastIndex := index, invoked := s.invoked ++ [index] }

/-- `composeMiddleware`: the runner starts with the first of its chain. -/
def start : ChainRun := invoke {} 0

/-- The `f`-th invocation calls its `next`; the handler has none. -/
def next (length : Nat) (s : ChainRun) (f : Nat) : ChainRun :=
  match s.invoked[f]? with
  | some index => if index < length then s.invoke (index + 1) else s
  | none => s

/-- What is invoked are the first indices, in order. -/
structure Sequential (length : Nat) (s : ChainRun) : Prop where
  invoked : s.invoked = List.range s.invoked.length
  last : s.lastIndex = s.invoked.length - 1
  le : s.invoked.length ≤ length + 1

theorem sequential_start (length : Nat) : Sequential length start where
  invoked := rfl
  last := rfl
  le := Nat.le_add_left 1 length

theorem Sequential.next {length : Nat} {s : ChainRun} (h : Sequential length s) (f : Nat) : Sequential length (s.next length f) := by
  unfold ChainRun.next
  split
  · rename_i index hf
    split
    · rename_i hlt
      have hindex : index = f ∧ f < s.invoked.length := by
        have hf' := hf
        rw [h.invoked, getElem?_range (List.getElem?_eq_some_iff.1 hf).1] at hf'
        exact ⟨(Option.some.inj hf').symm, (List.getElem?_eq_some_iff.1 hf).1⟩
      obtain ⟨rfl, hf⟩ := hindex
      have hlast := h.last
      unfold ChainRun.invoke
      split
      · exact { h with }
      · -- the caller is the last that was invoked
        rename_i hnot
        have hlen : s.invoked.length = index + 1 := by omega
        refine ⟨?_, ?_, ?_⟩
        · simp only [length_append, length_singleton]
          rw [range_succ, ← h.invoked, hlen]
        · simp [hlen]
        · simp only [length_append, length_singleton]
          omega
    · exact h
  · exact h

theorem invoked_prefix_range (length : Nat) (fs : List Nat) : (run (ChainRun.next length) start fs).invoked <+: List.range (length + 1) := by
  have h : Sequential length (run (ChainRun.next length) start fs) :=
    run_invariant (ChainRun.next length) (fun _ f h => h.next f) fs (sequential_start length)
  rw [h.invoked, prefix_iff_eq_take, take_range, length_range, Nat.min_eq_left h.le]

end ChainRun

end StreetJS.Queue
