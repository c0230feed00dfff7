/-
Runs of a deterministic step function over a list of events: the state after a run, what is
observed along it, and the rules that carry a property of one step over whole runs.
-/
import Mathlib.Data.List.Basic

namespace StreetJS.Lib

open List

variable {S E O : Type}

/-- The state after the events `es`. -/
def run (step : S → E → S) (s : S) (es : List E) : S := es.foldl step s

/-- What `obs` sees before each step of a run, in order. -/
def observe (step : S → E → S) (obs : S → E → Option O) : S → List E → List O
  | _, [] => []
  | s, e :: es => (obs s e).toList ++ observe step obs (step s e) es

/-- Every step of a run meets `G`. -/
def Guarded (step : S → E → S) (G : S → E → Prop) : S → List E → Prop
  | _, [] => True
  | s, e :: es => G s e ∧ Guarded step G (step s e) es

section

variable (step : S → E → S)

@[simp] theorem run_nil (s : S) : run step s [] = s := rfl

@[simp] theorem run_cons (s : S) (e : E) (es : List E) : run step s (e :: es) = run step (step s e) es := rfl

theorem run_append (s : S) (es fs : List E) : run step s (es ++ fs) = run step (run step s es) fs :=
  foldl_append

theorem run_concat (s : S) (es : List E) (e : E) : run step s (es ++ [e]) = step (run step s es) e := by
  rw [run_append]; rfl

theorem observe_append (obs : S → E → Option O) : ∀ (s : S) (es fs : List E),
      observe step obs s (es ++ fs) = observe step obs s es ++ observe step obs (run step s es) fs
  | _, [], _ => rfl
  | s, e :: es, fs => by
    simp only [cons_append, observe, run_cons, observe_append obs (step s e) es fs, append_assoc]

theorem observe_concat (obs : S → E → Option O) (s : S) (es : List E) (e : E) :
    observe step obs s (es ++ [e]) = observe step obs s es ++ (obs (run step s es) e).toList := by
  rw [observe_append]
  simp only [observe, append_nil]

theorem mem_observe {obs : S → E → Option O} {o : O} : ∀ {s : S} {es : List E}, o ∈ observe step obs s es →
      ∃ es₁ e es₂, es = es₁ ++ e :: es₂ ∧ obs (run step s es₁) e = some o
  | _, [], h => by cases h
  | s, e :: es, h => by
    simp only [observe, mem_append, Option.mem_toList] at h
    rcases h with h | h
    · exact ⟨[], e, es, rfl, h⟩
    · obtain ⟨es₁, e', es₂, rfl, ho⟩ := mem_observe h
      exact ⟨e :: es₁, e', es₂, rfl, ho⟩

/-! ## Invariants -/

theorem run_invariant {P : S → Prop} (hstep : ∀ s e, P s → P (step s e)) : ∀ (es : List E) {s : S}, P s → P (run step s es)
  | [], _, hs => hs
  | e :: es, s, hs => run_invariant hstep es (hstep s e hs)

theorem guarded_of_forall {G : S → E → Prop} (h : ∀ s e, G s e) : ∀ (s : S) (es : List E), Guarded step G s es
  | _, [] => trivial
  | s, e :: es => ⟨h s e, guarded_of_forall h (step s e) es⟩

theorem guarded_append {G : S → E → Prop} : ∀ (s : S) (es fs : List E),
      Guarded step G s (es ++ fs) ↔ Guarded step G s es ∧ Guarded step G (run step s es) fs
  | _, [], _ => by simp [Guarded]
  | s, e :: es, fs => by
    simp only [cons_append, Guarded, run_cons, guarded_append (step s e) es fs, and_assoc]

theorem guarded_take {G : S → E → Prop} {s : S} {es : List E} (h : Guarded step G s es) (n : Nat) : Guarded step G s (es.take n) := by
  rw [← take_append_drop n es, guarded_append] at h
  exact h.1

theorem guarded_and (G H : S → E → Prop) : ∀ (s : S) (es : List E),
      Guarded step (fun s e => G s e ∧ H s e) s es ↔ Guarded step G s es ∧ Guarded step H s es
  | _, [] => by simp [Guarded]
  | s, e :: es => by
    simp only [Guarded, guarded_and G H (step s e) es]
    constructor
    · rintro ⟨⟨hg, hh⟩, hgs, hhs⟩
      exact ⟨⟨hg, hgs⟩, hh, hhs⟩
    · rintro ⟨⟨hg, hgs⟩, hh, hhs⟩
      exact ⟨⟨hg, hh⟩, hgs, hhs⟩

theorem run_invariant_of_guarded {P : S → Prop} {G : S → E → Prop} (hstep : ∀ s e, P s → G s e → P (step s e)) :
    ∀ (es : List E) {s : S}, Guarded step G s es → P s → P (run step s es)
  | [], _, _, hs => hs
  | e :: es, s, hg, hs => run_invariant_of_guarded hstep es hg.2 (hstep s e hs hg.1)

/-- And it holds in every state on the way. -/
theorem take_invariant_of_guarded {P : S → Prop} {G : S → E → Prop} (hstep : ∀ s e, P s → G s e → P (step s e))
    {es : List E} {s : S} (hg : Guarded step G s es) (hs : P s) (n : Nat) : P (run step s (es.take n)) :=
  run_invariant_of_guarded step hstep _ (guarded_take step hg n) hs

theorem guarded_of_invariant {P : S → Prop} {G H : S → E → Prop} (hstep : ∀ s e, P s → G s e → P (step s e))
    (hsteps : ∀ s e, P s → G s e → H s e) :
    ∀ (es : List E) {s : S}, Guarded step G s es → P s → Guarded step H s es
  | [], _, _, _ => trivial
  | e :: es, s, hg, hs =>
    ⟨hsteps s e hs hg.1, guarded_of_invariant hstep hsteps es hg.2 (hstep s e hs hg.1)⟩

/-- A safety property of all states of a run, as a guard on its steps: where a step from a safe state
stays safe exactly when it meets `G`, every state of a run is safe exactly when every step meets `G`. -/
theorem forall_take_iff_guarded {P Safe : S → Prop} {D G : S → E → Prop} (hsafe : ∀ s, P s → Safe s)
    (hinv : ∀ s e, P s → D s e → G s e → P (step s e))
    (hguard : ∀ s e, P s → D s e → Safe (step s e) → G s e) :
    ∀ (es : List E) {s : S}, P s → Guarded step D s es → ((∀ n, Safe (run step s (es.take n))) ↔ Guarded step G s es)
  | [], s, hs, _ => by
    simp only [take_nil, run_nil, forall_const, Guarded, iff_true]
    exact hsafe s hs
  | e :: es, s, hs, hd => by
    have ih := fun hg => forall_take_iff_guarded hsafe hinv hguard es (hinv s e hs hd.1 hg) hd.2
    constructor
    · intro h
      have hg := hguard s e hs hd.1 (h 1)
      exact ⟨hg, (ih hg).1 fun n => h (n + 1)⟩
    · rintro ⟨hg, hgs⟩ n
      cases n with
      | zero => exact hsafe s hs
      | succ n => exact (ih hg).2 hgs n

end

end StreetJS.Lib
