/-
The circuit breaker (`core/src/microservices/circuit-breaker.ts`) under concurrent calls: a call starts
when `execute` invokes its function, and its outcome comes at any later time.
-/
import StreetJS.Lib.Runs
import Mathlib.Tactic

namespace StreetJS.Microservices

open StreetJS.Lib List

/-! ## The breaker -/

inductive CircuitState where
  | closed
  | opened
  | halfOpen
deriving DecidableEq

structure CircuitBreakerOptions where
  failureThreshold : Int := 5
  successThreshold : Int := 2
  timeout : Int := 60000
  name : String := "unknown"

structure CircuitBreaker where
  state : CircuitState := .closed
  failures : Nat := 0
  successesInHalfOpen : Nat := 0
  openedAt : Int := 0

/-- The message of `CircuitOpenError`. -/
def circuitOpenError (name : String) : String := "Circuit is open" ++ if name.isEmpty then "" else ": " ++ name

def allowed : CircuitState → List CircuitState
  | .closed => [.opened]
  | .opened => [.halfOpen]
  | .halfOpen => [.closed, .opened]

namespace CircuitBreaker

variable (opts : CircuitBreakerOptions) (b : CircuitBreaker)

/-- A transition that is not allowed is taken back. -/
def transitionTo (next : CircuitState) (now : Int) : CircuitBreaker :=
  if next ∈ allowed b.state then
    match next with
    | .opened => { b with state := .opened, openedAt := now, successesInHalfOpen := 0 }
    | .closed => { b with state := .closed, failures := 0, successesInHalfOpen := 0 }
    | .halfOpen => { b with state := .halfOpen, successesInHalfOpen := 0 }
  else b

/-- The getter `state`: an open circuit whose timeout has elapsed is half-open. -/
def read (now : Int) : CircuitBreaker :=
  if b.state = .opened ∧ opts.timeout ≤ now - b.openedAt then b.transitionTo .halfOpen now else b

def onSuccess (now : Int) : CircuitBreaker :=
  match b.state with
  | .halfOpen =>
    let b := { b with successesInHalfOpen := b.successesInHalfOpen + 1 }
    if opts.successThreshold ≤ b.successesInHalfOpen then b.transitionTo .closed now else b
  | .closed => { b with failures := 0 }
  | .opened => b

def onFailure (now : Int) : CircuitBreaker :=
  match b.state with
  | .halfOpen => b.transitionTo .opened now
  | .closed =>
    let b := { b with failures := b.failures + 1 }
    if opts.failureThreshold ≤ b.failures then b.transitionTo .opened now else b
  | .opened => b

end CircuitBreaker

/-! ## Calls -/

/-- A call whose function was invoked: the state it was let through in, and how often the circuit had
opened until then. -/
structure Execution where
  startedIn : CircuitState
  openings : Nat
  settled : Bool := false

/-- An outcome that takes a half-open circuit to another state, with all outcomes that came while the
circuit was half-open. -/
structure Turn where
  target : CircuitState
  openings : Nat
  call : Execution
  period : List (Execution × Bool)

/-- The breaker and its calls, with the past: how often the circuit has opened, the outcomes since it went
half-open, the turns, and what each invocation has found. -/
structure Circuit where
  breaker : CircuitBreaker := {}
  calls : List Execution := []
  refused : List String := []
  openings : Nat := 0
  period : List (Execution × Bool) := []
  turns : List Turn := []
  invocations : List (CircuitBreaker × Int) := []

inductive CircuitEvent where
  | read (now : Int)
  | execute (now : Int)
  | settle (i : Nat) (succeeds : Bool) (now : Int)

namespace Circuit

variable (opts : CircuitBreakerOptions) (s : Circuit)

def read (now : Int) : Circuit :=
  { s with
    breaker := s.breaker.read opts now
    period := if (s.breaker.read opts now).state ≠ s.breaker.state then [] else s.period }

def execute (now : Int) : Circuit :=
  let current := s.read opts now
  if current.breaker.state = .opened then { current with refused := s.refused ++ [circuitOpenError opts.name] }
  else
    { current with
      calls := s.calls ++ [{ startedIn := current.breaker.state, openings := s.openings }]
      invocations := s.invocations ++ [(s.breaker, now)] }

/-- The outcome of call `i`. -/
def settle (i : Nat) (call : Execution) (succeeds : Bool) (now : Int) : Circuit :=
  let breaker := if succeeds then s.breaker.onSuccess opts now else s.breaker.onFailure opts now
  let probing := s.breaker.state = .halfOpen
  let period := if probing then s.period ++ [(call, succeeds)] else s.period
  { s with
    breaker
    calls := s.calls.set i { call with settled := true }
    openings := if breaker.state = .opened ∧ s.breaker.state ≠ .opened then s.openings + 1 else s.openings
    period
    turns := if probing ∧ breaker.state ≠ .halfOpen then
        s.turns ++ [{ target := breaker.state, openings := s.openings, call, period }]
      else s.turns }

def step (s : Circuit) : CircuitEvent → Circuit
  | .read now => s.read opts now
  | .execute now => s.execute opts now
  | .settle i succeeds now =>
    match s.calls[i]? with
    | some call => if call.settled then s else s.settle opts i call succeeds now
    | none => s

end Circuit

/-! ## The protocol -/

/-- A probe: a call that was started while the circuit was half-open, since it opened for the last time. -/
def Execution.probes (call : Execution) (openings : Nat) : Bool :=
  call.startedIn = .halfOpen ∧ call.openings = openings

/-- No function is invoked while the circuit is open and its timeout has not elapsed; a circuit closes after
enough successes of probes and no failure of one; and the outcome that closes a half-open circuit or arms
its timeout again is that of a call started since the circuit opened. -/
structure Protocol (opts : CircuitBreakerOptions) (s : Circuit) : Prop where
  sheds : ∀ found ∈ s.invocations, found.1.state = .opened → opts.timeout ≤ found.2 - found.1.openedAt
  closes : ∀ turn ∈ s.turns, turn.target = .closed → opts.successThreshold ≤ turn.period.countP (fun o => o.1.probes turn.openings && o.2) ∧
      ∀ o ∈ turn.period, o.1.probes turn.openings = true → o.2 = true
  turned : ∀ turn ∈ s.turns, turn.call.openings = turn.openings

/-- An outcome that comes while the circuit is half-open is that of a call started since it opened. -/
def Timely (s : Circuit) : CircuitEvent → Prop
  | .settle i _ _ => s.breaker.state = .halfOpen → ∀ call, s.calls[i]? = some call → call.settled = false → call.openings = s.openings
  | _ => True

/-! ## What the breaker does -/

section

variable {opts : CircuitBreakerOptions} {b : CircuitBreaker} {now : Int}

example (h : b.state = .closed) : b.transitionTo .closed now = b := by simp [CircuitBreaker.transitionTo, allowed, h]

theorem read_cases (opts : CircuitBreakerOptions) (b : CircuitBreaker) (now : Int) :
    b.read opts now = b ∧ (b.state = .opened → now - b.openedAt < opts.timeout) ∨ b.state = .opened ∧ opts.timeout ≤ now - b.openedAt ∧
        b.read opts now = { b with state := .halfOpen, successesInHalfOpen := 0 } := by
  unfold CircuitBreaker.read
  split
  · rename_i h
    right
    exact ⟨h.1, h.2, by simp [CircuitBreaker.transitionTo, allowed, h.1]⟩
  · rename_i h
    left
    refine ⟨rfl, fun ho => ?_⟩
    by_contra hle
    exact h ⟨ho, by omega⟩

theorem onSuccess_halfOpen (h : b.state = .halfOpen) : b.onSuccess opts now =
      if opts.successThreshold ≤ (b.successesInHalfOpen : Int) + 1 then
        { b with state := .closed, failures := 0, successesInHalfOpen := 0 }
      else { b with successesInHalfOpen := b.successesInHalfOpen + 1 } := by
  simp [CircuitBreaker.onSuccess, CircuitBreaker.transitionTo, allowed, h]

theorem onFailure_halfOpen (h : b.state = .halfOpen) :
    b.onFailure opts now = { b with state := .opened, openedAt := now, successesInHalfOpen := 0 } := by
  simp [CircuitBreaker.onFailure, CircuitBreaker.transitionTo, allowed, h]

theorem onSuccess_state (h : b.state ≠ .halfOpen) : (b.onSuccess opts now).state = b.state := by
  unfold CircuitBreaker.onSuccess
  split
  · contradiction
  · rename_i hc
    exact hc ▸ rfl
  · rfl

theorem onFailure_state (h : b.state ≠ .halfOpen) :
    (b.onFailure opts now).state = b.state ∨ b.state = .closed ∧ (b.onFailure opts now).state = .opened := by
  unfold CircuitBreaker.onFailure
  split
  · contradiction
  · rename_i hc
    dsimp only
    split
    · exact .inr ⟨hc, by simp [CircuitBreaker.transitionTo, allowed, hc]⟩
    · exact .inl rfl
  · exact .inl rfl

end

/-! ## Keeping the generations apart -/

/-- A call is not of a generation to come; unless the circuit is closed, the calls of the present generation
are probes; and while it is half-open, what it counts are successes of probes. -/
structure Counted (opts : CircuitBreakerOptions) (s : Circuit) : Prop where
  started : ∀ call ∈ s.calls, call.openings ≤ s.openings
  probes : s.breaker.state ≠ .closed → ∀ call ∈ s.calls, call.openings = s.openings → call.startedIn = .halfOpen
  period : s.breaker.state = .halfOpen → ∀ o ∈ s.period, o.1.probes s.openings = true ∧ o.2 = true
  count : s.breaker.state = .halfOpen → s.breaker.successesInHalfOpen = s.period.length
  protocol : Protocol opts s

section

variable {opts : CircuitBreakerOptions} {s : Circuit}

theorem counted_start (opts : CircuitBreakerOptions) : Counted opts {} where
  started call hcall := absurd hcall not_mem_nil
  probes _ call hcall := absurd hcall not_mem_nil
  period h := by cases h
  count h := by cases h
  protocol := ⟨fun _ h => absurd h not_mem_nil, fun _ h => absurd h not_mem_nil, fun _ h => absurd h not_mem_nil⟩

theorem Counted.read (h : Counted opts s) (now : Int) : Counted opts (s.read opts now) := by
  rcases read_cases opts s.breaker now with ⟨hsame, -⟩ | ⟨hopen, -, hhalf⟩
  · have he : s.read opts now = s := by simp [Circuit.read, hsame]
    rw [he]
    exact h
  · have he : s.read opts now =
        { s with breaker := { s.breaker with state := .halfOpen, successesInHalfOpen := 0 }, period := [] } := by
      simp [Circuit.read, hhalf, hopen]
    rw [he]
    constructor
    · exact h.started
    · intro _
      exact h.probes (by rw [hopen]; decide)
    · intro _ o ho
      cases ho
    · intro _
      rfl
    · exact { h.protocol with }

theorem let_through (opts : CircuitBreakerOptions) (s : Circuit) (now : Int) (h : (s.read opts now).breaker.state ≠ .opened) :
    s.breaker.state = .opened → opts.timeout ≤ now - s.breaker.openedAt := by
  intro hopen
  rcases read_cases opts s.breaker now with ⟨hsame, -⟩ | ⟨-, hle, -⟩
  · refine absurd hopen ?_
    have : (s.read opts now).breaker = s.breaker := hsame
    rwa [this] at h
  · exact hle

theorem Counted.execute (h : Counted opts s) (now : Int) : Counted opts (s.execute opts now) := by
  have hread := h.read now
  have hthrough := let_through opts s now
  unfold Circuit.execute
  dsimp only
  generalize hcur : s.read opts now = current at hread hthrough
  have hopenings : s.openings = current.openings := by rw [← hcur]; rfl
  have hcalls : s.calls = current.calls := by rw [← hcur]; rfl
  have hinvocations : s.invocations = current.invocations := by rw [← hcur]; rfl
  split
  · exact { hread with protocol := { hread.protocol with } }
  · rename_i hne
    rw [hopenings, hcalls, hinvocations]
    constructor
    · intro call hcall
      rcases mem_append.1 hcall with hcall | hcall
      · exact hread.started call hcall
      · rw [mem_singleton.1 hcall]
    · intro hclosed call hcall heq
      rcases mem_append.1 hcall with hcall | hcall
      · exact hread.probes hclosed call hcall heq
      · -- the circuit is neither closed nor open
        rw [mem_singleton.1 hcall]
        have hc : current.breaker.state ≠ .closed := hclosed
        cases hstate : current.breaker.state with
        | closed => exact absurd hstate hc
        | opened => exact absurd hstate hne
        | halfOpen => rfl
    · exact hread.period
    · exact hread.count
    · refine { hread.protocol with sheds := ?_ }
      intro found hfound
      rcases mem_append.1 hfound with hfound | hfound
      · exact hread.protocol.sheds found hfound
      · rw [mem_singleton.1 hfound]
        exact hthrough hne

theorem mem_settled {i : Nat} {call e : Execution} (hi : s.calls[i]? = some call) (he : e ∈ s.calls.set i { call with settled := true }) :
    ∃ c ∈ s.calls, e.openings = c.openings ∧ e.startedIn = c.startedIn := by
  rcases mem_or_eq_of_mem_set he with he | rfl
  · exact ⟨e, he, rfl, rfl⟩
  · exact ⟨call, mem_of_getElem? hi, rfl, rfl⟩

theorem Counted.settleOutside (h : Counted opts s) {i : Nat} {call : Execution} (hi : s.calls[i]? = some call)
    (hstate : s.breaker.state ≠ .halfOpen) (succeeds : Bool) (now : Int) :
    Counted opts (s.settle opts i call succeeds now) := by
  have hcases : ∀ breaker, (if succeeds then s.breaker.onSuccess opts now else s.breaker.onFailure opts now) = breaker →
      breaker.state = s.breaker.state ∨ s.breaker.state = .closed ∧ breaker.state = .opened := by
    rintro breaker rfl
    cases succeeds with
    | true => exact .inl (onSuccess_state hstate)
    | false => exact onFailure_state hstate
  unfold Circuit.settle
  generalize hb : (if succeeds then s.breaker.onSuccess opts now else s.breaker.onFailure opts now) = breaker
  have hkept := hcases breaker hb
  have hhalf : breaker.state ≠ .halfOpen := by
    rcases hkept with hkept | ⟨-, hkept⟩
    · rwa [hkept]
    · rw [hkept]
      decide
  simp only [hstate, false_and, if_false]
  rcases hkept with hsame | ⟨hclosed, hopened⟩
  · have hopenings : (if breaker.state = .opened ∧ s.breaker.state ≠ .opened then s.openings + 1 else s.openings) =
        s.openings := by
      rw [hsame]
      simp
    rw [hopenings]
    constructor
    · intro e he
      obtain ⟨c, hc, heq, -⟩ := mem_settled hi he
      rw [heq]
      exact h.started c hc
    · intro hclosed e he heq
      obtain ⟨c, hc, hopen, hin⟩ := mem_settled hi he
      have hclosed' : breaker.state ≠ .closed := hclosed
      rw [hin]
      exact h.probes (hsame ▸ hclosed') c hc (hopen ▸ heq)
    · intro hh
      exact absurd hh hhalf
    · intro hh
      exact absurd hh hhalf
    · exact { h.protocol with }
  · -- a generation begins, and no call is of it
    have hopenings : (if breaker.state = .opened ∧ s.breaker.state ≠ .opened then s.openings + 1 else s.openings) = s.openings + 1 := by
      rw [hopened, hclosed]
      simp
    constructor
    · intro e he
      obtain ⟨c, hc, heq, -⟩ := mem_settled hi he
      have := h.started c hc
      simp only
      omega
    · intro _ e he heq
      obtain ⟨c, hc, hopen, -⟩ := mem_settled hi he
      have := h.started c hc
      simp only at heq
      omega
    · intro hh
      exact absurd hh hhalf
    · intro hh
      exact absurd hh hhalf
    · exact { h.protocol with }

theorem Counted.settleProbe (h : Counted opts s) {i : Nat} {call : Execution} (hi : s.calls[i]? = some call)
    (hstate : s.breaker.state = .halfOpen) (hcall : call.openings = s.openings) (succeeds : Bool) (now : Int) :
    Counted opts (s.settle opts i call succeeds now) := by
  have hprobe : call.probes s.openings = true := by
    have hin := h.probes (by rw [hstate]; decide) call (mem_of_getElem? hi) hcall
    simp [Execution.probes, hin, hcall]
  have hperiod := h.period hstate
  have hcount := h.count hstate
  unfold Circuit.settle
  cases succeeds with
  | true =>
    have hall : ∀ o ∈ s.period ++ [(call, true)], o.1.probes s.openings = true ∧ o.2 = true := by
      intro o ho
      rcases mem_append.1 ho with ho | ho
      · exact hperiod o ho
      · rw [mem_singleton.1 ho]
        exact ⟨hprobe, rfl⟩
    simp only [if_true, onSuccess_halfOpen hstate, hstate, true_and]
    split
    · -- the last success that was wanted
      rename_i hle
      constructor
      · intro e he
        obtain ⟨c, hc, heq, -⟩ := mem_settled hi he
        rw [heq]
        exact h.started c hc
      · intro hclosed
        exact absurd rfl hclosed
      · intro hh
        cases hh
      · intro hh
        cases hh
      · refine ⟨h.protocol.sheds, ?_, ?_⟩
        · intro turn hturn htarget
          rcases mem_append.1 hturn with hturn | hturn
          · exact h.protocol.closes turn hturn htarget
          · rw [mem_singleton.1 hturn]
            refine ⟨?_, fun o ho _ => (hall o ho).2⟩
            have hlen : (s.period ++ [(call, true)]).countP (fun o => o.1.probes s.openings && o.2) = (s.period ++ [(call, true)]).length :=
              countP_eq_length.2 fun o ho => by simp [hall o ho]
            simp only [hlen, length_append, length_singleton, Nat.cast_add, Nat.cast_one]
            omega
        · intro turn hturn
          rcases mem_append.1 hturn with hturn | hturn
          · exact h.protocol.turned turn hturn
          · rw [mem_singleton.1 hturn]
            exact hcall
    · constructor
      · intro e he
        obtain ⟨c, hc, heq, -⟩ := mem_settled hi he
        rw [heq]
        exact h.started c hc
      · intro _ e he heq
        obtain ⟨c, hc, hopen, hin⟩ := mem_settled hi he
        rw [hin]
        exact h.probes (by rw [hstate]; decide) c hc (hopen ▸ heq)
      · intro _
        exact hall
      · intro _
        simp [hcount]
      · exact { h.protocol with }
  | false =>
    simp only [Bool.false_eq_true, if_false, onFailure_halfOpen hstate, hstate, true_and, if_true, ne_eq, reduceCtorEq, not_false_eq_true]
    constructor
    · intro e he
      obtain ⟨c, hc, heq, -⟩ := mem_settled hi he
      have := h.started c hc
      simp only
      omega
    · intro _ e he heq
      obtain ⟨c, hc, hopen, -⟩ := mem_settled hi he
      have := h.started c hc
      simp only at heq
      omega
    · intro hh
      cases hh
    · intro hh
      cases hh
    · refine ⟨h.protocol.sheds, ?_, ?_⟩
      · intro turn hturn htarget
        rcases mem_append.1 hturn with hturn | hturn
        · exact h.protocol.closes turn hturn htarget
        · rw [mem_singleton.1 hturn] at htarget
          cases htarget
      · intro turn hturn
        rcases mem_append.1 hturn with hturn | hturn
        · exact h.protocol.turned turn hturn
        · rw [mem_singleton.1 hturn]
          exact hcall

theorem Counted.step (h : Counted opts s) {ev : CircuitEvent} (hg : Timely s ev) : Counted opts (s.step opts ev) := by
  cases ev with
  | read now => exact h.read now
  | execute now => exact h.execute now
  | settle i succeeds now =>
    simp only [Circuit.step]
    split
    · rename_i call hi
      split
      · exact h
      · rename_i hsettled
        by_cases hstate : s.breaker.state = .halfOpen
        · exact h.settleProbe hi hstate (hg hstate call hi (by simpa using hsettled)) succeeds now
        · exact h.settleOutside hi hstate succeeds now
    · exact h

end

/-! ## Runs -/

/-- Over every interleaving of calls and every clock, the breaker follows its protocol where no call that was
started before the circuit last opened settles while it is half-open. -/
theorem protocol_of_timely (opts : CircuitBreakerOptions) (es : List CircuitEvent)
    (hg : Guarded (Circuit.step opts) Timely {} es) : Protocol opts (run (Circuit.step opts) {} es) := by
  have hstep : ∀ s ev, Counted opts s → Timely s ev → Counted opts (s.step opts ev) :=
    fun s ev h hg => h.step hg
  have hcounted : Counted opts (run (Circuit.step opts) {} es) :=
    run_invariant_of_guarded (Circuit.step opts) hstep es hg (counted_start opts)
  exact hcounted.protocol

/-- A breaker that opens on the first failure, for 100 milliseconds. -/
def quick : CircuitBreakerOptions := { failureThreshold := 1, timeout := 100 }

/-- The circuit opens, and two probes close it. -/
def recovers : List CircuitEvent :=
  [.execute 0, .settle 0 false 5, .execute 50, .execute 105, .execute 106, .settle 1 true 110, .settle 2 true 120]

theorem protocol_of_timely_recovers : Protocol quick (run (Circuit.step quick) {} recovers) := by
  refine protocol_of_timely quick recovers ⟨trivial, ?_, trivial, trivial, trivial, ?_, ?_, trivial⟩
  · rintro ⟨⟩
  · rintro - call ⟨⟩ -
    rfl
  · rintro - call ⟨⟩ -
    rfl

/-- Three calls start while the circuit is closed; the first opens it. -/
def slowCalls : List CircuitEvent := [.execute 0, .execute 1, .execute 2, .settle 0 false 5, .read 105]

/-- Two old successes close the half-open circuit; an old failure arms its timeout again. -/
theorem old_outcomes_counterexample : ¬ Protocol quick (run (Circuit.step quick) {} (slowCalls ++ [.settle 1 true 110, .settle 2 true 120])) ∧
      ¬ Protocol quick (run (Circuit.step quick) {} (slowCalls ++ [.settle 1 false 110])) := by
  refine ⟨fun h => ?_, fun h => ?_⟩
  · have hcloses := (h.closes _ (mem_singleton_self _) rfl).1
    exact absurd hcloses (by decide)
  · have hturned := h.turned _ (mem_singleton_self _)
    exact absurd hturned (by decide)

end StreetJS.Microservices
