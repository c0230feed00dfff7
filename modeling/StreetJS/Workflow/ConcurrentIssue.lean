/-
Commands issued through one journal, of which any number may be in flight: `Journal.process` cut at its two awaits, the
effect and the save of the snapshot, with the commands going on in any order.
-/
import StreetJS.Workflow.Records
import StreetJS.Lib.ListSet

namespace StreetJS.Workflow

open StreetJS.Lib

variable {V : Type}

/-! ## Commands in flight -/

/-- A command that the function issued: its effect runs, its snapshot is saved, or it is answered. A command is `rejected`
when its effect or its save throws. -/
inductive Issued (V : Type) where
  | executing (p : Pending V)
  | saving (p : Pending V) (settledAt : Int) (outcome : CommandOutcome V) (next : Journal V)
  | recorded (p : Pending V) (settledAt : Int) (outcome : CommandOutcome V)
  | replayed (outcome : Except Thrown V)
  | rejected

def Issued.inFlight : Issued V → Bool
  | .executing _ | .saving _ _ _ _ => true
  | _ => false

structure Issuing (V : Type) where
  journal : Journal V
  issued : List (Issued V)

inductive IssueEvent (V : Type) where
  | issue (spec : JournalCommandSpec V) (startedAt : Int)
  | returned (command : Nat) (settledAt : Int) (outcome : CommandOutcome V)
  | saved (command : Nat)
  | failed (command : Nat)

namespace Issuing

/-- A function over a loaded run, before its first command. -/
def start (run : WorkflowRun V) : Issuing V := ⟨{ current := run }, []⟩

def issue (w : Issuing V) (spec : JournalCommandSpec V) (startedAt : Int) : Issuing V :=
  match w.journal.issue spec startedAt with
  | .replayed journal outcome => ⟨journal, w.issued ++ [.replayed outcome]⟩
  | .live p => { w with issued := w.issued ++ [.executing p] }

/-- The effect has returned: the snapshot is built from the journal as it is now. -/
def returned (w : Issuing V) (k : Nat) (settledAt : Int) (outcome : CommandOutcome V) : Issuing V :=
  match w.issued[k]? with
  | some (.executing p) =>
    { w with issued := w.issued.set k (.saving p settledAt outcome (w.journal.settle p settledAt outcome).1) }
  | _ => w

/-- The snapshot is saved, and becomes the journal's. -/
def saved (w : Issuing V) (k : Nat) : Issuing V :=
  match w.issued[k]? with
  | some (.saving p settledAt outcome next) => ⟨next, w.issued.set k (.recorded p settledAt outcome)⟩
  | _ => w

def failed (w : Issuing V) (k : Nat) : Issuing V :=
  match w.issued[k]? with
  | some (.executing _) | some (.saving _ _ _ _) => { w with issued := w.issued.set k .rejected }
  | _ => w

def step (w : Issuing V) : IssueEvent V → Issuing V
  | .issue spec startedAt => w.issue spec startedAt
  | .returned k settledAt outcome => w.returned k settledAt outcome
  | .saved k => w.saved k
  | .failed k => w.failed k

end Issuing

/-! ## What is promised -/

/-- The records are in order, a settled command has the record of its own outcome and no other command has it, and once
the records of the loaded run are passed the next command is executed. -/
structure Intact (run : WorkflowRun V) (w : Issuing V) : Prop where
  sequenced : Sequenced w.journal.current
  own : ∀ (k : Nat) p settledAt outcome, w.issued[k]? = some (.recorded p settledAt outcome) →
    outcome.settlement.status ≠ .waiting → w.journal.current.commands[p.index]? =
      some (buildRecord p.spec p.seq p.startedAt settledAt outcome p.recorded)
  distinct : ∀ (k k' : Nat) p settledAt outcome p' settledAt' outcome',
    w.issued[k]? = some (.recorded p settledAt outcome) → w.issued[k']? = some (.recorded p' settledAt' outcome') →
      outcome.settlement.status ≠ .waiting → outcome'.settlement.status ≠ .waiting → p.index = p'.index → k = k'
  executed : (∀ c ∈ w.issued, c.inFlight = false) → run.commands.length ≤ w.journal.cursor →
    ∀ spec now, ∃ p, w.journal.issue spec now = .live p

/-- A command is issued when no other is in flight. -/
def OneAtATime (w : Issuing V) : IssueEvent V → Prop
  | .issue _ _ => ∀ c ∈ w.issued, c.inFlight = false
  | _ => True

instance (w : Issuing V) (event : IssueEvent V) : Decidable (OneAtATime w event) :=
  match event with
  | .issue _ _ => inferInstanceAs (Decidable (∀ c ∈ w.issued, c.inFlight = false))
  | .returned _ _ _ | .saved _ | .failed _ => isTrue trivial

/-! ## The invariant -/

/-- What a command in flight says of the journal. -/
def IssuedOk (j : Journal V) : Issued V → Prop
  | .executing p => PendingAt j p
  | .saving p settledAt outcome next => PendingAt j p ∧ next = (j.settle p settledAt outcome).1
  | .recorded p settledAt outcome => outcome.settlement.status ≠ .waiting → p.index < j.cursor ∧
    j.current.commands[p.index]? = some (buildRecord p.spec p.seq p.startedAt settledAt outcome p.recorded)
  | _ => True

structure InTurn (run : WorkflowRun V) (w : Issuing V) : Prop where
  sequenced : Sequenced w.journal.current
  cursor : w.journal.cursor ≤ w.journal.current.commands.length
  length : w.journal.current.commands.length ≤ max run.commands.length (w.journal.cursor + 1)
  waiting : run.commands.length ≤ w.journal.cursor → ∀ r, w.journal.current.commands[w.journal.cursor]? = some r → r.status = .waiting
  issued : ∀ (k : Nat) c, w.issued[k]? = some c → IssuedOk w.journal c
  alone : ∀ (k k' : Nat) c c', w.issued[k]? = some c → w.issued[k']? = some c' → c.inFlight = true → c'.inFlight = true → k = k'
  distinct : ∀ (k k' : Nat) p settledAt outcome p' settledAt' outcome',
    w.issued[k]? = some (.recorded p settledAt outcome) → w.issued[k']? = some (.recorded p' settledAt' outcome') →
      outcome.settlement.status ≠ .waiting → outcome'.settlement.status ≠ .waiting → p.index = p'.index → k = k'

variable {run : WorkflowRun V} {w : Issuing V}

theorem inTurn_start (h : Sequenced run) : InTurn run (.start run) := by
  have hnone : ∀ {k : Nat} {c : Issued V} {P : Prop}, (Issuing.start run).issued[k]? = some c → P := by
    intro k c P hk
    cases hk
  refine ⟨h, Nat.zero_le _, Nat.le_max_left _ _, ?_, fun _ _ hk => hnone hk, fun _ _ _ _ hk => hnone hk, fun _ _ _ _ _ _ _ _ hk => hnone hk⟩
  intro hlen r hr
  have hempty : run.commands = [] := List.length_eq_zero_iff.1 (Nat.le_zero.1 hlen)
  rw [Issuing.start, hempty] at hr
  cases hr

theorem InTurn.next_waiting (h : InTurn run w) (hlen : run.commands.length ≤ w.journal.cursor + 1) :
    ∀ r, w.journal.current.commands[w.journal.cursor + 1]? ≠ some r := by
  intro r hr
  have hlt := (lt_length hr)
  have := h.length
  omega

theorem InTurn.keep (h : InTurn run w) {issued : List (Issued V)} (hissued : ∀ (k : Nat) c, issued[k]? = some c → IssuedOk w.journal c)
    (halone : ∀ (k k' : Nat) c c', issued[k]? = some c → issued[k']? = some c' → c.inFlight = true → c'.inFlight = true → k = k')
    (hrecorded : ∀ (k : Nat) p settledAt outcome, issued[k]? = some (.recorded p settledAt outcome) →
      w.issued[k]? = some (.recorded p settledAt outcome)) : InTurn run { w with issued := issued } := by
  refine ⟨h.sequenced, h.cursor, h.length, h.waiting, hissued, halone, ?_⟩
  intro k k' p t o p' t' o' hk hk'
  exact h.distinct k k' p t o p' t' o' (hrecorded k p t o hk) (hrecorded k' p' t' o' hk')

theorem InTurn.issueLive (h : InTurn run w) (hnone : ∀ c ∈ w.issued, c.inFlight = false)
    {spec : JournalCommandSpec V} {now : Int} {p : Pending V} (hi : w.journal.issue spec now = .live p) :
    InTurn run { w with issued := w.issued ++ [.executing p] } := by
  have hnot : ∀ {k : Nat} {c : Issued V}, w.issued[k]? = some c → c.inFlight = true → False := fun hk hf => by
    rw [hnone _ (List.mem_of_getElem? hk)] at hf
    cases hf
  refine h.keep ?_ ?_ ?_
  · intro k c hk
    rcases getElem?_concat_cases hk with hold | ⟨-, rfl⟩
    · exact h.issued k c hold
    · exact issue_live h.sequenced h.cursor hi
  · intro k k' c c' hk hk' hf hf'
    rcases getElem?_concat_cases hk with hold | ⟨rfl, -⟩ <;> rcases getElem?_concat_cases hk' with hold' | ⟨rfl, -⟩
    · exact (hnot hold hf).elim
    · exact (hnot hold hf).elim
    · exact (hnot hold' hf').elim
    · rfl
  · intro k p' t o hk
    rcases getElem?_concat_cases hk with hold | ⟨-, heq⟩
    · exact hold
    · cases heq

theorem IssuedOk.of_passed {j : Journal V} {c : Issued V} (h : IssuedOk j c) (hf : c.inFlight = false) :
    IssuedOk { j with cursor := j.cursor + 1 } c := by
  cases c with
  | recorded p t o => exact fun hs => ⟨Nat.lt_succ_of_lt (h hs).1, (h hs).2⟩
  | executing | saving => cases hf
  | _ => trivial

theorem InTurn.replay (h : InTurn run w) (hnone : ∀ c ∈ w.issued, c.inFlight = false) {r : CommandRecord V}
    (hr : w.journal.current.commands[w.journal.cursor]? = some r) (outcome : Except Thrown V) :
    InTurn run ⟨{ w.journal with cursor := w.journal.cursor + 1 }, w.issued ++ [.replayed outcome]⟩ := by
  have hnot : ∀ {k : Nat} {c : Issued V}, (w.issued ++ [.replayed outcome])[k]? = some c → c.inFlight = true →
      False := by
    intro k c hk hf
    rcases getElem?_concat_cases hk with hold | ⟨-, rfl⟩
    · rw [hnone _ (List.mem_of_getElem? hold)] at hf
      cases hf
    · cases hf
  have hold : ∀ {k : Nat} {p t o}, (w.issued ++ [.replayed outcome])[k]? = some (.recorded p t o) →
      w.issued[k]? = some (.recorded p t o) := by
    intro k p t o hk
    rcases getElem?_concat_cases hk with hold | ⟨-, heq⟩
    · exact hold
    · cases heq
  constructor
  · exact h.sequenced
  · exact (lt_length hr)
  · have := h.length
    show w.journal.current.commands.length ≤ max run.commands.length (w.journal.cursor + 1 + 1)
    omega
  · exact fun hlen r' hr' => absurd hr' (h.next_waiting hlen r')
  · intro k c hk
    rcases getElem?_concat_cases hk with hk' | ⟨-, rfl⟩
    · exact (h.issued k c hk').of_passed (hnone c (List.mem_of_getElem? hk'))
    · trivial
  · exact fun k k' c c' hk _ hf _ => (hnot hk hf).elim
  · exact fun k k' p t o p' t' o' hk hk' => h.distinct k k' p t o p' t' o' (hold hk) (hold hk')

theorem InTurn.issue (h : InTurn run w) (hnone : ∀ c ∈ w.issued, c.inFlight = false) (spec : JournalCommandSpec V)
    (now : Int) : InTurn run (w.issue spec now) := by
  unfold Issuing.issue
  cases hi : w.journal.issue spec now with
  | live p => exact h.issueLive hnone hi
  | replayed journal outcome =>
    unfold Journal.issue at hi
    split at hi
    · next r hr =>
      split at hi
      · obtain ⟨rfl, rfl⟩ := Issue.replayed.inj hi
        exact h.replay hnone hr _
      · cases hi
    · cases hi

theorem InTurn.goOn (h : InTurn run w) {k : Nat} {c c' : Issued V} (hk : w.issued[k]? = some c)
    (hf : c.inFlight = true) (hok : IssuedOk w.journal c') (hnot : ∀ p t o, c' ≠ .recorded p t o) :
    InTurn run { w with issued := w.issued.set k c' } := by
  refine h.keep ?_ ?_ ?_
  · intro k' c₁ hk'
    rcases getElem?_set_cases hk' with ⟨-, rfl⟩ | ⟨-, hold⟩
    · exact hok
    · exact h.issued k' c₁ hold
  · intro k₁ k₂ c₁ c₂ hk₁ hk₂ hf₁ hf₂
    rcases getElem?_set_cases hk₁ with ⟨rfl, -⟩ | ⟨hne₁, hold₁⟩ <;> rcases getElem?_set_cases hk₂ with ⟨rfl, -⟩ | ⟨hne₂, hold₂⟩
    · rfl
    · exact h.alone _ _ _ _ hk hold₂ hf hf₂
    · exact h.alone _ _ _ _ hold₁ hk hf₁ hf
    · exact h.alone _ _ _ _ hold₁ hold₂ hf₁ hf₂
  · intro k' p t o hk'
    rcases getElem?_set_cases hk' with ⟨-, heq⟩ | ⟨-, hold⟩
    · exact absurd heq.symm (hnot p t o)
    · exact hold

theorem settle_length {j : Journal V} {p : Pending V} (now : Int) (outcome : CommandOutcome V) :
    (j.settle p now outcome).1.current.commands.length =
      if p.recorded.isSome then j.current.commands.length else j.current.commands.length + 1 := by
  unfold Journal.settle
  cases outcome.settlement <;> simp only <;> split <;> simp

theorem InTurn.settle (h : InTurn run w) {k : Nat} {p : Pending V} {settledAt : Int} {outcome : CommandOutcome V}
    {next : Journal V} (hk : w.issued[k]? = some (.saving p settledAt outcome next)) :
    InTurn run ⟨next, w.issued.set k (.recorded p settledAt outcome)⟩ := by
  obtain ⟨hp, rfl⟩ := h.issued k _ hk
  have hget := settle_getElem? hp h.cursor settledAt outcome
  have hcursor := settle_cursor w.journal p settledAt outcome
  have hlength := settle_length (j := w.journal) (p := p) settledAt outcome
  have hidle : ∀ {k' : Nat} {c : Issued V}, w.issued[k']? = some c → k' ≠ k → c.inFlight = false := by
    intro k' c hk' hne
    cases hf : c.inFlight with
    | false => rfl
    | true => exact absurd (h.alone k' k c _ hk' hk hf rfl) hne
  -- the records end at the cursor where there was none, and stay as many where there was a waiting one
  have hlen : (w.journal.settle p settledAt outcome).1.current.commands.length ≤ max run.commands.length (w.journal.cursor + 1) ∧
        w.journal.cursor < (w.journal.settle p settledAt outcome).1.current.commands.length := by
    rw [hlength, hp.recorded]
    cases hg : w.journal.current.commands[w.journal.cursor]? with
    | none =>
      have := List.getElem?_eq_none_iff.1 hg
      have := h.cursor
      simp only [Option.isSome_none, Bool.false_eq_true, if_false]
      omega
    | some r =>
      have := (lt_length hg)
      have := h.length
      simp only [Option.isSome_some, if_true]
      omega
  rw [hp.index] at hcursor
  constructor
  · exact settle_sequenced h.sequenced hp h.cursor settledAt outcome
  · show (w.journal.settle p settledAt outcome).1.cursor ≤ (w.journal.settle p settledAt outcome).1.current.commands.length
    rw [hcursor]
    split <;> omega
  · show (w.journal.settle p settledAt outcome).1.current.commands.length ≤
      max run.commands.length ((w.journal.settle p settledAt outcome).1.cursor + 1)
    rw [hcursor]
    split <;> omega
  · show run.commands.length ≤ (w.journal.settle p settledAt outcome).1.cursor → ∀ r,
      (w.journal.settle p settledAt outcome).1.current.commands[(w.journal.settle p settledAt outcome).1.cursor]? =
        some r → r.status = .waiting
    rw [hcursor]
    intro hrun r hr
    split at hr
    case isTrue hwait =>
      rw [hget, if_pos rfl] at hr
      obtain rfl := Option.some.inj hr
      rw [buildRecord_status]
      exact hwait
    case isFalse hsettled =>
      rw [if_neg hsettled] at hrun
      have := (lt_length hr)
      omega
  · intro k' c hk'
    rcases getElem?_set_cases hk' with ⟨-, rfl⟩ | ⟨hne, hold⟩
    · intro hs
      rw [if_neg hs] at hcursor
      refine ⟨?_, ?_⟩
      · rw [hcursor, hp.index]
        exact Nat.lt_succ_self _
      · rw [hget, hp.index, if_pos rfl]
    · have hok := h.issued k' c hold
      have hf := hidle hold hne
      cases c with
      | executing | saving => cases hf
      | recorded p' t' o' =>
        intro hs
        obtain ⟨hlt, hrec⟩ := hok hs
        refine ⟨?_, ?_⟩
        · rw [hcursor]
          split <;> omega
        · rw [hget, if_neg (Nat.ne_of_lt hlt)]
          exact hrec
      | _ => trivial
  · intro k₁ k₂ c₁ c₂ hk₁ hk₂ hf₁ hf₂
    rcases getElem?_set_cases hk₁ with ⟨-, rfl⟩ | ⟨hne, hold⟩
    · cases hf₁
    · rw [hidle hold hne] at hf₁
      cases hf₁
  · intro k₁ k₂ p₁ t₁ o₁ p₂ t₂ o₂ hk₁ hk₂ hs₁ hs₂ heq
    -- a command settled before stands before the cursor
    have hbefore : ∀ {k' : Nat} {p' : Pending V} {t' o'}, w.issued[k']? = some (.recorded p' t' o') → o'.settlement.status ≠ .waiting →
        p'.index < p.index := fun hk' hs' => by
      rw [hp.index]
      exact (h.issued _ _ hk' hs').1
    rcases getElem?_set_cases hk₁ with ⟨rfl, h₁⟩ | ⟨-, hold₁⟩ <;> rcases getElem?_set_cases hk₂ with ⟨rfl, h₂⟩ | ⟨-, hold₂⟩
    · rfl
    · obtain ⟨rfl, rfl, rfl⟩ := Issued.recorded.inj h₁
      exact absurd heq (Nat.ne_of_gt (hbefore hold₂ hs₂))
    · obtain ⟨rfl, rfl, rfl⟩ := Issued.recorded.inj h₂
      exact absurd heq (Nat.ne_of_lt (hbefore hold₁ hs₁))
    · exact h.distinct k₁ k₂ p₁ t₁ o₁ p₂ t₂ o₂ hold₁ hold₂ hs₁ hs₂ heq

/-! ## Runs -/

theorem InTurn.step (h : InTurn run w) {event : IssueEvent V} (ho : OneAtATime w event) : InTurn run (w.step event) := by
  cases event with
  | issue spec startedAt => exact h.issue ho spec startedAt
  | returned k settledAt outcome =>
    simp only [Issuing.step, Issuing.returned]
    split
    · next p hk => exact h.goOn hk rfl ⟨h.issued k _ hk, rfl⟩ (by simp)
    · exact h
  | saved k =>
    simp only [Issuing.step, Issuing.saved]
    split
    · next p settledAt outcome next hk => exact h.settle hk
    · exact h
  | failed k =>
    simp only [Issuing.step, Issuing.failed]
    split
    · next p hk => exact h.goOn hk rfl trivial (by simp)
    · next p settledAt outcome next hk => exact h.goOn hk rfl trivial (by simp)
    · exact h

theorem InTurn.intact (h : InTurn run w) : Intact run w := by
  refine ⟨h.sequenced, fun k p t o hk hs => (h.issued k _ hk hs).2, h.distinct, ?_⟩
  intro _ hlen spec now
  unfold Journal.issue
  cases hg : w.journal.current.commands[w.journal.cursor]? with
  | none => exact ⟨_, rfl⟩
  | some r =>
    have hwait := h.waiting hlen r hg
    simp only [hwait, ne_eq, not_true_eq_false, if_false]
    exact ⟨_, rfl⟩

/-- Where a command is issued only when no other is in flight, the journal is intact in every state of the run. -/
theorem intact_of_oneAtATime (h : Sequenced run) (events : List (IssueEvent V)) (ho : Guarded Issuing.step OneAtATime (.start run) events) :
    ∀ n, Intact run (Lib.run Issuing.step (.start run) (events.take n)) := by
  intro n
  rw [← List.take_append_drop n events, guarded_append] at ho
  exact (run_invariant_of_guarded Issuing.step (P := InTurn run) (fun _ _ h ho => h.step ho) (events.take n) ho.1 (inTurn_start h)).intact

/-! ## Commands in turn, and two at once -/

def freshRun : WorkflowRun Nat :=
  { runId := "r", definition := "d", status := .running, input := 0, createdAt := 0, updatedAt := 0 }

def activityOutcome (result : Nat) : CommandOutcome Nat := { settlement := .completed result }

def inTurn : List (IssueEvent Nat) :=
  [.issue { kind := .activity } 1, .returned 0 2 (activityOutcome 7), .saved 0, .issue { kind := .activity } 3,
    .returned 1 4 (activityOutcome 8), .saved 1]

theorem intact_of_oneAtATime_inTurn : Intact freshRun (Lib.run Issuing.step (.start freshRun) (inTurn.take 6)) :=
  intact_of_oneAtATime ⟨fun _ _ hr => (by cases hr), rfl⟩ inTurn ⟨by decide, trivial, trivial, by decide, trivial, trivial, trivial⟩ 6

/-- `Promise.all` over two activities. -/
def atOnce : List (IssueEvent Nat) :=
  [.issue { kind := .activity } 1, .issue { kind := .activity } 1, .returned 0 2 (activityOutcome 7), .saved 0,
    .returned 1 3 (activityOutcome 8), .saved 1]

/-- Both records have the sequence number 0, and the next command is answered from the second one. -/
theorem atOnce_counterexample : ¬ (∀ events, Sequenced (Lib.run Issuing.step (.start freshRun) events).journal.current) ∧
      ¬ ∀ events, (∀ c ∈ (Lib.run Issuing.step (.start freshRun) events).issued, c.inFlight = false) →
        ∃ p, (Lib.run Issuing.step (.start freshRun) events).journal.issue { kind := .activity } 4 = .live p := by
  constructor
  · intro h
    have := (h atOnce).seqs 1 _ rfl
    revert this
    decide
  · intro h
    obtain ⟨p, hp⟩ := h atOnce (by decide)
    cases hp

end StreetJS.Workflow
