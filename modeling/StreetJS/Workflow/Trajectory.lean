/-
A whole drive of a sequential function follows the points of its scenario: where it stands, which
thunks it has called and which outcomes it has recorded after every list of clock readings.
-/
import StreetJS.Workflow.Positions

namespace StreetJS.Workflow

open StreetJS.Lib List

variable {V : Type} [JsValue V]

/-! ## Positions that are reached -/

/-- The function is still running when it has been handed `n` replies. -/
def Scenario.reaches (s : Scenario V) (run : WorkflowRun V) (n : Nat) : Prop := (s.point run n).replies.length = n

/-- The command whose thunk is called at position `n`. -/
structure LiveAt (s : Scenario V) (run : WorkflowRun V) (n : Nat) (c : Command V) : Prop where
  reaches : s.reaches run n
  issued : s.fn.next s.input (s.point run n).replies = .command c
  live : (s.point run n).commands[(s.point run n).cursor]? = none

section Points

variable {s : Scenario V} {run : WorkflowRun V} {n : Nat}

variable {p : Point V}

theorem point_succ (h : s.advance (s.point run n) = some p) : s.point run (n + 1) = p := by
  show (s.advance (s.point run n)).getD (s.point run n) = p
  rw [h]; rfl

theorem point_ended (h : s.advance (s.point run n) = none) : s.point run (n + 1) = s.point run n := by
  show (s.advance (s.point run n)).getD (s.point run n) = _
  rw [h]; rfl

theorem length_point_le (s : Scenario V) (run : WorkflowRun V) : ∀ n, (s.point run n).replies.length ≤ n
  | 0 => Nat.le_refl 0
  | n + 1 => by
    have ih := length_point_le s run n
    cases ha : s.advance (s.point run n) with
    | none => rw [point_ended ha]; omega
    | some p =>
      obtain ⟨reply, hr⟩ := advance_replies ha
      rw [point_succ ha, hr, length_append, length_singleton]
      omega

theorem reaches_zero (s : Scenario V) (run : WorkflowRun V) : s.reaches run 0 := rfl

theorem reaches_succ (hn : s.reaches run n) (h : s.advance (s.point run n) = some p) : s.reaches run (n + 1) := by
  obtain ⟨reply, hr⟩ := advance_replies h
  unfold Scenario.reaches at hn ⊢
  rw [point_succ h, hr, length_append, length_singleton, hn]

theorem reaches_of_succ (hn : s.reaches run (n + 1)) : s.reaches run n ∧ s.advance (s.point run n) ≠ none := by
  have hle := length_point_le s run n
  unfold Scenario.reaches at hn ⊢
  cases ha : s.advance (s.point run n) with
  | none =>
    rw [point_ended ha] at hn
    omega
  | some p =>
    obtain ⟨reply, hr⟩ := advance_replies ha
    rw [point_succ ha, hr, length_append, length_singleton] at hn
    exact ⟨by omega, by simp⟩

theorem reaches_of_le {m : Nat} (hm : s.reaches run m) (h : n ≤ m) : s.reaches run n := by
  obtain ⟨k, rfl⟩ := Nat.exists_eq_add_of_le h
  induction k with
  | zero => exact hm
  | succ k ih => exact ih (reaches_of_succ hm).1 (Nat.le_add_right n k)

theorem reaches_of_advance (h : s.advance (s.point run n) = some p) : s.reaches run n := by
  induction n generalizing p with
  | zero => exact reaches_zero s run
  | succ n ih =>
    cases ha : s.advance (s.point run n) with
    | none => rw [point_ended ha, ha] at h; cases h
    | some p' => exact reaches_succ (ih ha) ha

theorem advance_commands {p' : Point V} (h : s.advance p = some p') : p.commands <+: p'.commands := by
  unfold Scenario.advance at h
  split at h
  · cases h
    unfold Point.issue
    split
    · exact prefix_refl _
    · split
      · exact prefix_refl _
      · exact prefix_append _ _
  · cases h; exact prefix_refl _
  · cases h; exact prefix_refl _
  · cases h
  · cases h

/-- What only grows from a point to the next only grows. -/
theorem point_prefix {A : Type} {f : Point V → List A} (hf : ∀ {p p'}, s.advance p = some p' → f p <+: f p') {m : Nat}
    (h : n ≤ m) : f (s.point run n) <+: f (s.point run m) := by
  obtain ⟨k, rfl⟩ := Nat.exists_eq_add_of_le h
  clear h
  induction k with
  | zero => exact prefix_refl _
  | succ k ih =>
    refine ih.trans ?_
    show _ <+: f (s.point run (n + k + 1))
    cases ha : s.advance (s.point run (n + k)) with
    | none => rw [point_ended ha]
    | some p => exact point_succ ha ▸ hf ha

theorem point_replies_prefix {m : Nat} : n ≤ m → (s.point run n).replies <+: (s.point run m).replies :=
  point_prefix fun ha => by
    obtain ⟨reply, hr⟩ := advance_replies ha
    exact hr ▸ prefix_append _ _

theorem point_commands_initial {m : Nat} : n ≤ m → (s.point run n).commands <+: (s.point run m).commands :=
  point_prefix advance_commands

theorem point_settled (h : (Point.start run).Settled) : ∀ n, (s.point run n).Settled
  | 0 => h
  | n + 1 => by
    have ih := point_settled h n
    cases ha : s.advance (s.point run n) with
    | none => rw [point_ended ha]; exact ih
    | some p => rw [point_succ ha]; exact advance_settled ih ha

theorem LiveAt.advance {c : Command V} (h : LiveAt s run n c) :
    s.advance (s.point run n) = some ((s.point run n).issue s.runId (s.effects n) c) := by
  have hn : (s.point run n).replies.length = n := h.reaches
  unfold Scenario.advance
  rw [h.issued]
  simp only [hn]

end Points

/-! ## A drive follows its points -/

omit [JsValue V] in
/-- How far a drive has come: the entry, then two steps for each position. -/
def Drive.rank (d : Drive V) : Nat :=
  match d.phase with
  | .entry => 0
  | .executing _ _ => 2 * d.replies.length + 2
  | _ => 2 * d.replies.length + 1

omit [JsValue V] in
def Drive.isDone (d : Drive V) : Prop := ∃ status, d.phase = .done status

omit [JsValue V] in
def Drive.isExecuting (d : Drive V) : Prop := ∃ c pending, d.phase = .executing c pending

/-- A drive over `run` after the readings `ts` stands at position `n`. It has called the thunks of the
live positions before it, and of `n` when that is in flight, and recorded those that reported. -/
structure Follows (s : Scenario V) (run : WorkflowRun V) (ts : List (Int × Int)) (n : Nat) : Prop where
  at_ : At s run.output (s.drive run ts) (s.point run n)
  reaches : s.reaches run n
  progress : ts.length ≤ (s.drive run ts).rank ∨ (s.drive run ts).isDone
  calls_live : ∀ q ∈ s.calls run ts, ∃ c, LiveAt s run q c
  calls_all : ∀ q c, LiveAt s run q c → q < n ∨ q = n ∧ (s.drive run ts).isExecuting → q ∈ s.calls run ts
  records_iff : ∀ q, q ∈ s.records run ts ↔ q < n ∧ ∃ c, LiveAt s run q c ∧ ∃ r, c.report (s.effects q) = .ok r

section Runs

variable {s : Scenario V} {run : WorkflowRun V}

section

variable (ts : List (Int × Int)) (t : Int × Int)
include ts t

theorem drive_concat : s.drive run (ts ++ [t]) = s.step (s.drive run ts) t :=
  run_concat s.step _ ts t

theorem calls_concat : s.calls run (ts ++ [t]) = s.calls run ts ++ (s.called (s.drive run ts) t).toList :=
  observe_concat _ _ _ _ _

theorem records_concat : s.records run (ts ++ [t]) = s.records run ts ++ (s.recorded (s.drive run ts) t).toList :=
  observe_concat _ _ _ _ _

end

variable {d : Drive V}

theorem recorded_of_not_executing (h : ¬ d.isExecuting) (t : Int × Int) : s.recorded d t = none := by
  unfold Scenario.recorded
  split
  · rename_i c pending hp
    exact absurd ⟨c, pending, hp⟩ h
  · rfl

variable {ts : List (Int × Int)} {n : Nat} {t : Int × Int}

/-- A round to position `m`, by what it calls and records. -/
theorem Follows.concat (h : Follows s run ts n) {m : Nat}
    (hat : At s run.output (s.step (s.drive run ts) t) (s.point run m)) (hm : s.reaches run m)
    (hprog : (s.drive run ts).rank < (s.step (s.drive run ts) t).rank ∨ (s.step (s.drive run ts) t).isDone)
    (hcalled : ∀ q, s.called (s.drive run ts) t = some q → ∃ c, LiveAt s run q c)
    (hall : ∀ q c, LiveAt s run q c → q < m ∨ q = m ∧ (s.step (s.drive run ts) t).isExecuting →
      (q < n ∨ q = n ∧ (s.drive run ts).isExecuting) ∨ s.called (s.drive run ts) t = some q)
    (hrec : ∀ q, (q < n ∧ ∃ c, LiveAt s run q c ∧ ∃ r, c.report (s.effects q) = .ok r) ∨
      s.recorded (s.drive run ts) t = some q ↔ q < m ∧ ∃ c, LiveAt s run q c ∧ ∃ r, c.report (s.effects q) = .ok r) :
    Follows s run (ts ++ [t]) m := by
  constructor
  · rw [drive_concat]; exact hat
  · exact hm
  · rw [drive_concat, length_append, length_singleton]
    rcases hprog with hp | hp
    · rcases h.progress with hp' | ⟨status, hp'⟩
      · exact .inl (by omega)
      · refine .inr ⟨status, ?_⟩
        unfold Scenario.step Drive.next Drive.step
        rw [hp']
        exact hp'
    · exact .inr hp
  · rw [calls_concat]
    intro q hq
    rcases mem_append.1 hq with hq | hq
    · exact h.calls_live q hq
    · exact hcalled q (Option.mem_toList.1 hq)
  · rw [calls_concat, drive_concat]
    intro q c hl hq
    rcases hall q c hl hq with hq | hq
    · exact mem_append_left _ (h.calls_all q c hl hq)
    · exact mem_append_right _ (Option.mem_toList.2 hq)
  · intro q
    rw [records_concat, mem_append, Option.mem_toList, h.records_iff]
    exact hrec q

theorem Follows.stay (h : Follows s run ts n) (hat : At s run.output (s.step (s.drive run ts) t) (s.point run n))
    (hex : ¬ (s.drive run ts).isExecuting) (hex' : ¬ (s.step (s.drive run ts) t).isExecuting)
    (hcall : s.called (s.drive run ts) t = none)
    (hprog : (s.drive run ts).rank < (s.step (s.drive run ts) t).rank ∨ (s.step (s.drive run ts) t).isDone) :
    Follows s run (ts ++ [t]) n := by
  refine h.concat hat h.reaches hprog (by simp [hcall]) (fun q c _ hq => .inl ?_) (by simp [recorded_of_not_executing hex])
  rcases hq with hq | ⟨-, hq⟩
  · exact .inl hq
  · exact absurd hq hex'

theorem Follows.silent (h : Follows s run ts n) {p : Point V} (ha : s.advance (s.point run n) = some p)
    (hat : At s run.output (s.step (s.drive run ts) t) p)
    (hl : ∀ c, ¬ LiveAt s run n c) (hex : ¬ (s.drive run ts).isExecuting)
    (hex' : ¬ (s.step (s.drive run ts) t).isExecuting) (hcall : s.called (s.drive run ts) t = none)
    (hprog : (s.drive run ts).rank < (s.step (s.drive run ts) t).rank) : Follows s run (ts ++ [t]) (n + 1) := by
  have hbefore : ∀ q c, LiveAt s run q c → q < n + 1 → q < n := fun q c hlq hq => by
    have hne : q ≠ n := fun he => hl c (he ▸ hlq)
    omega
  refine h.concat (point_succ ha ▸ hat) (reaches_succ h.reaches ha) (.inl hprog) (by simp [hcall])
    (fun q c hlq hq => .inl (.inl ?_)) fun q => ?_
  · exact hbefore q c hlq (hq.resolve_right fun hq => hex' hq.2)
  · rw [recorded_of_not_executing hex]
    constructor
    · rintro (⟨hq, hr⟩ | hq)
      · exact ⟨by omega, hr⟩
      · cases hq
    · rintro ⟨hq, c, hlq, hr⟩
      exact .inl ⟨hbefore q c hlq hq, c, hlq, hr⟩

theorem Follows.call (h : Follows s run ts n) {c : Command V}
    (hl : LiveAt s run n c) (hat : At s run.output (s.step (s.drive run ts) t) (s.point run n))
    (hex : ¬ (s.drive run ts).isExecuting) (hcall : s.called (s.drive run ts) t = some n)
    (hprog : (s.drive run ts).rank < (s.step (s.drive run ts) t).rank) : Follows s run (ts ++ [t]) n := by
  refine h.concat hat h.reaches (.inl hprog) (fun q hq => ?_) (fun q c' _ hq => ?_) (by simp [recorded_of_not_executing hex])
  · cases hcall.symm.trans hq
    exact ⟨c, hl⟩
  · rcases hq with hq | ⟨rfl, -⟩
    · exact .inl (.inl hq)
    · exact .inr hcall

theorem Follows.return_ (h : Follows s run ts n) {c : Command V}
    (hl : LiveAt s run n c) (hat : At s run.output (s.step (s.drive run ts) t) ((s.point run n).issue s.runId (s.effects n) c))
    (hex : (s.drive run ts).isExecuting) (hex' : ¬ (s.step (s.drive run ts) t).isExecuting)
    (hcall : s.called (s.drive run ts) t = none)
    (hrec : s.recorded (s.drive run ts) t = (match c.report (s.effects n) with
      | .ok _ => some n
      | .error _ => none))
    (hprog : (s.drive run ts).rank < (s.step (s.drive run ts) t).rank) : Follows s run (ts ++ [t]) (n + 1) := by
  have ha := hl.advance
  refine h.concat (point_succ ha ▸ hat) (reaches_succ h.reaches ha) (.inl hprog) (by simp [hcall]) (fun q c' _ hq => .inl ?_) fun q => ?_
  · rcases hq with hq | ⟨-, hq⟩
    · exact (Nat.lt_succ_iff_lt_or_eq.1 hq).imp_right fun hq => ⟨hq, hex⟩
    · exact absurd hq hex'
  · rw [hrec]
    constructor
    · rintro (⟨hq, hr⟩ | hq)
      · exact ⟨by omega, hr⟩
      · cases hr : c.report (s.effects n) with
        | error thrown => rw [hr] at hq; cases hq
        | ok r =>
          rw [hr] at hq
          cases hq
          exact ⟨Nat.lt_succ_self n, c, hl, r, hr⟩
    · rintro ⟨hq, c', hlq, r, hr⟩
      rcases Nat.lt_succ_iff_lt_or_eq.1 hq with hq | rfl
      · exact .inl ⟨hq, c', hlq, r, hr⟩
      · have hc : Action.command c' = .command c := hlq.issued.symm.trans hl.issued
        cases hc
        rw [hr]
        exact .inr rfl

omit [JsValue V] in
theorem not_executing_of_phase {phase : Phase V} (h : d.phase = phase)
    (hp : ∀ c pending, phase ≠ .executing c pending := by exact fun _ _ h => by cases h) : ¬ d.isExecuting := by
  rintro ⟨c, pending, he⟩
  exact hp c pending (h.symm.trans he)

omit [JsValue V] in
theorem rank_of_running (h : d.phase = .running) : d.rank = 2 * d.replies.length + 1 := by
  unfold Drive.rank; rw [h]

omit [JsValue V] in
theorem rank_of_executing {c : Command V} {pending : Pending V} (h : d.phase = .executing c pending) : d.rank = 2 * d.replies.length + 2 := by
  unfold Drive.rank; rw [h]

theorem follows_step (h : Follows s run ts n) (t : Int × Int) : ∃ m, m ≤ n + 1 ∧ Follows s run (ts ++ [t]) m := by
  have hn : (s.point run n).replies.length = n := h.reaches
  have hlen : (s.drive run ts).replies.length = n := by rw [h.at_.replies, hn]
  cases h.at_ with
  | entry tr ph =>
    obtain ⟨tr', ph', st', hcall⟩ := step_entry t tr ph
    refine ⟨n, Nat.le_succ n, h.stay (.running tr' ph' st') (not_executing_of_phase ph) (not_executing_of_phase ph') hcall (.inl ?_)⟩
    have hrank : (s.drive run ts).rank = 0 := by unfold Drive.rank; rw [ph]
    rw [hrank, rank_of_running ph']
    exact Nat.succ_pos _
  | running tr ph st =>
    have hex := not_executing_of_phase ph
    cases ha : s.advance (s.point run n) with
    | none =>
      obtain ⟨hat, ⟨status, ph'⟩, hcall⟩ := step_ended t tr ph st ha
      exact ⟨n, Nat.le_succ n, h.stay hat hex (not_executing_of_phase ph') hcall (.inr ⟨status, ph'⟩)⟩
    | some p =>
      by_cases hl : ∃ c, LiveAt s run n c
      · obtain ⟨c, hl⟩ := hl
        obtain ⟨⟨pending, tr', ph', st', hp⟩, hcall⟩ := step_live t tr ph st hl.issued hl.live
        rw [hn] at hcall
        refine ⟨n, Nat.le_succ n, h.call hl (.executing c pending tr' ph' st' hl.issued hl.live hp) hex hcall ?_⟩
        rw [rank_of_running ph, rank_of_executing ph', tr'.replies, hn, hlen]
        omega
      · have hlive : ∀ c, s.fn.next s.input (s.point run n).replies = .command c → (s.point run n).commands[(s.point run n).cursor]? ≠ none :=
          fun c hc hg => hl ⟨c, ⟨h.reaches, hc, hg⟩⟩
        obtain ⟨hat, ph', hcall⟩ := step_silent t tr ph st ha hlive
        refine ⟨n + 1, le_rfl, h.silent ha hat (fun c hc => hl ⟨c, hc⟩) hex (not_executing_of_phase ph') hcall ?_⟩
        have hn' := reaches_succ h.reaches ha
        unfold Scenario.reaches at hn'
        rw [point_succ ha] at hn'
        rw [rank_of_running ph, rank_of_running ph', hat.replies, hn', hlen]
        omega
  | executing c pending tr ph st hc hl hp =>
    have hlive : LiveAt s run n c := ⟨h.reaches, hc, hl⟩
    obtain ⟨hat, ph', hrec, hcall⟩ := step_executing t tr ph st hc hl hp
    rw [hn] at hat hrec
    refine ⟨n + 1, le_rfl, h.return_ hlive hat ⟨c, pending, ph⟩ (not_executing_of_phase ph') hcall hrec ?_⟩
    have hn' := reaches_succ h.reaches hlive.advance
    unfold Scenario.reaches at hn'
    rw [point_succ hlive.advance] at hn'
    rw [rank_of_executing ph, rank_of_running ph', hat.replies, hn', hlen]
    omega
  | done status hh ph hr hs he =>
    have hstay : s.step (s.drive run ts) t = s.drive run ts := by
      unfold Scenario.step Drive.next Drive.step
      rw [ph]
    have hcall : s.called (s.drive run ts) t = none := by
      unfold Scenario.called Drive.calls
      rw [ph]
      split
      · rename_i h'; cases h'
      · rfl
    have hex := not_executing_of_phase ph
    refine ⟨n, Nat.le_succ n, h.stay (hstay.symm ▸ h.at_) hex (hstay.symm ▸ hex) hcall (.inr ⟨status, hstay.symm ▸ ph⟩)⟩

theorem follows_nil (hs : Holds s run (Point.start run)) : Follows s run [] 0 := by
  have hentry : (s.drive run []).phase = .entry := rfl
  refine ⟨.entry ⟨hs, rfl, rfl, rfl, rfl, rfl⟩ rfl, reaches_zero s run, .inl (Nat.zero_le _), ?_, ?_, ?_⟩
  · exact fun q hq => absurd hq not_mem_nil
  · rintro q c - (hq | ⟨-, hq⟩)
    · exact absurd hq (Nat.not_lt_zero q)
    · exact absurd hq (not_executing_of_phase hentry)
  · exact fun q => ⟨fun hq => absurd hq not_mem_nil, fun hq => absurd hq.1 (Nat.not_lt_zero q)⟩

theorem follows_drive (hs : Holds s run (Point.start run)) (ts : List (Int × Int)) : ∃ n, Follows s run ts n := by
  induction ts using List.reverseRec with
  | nil => exact ⟨0, follows_nil hs⟩
  | append_singleton ts t ih =>
    obtain ⟨n, h⟩ := ih
    obtain ⟨m, -, h'⟩ := follows_step h t
    exact ⟨m, h'⟩

omit [JsValue V] in
theorem holds_launched (s : Scenario V) : Holds s s.launched (Point.start s.launched) :=
  ⟨rfl, rfl, rfl, rfl, rfl, ⟨Nat.le_refl 0, fun _ hr => absurd hr not_mem_nil⟩⟩

omit [JsValue V] in
theorem Holds.again {p : Point V} (h : Holds s run p) : Holds s run (Point.start run) :=
  ⟨h.runId, h.input, rfl, by rw [h.nextSeq, ← h.commands]; rfl, rfl, ⟨Nat.zero_le _, fun r hr => h.settled.settled r (h.commands ▸ hr)⟩⟩

theorem Follows.length_ge {m : Nat} (h : Follows s run ts n) (hm : s.reaches run m) (hts : 2 * m + 1 ≤ ts.length) : m ≤ n := by
  have hn : (s.point run n).replies.length = n := h.reaches
  by_contra hlt
  have hsome := (reaches_of_succ (reaches_of_le hm (by omega : n + 1 ≤ m))).2
  have hrank : (s.drive run ts).rank ≤ 2 * n + 2 := by
    unfold Drive.rank
    rw [h.at_.replies, hn]
    split <;> omega
  rcases h.progress with hp | ⟨status, ph⟩
  · omega
  · cases h.at_ with
    | entry tr ph' => rw [ph] at ph'; cases ph'
    | running tr ph' => rw [ph] at ph'; cases ph'
    | executing c pending tr ph' => rw [ph] at ph'; cases ph'
    | done status' hh ph' hr hs he =>
      unfold Ends at he
      unfold Scenario.advance at hsome
      split at he <;> rename_i hact
      · rw [hact] at hsome; exact hsome rfl
      · rw [hact] at hsome; exact hsome rfl
      · rw [hact] at hsome; exact hsome rfl
      · exact he

theorem Follows.done {ts : List (Int × Int)} {n m : Nat} (h : Follows s run ts n) (hm : s.reaches run m)
    (hend : s.advance (s.point run m) = none) (hts : 2 * m + 2 ≤ ts.length) : n = m ∧ (s.drive run ts).isDone := by
  have hn : (s.point run n).replies.length = n := h.reaches
  have hle := h.length_ge hm (by omega)
  have heq : n = m := by
    by_contra hne
    have hm' := reaches_of_le h.reaches (by omega : m + 1 ≤ n)
    exact (reaches_of_succ hm').2 hend
  refine ⟨heq, ?_⟩
  rcases h.progress with hp | hp
  · exfalso
    cases h.at_ with
    | entry tr ph => unfold Drive.rank at hp; rw [ph] at hp; simp only at hp; omega
    | running tr ph => rw [rank_of_running ph, tr.replies, hn] at hp; omega
    | executing c pending tr ph st hc hl =>
      have := (show LiveAt s run n c from ⟨h.reaches, hc, hl⟩).advance
      rw [heq] at this
      rw [hend] at this
      cases this
    | done status hh ph hr =>
      unfold Drive.rank at hp
      rw [ph, hr, hn] at hp
      simp only at hp
      omega
  · exact hp

theorem exists_follows (hs : Holds s run (Point.start run)) (hn : s.reaches run n) : ∃ ts, Follows s run ts n := by
  have hstart : Follows s run [] 0 := follows_nil hs
  -- the first number of ticks with `n` replies has exactly `n`
  suffices h : ∀ k ts i, i ≤ n → Follows s run ts i → 2 * n + 1 ≤ ts.length + k → ∃ ts, Follows s run ts n from
    h (2 * n + 1) [] 0 (Nat.zero_le n) hstart (by omega)
  intro k
  induction k with
  | zero =>
    intro ts i hi h hk
    have := h.length_ge hn hk
    have he : i = n := by omega
    exact ⟨ts, he ▸ h⟩
  | succ k ih =>
    intro ts i hi h hk
    rcases Nat.lt_or_eq_of_le hi with hlt | rfl
    · obtain ⟨m, hm, h'⟩ := follows_step h (0, 0)
      exact ih (ts ++ [(0, 0)]) m (by omega) h' (by rw [length_append, length_singleton]; omega)
    · exact ⟨ts, h⟩

end Runs

end StreetJS.Workflow
