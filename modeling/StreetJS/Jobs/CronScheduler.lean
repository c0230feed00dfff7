/-
The cron scheduler (`CronScheduler` of `core/src/jobs/scheduler.ts`) with its timers, for every order of calls, timers
and ends of jobs. A delay of more than 2^31 - 1 ms is one of 1 ms.
-/
import Mathlib.Data.List.Nodup
import Mathlib.Data.List.Pairwise
import Mathlib.Logic.Function.Basic
import StreetJS.Jobs.CronTime
import StreetJS.Lib.OrderedMap
import StreetJS.Lib.Runs

namespace StreetJS.Jobs

open StreetJS.Lib List

structure CronEntry where
  fields : CronFields
  timer : Option Nat := none
  running : Bool := false

/-- An armed timer: the entry that it fires, the minute it was scheduled for, and when it is due. -/
structure CronTimer where
  id : Nat
  entry : Nat
  minute : Int
  due : Int

/-- A call of the function of an entry. -/
structure Invocation where
  entry : Nat
  minute : Int
  at' : Int

/-- The scheduler, with every entry ever registered, the armed timers and the calls so far. -/
structure CronScheduler where
  clock : Int
  jobs : OrderedMap String Nat := []
  started : Bool := false
  entries : Nat → Option CronEntry := fun _ => none
  nextEntry : Nat := 0
  armed : List CronTimer := []
  nextTimer : Nat := 0
  invoked : List Invocation := []

/-- What `setTimeout` makes of a delay. -/
def timeout (delay : Int) : Int := if delay < 1 ∨ 2 ^ 31 - 1 < delay then 1 else delay

inductive CronEvent where
  | register (fields : CronFields) (name : String)
  | start (pauses : Nat → Nat)
  | stop
  | tick (ms : Nat)
  | fire (id : Nat) (pause : Nat)
  | settle (entry : Nat) (pause : Nat)

namespace CronScheduler

variable (offset : Int) (s : CronScheduler)

def setEntry (e : Nat) (entry : CronEntry) : CronScheduler :=
  { s with entries := Function.update s.entries e (some entry) }

/-- `_schedule`; between its two readings of the clock some time passes. -/
def schedule (e : Nat) (entry : CronEntry) (pause : Nat) : CronScheduler :=
  if ¬s.started then s
  else
    match nextFireTime entry.fields offset s.clock with
    | none => s
    | some next =>
      let now := s.clock + pause
      { s.setEntry e { entry with timer := some s.nextTimer } with
        clock := now
        armed := s.armed ++ [{ id := s.nextTimer, entry := e, minute := next, due := now + timeout (max 0 (next - now)) }]
        nextTimer := s.nextTimer + 1 }

def register (fields : CronFields) (name : String) : CronScheduler :=
  { s.setEntry s.nextEntry { fields } with
    jobs := s.jobs.set name s.nextEntry
    nextEntry := s.nextEntry + 1 }

/-- The entries are scheduled in turn. -/
def scheduleAll (pauses : Nat → Nat) : List Nat → CronScheduler → CronScheduler
  | [], s => s
  | e :: es, s =>
    match s.entries e with
    | none => scheduleAll pauses es s
    | some entry => scheduleAll pauses es (s.schedule offset e entry (pauses e))

def start (pauses : Nat → Nat) : CronScheduler :=
  scheduleAll offset pauses (s.jobs.map Prod.snd) { s with started := true }

/-- `clearTimeout` for the timer of each entry. -/
def clearAll : List Nat → CronScheduler → CronScheduler
  | [], s => s
  | e :: es, s =>
    match s.entries e with
    | none => clearAll es s
    | some entry =>
      match entry.timer with
      | none => clearAll es s
      | some id =>
        clearAll es { s.setEntry e { entry with timer := none } with armed := s.armed.filter fun t => t.id ≠ id }

def stop : CronScheduler := clearAll (s.jobs.map Prod.snd) { s with started := false }

/-- `_fire`, up to the call of the function. -/
def fireEntry (t : CronTimer) (pause : Nat) : CronScheduler :=
  if ¬s.started then s
  else
    match s.entries t.entry with
    | none => s
    | some entry =>
      if entry.running then s.schedule offset t.entry entry pause
      else
        { s.setEntry t.entry { entry with running := true } with
          invoked := s.invoked ++ [{ entry := t.entry, minute := t.minute, at' := s.clock }] }

/-- A timer that is due fires once. -/
def fire (id pause : Nat) : CronScheduler :=
  match s.armed.find? fun t => t.id = id ∧ t.due ≤ s.clock with
  | none => s
  | some t => { s with armed := s.armed.filter fun t => t.id ≠ id }.fireEntry offset t pause

/-- The rest of `_fire`, when the function has ended in any way. -/
def settle (e pause : Nat) : CronScheduler :=
  match s.entries e with
  | none => s
  | some entry =>
    if entry.running then
      (s.setEntry e { entry with running := false }).schedule offset e { entry with running := false } pause
    else s

def step : CronEvent → CronScheduler
  | .register fields name => s.register fields name
  | .start pauses => s.start offset pauses
  | .stop => s.stop
  | .tick ms => { s with clock := s.clock + ms }
  | .fire id pause => s.fire offset id pause
  | .settle e pause => s.settle offset e pause

end CronScheduler

/-- No call is early, and none is made twice for a minute. -/
structure OnTime (s : CronScheduler) : Prop where
  due : ∀ x ∈ s.invoked, x.minute ≤ x.at'
  once : (s.invoked.map fun x => (x.entry, x.minute)).Nodup

/-- No timer is armed for the entry, and its function does not run. -/
def CronScheduler.Idle (s : CronScheduler) (e : Nat) : Prop :=
  (∀ t ∈ s.armed, t.entry ≠ e) ∧ ∀ entry, s.entries e = some entry → entry.running = false

/-- The next time is less than 2^31 ms ahead. -/
def CronScheduler.Near (offset : Int) (s : CronScheduler) (e pause : Nat) : Prop :=
  ∀ entry next, s.entries e = some entry → nextFireTime entry.fields offset s.clock = some next → next - (s.clock + pause) ≤ 2 ^ 31 - 1

/-- Each entry is idle and its next time near when it is its turn. -/
def CronScheduler.Ready (offset : Int) (pauses : Nat → Nat) : List Nat → CronScheduler → Prop
  | [], _ => True
  | e :: es, s =>
    match s.entries e with
    | none => Ready offset pauses es s
    | some entry =>
      (s.Idle e ∧ s.Near offset e (pauses e)) ∧ Ready offset pauses es (s.schedule offset e entry (pauses e))

/-- `start` is called when every registered entry is idle, and what is scheduled is near. -/
def Heeds (offset : Int) (s : CronScheduler) : CronEvent → Prop
  | .start pauses => CronScheduler.Ready offset pauses (s.jobs.map Prod.snd) { s with started := true }
  | .settle e pause => s.Near offset e pause
  | _ => True

/-! ## The invariant -/

namespace CronScheduler

/-- An entry has one timer or a running function, never two of these, and its minutes go up. -/
structure Sound (s : CronScheduler) : Prop where
  apart : s.armed.Pairwise fun t t' => t.entry ≠ t'.entry
  resting : ∀ t ∈ s.armed, ∀ entry, s.entries t.entry = some entry → entry.running = false
  due : ∀ t ∈ s.armed, t.minute ≤ t.due
  later : ∀ t ∈ s.armed, ∀ x ∈ s.invoked, x.entry = t.entry → x.minute < t.minute
  past : ∀ x ∈ s.invoked, x.minute ≤ x.at' ∧ x.at' ≤ s.clock
  once : (s.invoked.map fun x => (x.entry, x.minute)).Nodup

variable {offset : Int} {s : CronScheduler} {e pause : Nat} {entry : CronEntry}

theorem le_timeout {delay : Int} (h : delay ≤ 2 ^ 31 - 1) : delay ≤ timeout delay := by
  unfold timeout
  split <;> omega

theorem Sound.disarm (h : s.Sound) (p : CronTimer → Bool) : Sound { s with armed := s.armed.filter p } :=
  { h with
    apart := h.apart.filter _
    resting := fun t ht => h.resting t (mem_of_mem_filter ht)
    due := fun t ht => h.due t (mem_of_mem_filter ht)
    later := fun t ht => h.later t (mem_of_mem_filter ht) }

theorem Sound.setEntry (h : s.Sound) (hrest : ∀ t ∈ s.armed, t.entry = e → entry.running = false) : Sound (s.setEntry e entry) := by
  refine { h with resting := fun t ht entry' hentry => ?_ }
  have hentry : Function.update s.entries e (some entry) t.entry = some entry' := hentry
  rcases eq_or_ne t.entry e with heq | hne
  · rw [heq, Function.update_self] at hentry
    exact Option.some.inj hentry ▸ hrest t ht heq
  · rw [Function.update_of_ne hne] at hentry
    exact h.resting t ht entry' hentry

theorem Sound.schedule (h : s.Sound) (hidle : ∀ t ∈ s.armed, t.entry ≠ e) (hrest : entry.running = false)
    (hnear : ∀ next, nextFireTime entry.fields offset s.clock = some next → next - (s.clock + pause) ≤ 2 ^ 31 - 1) :
    Sound (s.schedule offset e entry pause) := by
  unfold CronScheduler.schedule
  split
  · exact h
  cases hnext : nextFireTime entry.fields offset s.clock with
  | none => exact h
  | some next =>
    have hlater : s.clock < next := ((nextFireTime_eq_some_iff _ _ _ _).1 hnext).1.1.2
    have h' : Sound (s.setEntry e { entry with timer := some s.nextTimer }) := h.setEntry fun _ _ _ => hrest
    -- the new timer comes behind the timers of the other entries
    have hnew : ∀ {P : CronTimer → Prop} {t' : CronTimer}, (∀ t ∈ s.armed, P t) → P t' → ∀ t ∈ s.armed ++ [t'], P t := by
      intro P t' hold ht' t ht
      rcases mem_append.1 ht with ht | ht
      · exact hold t ht
      · exact mem_singleton.1 ht ▸ ht'
    refine ⟨pairwise_append.2 ⟨h.apart, pairwise_singleton _ _, fun t ht t' ht' => ?_⟩, hnew h'.resting ?_,
      hnew h.due ?_, hnew h.later ?_, fun x hx => ⟨(h.past x hx).1, ?_⟩, h.once⟩
    · rw [mem_singleton.1 ht']
      exact hidle t ht
    · intro entry' hentry
      have hentry : Function.update s.entries e _ e = some entry' := hentry
      rw [Function.update_self] at hentry
      exact Option.some.inj hentry ▸ hrest
    · have hdelay := le_timeout (max_le (c := 2 ^ 31 - 1) (a := 0) (by omega) (hnear next hnext))
      show next ≤ s.clock + pause + timeout (max 0 (next - (s.clock + pause)))
      omega
    · intro x hx _
      have hpast := h.past x hx
      show x.minute < next
      omega
    · exact Int.le_trans (h.past x hx).2 (Int.le_add_of_nonneg_right (Int.natCast_nonneg pause))

theorem Sound.scheduleAll (pauses : Nat → Nat) : ∀ (es : List Nat) {s : CronScheduler}, s.Sound → Ready offset pauses es s →
    Sound (scheduleAll offset pauses es s)
  | [], _, h, _ => h
  | e :: es, s, h, hready => by
    unfold CronScheduler.scheduleAll
    unfold Ready at hready
    cases hentry : s.entries e with
    | none =>
      rw [hentry] at hready
      exact Sound.scheduleAll pauses es h hready
    | some entry =>
      rw [hentry] at hready
      obtain ⟨⟨hidle, hnear⟩, hready⟩ := hready
      exact Sound.scheduleAll pauses es (h.schedule hidle.1 (hidle.2 entry hentry) fun next => hnear entry next hentry) hready

theorem Sound.clearAll : ∀ (es : List Nat) {s : CronScheduler}, s.Sound → Sound (clearAll es s)
  | [], _, h => h
  | e :: es, s, h => by
    unfold CronScheduler.clearAll
    cases hentry : s.entries e with
    | none => exact Sound.clearAll es h
    | some entry =>
      dsimp only
      cases htimer : entry.timer with
      | none => exact Sound.clearAll es h
      | some id =>
        have hset : Sound (s.setEntry e { entry with timer := none }) :=
          h.setEntry fun t ht heq => h.resting t ht entry (heq ▸ hentry)
        exact Sound.clearAll es (hset.disarm _)

theorem Sound.fire (h : s.Sound) (id : Nat) : Sound (s.fire offset id pause) := by
  unfold CronScheduler.fire
  cases hfind : s.armed.find? fun t => t.id = id ∧ t.due ≤ s.clock with
  | none => exact h
  | some t =>
    have ht := mem_of_find?_eq_some hfind
    have hmatch := find?_some hfind
    obtain ⟨rfl, hdue⟩ := of_decide_eq_true hmatch
    have h' := h.disarm fun t' => t'.id ≠ t.id
    -- the timers that stay are of other entries
    have hothers : ∀ t' ∈ s.armed.filter fun t' => t'.id ≠ t.id, t'.entry ≠ t.entry := by
      intro t' ht'
      obtain ⟨hmem, hid⟩ := mem_filter.1 ht'
      have hsymm : Std.Symm fun u u' : CronTimer => u.entry ≠ u'.entry := ⟨fun _ _ => Ne.symm⟩
      exact h.apart.forall hmem ht fun heq => of_decide_eq_true hid (heq ▸ rfl)
    dsimp only
    unfold fireEntry
    split
    · exact h'
    cases hentry : s.entries t.entry with
    | none => exact h'
    | some entry =>
      dsimp only
      rw [h.resting t ht entry hentry, if_neg Bool.false_ne_true]
      refine { h'.setEntry fun t' ht' heq => absurd heq (hothers t' ht') with later := ?_, past := ?_, once := ?_ }
      · intro t' ht' x hx heq
        rcases mem_append.1 hx with hx | hx
        · exact h'.later t' ht' x hx heq
        · rw [mem_singleton.1 hx] at heq
          exact absurd heq.symm (hothers t' ht')
      · intro x hx
        rcases mem_append.1 hx with hx | hx
        · exact h.past x hx
        · rw [mem_singleton.1 hx]
          exact ⟨Int.le_trans (h.due t ht) hdue, Int.le_refl _⟩
      · rw [map_append, nodup_append]
        refine ⟨h.once, nodup_singleton _, ?_⟩
        rintro _ hpair _ hnew rfl
        obtain ⟨x, hx, hpair⟩ := mem_map.1 hpair
        obtain ⟨hentry, hminute⟩ := Prod.mk.inj (hpair.trans (mem_singleton.1 hnew))
        exact absurd (h.later t ht x hx hentry) (Int.not_lt.2 (Int.le_of_eq hminute.symm))

theorem Sound.settle (h : s.Sound) (hnear : s.Near offset e pause) : Sound (s.settle offset e pause) := by
  unfold CronScheduler.settle
  cases hentry : s.entries e with
  | none => exact h
  | some entry =>
    dsimp only
    split
    · next hrunning =>
      -- a running entry has no timer
      have hidle : ∀ t ∈ s.armed, t.entry ≠ e := fun t ht heq =>
        Bool.noConfusion ((h.resting t ht entry (heq ▸ hentry)).symm.trans hrunning)
      have hset : Sound (s.setEntry e { entry with running := false }) := h.setEntry fun _ _ _ => rfl
      exact hset.schedule hidle rfl fun next => hnear entry next hentry
    · exact h

theorem Sound.step (h : s.Sound) {ev : CronEvent} (hheeds : Heeds offset s ev) : Sound (s.step offset ev) := by
  cases ev with
  | register fields name => exact { h.setEntry (e := s.nextEntry) fun _ _ _ => rfl with }
  | start pauses => exact Sound.scheduleAll pauses _ { h with } hheeds
  | stop => exact Sound.clearAll _ { h with }
  | tick ms =>
    exact { h with past := fun x hx => ⟨(h.past x hx).1, Int.le_trans (h.past x hx).2 (Int.le_add_of_nonneg_right (by omega))⟩ }
  | fire id pause => exact h.fire id
  | settle e pause => exact h.settle hheeds

end CronScheduler

/-! ## Runs -/

/-- **Along every run that starts idle entries only, and only with near times**, no call is early and none is made
twice for a minute. -/
theorem onTime_of_heeding (offset clock : Int) (events : List CronEvent)
    (h : Guarded (CronScheduler.step offset) (Heeds offset) { clock } events) (n : Nat) :
    OnTime (run (CronScheduler.step offset) { clock } (events.take n)) := by
  have hsound := take_invariant_of_guarded (P := CronScheduler.Sound) (CronScheduler.step offset)
    (fun s ev h hheeds => h.step hheeds) h ⟨.nil, nofun, nofun, nofun, nofun, nodup_nil⟩ n
  exact ⟨fun x hx => (hsound.past x hx).1, hsound.once⟩

/-- `1 0 1 m *`: one minute after midnight on the first day of a month. -/
def firstOf (m : ℚ) : CronFields where
  minute := [1]
  hour := [0]
  day := [1]
  month := [m]
  weekday := [0, 1, 2, 3, 4, 5, 6, 7]
  increasing := pairwise_singleton _ _
  bounds m hm := by
    cases mem_singleton.1 hm
    constructor <;> norm_num

theorem search_round {f : CronFields} {limit d : Int} (hlt : d < limit) : f.search limit d = (f.round d).elim (f.search limit) some := by
  rw [CronFields.search, if_pos hlt]
  split <;> next hround => rw [hround]; rfl

theorem nextFireTime_zero {f : CronFields} {t : Int} (h : f.search 126144000000 60000 = some t) : nextFireTime f 0 0 = some t :=
  (congrArg (Option.map (· - 0)) h).trans (congrArg some (Int.sub_zero t))

theorem onTime_of_heeding_january : OnTime (run (CronScheduler.step 0) { clock := 0 }
    ([.register (firstOf 1) "a", .start fun _ => 0, .tick 60000, .fire 0 0].take 4)) := by
  have hnext : nextFireTime (firstOf 1) 0 0 = some 60000 := by
    refine nextFireTime_zero ?_
    rw [search_round (by decide), show (firstOf 1).round 60000 = .inr 60000 by decide +kernel]
    rfl
  have hstart : CronScheduler.Ready 0 (fun _ => 0) [0] { CronScheduler.register { clock := 0 } (firstOf 1) "a" with
      started := true } := by
    refine ⟨⟨⟨nofun, ?_⟩, ?_⟩, trivial⟩
    · intro entry hentry
      cases hentry
      rfl
    · intro entry next hentry heq
      cases hentry
      cases hnext.symm.trans heq
      decide
  exact onTime_of_heeding 0 0 [.register (firstOf 1) "a", .start fun _ => 0, .tick 60000, .fire 0 0]
    ⟨trivial, hstart, trivial, trivial, trivial⟩ 4

/-- A job for March that is started in January runs after a millisecond. -/
theorem onTime_counterexample : ¬ OnTime (run (CronScheduler.step 0) { clock := 0 }
    [.register (firstOf 3) "a", .start fun _ => 0, .tick 1, .fire 0 0]) := by
  intro h
  have hnext : nextFireTime (firstOf 3) 0 0 = some 5097660000 := by
    refine nextFireTime_zero ?_
    rw [search_round (by decide), show (firstOf 3).round 60000 = .inl 2678400000 by decide +kernel, Sum.elim_inl,
      search_round (by decide), show (firstOf 3).round 2678400000 = .inl 5097600000 by decide +kernel, Sum.elim_inl,
      search_round (by decide), show (firstOf 3).round 5097600000 = .inr 5097660000 by decide +kernel]
    rfl
  have hinvoked : (run (CronScheduler.step 0) { clock := 0 }
      [.register (firstOf 3) "a", .start fun _ => 0, .tick 1, .fire 0 0]).invoked = [⟨0, 5097660000, 1⟩] := by
    simp [CronScheduler.step, CronScheduler.register, CronScheduler.start, CronScheduler.scheduleAll,
      CronScheduler.schedule, CronScheduler.setEntry, CronScheduler.fire, CronScheduler.fireEntry, OrderedMap.set, hnext,
      timeout]
  exact absurd (h.due _ (hinvoked ▸ mem_singleton_self _)) (by decide)

end StreetJS.Jobs
