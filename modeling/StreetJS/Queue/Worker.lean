/-
The reservation loop of a worker (`queue/src/worker.ts`: `start`, `stop`, `scheduleTick`, `pump`) for every
interleaving of its passes, wake-ups, poll ticks and jobs: how many jobs execute at once, and what a resolved
`stop` leaves. What an execution asks of the driver is the subject of `Queue.Settlement`; here it is
checked for its rate limit, runs its handler, and settles.
-/
import StreetJS.Lib.Runs
import Mathlib.Data.List.Nodup

namespace StreetJS.Queue

open StreetJS.Lib List

/-! ## The worker -/

/-- The options that the loop reads, and whether the facade hands it a promise of readiness. -/
structure WorkerOptions where
  concurrency : Nat := 1
  stopWhenEmpty : Bool := false
  ready : Bool := true

/-- Where the pass of the pump is, if there is one. -/
inductive Pumping where
  | idle
  | awaitingReady
  | reserving
  deriving DecidableEq

/-- How far an execution is: before its handler is called, in it, or after it. -/
inductive Stage where
  | checking
  | handling
  | settling
  deriving DecidableEq

/-- A call of `stop` that has not settled: the executions it waits for, and whether `start` has not been
called since. -/
structure StopCall where
  waits : List Nat
  live : Bool := true
  deriving DecidableEq

/-- A worker, the microtasks that are due, its executions, and its calls of `stop`. -/
structure Worker where
  running : Bool := false
  pumping : Pumping := .idle
  readyChecked : Bool := false
  /-- Passes that are queued as microtasks. -/
  scheduled : Nat := 0
  inFlight : Nat := 0
  inFlightPromises : List Nat := []
  nextExecution : Nat := 0
  stage : Nat → Stage := fun _ => .checking
  /-- Executions that have timed out and whose handler has not settled. -/
  loose : List Nat := []
  stops : List StopCall := []
  /-- A call of `stop` has resolved, and `start` has not been called since that call. -/
  drained : Bool := false

namespace Worker

def scheduleTick (w : Worker) : Worker := if w.running then { w with scheduled := w.scheduled + 1 } else w

def start (w : Worker) : Worker :=
  if w.running then w
  else scheduleTick { w with
    running := true
    stops := w.stops.map fun c => { c with live := false }
    drained := false }

/-- `stop` up to its await. -/
def stop (w : Worker) : Worker :=
  { w with running := false, stops := w.stops ++ [{ waits := w.inFlightPromises }] }

section

variable (opts : WorkerOptions)

/-- The head of the loop: another reservation, or the `finally`. -/
def loop (w : Worker) : Worker :=
  { w with pumping := if w.running ∧ w.inFlight < opts.concurrency then .reserving else .idle }

/-- `pump` up to its first await. -/
def pump (w : Worker) : Worker :=
  if w.pumping ≠ .idle ∨ w.running = false then w
  else if w.readyChecked = false ∧ opts.ready then { w with pumping := .awaitingReady }
  else loop opts { w with readyChecked := true }

/-- A queued pass begins. -/
def tick (w : Worker) : Worker :=
  if w.scheduled = 0 then w else pump opts { w with scheduled := w.scheduled - 1 }

/-- The driver is ready. -/
def readied (w : Worker) : Worker :=
  if w.pumping = .awaitingReady then
    if w.running then loop opts { w with readyChecked := true }
    else { w with readyChecked := true, pumping := .idle }
  else w

/-- The driver has failed to initialize. -/
def readyFailed (w : Worker) : Worker :=
  if w.pumping = .awaitingReady then { w with running := false, pumping := .idle } else w

/-- `reserve` has returned a reservation: its execution begins. -/
def reserved (w : Worker) : Worker :=
  if w.pumping = .reserving then
    loop opts { w with
      inFlight := w.inFlight + 1
      inFlightPromises := w.inFlightPromises ++ [w.nextExecution]
      nextExecution := w.nextExecution + 1
      stage := fun id => if id = w.nextExecution then .checking else w.stage id }
  else w

/-- `reserve` has returned `null`. -/
def nothingReady (w : Worker) : Worker :=
  if w.pumping = .reserving then
    { (if opts.stopWhenEmpty ∧ w.inFlight = 0 then w.stop else w) with pumping := .idle }
  else w

/-- `reserve` has thrown. -/
def reserveFailed (w : Worker) : Worker := if w.pumping = .reserving then { w with pumping := .idle } else w

end

/-- An execution goes on to its next stage. -/
def advance (w : Worker) (id : Nat) (before after : Stage) : Worker :=
  if id ∈ w.inFlightPromises ∧ w.stage id = before then
    { w with stage := fun i => if i = id then after else w.stage i }
  else w

/-- The timer of an attempt fires in its handler, which goes on. -/
def timeout (w : Worker) (id : Nat) : Worker :=
  if id ∈ w.inFlightPromises ∧ w.stage id = .handling then
    { w.advance id .handling .settling with loose := w.loose ++ [id] }
  else w

/-- An execution settles: its slot is freed, and the calls of `stop` that wait for it go on or reject. -/
def settle (w : Worker) (id : Nat) (resolved : Bool) : Worker :=
  if id ∈ w.inFlightPromises ∧ w.stage id ≠ .handling then
    scheduleTick { w with
      inFlight := w.inFlight - 1
      inFlightPromises := w.inFlightPromises.erase id
      stops :=
        if resolved then w.stops.map fun c => { c with waits := c.waits.erase id }
        else w.stops.filter fun c => id ∉ c.waits }
  else w

/-- A call of `stop` that waits for nothing more resolves. -/
def stopped (w : Worker) (c : StopCall) : Worker :=
  if c ∈ w.stops ∧ c.waits = [] then { w with stops := w.stops.erase c, drained := w.drained || c.live } else w

end Worker

/-- The steps of a worker, in any order. -/
inductive WorkerEvent where
  | start
  | stop
  /-- A poll tick, or a wake-up of the driver. -/
  | wake
  | tick
  | readied
  | readyFailed
  | reserved
  | nothingReady
  | reserveFailed
  /-- The job is admitted and its pipeline called, or it is deferred or has no handler. -/
  | admitted (id : Nat)
  | turnedAway (id : Nat)
  | handled (id : Nat)
  | timeout (id : Nat)
  | looseHandled (id : Nat)
  | settle (id : Nat) (resolved : Bool)
  | stopped (c : StopCall)

def Worker.step (opts : WorkerOptions) (w : Worker) : WorkerEvent → Worker
  | .start => w.start
  | .stop => w.stop
  | .wake => w.scheduleTick
  | .tick => w.tick opts
  | .readied => w.readied opts
  | .readyFailed => w.readyFailed
  | .reserved => w.reserved opts
  | .nothingReady => w.nothingReady opts
  | .reserveFailed => w.reserveFailed
  | .admitted id => w.advance id .checking .handling
  | .turnedAway id => w.advance id .checking .settling
  | .handled id => w.advance id .handling .settling
  | .timeout id => w.timeout id
  | .looseHandled id => { w with loose := w.loose.erase id }
  | .settle id resolved => w.settle id resolved
  | .stopped c => w.stopped c

/-! ## What is promised -/

/-- The handlers that run. -/
def Worker.handlers (w : Worker) : List Nat := w.inFlightPromises.filter (fun id => w.stage id = .handling) ++ w.loose

/-- No more than so many jobs execute, and nothing executes after `stop`. -/
structure Bounds (opts : WorkerOptions) (w : Worker) : Prop where
  executing : w.inFlightPromises.length ≤ opts.concurrency
  handlers : w.handlers.length ≤ opts.concurrency
  drained : w.drained = true → w.inFlightPromises = [] ∧ w.handlers = []

/-- A reservation comes back while the worker runs, and no timer fires in a handler. -/
def Heeded (w : Worker) : WorkerEvent → Prop
  | .reserved => w.pumping = .reserving → w.running = true
  | .timeout id => ¬(id ∈ w.inFlightPromises ∧ w.stage id = .handling)
  | _ => True

/-! ## The invariant -/

structure Worker.Sound (opts : WorkerOptions) (w : Worker) : Prop where
  count : w.inFlight = w.inFlightPromises.length
  nodup : w.inFlightPromises.Nodup
  fresh : ∀ id ∈ w.inFlightPromises, id < w.nextExecution
  bound : w.inFlight ≤ opts.concurrency
  /-- A slot is free while a reservation is awaited. -/
  room : w.pumping = .reserving → w.inFlight < opts.concurrency
  loose : w.loose = []
  /-- Without `start`, a call of `stop` waits for all that executes. -/
  stops : ∀ c ∈ w.stops, c.live = true → w.running = false ∧ ∀ id ∈ w.inFlightPromises, id ∈ c.waits
  drained : w.drained = true → w.running = false ∧ w.inFlightPromises = []

variable {opts : WorkerOptions} {w : Worker}

theorem Worker.Sound.initial : ({} : Worker).Sound opts where
  count := rfl
  nodup := nodup_nil
  fresh := by simp
  bound := Nat.zero_le _
  room := by simp
  loose := rfl
  stops := by simp
  drained := by simp

theorem Worker.Sound.bounds (h : w.Sound opts) : Bounds opts w where
  executing := h.count ▸ h.bound
  handlers := by
    have hlength := length_filter_le (fun id => decide (w.stage id = .handling)) w.inFlightPromises
    have hbound := h.bound
    rw [h.count] at hbound
    rw [Worker.handlers, h.loose, append_nil]
    omega
  drained hd := by
    obtain ⟨-, hnone⟩ := h.drained hd
    refine ⟨hnone, ?_⟩
    rw [Worker.handlers, h.loose, hnone]
    rfl

theorem sound_scheduleTick (h : w.Sound opts) : w.scheduleTick.Sound opts := by
  unfold Worker.scheduleTick
  split
  · exact { h with }
  · exact h

theorem Worker.Sound.idle (h : w.Sound opts) : ({ w with pumping := .idle } : Worker).Sound opts :=
  { h with room := nofun }

theorem sound_loop (h : ({ w with pumping := .idle } : Worker).Sound opts) : (w.loop opts).Sound opts := by
  refine { h with room := fun hp => ?_ }
  change (if w.running ∧ w.inFlight < opts.concurrency then Pumping.reserving else .idle) = .reserving at hp
  split at hp
  · rename_i hroom
    exact hroom.2
  · cases hp

section

variable (h : w.Sound opts)
include h

theorem sound_start : w.start.Sound opts := by
  unfold Worker.start
  split
  · exact h
  · apply sound_scheduleTick
    refine { h with stops := ?_, drained := fun hd => by cases hd }
    intro c hc hlive
    obtain ⟨c, -, rfl⟩ := mem_map.1 hc
    cases hlive

theorem sound_stop : w.stop.Sound opts := by
  refine { h with stops := ?_, drained := fun hd => ⟨rfl, (h.drained hd).2⟩ }
  intro c hc hlive
  refine ⟨rfl, ?_⟩
  rcases mem_append.1 hc with hold | hnew
  · exact (h.stops c hold hlive).2
  · rw [mem_singleton.1 hnew]
    exact fun _ hid => hid

theorem sound_tick : (w.tick opts).Sound opts := by
  unfold Worker.tick Worker.pump
  split
  · exact h
  · split
    · exact { h with }
    · split
      · exact { h with room := nofun }
      · exact sound_loop ({ h with room := nofun })

theorem sound_readied : (w.readied opts).Sound opts := by
  unfold Worker.readied
  split
  · split
    · exact sound_loop ({ h with room := nofun })
    · exact { h with room := nofun }
  · exact h

theorem sound_readyFailed : w.readyFailed.Sound opts := by
  unfold Worker.readyFailed
  split
  · refine { h.idle with stops := fun c hc hlive => ?_, drained := fun hd => ?_ }
    · exact ⟨rfl, (h.stops c hc hlive).2⟩
    · exact ⟨rfl, (h.drained hd).2⟩
  · exact h

/-- An execution begins in the slot that was free, and no call of `stop` is live. -/
theorem sound_reserved (hrunning : w.pumping = .reserving → w.running = true) : (w.reserved opts).Sound opts := by
  unfold Worker.reserved
  split
  · rename_i hp
    have hroom := h.room hp
    apply sound_loop
    constructor
    case count =>
      rw [length_append, h.count]
      rfl
    case nodup =>
      refine nodup_append.2 ⟨h.nodup, nodup_singleton _, ?_⟩
      rintro id hid x hx rfl
      have hlt := h.fresh id hid
      rw [mem_singleton.1 hx] at hlt
      exact Nat.lt_irrefl _ hlt
    case fresh =>
      intro id hid
      rcases mem_append.1 hid with hold | hnew
      · exact Nat.lt_succ_of_lt (h.fresh id hold)
      · rw [mem_singleton.1 hnew]
        exact Nat.lt_succ_self _
    case bound => exact hroom
    case room =>
      intro hidle
      cases hidle
    case loose => exact h.loose
    case stops =>
      intro c hc hlive
      have hstopped := (h.stops c hc hlive).1
      rw [hrunning hp] at hstopped
      cases hstopped
    case drained =>
      intro hd
      have hstopped := (h.drained hd).1
      rw [hrunning hp] at hstopped
      cases hstopped
  · exact h

theorem sound_nothingReady : (w.nothingReady opts).Sound opts := by
  unfold Worker.nothingReady
  split
  · split
    · exact (sound_stop h).idle
    · exact h.idle
  · exact h

theorem sound_reserveFailed : w.reserveFailed.Sound opts := by
  unfold Worker.reserveFailed
  split
  · exact h.idle
  · exact h

theorem sound_advance (id : Nat) (before after : Stage) : (w.advance id before after).Sound opts := by
  unfold Worker.advance
  split
  · exact { h with }
  · exact h

/-- The slot of a settled execution is free, and the calls of `stop` that are left wait for the others. -/
theorem sound_settle (id : Nat) (resolved : Bool) : (w.settle id resolved).Sound opts := by
  unfold Worker.settle
  split
  · rename_i hid
    apply sound_scheduleTick
    have hlength := length_erase_of_mem hid.1
    have hcount := h.count
    have hbound := h.bound
    constructor
    case count =>
      show w.inFlight - 1 = (w.inFlightPromises.erase id).length
      omega
    case nodup => exact h.nodup.erase id
    case fresh => exact fun x hx => h.fresh x (mem_of_mem_erase hx)
    case bound =>
      show w.inFlight - 1 ≤ opts.concurrency
      omega
    case room =>
      intro hp
      have hroom := h.room hp
      show w.inFlight - 1 < opts.concurrency
      omega
    case loose => exact h.loose
    case stops =>
      intro c hc hlive
      cases resolved with
      | true =>
        obtain ⟨c, hold, rfl⟩ := mem_map.1 hc
        obtain ⟨hstopped, hwaits⟩ := h.stops c hold hlive
        refine ⟨hstopped, fun x hx => ?_⟩
        obtain ⟨hne, hx⟩ := h.nodup.mem_erase_iff.1 hx
        exact (mem_erase_of_ne hne).2 (hwaits x hx)
      | false =>
        obtain ⟨hstopped, hwaits⟩ := h.stops c (mem_filter.1 hc).1 hlive
        exact ⟨hstopped, fun x hx => hwaits x (mem_of_mem_erase hx)⟩
    case drained =>
      intro hd
      obtain ⟨hstopped, hnone⟩ := h.drained hd
      refine ⟨hstopped, ?_⟩
      rw [hnone]
      rfl
  · exact h

theorem sound_stopped (c : StopCall) : (w.stopped c).Sound opts := by
  unfold Worker.stopped
  split
  · rename_i hc
    refine { h with stops := fun c' hc' => h.stops c' (mem_of_mem_erase hc'), drained := fun hd => ?_ }
    rcases Bool.or_eq_true_iff.1 hd with hd | hlive
    · exact h.drained hd
    · obtain ⟨hstopped, hwaits⟩ := h.stops c hc.1 hlive
      refine ⟨hstopped, eq_nil_iff_forall_not_mem.2 fun id hid => ?_⟩
      have hmem := hwaits id hid
      rw [hc.2] at hmem
      cases hmem
  · exact h

end

/-- **Every step that meets the guard keeps the invariant.** -/
theorem Worker.sound_step (w : Worker) (e : WorkerEvent) (h : w.Sound opts) (hg : Heeded w e) : (w.step opts e).Sound opts := by
  cases e with
  | start => exact sound_start h
  | stop => exact sound_stop h
  | wake => exact sound_scheduleTick h
  | tick => exact sound_tick h
  | readied => exact sound_readied h
  | readyFailed => exact sound_readyFailed h
  | reserved => exact sound_reserved h hg
  | nothingReady => exact sound_nothingReady h
  | reserveFailed => exact sound_reserveFailed h
  | admitted id => exact sound_advance h id _ _
  | turnedAway id => exact sound_advance h id _ _
  | handled id => exact sound_advance h id _ _
  | timeout id =>
    show (w.timeout id).Sound opts
    unfold Worker.timeout
    rw [if_neg hg]
    exact h
  | looseHandled id =>
    have hnone : w.loose.erase id = w.loose := by
      rw [h.loose]
      rfl
    exact { h with loose := hnone.trans h.loose }
  | settle id resolved => exact sound_settle h id resolved
  | stopped c => exact sound_stopped h c

/-! ## Runs -/

/-- **The worker keeps its bounds and drains** in every interleaving in which no reservation comes back to a
stopped worker and no timer fires in a handler: no more than `concurrency` jobs execute, and once `stop` has
resolved nothing executes until `start`. -/
theorem bounds_of_heeded (opts : WorkerOptions) (es : List WorkerEvent) (h : Guarded (Worker.step opts) Heeded ({} : Worker) es) (n : Nat) :
    Bounds opts (run (Worker.step opts) {} (es.take n)) :=
  (take_invariant_of_guarded _ Worker.sound_step h Worker.Sound.initial n).bounds

/-- One job executes while `stop` is called, and settles. -/
def drainedRun : List WorkerEvent :=
  [.start, .tick, .readied, .reserved, .admitted 0, .stop, .handled 0, .settle 0 true, .stopped { waits := [] }]

theorem bounds_of_drainedRun : Bounds {} (run (Worker.step {}) {} (drainedRun.take 9)) := by
  refine bounds_of_heeded {} drainedRun ?_ 9
  exact ⟨trivial, trivial, trivial, fun _ => rfl, trivial, trivial, trivial, trivial, trivial, trivial⟩

/-- `stop` is called and resolves while the driver looks for a job; the job it returns is executed. -/
def reservedTooLate : List WorkerEvent :=
  [.start, .tick, .readied, .stop, .stopped { waits := [] }, .reserved, .admitted 0]

/-- The timer of the first job fires, the second job begins while the handler of the first still runs. -/
def timedOut : List WorkerEvent :=
  [.start, .tick, .readied, .reserved, .admitted 0, .timeout 0, .settle 0 true, .tick, .reserved, .admitted 1]

theorem worker_counterexample : (¬∀ n, Bounds {} (run (Worker.step {}) {} (reservedTooLate.take n))) ∧
      ¬∀ n, Bounds {} (run (Worker.step {}) {} (timedOut.take n)) := by
  constructor
  · intro h
    have hnone : [0] = [] := ((h 7).drained rfl).2
    cases hnone
  · intro h
    have htwo : 2 ≤ 1 := (h 10).handlers
    omega

end StreetJS.Queue
