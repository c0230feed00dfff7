/-
The execution of a reserved job (`queue/src/worker.ts`: `executeReservation`, `admitUnderRateLimit`,
`runWithTimeout`, `runHandler`, `deadLetterPermanent`, `handleFailure`) over a driver, a rate limit store,
handlers and middleware that may do anything: what the execution asks of the driver, and which of its
calls are performed. A value that is thrown is kept in its serialized form.
-/
import StreetJS.Lib.Async
import StreetJS.Queue.RateLimit
import StreetJS.Queue.Retry

namespace StreetJS.Queue

open StreetJS.Lib
open StreetJS.Lib.Async (Triple)

variable {P W : Type}

/-! ## The pipeline -/

structure JobExecutionContext where
  id : String
  type : String
  queue : String
  attempt : Nat
  maxAttempts : Nat
  enqueuedAt : Int
  tenantId : Option String := none
  /-- The execution's `AbortSignal` has fired. -/
  aborted : Bool := false

/-- What a pipeline runs on: the index of the chain invoked last, the context, which is one mutable object, and
whatever else the middleware and the handlers have effects on. -/
structure PipelineState (W : Type) where
  lastIndex : Int := -1
  ctx : JobExecutionContext
  world : W

abbrev Pipeline (W α : Type) := Async (PipelineState W) SerializedError α

abbrev JobHandler (W P : Type) := P → Pipeline W Unit

/-- A middleware is handed its `next`. -/
abbrev QueueMiddleware (W P : Type) := P → Pipeline W Unit → Pipeline W Unit

/-- `invoke` at an index with the rest of the chain from there on. -/
def invoke (handler : JobHandler W P) (payload : P) : List (QueueMiddleware W P) → Int → Pipeline W Unit
  | chain, index => do
    let s ← Async.get
    if index ≤ s.lastIndex then
      Async.throw { name := "Error", message := "next() called multiple times in a queue middleware." }
    else
      Async.modify fun s => { s with lastIndex := index }
      match chain with
      | middleware :: rest => middleware payload (invoke handler payload rest (index + 1))
      | [] => handler payload

def composeMiddleware (chain : List (QueueMiddleware W P)) (handler : JobHandler W P) (payload : P) : Pipeline W Unit := do
  Async.modify fun s => { s with lastIndex := -1 }
  invoke handler payload chain 0

/-! ## The worker -/

/-- A call on the driver for the reservation in execution. -/
inductive DriverCall where
  | ack
  | nack (runAt : ℚ)
  | moveToDeadLetter (error : SerializedError)
deriving DecidableEq

inductive QueueEvent where
  | started (ctx : JobExecutionContext)
  | completed (ctx : JobExecutionContext) (durationMs : Int)
  | failed (ctx : JobExecutionContext) (error : SerializedError)
  | retry (ctx : JobExecutionContext) (error : SerializedError) (nextRunAt : ℚ) (nextAttempt : Nat)
  | timeout (ctx : JobExecutionContext) (timeoutMs : Nat)

/-- A reservation with those fields of its envelope that only the worker reads. -/
structure ReservedJob (P : Type) extends Reservation P where
  timeoutMs : Option Nat := none
  dedupeKey : Option String := none
  tenantId : Option String := none

/-- What the facade hands to the worker, and how the world answers: the settlement of the `n`-th call on the
driver, the `n`-th reading of the clock, the counts of the rate limit store, and whether the timer of the
attempt fires before its pipeline settles. -/
structure WorkerContext (W P : Type) where
  handlers : String → Option (JobHandler W P)
  middleware : List (QueueMiddleware W P) := []
  driver : Nat → DriverCall → Outcome SerializedError Unit
  clock : Nat → Int
  engineBackoff : Option BackoffPolicy := none
  rng : ℚ
  rateLimits : String → Option ResolvedRateLimit := fun _ => none
  count : String → Int → Int → Outcome SerializedError Nat
  hit : String → Int → Int → Outcome SerializedError Nat
  world : W
  timerFirst : Bool

/-- The execution so far: the attempts of the shared envelope, the calls on the driver in order and those of them
that were performed, how the pipeline ended for the worker, its counters, the dedupe keys released and the
events emitted. -/
structure ExecutionState where
  attempts : Nat
  ctx : JobExecutionContext
  calls : List DriverCall := []
  completed : List DriverCall := []
  readings : Nat := 0
  pipeline : Option (Outcome SerializedError Unit) := none
  processed : Nat := 0
  failed : Nat := 0
  released : List (String × String × String) := []
  events : List QueueEvent := []

abbrev Execute (α : Type) := Async ExecutionState SerializedError α

section Worker

variable (w : WorkerContext W P) (r : ReservedJob P)

def readClock : Execute Int := do
  let s ← Async.get
  Async.modify fun s => { s with readings := s.readings + 1 }
  pure (w.clock s.readings)

/-- A subscriber that throws is swallowed by the emitter. -/
def emit (event : JobExecutionContext → QueueEvent) : Execute Unit :=
  Async.modify fun s => { s with events := s.events ++ [event s.ctx] }

/-- `await this.driver.….` -/
def callDriver (call : DriverCall) : Execute Unit := fun s =>
  match w.driver s.calls.length call with
  | .returned () => (.returned (), { s with calls := s.calls ++ [call], completed := s.completed ++ [call] })
  | .thrown error => (.thrown error, { s with calls := s.calls ++ [call] })
  | .pending => (.pending, { s with calls := s.calls ++ [call] })

def releaseDedupe : Execute Unit :=
  match r.dedupeKey with
  | none => pure ()
  | some key => Async.modify fun s => { s with released := s.released ++ [(r.queue, key, r.envelope.id)] }

def buildContext (attempts : Nat) : JobExecutionContext :=
  { id := r.envelope.id, type := r.envelope.type, queue := r.queue, attempt := attempts,
    maxAttempts := r.envelope.maxAttempts, enqueuedAt := r.envelope.enqueuedAt, tenantId := r.tenantId }

/-- The critical section of the check: whether the job is admitted, and the instant of the check. -/
def checkRateLimit (limit : ResolvedRateLimit) : Execute (Bool × Int) := do
  let now ← readClock w
  let inWindow ← Async.await (w.count r.queue now limit.windowMs)
  if limit.requests ≤ inWindow then pure (false, now)
  else
    let _ ← Async.await (w.hit r.queue now limit.windowMs)
    pure (true, now)

def admitUnderRateLimit : Execute Bool :=
  match w.rateLimits r.queue with
  | none => pure true
  | some limit => do
    let (admitted, now) ← checkRateLimit w r limit
    if admitted then pure true
    else
      Async.modify fun s => { s with attempts := s.attempts - 1 }
      callDriver w (.nack (now + limit.windowMs : Int))
      pure false

variable (handler : JobHandler W P)

/-- The settled pipeline and the state it leaves, run from a context. -/
def runHandler (ctx : JobExecutionContext) : Outcome SerializedError Unit × PipelineState W :=
  composeMiddleware w.middleware handler r.envelope.payload { ctx, world := w.world }

def timeoutError (type : String) (timeoutMs : Nat) : SerializedError :=
  { name := "Error",
    message := "Job \"" ++ type ++ "\" exceeded its per-attempt timeout of " ++ toString timeoutMs ++ "ms." }

variable (settled : Outcome SerializedError Unit)

/-- How the race of a pipeline with the timer of the attempt ends. -/
def raced : Outcome SerializedError Unit :=
  match r.timeoutMs with
  | none => settled
  | some timeoutMs =>
    if w.timerFirst ∨ settled = .pending then .thrown (timeoutError r.envelope.type timeoutMs) else settled

/-- The timer of the attempt, which may fire while its pipeline runs. -/
def fireTimer : Execute Unit :=
  match r.timeoutMs with
  | none => pure ()
  | some timeoutMs =>
    if w.timerFirst ∨ settled = .pending then do
      Async.modify fun s => { s with ctx := { s.ctx with aborted := true } }
      emit (.timeout · timeoutMs)
    else pure ()

def runWithTimeout : Execute Unit := do
  let s ← Async.get
  let (settled, left) := runHandler w r handler s.ctx
  Async.modify fun s => { s with ctx := left.ctx, pipeline := some (raced w r settled) }
  fireTimer w r settled
  Async.await (raced w r settled)

variable (error : SerializedError)

def deadLetterPermanent : Execute Unit := do
  callDriver w (.moveToDeadLetter error)
  Async.modify fun s => { s with failed := s.failed + 1 }
  releaseDedupe r
  emit (.failed · error)

/-- What the worker does on a decision of the retry engine. -/
def applyDecision (attempts : Nat) : RetryDecision → Execute Unit
  | .retry runAt => do
    callDriver w (.nack runAt)
    emit fun ctx => .retry ctx error runAt (attempts + 1)
  | .deadLetter => do
    callDriver w (.moveToDeadLetter error)
    Async.modify fun s => { s with failed := s.failed + 1 }
    releaseDedupe r
    emit (.failed · error)

def handleFailure : Execute Unit := do
  let s ← Async.get
  match onFailure r.envelope s.attempts none w.engineBackoff (w.clock s.readings) w.rng with
  | .ok decision => applyDecision w r error s.attempts decision
  | .error thrown => Async.throw thrown

/-- The success path, which holds the acknowledgement too. -/
def attemptJob (start : Int) : Execute Unit := do
  runWithTimeout w r handler
  callDriver w .ack
  Async.modify fun s => { s with processed := s.processed + 1 }
  releaseDedupe r
  let now ← readClock w
  emit fun ctx => .completed ctx (now - start)

def executeReservation : Execute Unit := do
  if ← admitUnderRateLimit w r then
    Async.modify fun s => { s with ctx := buildContext r s.attempts }
    let start ← readClock w
    emit .started
    match w.handlers r.envelope.type with
    | none =>
      deadLetterPermanent w r
        { name := "Error", message := "No handler registered for job type \"" ++ r.envelope.type ++ "\"." }
    | some handler => Async.tryCatch (attemptJob w r handler start) (handleFailure w r)
  else pure ()

/-- The execution of a reservation whose envelope counts so many attempts. -/
def executed (attempts : Nat) : ExecutionState :=
  (executeReservation w r { attempts, ctx := buildContext r attempts }).2

/-! ## What a part of the execution does -/

/-- The calls on the driver, how many of them were performed, the end of the pipeline and the attempts. -/
structure Stands (calls : List DriverCall) (done : Nat) (pipeline : Option (Outcome SerializedError Unit))
    (attempts : Nat) (s : ExecutionState) : Prop where
  calls : s.calls = calls
  done : s.completed.length = done
  pipeline : s.pipeline = pipeline
  attempts : s.attempts = attempts

/-- It returns, and leaves all that alone. -/
def Quiet {α : Type} (x : Execute α) : Prop :=
  ∀ calls done pipeline attempts, Triple (Stands calls done pipeline attempts) x fun o s => (∃ value, o = .returned value) ∧
      Stands calls done pipeline attempts s

variable {w r} {calls : List DriverCall} {done attempts : Nat} {pipeline : Option (Outcome SerializedError Unit)}

theorem Quiet.bind {α β : Type} {x : Execute α} {f : α → Execute β} (hx : Quiet x)
    (hf : ∀ value, Quiet (f value)) : Quiet (x >>= f) := fun calls done pipeline attempts => by
  refine Triple.bind (hx calls done pipeline attempts) (fun value => ?_) ?_ ?_
  · exact (hf value calls done pipeline attempts).mono (fun _ h => h.2) fun _ _ h => h
  · rintro error s ⟨⟨_, h⟩, -⟩
    cases h
  · rintro s ⟨⟨_, h⟩, -⟩
    cases h

theorem quiet_pure {α : Type} (value : α) : Quiet (pure value : Execute α) :=
  fun _ _ _ _ _ h => ⟨⟨value, rfl⟩, h⟩

theorem quiet_modify {f : ExecutionState → ExecutionState} (hc : ∀ s, (f s).calls = s.calls)
    (hd : ∀ s, (f s).completed = s.completed) (hp : ∀ s, (f s).pipeline = s.pipeline)
    (ha : ∀ s, (f s).attempts = s.attempts) : Quiet (Async.modify f) := fun _ _ _ _ s h =>
  ⟨⟨(), rfl⟩, (hc s).trans h.calls, (congrArg List.length (hd s)).trans h.done, (hp s).trans h.pipeline, (ha s).trans h.attempts⟩

theorem quiet_emit (event : JobExecutionContext → QueueEvent) : Quiet (emit event) :=
  quiet_modify (fun _ => rfl) (fun _ => rfl) (fun _ => rfl) fun _ => rfl

theorem quiet_readClock : Quiet (readClock w) := fun _ _ _ _ s h =>
  ⟨⟨w.clock s.readings, rfl⟩, h.calls, h.done, h.pipeline, h.attempts⟩

theorem quiet_releaseDedupe : Quiet (releaseDedupe r) := by
  unfold releaseDedupe
  cases r.dedupeKey with
  | none => exact quiet_pure ()
  | some key => exact quiet_modify (fun _ => rfl) (fun _ => rfl) (fun _ => rfl) fun _ => rfl

theorem callDriver_spec (call : DriverCall) : Triple (Stands calls done pipeline attempts) (callDriver w call) fun o s =>
      o = w.driver calls.length call ∧
        Stands (calls ++ [call]) (done + if o = .returned () then 1 else 0) pipeline attempts s := fun s h => by
  unfold callDriver
  rw [h.calls]
  cases hd : w.driver calls.length call with
  | returned _ => exact ⟨rfl, rfl, by simp [h.done], h.pipeline, h.attempts⟩
  | thrown error => exact ⟨rfl, rfl, by simp [h.done], h.pipeline, h.attempts⟩
  | pending => exact ⟨rfl, rfl, by simp [h.done], h.pipeline, h.attempts⟩

theorem callDriver_then (call : DriverCall) {α : Type} {tail : Unit → Execute α} (ht : ∀ u, Quiet (tail u)) :
    Triple (Stands calls done pipeline attempts) (callDriver w call >>= tail) fun o s =>
      Stands (calls ++ [call]) (done + if w.driver calls.length call = .returned () then 1 else 0) pipeline attempts s ∧
        ∀ error, o = .thrown error ↔ w.driver calls.length call = .thrown error := by
  refine Triple.bind (callDriver_spec call) (fun u s h => ?_) ?_ ?_
  · obtain ⟨⟨value, ho⟩, hs⟩ := ht u _ _ _ _ s h.2
    rw [ho, ← h.1]
    exact ⟨hs, fun error => by simp⟩
  · rintro error s ⟨ho, hs⟩
    rw [← ho]
    exact ⟨hs, fun error' => by simp⟩
  · rintro s ⟨ho, hs⟩
    rw [← ho]
    exact ⟨hs, fun error' => by simp⟩

/-- The retry engine comes to a decision: the backoff, where it is consulted, can be computed. -/
def Decides (w : WorkerContext W P) (r : ReservedJob P) (attempts : Nat) : Prop :=
  r.envelope.maxAttempts ≤ attempts ∨
    ∃ delay, computeBackoffDelay attempts (resolveBackoff none r.envelope.backoff w.engineBackoff) w.rng = .ok delay

theorem onFailure_decides (w : WorkerContext W P) (r : ReservedJob P) (attempts : Nat) (now : Int) : Decides w r attempts ↔
    ∃ decision, onFailure r.envelope attempts none w.engineBackoff now w.rng = .ok decision := by
  unfold Decides onFailure
  by_cases hmax : r.envelope.maxAttempts ≤ attempts
  · simp [hmax]
  · simp only [hmax, false_or, if_false]
    cases computeBackoffDelay attempts (resolveBackoff none r.envelope.backoff w.engineBackoff) w.rng with
    | ok delay => simp [bind, Except.bind, pure, Except.pure]
    | error e => simp [bind, Except.bind]

theorem applyDecision_spec (counted : Nat) (decision : RetryDecision) :
    Triple (Stands calls done pipeline attempts) (applyDecision w r error counted decision) fun _ s =>
      ∃ call ≠ .ack, Stands (calls ++ [call]) (done + if w.driver calls.length call = .returned () then 1 else 0) pipeline attempts s := by
  cases decision with
  | retry runAt =>
    exact (callDriver_then (.nack runAt) fun _ => quiet_emit _).mono (fun _ h => h) fun _ _ h =>
      ⟨.nack runAt, by simp, h.1⟩
  | deadLetter =>
    refine (callDriver_then (.moveToDeadLetter error) fun _ => ?_).mono (fun _ h => h) fun _ _ h =>
      ⟨.moveToDeadLetter error, by simp, h.1⟩
    refine Quiet.bind (quiet_modify (fun _ => rfl) (fun _ => rfl) (fun _ => rfl) fun _ => rfl) fun _ => ?_
    exact Quiet.bind quiet_releaseDedupe fun _ => quiet_emit _

theorem handleFailure_spec : Triple (Stands calls done pipeline attempts) (handleFailure w r error) fun _ s =>
      s.completed.length ≤ done + 1 ∧ s.pipeline = pipeline ∧ (Decides w r attempts → ∃ call ≠ .ack, s.calls = calls ++ [call]) ∧
        (¬ Decides w r attempts → s.calls = calls) := fun s h => by
  have hdecides := onFailure_decides w r attempts (w.clock s.readings)
  have hrun : handleFailure w r error s = (match onFailure r.envelope attempts none w.engineBackoff (w.clock s.readings) w.rng with
        | .ok decision => applyDecision w r error attempts decision
        | .error thrown => Async.throw thrown) s := by
    rw [← h.attempts]
    rfl
  rw [hrun]
  cases hdecision : onFailure r.envelope attempts none w.engineBackoff (w.clock s.readings) w.rng with
  | ok decision =>
    obtain ⟨call, hcall, hs⟩ := applyDecision_spec error attempts decision s h
    refine ⟨?_, hs.pipeline, fun _ => ⟨call, hcall, hs.calls⟩, fun hno => absurd ?_ hno⟩
    · rw [hs.done]
      split <;> omega
    · exact hdecides.2 ⟨decision, hdecision⟩
  | error thrown =>
    refine ⟨h.done.le.trans (Nat.le_succ done), h.pipeline, fun hyes => ?_, fun _ => h.calls⟩
    obtain ⟨decision, hok⟩ := hdecides.1 hyes
    rw [hdecision] at hok
    cases hok

theorem quiet_fireTimer : Quiet (fireTimer w r settled) := by
  unfold fireTimer
  cases r.timeoutMs with
  | none => exact quiet_pure ()
  | some timeoutMs =>
    by_cases hfires : w.timerFirst ∨ settled = .pending
    · simp only [hfires, if_true]
      exact Quiet.bind (quiet_modify (fun _ => rfl) (fun _ => rfl) (fun _ => rfl) fun _ => rfl) fun _ => quiet_emit _
    · simp only [hfires, if_false]
      exact quiet_pure ()

theorem runWithTimeout_spec (ctx : JobExecutionContext) :
    Triple (fun s => Stands calls done pipeline attempts s ∧ s.ctx = ctx) (runWithTimeout w r handler) fun o s =>
      o = raced w r (runHandler w r handler ctx).1 ∧ Stands calls done (some o) attempts s := by
  rintro s ⟨h, rfl⟩
  have hmodify : Stands calls done (some (raced w r (runHandler w r handler s.ctx).1)) attempts { s with
        ctx := (runHandler w r handler s.ctx).2.ctx
        pipeline := some (raced w r (runHandler w r handler s.ctx).1) } := { h with pipeline := rfl }
  have hrest : Triple (Stands calls done (some (raced w r (runHandler w r handler s.ctx).1)) attempts)
      (do fireTimer w r (runHandler w r handler s.ctx).1; Async.await (raced w r (runHandler w r handler s.ctx).1))
      fun o s' => o = raced w r (runHandler w r handler s.ctx).1 ∧ Stands calls done (some o) attempts s' := by
    refine Triple.bind (quiet_fireTimer _ _ _ _ _) (fun _ s' h' => ⟨rfl, h'.2⟩) ?_ ?_
    · rintro error s' ⟨⟨_, ho⟩, -⟩
      cases ho
    · rintro s' ⟨⟨_, ho⟩, -⟩
      cases ho
  exact hrest _ hmodify

/-- The success path of an execution that has called nothing yet. -/
structure Attempted (w : WorkerContext W P) (result : Outcome SerializedError Unit) (attempts : Nat)
    (o : Outcome SerializedError Unit) (s : ExecutionState) : Prop where
  /-- The pipeline has not completed, and nothing was called. -/
  failed : result ≠ .returned () → o = result ∧ Stands [] 0 (some result) attempts s
  /-- The acknowledgement is called, and the path throws only what it throws. -/
  acked : result = .returned () → Stands [.ack] (if w.driver 0 .ack = .returned () then 1 else 0) (some result) attempts s ∧
      ∀ error, o = .thrown error ↔ w.driver 0 .ack = .thrown error

theorem attemptJob_spec (start : Int) (ctx : JobExecutionContext) :
    Triple (fun s => Stands [] 0 pipeline attempts s ∧ s.ctx = ctx) (attemptJob w r handler start)
      (Attempted w (raced w r (runHandler w r handler ctx).1) attempts) := by
  refine Triple.bind (runWithTimeout_spec handler ctx) (fun u s h => ?_) ?_ ?_
  · have htail : ∀ u : Unit, Quiet (do
        Async.modify fun s => { s with processed := s.processed + 1 }
        releaseDedupe r
        let now ← readClock w
        emit fun ctx => .completed ctx (now - start)) := fun _ =>
      Quiet.bind (quiet_modify (fun _ => rfl) (fun _ => rfl) (fun _ => rfl) fun _ => rfl) fun _ =>
        Quiet.bind quiet_releaseDedupe fun _ => Quiet.bind quiet_readClock fun _ => quiet_emit _
    have hcall := callDriver_then (w := w) .ack htail s h.2
    simp only [List.length_nil, List.nil_append, Nat.zero_add] at hcall
    rw [← h.1]
    exact ⟨fun hne => absurd rfl hne, fun _ => hcall⟩
  · rintro error s ⟨ho, hs⟩
    rw [← ho]
    exact ⟨fun _ => ⟨rfl, hs⟩, fun h => by cases h⟩
  · rintro s ⟨ho, hs⟩
    rw [← ho]
    exact ⟨fun _ => ⟨rfl, hs⟩, fun h => by cases h⟩

/-- The rate limit of the queue, if there is one, admits the job. -/
def Admitted (w : WorkerContext W P) (r : ReservedJob P) : Prop :=
  ∀ limit ∈ w.rateLimits r.queue, (∃ inWindow < limit.requests, w.count r.queue (w.clock 0) limit.windowMs = .returned inWindow) ∧
    ∃ size, w.hit r.queue (w.clock 0) limit.windowMs = .returned size

/-- The admission ends so, and an execution that is not admitted has called one `nack` at most. -/
def AdmissionEnds (w : WorkerContext W P) (r : ReservedJob P) (attempts : Nat) (o : Outcome SerializedError Bool)
    (s : ExecutionState) : Prop :=
  (o = .returned true ∧ Admitted w r ∧ Stands [] 0 none attempts s) ∨
    (o ≠ .returned true ∧ ¬ Admitted w r ∧ s.completed.length ≤ 1 ∧ s.pipeline = none)

theorem checkRateLimit_spec (limit : ResolvedRateLimit) :
    Triple (fun s => Stands [] 0 none attempts s ∧ s.readings = 0) (checkRateLimit w r limit) fun o s =>
      Stands [] 0 none attempts s ∧ ((∃ now, o = .returned (true, now)) ↔
        (∃ inWindow < limit.requests, w.count r.queue (w.clock 0) limit.windowMs = .returned inWindow) ∧
          ∃ size, w.hit r.queue (w.clock 0) limit.windowMs = .returned size) := by
  rintro s ⟨h, hread⟩
  have hread' : Stands [] 0 none attempts { s with readings := 0 + 1 } := { h with }
  unfold checkRateLimit
  simp only [bind, Async.bind, readClock, Async.get, Async.modify, Async.await, pure, Async.pure, hread]
  cases hcount : w.count r.queue (w.clock 0) limit.windowMs with
  | returned inWindow =>
    by_cases hfull : limit.requests ≤ inWindow
    · simp only [hfull, if_true]
      exact ⟨hread', by simp [Async.pure, Nat.not_lt.2 hfull]⟩
    · simp only [hfull, if_false, Async.bind, Async.await, Async.pure]
      cases hhit : w.hit r.queue (w.clock 0) limit.windowMs with
      | returned size => exact ⟨hread', by simp [Nat.lt_of_not_le hfull]⟩
      | thrown error => exact ⟨hread', by simp⟩
      | pending => exact ⟨hread', by simp⟩
  | thrown error => exact ⟨hread', by simp⟩
  | pending => exact ⟨hread', by simp⟩

theorem deferral_spec (call : DriverCall) : Triple (Stands calls done pipeline attempts) (do callDriver w call; pure false) fun o s =>
      o ≠ .returned true ∧ Stands (calls ++ [call])
        (done + if w.driver calls.length call = .returned () then 1 else 0) pipeline attempts s := by
  refine Triple.bind (callDriver_spec call) ?_ ?_ ?_
  · rintro u s ⟨ho, hs⟩
    exact ⟨by simp [pure, Async.pure], ho ▸ hs⟩
  · rintro error s ⟨ho, hs⟩
    exact ⟨by simp, ho ▸ hs⟩
  · rintro s ⟨ho, hs⟩
    exact ⟨by simp, ho ▸ hs⟩

theorem admitUnderRateLimit_spec : Triple (fun s => Stands [] 0 none attempts s ∧ s.readings = 0) (admitUnderRateLimit w r)
      (AdmissionEnds w r attempts) := by
  unfold admitUnderRateLimit
  cases hlimit : w.rateLimits r.queue with
  | none => exact fun s h => Or.inl ⟨rfl, fun limit hl => by simp [hlimit] at hl, h.1⟩
  | some limit =>
    have hadmitted : Admitted w r ↔ (∃ inWindow < limit.requests, w.count r.queue (w.clock 0) limit.windowMs = .returned inWindow) ∧
          ∃ size, w.hit r.queue (w.clock 0) limit.windowMs = .returned size := by
      simp [Admitted, hlimit]
    refine Triple.bind (checkRateLimit_spec limit) ?_ ?_ ?_
    · rintro ⟨admitted, now⟩ s ⟨h, hiff⟩
      rw [← hadmitted] at hiff
      cases admitted with
      | true => exact Or.inl ⟨rfl, hiff.1 ⟨now, rfl⟩, h⟩
      | false =>
        have hno : ¬ Admitted w r := fun hyes => by
          obtain ⟨_, ho⟩ := hiff.2 hyes
          cases ho
        obtain ⟨ho, hs⟩ := deferral_spec (w := w) (.nack (now + limit.windowMs : Int))
          { s with attempts := s.attempts - 1 } ⟨h.calls, h.done, h.pipeline, rfl⟩
        exact Or.inr ⟨ho, hno, hs.done.le.trans (by split <;> omega), hs.pipeline⟩
    · rintro error s ⟨h, hiff⟩
      refine Or.inr ⟨by simp, fun hyes => ?_, by simp [h.done], h.pipeline⟩
      obtain ⟨_, ho⟩ := hiff.2 (hadmitted.1 hyes)
      cases ho
    · rintro s ⟨h, hiff⟩
      refine Or.inr ⟨by simp, fun hyes => ?_, by simp [h.done], h.pipeline⟩
      obtain ⟨_, ho⟩ := hiff.2 (hadmitted.1 hyes)
      cases ho

/-! ## The outcome of an execution -/

/-- The execution starts and its pipeline completes, before the timeout if there is one. -/
def PipelineCompletes (w : WorkerContext W P) (r : ReservedJob P) (attempts : Nat) : Prop :=
  Admitted w r ∧ ∃ handler, w.handlers r.envelope.type = some handler ∧
    raced w r (runHandler w r handler (buildContext r attempts)).1 = .returned ()

/-- The driver refuses the acknowledgement of a completed pipeline, and the retry engine takes that for a failure
of the job. -/
def AckFailsTheJob (w : WorkerContext W P) (r : ReservedJob P) (attempts : Nat) : Prop :=
  PipelineCompletes w r attempts ∧ (∃ error, w.driver 0 .ack = .thrown error) ∧ Decides w r attempts

/-- What an execution comes to. -/
structure Ended (w : WorkerContext W P) (r : ReservedJob P) (attempts : Nat) (s : ExecutionState) : Prop where
  done : s.completed.length ≤ 1
  completes : s.pipeline = some (.returned ()) ↔ PipelineCompletes w r attempts
  failed : AckFailsTheJob w r attempts → ∃ call ≠ .ack, s.calls = [.ack, call]
  acked : PipelineCompletes w r attempts → ¬ AckFailsTheJob w r attempts → s.calls = [.ack]

theorem Ended.of_not_completes {s : ExecutionState} (hdone : s.completed.length ≤ 1)
    (hp : s.pipeline ≠ some (.returned ())) (hno : ¬ PipelineCompletes w r attempts) : Ended w r attempts s :=
  ⟨hdone, iff_of_false hp hno, fun h => absurd h.1 hno, fun h => absurd h hno⟩

theorem attempt_ends (hadmitted : Admitted w r) {handler : JobHandler W P}
    (hhandler : w.handlers r.envelope.type = some handler) (start : Int) :
    Triple (fun s => Stands [] 0 none attempts s ∧ s.ctx = buildContext r attempts)
      (Async.tryCatch (attemptJob w r handler start) (handleFailure w r)) fun _ => Ended w r attempts := by
  have hcompletes : PipelineCompletes w r attempts ↔ raced w r (runHandler w r handler (buildContext r attempts)).1 = .returned () := by
    constructor
    · rintro ⟨-, handler', hh, hraced⟩
      rw [hhandler] at hh
      cases hh
      exact hraced
    · exact fun hraced => ⟨hadmitted, handler, hhandler, hraced⟩
  have hattempt : Triple (fun s => Stands [] 0 none attempts s ∧ s.ctx = buildContext r attempts) (attemptJob w r handler start)
      (Attempted w (raced w r (runHandler w r handler (buildContext r attempts)).1) attempts) :=
    attemptJob_spec handler start (buildContext r attempts)
  revert hattempt hcompletes
  generalize raced w r (runHandler w r handler (buildContext r attempts)).1 = result
  intro hcompletes hattempt
  -- an ending of the `try` that is no throw: the acknowledgement was not refused
  have hkept : ∀ o s, (∀ error, o ≠ .thrown error) → Attempted w result attempts o s → Ended w r attempts s := by
    intro o s hthrow h
    by_cases hres : result = .returned ()
    · obtain ⟨hs, hiff⟩ := h.acked hres
      have hack : ¬ AckFailsTheJob w r attempts := fun hfails => by
        obtain ⟨-, ⟨error, he⟩, -⟩ := hfails
        exact hthrow error ((hiff error).2 he)
      exact ⟨hs.done.le.trans (by split <;> omega), iff_of_true (hres ▸ hs.pipeline) (hcompletes.2 hres),
        fun hfails => absurd hfails hack, fun _ _ => hs.calls⟩
    · obtain ⟨-, hs⟩ := h.failed hres
      refine Ended.of_not_completes (by simp [hs.done]) ?_ (fun hc => hres (hcompletes.1 hc))
      rw [hs.pipeline]
      exact fun hsome => hres (Option.some.inj hsome)
  refine Triple.tryCatch hattempt (fun error s h => ?_) (fun value s h => hkept _ s (by simp) h) fun s h => hkept _ s (by simp) h
  by_cases hres : result = .returned ()
  · -- the acknowledgement of a completed pipeline was refused
    obtain ⟨hs, hiff⟩ := h.acked hres
    have he : w.driver 0 .ack = .thrown error := (hiff error).1 rfl
    rw [he, if_neg (by simp)] at hs
    obtain ⟨hdone, hpipeline, hyes, hno⟩ := handleFailure_spec (w := w) (r := r) error s hs
    refine ⟨by simpa using hdone, iff_of_true (hres ▸ hpipeline) (hcompletes.2 hres), fun hfails => ?_, fun _ hkeeps => ?_⟩
    · exact hyes hfails.2.2
    · exact hno fun hdecides => hkeeps ⟨hcompletes.2 hres, ⟨error, he⟩, hdecides⟩
  · obtain ⟨-, hs⟩ := h.failed hres
    obtain ⟨hdone, hpipeline, -, -⟩ := handleFailure_spec (w := w) (r := r) error s hs
    refine Ended.of_not_completes (by simpa using hdone) ?_ (fun hc => hres (hcompletes.1 hc))
    rw [hpipeline]
    exact fun hsome => hres (Option.some.inj hsome)

theorem deadLetterPermanent_spec : Triple (Stands calls done pipeline attempts) (deadLetterPermanent w r error) fun _ s =>
      Stands (calls ++ [.moveToDeadLetter error]) (done + if w.driver calls.length (.moveToDeadLetter error) =
          .returned () then 1 else 0) pipeline attempts s := by
  refine (callDriver_then (.moveToDeadLetter error) fun _ => ?_).mono (fun _ h => h) fun _ _ h => h.1
  refine Quiet.bind (quiet_modify (fun _ => rfl) (fun _ => rfl) (fun _ => rfl) fun _ => rfl) fun _ => ?_
  exact Quiet.bind quiet_releaseDedupe fun _ => quiet_emit _

theorem executed_ends (w : WorkerContext W P) (r : ReservedJob P) (attempts : Nat) : Ended w r attempts (executed w r attempts) := by
  have hstart : Stands [] 0 none attempts { attempts, ctx := buildContext r attempts } := ⟨rfl, rfl, rfl, rfl⟩
  refine Triple.bind (P := fun s => Stands [] 0 none attempts s ∧ s.readings = 0)
    (Q := fun _ => Ended w r attempts) admitUnderRateLimit_spec ?_ ?_ ?_ _ ⟨hstart, rfl⟩
  · intro admitted s h
    rcases h with ⟨ho, hadmitted, hs⟩ | ⟨ho, hno, hdone, hp⟩
    · cases ho
      have hstarted : Stands [] 0 none attempts { s with
            ctx := buildContext r s.attempts
            readings := s.readings + 1
            events := s.events ++ [.started (buildContext r s.attempts)] } :=
        ⟨hs.calls, hs.done, hs.pipeline, hs.attempts⟩
      cases hhandler : w.handlers r.envelope.type with
      | none =>
        have hdead := deadLetterPermanent_spec (w := w) (r := r)
          { name := "Error", message := "No handler registered for job type \"" ++ r.envelope.type ++ "\"." } _
          hstarted
        refine Ended.of_not_completes (hdead.done.le.trans (by split <;> omega)) ?_ fun hc => ?_
        · exact fun hsome => by cases hdead.pipeline.symm.trans hsome
        · obtain ⟨-, handler, hh, -⟩ := hc
          simp [hhandler] at hh
      | some handler =>
        exact attempt_ends hadmitted hhandler (w.clock s.readings) _ ⟨hstarted, congrArg (buildContext r) hs.attempts⟩
    · have hfalse : admitted = false := by
        cases admitted with
        | true => exact absurd rfl ho
        | false => rfl
      subst hfalse
      exact Ended.of_not_completes hdone (fun hsome => by cases hp.symm.trans hsome) fun hc => hno hc.1
  · rintro error s (⟨ho, -, -⟩ | ⟨-, hno, hdone, hp⟩)
    · cases ho
    · exact Ended.of_not_completes hdone (by simp [hp]) fun hc => hno hc.1
  · rintro s (⟨ho, -, -⟩ | ⟨-, hno, hdone, hp⟩)
    · cases ho
    · exact Ended.of_not_completes hdone (by simp [hp]) fun hc => hno hc.1

/-- Every execution performs at most one of its driver calls. An execution whose pipeline completed calls neither
`nack` nor `moveToDeadLetter`, exactly when it is not one whose acknowledgement the driver refuses. -/
theorem settles_iff (w : WorkerContext W P) (r : ReservedJob P) (attempts : Nat) :
    (executed w r attempts).completed.length ≤ 1 ∧ (((executed w r attempts).pipeline = some (.returned ()) →
        ∀ call ∈ (executed w r attempts).calls, call = .ack) ↔
        ¬ AckFailsTheJob w r attempts) := by
  have hended := executed_ends w r attempts
  refine ⟨hended.done, fun hclaim hfails => ?_, fun hkeeps hcompleted => ?_⟩
  · obtain ⟨call, hne, hcalls⟩ := hended.failed hfails
    exact hne (hclaim (hended.completes.2 hfails.1) call (by simp [hcalls]))
  · rw [hended.acked (hended.completes.1 hcompleted) hkeeps]
    simp

/-- A worker of jobs without a payload, whose handler does nothing, over a driver that refuses acknowledgements. -/
def refusedAck : WorkerContext Unit Unit where
  handlers _ := some fun _ => pure ()
  driver _ call := if call = .ack then .thrown { name := "Error", message := "connection lost" } else .returned ()
  clock _ := 0
  rng := 0
  count _ _ _ := .returned 0
  hit _ _ _ := .returned 1
  world := ()
  timerFirst := false

/-- A job that was reserved for the first time, of as many attempts. -/
def mailJob (maxAttempts : Nat) : ReservedJob Unit where
  envelope := { id := "job-1", type := "SendMail", payload := (), maxAttempts }
  token := 0
  queue := "mail"
  leaseExpiresAt := 30000

/-- The job has been done, and is retried or dead-lettered. -/
theorem refused_ack_counterexample : (executed refusedAck (mailJob 3) 1).pipeline = some (.returned ()) ∧
    (executed refusedAck (mailJob 3) 1).completed = [.nack 1000] ∧
    (executed refusedAck (mailJob 1) 1).pipeline = some (.returned ()) ∧
    (executed refusedAck (mailJob 1) 1).completed = [.moveToDeadLetter { name := "Error", message := "connection lost" }] := by
  refine ⟨rfl, ?_, rfl, rfl⟩
  decide +kernel

end Worker

end StreetJS.Queue
