/-
`listen` and `close` of an application (`core/src/http/server.ts`), in any order and overlap: each keeps its promise, and
the promise of a failed start is kept too.
-/
import StreetJS.Lib.Runs

namespace StreetJS.Http.Application

open StreetJS.Lib

/-! ## The application -/

inductive LifecycleState where
  | created
  | starting
  | running
  | draining
  | closed
deriving DecidableEq

inductive PromiseState where
  | pending
  | resolved
  | rejected
deriving DecidableEq

/-- Where the function behind `closePromise` stands: it waits for a start, for the container after a failed one, for the
server, for plugins that are left to unload, or for the container. It notes whether a cleanup has failed. -/
inductive Closing where
  | awaitingStart
  | disposingFailed
  | closingServer
  | unloading (left : Nat) (failed : Bool)
  | disposing (failed : Bool)
  | settled (resolved : Bool)
deriving DecidableEq

structure App where
  lifecycleState : LifecycleState
  listenPromise : Option PromiseState
  closePromise : Option Closing
  listening : Bool
  plugins : Nat
  ownsContainer : Bool
deriving DecidableEq

def App.new (ownsContainer : Bool) : App := ⟨.created, none, none, false, 0, ownsContainer⟩

/-- What is called, and what answers; `validPort` is what `server.listen` throws without. -/
inductive Event where
  | listen (validPort : Bool)
  | close
  | bound
  | bindError
  | startSettled
  | serverClosed (ok : Bool)
  | unloaded (ok : Bool)
  | disposed (ok : Bool)
  | loaded (plugins : Nat)
deriving DecidableEq

namespace App

variable (app : App)

/-- `listen` -/
def listen (validPort : Bool) : App :=
  if app.lifecycleState = .closed ∨ app.lifecycleState = .draining ∨ app.lifecycleState = .running then app
  else if app.listenPromise.isSome then app
  else { app with lifecycleState := .starting, listenPromise := some (if validPort then .pending else .rejected) }

/-- The end of `close`. -/
def finish (failed : Bool) : App :=
  if failed then { app with closePromise := some (.settled false) }
  else { app with lifecycleState := .closed, closePromise := some (.settled true) }

def dispose (failed : Bool) : App :=
  if app.ownsContainer then { app with closePromise := some (.disposing failed) } else app.finish failed

def unload (left : Nat) (failed : Bool) : App :=
  if left = 0 then app.dispose failed else { app with closePromise := some (.unloading left failed) }

/-- A server that is closed listens no more while its connections end. -/
def drain : App :=
  if app.listening then
    { app with lifecycleState := .draining, closePromise := some .closingServer, listening := false }
  else unload { app with lifecycleState := .draining } app.plugins false

/-- `close` -/
def close : App :=
  if app.closePromise.isSome then app
  else if app.lifecycleState = .closed then { app with closePromise := some (.settled true) }
  else if app.lifecycleState = .starting ∧ app.listenPromise.isSome then { app with closePromise := some .awaitingStart }
  else app.drain

/-- The start that `close` waits for is over. -/
def startSettled : App :=
  match app.closePromise, app.listenPromise with
  | some .awaitingStart, some .resolved => app.drain
  | some .awaitingStart, some .rejected =>
    if app.ownsContainer then { app with closePromise := some .disposingFailed }
    else { app with lifecycleState := .closed, closePromise := some (.settled false) }
  | _, _ => app

def step : Event → App
  | .listen validPort => app.listen validPort
  | .close => app.close
  | .bound =>
    if app.listenPromise = some .pending then
      { app with lifecycleState := .running, listenPromise := some .resolved, listening := true }
    else app
  | .bindError =>
    if app.listenPromise = some .pending then { app with lifecycleState := .created, listenPromise := some .rejected }
    else app
  | .startSettled => app.startSettled
  | .serverClosed ok =>
    if app.closePromise = some .closingServer then
      if ok then app.unload app.plugins false else { app with closePromise := some (.settled false) }
    else app
  | .unloaded ok =>
    match app.closePromise with
    | some (.unloading left failed) => app.unload (left - 1) (failed || !ok)
    | _ => app
  | .disposed ok =>
    match app.closePromise with
    | some (.disposing failed) => app.finish (failed || !ok)
    | some .disposingFailed => { app with lifecycleState := .closed, closePromise := some (.settled false) }
    | _ => app
  | .loaded plugins => { app with plugins }

end App

/-! ## The lifecycle -/

def LifecycleState.rank : LifecycleState → Nat
  | .created => 0
  | .starting => 1
  | .running => 2
  | .draining => 3
  | .closed => 4

/-- What holds in every state: a start that failed is over, `listen` binds from `CREATED`, and a `close` that has settled has
closed. -/
def Kept (app : App) : Prop :=
  (app.listenPromise = some .rejected → app.lifecycleState ≠ .starting) ∧
    (app.lifecycleState = .created → (app.listen true).lifecycleState = .starting ∧ (app.listen true).listenPromise = some .pending) ∧
    ∀ resolved, app.closePromise = some (.settled resolved) → app.lifecycleState = .closed ∧ app.listening = false

/-- No start fails, the server closes, and no cleanup has failed when `close` settles. -/
def Smooth (app : App) : Event → Prop
  | .listen validPort => app.lifecycleState = .created → validPort = true
  | .bindError => app.listenPromise ≠ some .pending
  | .serverClosed ok => app.closePromise = some .closingServer → ok = true
  | .unloaded ok => ∀ failed, app.closePromise = some (.unloading 1 failed) → app.ownsContainer = false → (failed || !ok) = false
  | .disposed ok => ∀ failed, app.closePromise = some (.disposing failed) → (failed || !ok) = false
  | _ => True

/-- The fields of an application all of whose steps were smooth. -/
def Sound (app : App) : Prop :=
  match app.lifecycleState with
  | .created => app.listenPromise = none ∧ app.closePromise = none ∧ app.listening = false
  | .starting => app.listenPromise = some .pending ∧ (app.closePromise = none ∨ app.closePromise = some .awaitingStart) ∧
      app.listening = false
  | .running => app.listenPromise = some .resolved ∧ (app.closePromise = none ∨ app.closePromise = some .awaitingStart)
  | .draining => app.listening = false ∧ (app.listenPromise = none ∨ app.listenPromise = some .resolved) ∧
      (app.closePromise = some .closingServer ∨ (∃ left failed, app.closePromise = some (.unloading left failed) ∧ left ≠ 0) ∨
        ∃ failed, app.closePromise = some (.disposing failed) ∧ app.ownsContainer = true)
  | .closed => app.listening = false ∧ (app.listenPromise = none ∨ app.listenPromise = some .resolved) ∧
      app.closePromise = some (.settled true)

theorem kept_of_sound {app : App} (h : Sound app) : Kept app := by
  obtain ⟨lifecycle, listenPromise, closePromise, listening, plugins, owns⟩ := app
  cases lifecycle <;> simp only [Sound] at h
  case created =>
    obtain ⟨rfl, rfl, rfl⟩ := h
    simp [Kept, App.listen]
  case starting =>
    obtain ⟨rfl, rfl | rfl, rfl⟩ := h <;> simp [Kept]
  case running =>
    obtain ⟨rfl, rfl | rfl⟩ := h <;> simp [Kept]
  case draining =>
    obtain ⟨rfl, -, rfl | ⟨left, failed, rfl, -⟩ | ⟨failed, rfl, -⟩⟩ := h <;> simp [Kept]
  case closed =>
    obtain ⟨rfl, -, rfl⟩ := h
    simp [Kept]

theorem sound_unload {app : App} (hstate : app.lifecycleState = .draining) (hlistening : app.listening = false)
    (hpromise : app.listenPromise = none ∨ app.listenPromise = some .resolved) (left : Nat) (failed : Bool)
    (hfailed : left = 0 → app.ownsContainer = false → failed = false) : Sound (app.unload left failed) := by
  unfold App.unload App.dispose App.finish
  by_cases hleft : left = 0
  · cases howns : app.ownsContainer with
    | true => simpa [hleft, Sound, hstate, hlistening, howns] using hpromise
    | false => simpa [hleft, hfailed hleft howns, Sound, hlistening] using hpromise
  · simpa [hleft, Sound, hstate, hlistening] using hpromise

theorem sound_drain {app : App} (hpromise : app.listenPromise = none ∨ app.listenPromise = some .resolved) : Sound app.drain := by
  obtain ⟨lifecycle, listenPromise, closePromise, listening, plugins, owns⟩ := app
  cases listening with
  | true => simpa [App.drain, Sound] using hpromise
  | false => exact @sound_unload ⟨.draining, listenPromise, closePromise, false, plugins, owns⟩ rfl rfl hpromise _ _ fun _ _ => rfl

theorem sound_step {app : App} (h : Sound app) (e : Event) (hs : Smooth app e) : Sound (app.step e) := by
  obtain ⟨lifecycle, listenPromise, closePromise, listening, plugins, owns⟩ := app
  cases lifecycle <;> simp only [Sound] at h
  case created =>
    obtain ⟨rfl, rfl, rfl⟩ := h
    cases e with
    | close => exact @sound_drain ⟨.created, none, none, false, plugins, owns⟩ (.inl rfl)
    | _ => simp_all [Smooth, App.step, App.listen, App.startSettled, Sound]
  case starting =>
    obtain ⟨rfl, rfl | rfl, rfl⟩ := h <;> cases e <;> simp_all [Smooth, App.step, App.listen, App.close, App.startSettled, Sound]
  case running =>
    obtain ⟨rfl, rfl | rfl⟩ := h
    · cases e with
      | close => exact @sound_drain ⟨.running, some .resolved, none, listening, plugins, owns⟩ (.inr rfl)
      | _ => simp_all [Smooth, App.step, App.listen, App.startSettled, Sound]
    · cases e with
      | startSettled => exact @sound_drain ⟨.running, some .resolved, some .awaitingStart, listening, plugins, owns⟩ (.inr rfl)
      | _ => simp_all [Smooth, App.step, App.listen, App.close, Sound]
  case draining =>
    obtain ⟨rfl, hpromise, rfl | ⟨left, failed, rfl, hleft⟩ | ⟨failed, rfl, rfl⟩⟩ := h
    · cases e with
      | serverClosed ok =>
        cases (hs rfl : ok = true)
        exact sound_unload rfl rfl hpromise _ _ fun _ _ => rfl
      | _ => rcases hpromise with rfl | rfl <;> simp [App.step, App.listen, App.close, App.startSettled, Sound]
    · cases e with
      | unloaded ok =>
        refine sound_unload rfl rfl hpromise _ _ fun hlast howns => hs failed ?_ howns
        obtain rfl : left = 1 := by omega
        rfl
      | _ => rcases hpromise with rfl | rfl <;> simp_all [App.step, App.listen, App.close, App.startSettled, Sound]
    · cases e with
      | disposed ok =>
        have hok : (failed || !ok) = false := hs failed rfl
        simpa [App.step, App.finish, hok, Sound] using hpromise
      | _ => rcases hpromise with rfl | rfl <;> simp [App.step, App.listen, App.close, App.startSettled, Sound]
  case closed =>
    obtain ⟨rfl, rfl | rfl, rfl⟩ := h <;> cases e <;> simp_all [Smooth, App.step, App.listen, App.close, App.startSettled, Sound]

/-- A step that is not smooth leaves a state that is not kept. -/
theorem smooth_of_kept {app : App} (h : Sound app) (e : Event) (hk : Kept (app.step e)) : Smooth app e := by
  obtain ⟨lifecycle, listenPromise, closePromise, listening, plugins, owns⟩ := app
  cases e with
  | listen validPort =>
    rintro rfl
    obtain ⟨rfl, rfl, rfl⟩ := h
    cases validPort with
    | true => rfl
    | false => exact absurd rfl (hk.1 rfl)
  | bindError =>
    rintro rfl
    simp [Kept, App.step, App.listen] at hk
  | serverClosed ok =>
    rintro rfl
    cases ok with
    | true => rfl
    | false =>
      have hclosed := (hk.2.2 false rfl).1
      cases lifecycle <;> simp_all [Sound, App.step]
  | unloaded ok =>
    rintro failed rfl rfl
    cases hfailed : failed || !ok with
    | false => rfl
    | true =>
      have hstep : App.step ⟨lifecycle, listenPromise, some (.unloading 1 failed), listening, plugins, false⟩ (.unloaded ok) =
          ⟨lifecycle, listenPromise, some (.settled false), listening, plugins, false⟩ := by
        simp [App.step, App.unload, App.dispose, App.finish, hfailed]
      rw [hstep] at hk
      have hclosed := (hk.2.2 false rfl).1
      cases lifecycle <;> simp_all [Sound]
  | disposed ok =>
    rintro failed rfl
    cases hfailed : failed || !ok with
    | false => rfl
    | true =>
      have hstep : App.step ⟨lifecycle, listenPromise, some (.disposing failed), listening, plugins, owns⟩ (.disposed ok) =
          ⟨lifecycle, listenPromise, some (.settled false), listening, plugins, owns⟩ := by
        simp [App.step, App.finish, hfailed]
      rw [hstep] at hk
      have hclosed := (hk.2.2 false rfl).1
      cases lifecycle <;> simp_all [Sound]
  | _ => trivial

/-- The lifecycle goes on, or back from a start that failed. -/
def Follows (before after : LifecycleState) : Prop :=
  before.rank ≤ after.rank ∨ before = .starting ∧ after = .created

theorem rank_unload (app : App) (left : Nat) (failed : Bool) : app.lifecycleState.rank ≤ (app.unload left failed).lifecycleState.rank := by
  obtain ⟨lifecycle, listenPromise, closePromise, listening, plugins, owns⟩ := app
  unfold App.unload App.dispose App.finish
  cases lifecycle <;> cases owns <;> cases failed <;> by_cases hleft : left = 0 <;> simp [hleft, LifecycleState.rank]

theorem rank_drain (app : App) : 3 ≤ app.drain.lifecycleState.rank := by
  unfold App.drain
  split
  · exact Nat.le_refl 3
  · exact rank_unload { app with lifecycleState := .draining } _ _

theorem follows_step {app : App} (h : Sound app) (e : Event) (hs : Smooth app e) :
    Follows app.lifecycleState (app.step e).lifecycleState := by
  obtain ⟨lifecycle, listenPromise, closePromise, listening, plugins, owns⟩ := app
  cases lifecycle <;> simp only [Sound] at h
  case created => exact .inl (Nat.zero_le _)
  case starting =>
    cases hafter : (App.step ⟨.starting, listenPromise, closePromise, listening, plugins, owns⟩ e).lifecycleState with
    | created => exact .inr ⟨rfl, rfl⟩
    | _ => exact .inl (show LifecycleState.starting.rank ≤ _ by decide)
  case running =>
    left
    obtain ⟨rfl, rfl | rfl⟩ := h
    · cases e with
      | close => exact Nat.le_of_succ_le (rank_drain _)
      | _ => simp [App.step, App.listen, App.startSettled]
    · cases e with
      | startSettled => exact Nat.le_of_succ_le (rank_drain _)
      | _ => simp [App.step, App.listen, App.close]
  case draining =>
    left
    obtain ⟨-, hpromise, rfl | ⟨left, failed, rfl, -⟩ | ⟨failed, rfl, -⟩⟩ := h
    · cases e with
      | serverClosed ok =>
        cases (hs rfl : ok = true)
        exact rank_unload _ _ _
      | _ => rcases hpromise with rfl | rfl <;> simp [App.step, App.listen, App.close, App.startSettled]
    · cases e with
      | unloaded ok => exact rank_unload _ _ _
      | _ => rcases hpromise with rfl | rfl <;> simp [App.step, App.listen, App.close, App.startSettled]
    · cases e with
      | disposed ok =>
        have hok : (failed || !ok) = false := hs failed rfl
        simp [App.step, App.finish, hok, LifecycleState.rank]
      | _ => rcases hpromise with rfl | rfl <;> simp [App.step, App.listen, App.close, App.startSettled]
  case closed =>
    left
    obtain ⟨-, rfl | rfl, rfl⟩ := h <;> cases e <;> simp [App.step, App.listen, App.close, App.startSettled]

def Lifecycle (ownsContainer : Bool) (es : List Event) : Prop :=
  ∀ n, Kept (run App.step (.new ownsContainer) (es.take n)) ∧ Follows (run App.step (.new ownsContainer) (es.take n)).lifecycleState
      (run App.step (.new ownsContainer) (es.take (n + 1))).lifecycleState

/-- **Every state is kept and follows the one before iff every step is smooth.** -/
theorem lifecycle_iff (ownsContainer : Bool) (es : List Event) :
    Lifecycle ownsContainer es ↔ Guarded App.step Smooth (.new ownsContainer) es := by
  have hnew : Sound (.new ownsContainer) := ⟨rfl, rfl, rfl⟩
  have hkept := forall_take_iff_guarded App.step (P := Sound) (D := fun _ _ => True) (fun _ => kept_of_sound)
    (fun _ e h _ => sound_step h e) (fun _ e h _ => smooth_of_kept h e) es hnew (guarded_of_forall _ (fun _ _ => trivial) _ _)
  refine ⟨fun h => hkept.1 fun n => (h n).1, fun h n => ⟨hkept.2 h n, ?_⟩⟩
  have hsound : Sound (run App.step (.new ownsContainer) (es.take n)) :=
    take_invariant_of_guarded App.step (P := Sound) (fun _ e hs => sound_step hs e) h hnew n
  have hg := guarded_take App.step h (n + 1)
  rw [List.take_add_one] at hg ⊢
  cases he : es[n]? with
  | none => exact .inl (by simp)
  | some e =>
    rw [he, Option.toList_some, guarded_append] at hg
    rw [Option.toList_some, run_concat]
    exact follows_step hsound e hg.2.1

/-- A port that is in use: the failed start is kept, and `listen` does not bind again. -/
theorem lifecycle_counterexample : ¬ ∀ ownsContainer es, Lifecycle ownsContainer es := by
  intro h
  exact absurd ((h true [.listen true, .bindError] 2).1.2.1 rfl).1 (by decide)

end StreetJS.Http.Application
