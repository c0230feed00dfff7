/-
Recovery codes: `useRecoveryCode` reads the hashes that are left, takes the code's own out of its copy and writes the
copy back, and `verifyMfaStepUp` does so when the code is no TOTP. The codes accepted and the codes left are those
enrolled as long as every list written back was computed from the list that is stored.
-/
import StreetJS.Lib.Runs
import Mathlib.Data.List.Perm.Basic
import Mathlib.Logic.Function.Basic

namespace StreetJS.Auth

open StreetJS.Lib

structure MfaRow where
  secretB32 : String
  enabled : Bool
  recoveryHashes : List String
  deriving DecidableEq

inductive MfaMethod where
  | totp
  | recoveryCode
  deriving DecidableEq

/-- What a call waits for: a query, or the result on its way back. `verifyMfaStepUp` starts with the query of `verify`,
`useRecoveryCode` with its own. A call whose query is rejected goes on no further. -/
inductive MfaPhase where
  | verifying
  | verified (row : Option MfaRow)
  | selecting
  | selected (row : Option MfaRow)
  /-- The `UPDATE`, with the hashes that were read. -/
  | updating (hashes : List String)
  | done (method : Option MfaMethod)
  /-- `base32Decode` threw. -/
  | rejected
  deriving DecidableEq

structure MfaCall where
  userId : String
  code : String
  phase : MfaPhase
  deriving DecidableEq

/-- `accepted` records the hashes of the codes accepted, by user; the service does not read it. -/
structure MfaService where
  rows : String → Option MfaRow
  now : Nat
  calls : List MfaCall
  accepted : String → List String

inductive MfaEvent where
  | useRecoveryCode (userId code : String)
  | verifyMfaStepUp (userId code : String)
  /-- The database executes the statement of a call, or the call goes on with its result. -/
  | proceed (i : Nat)
  | tick (ms : Nat)

namespace MfaService

-- the digest of a code, and `verifyTotp` of a decoded secret, a code and the clock: nothing below depends on their answers
variable (hashCode : String → String) (verifyTotp : String → String → Nat → Option Bool)

def new (rows : String → Option MfaRow) (now : Nat) : MfaService := ⟨rows, now, [], fun _ => []⟩

variable (s : MfaService) (i : Nat) (call : MfaCall)

def setPhase (phase : MfaPhase) : MfaService := { s with calls := s.calls.set i { call with phase } }

def proceed : MfaService :=
  match call.phase with
  | .verifying => s.setPhase i call (.verified (s.rows call.userId))
  | .verified row => s.setPhase i call <|
    match row.filter MfaRow.enabled with
    | none => .selecting
    | some row =>
      match verifyTotp row.secretB32 call.code s.now with
      | some true => .done (some .totp)
      | some false => .selecting
      | none => .rejected
  | .selecting => s.setPhase i call (.selected (s.rows call.userId))
  | .selected row => s.setPhase i call <|
    match row.filter MfaRow.enabled with
    | none => .done none
    | some row => if hashCode call.code ∈ row.recoveryHashes then .updating row.recoveryHashes else .done none
  | .updating hashes =>
    -- `findIndex` and `splice` take the first of the equal hashes out
    let remaining := hashes.erase (hashCode call.code)
    { s.setPhase i call (.done (some .recoveryCode)) with
      rows := Function.update s.rows call.userId ((s.rows call.userId).map fun row => { row with recoveryHashes := remaining })
      accepted := Function.update s.accepted call.userId (hashCode call.code :: s.accepted call.userId) }
  | .done _ | .rejected => s

def step (s : MfaService) : MfaEvent → MfaService
  | .useRecoveryCode userId code => { s with calls := s.calls ++ [⟨userId, code, .selecting⟩] }
  | .verifyMfaStepUp userId code => { s with calls := s.calls ++ [⟨userId, code, .verifying⟩] }
  | .proceed i => s.calls[i]?.elim s (s.proceed hashCode verifyTotp i)
  | .tick ms => { s with now := s.now + ms }

/-- The hashes of a user's codes that are left. -/
def stored (rows : String → Option MfaRow) (userId : String) : List String :=
  (rows userId).elim [] MfaRow.recoveryHashes

/-- The codes accepted and the codes left are the codes enrolled. -/
def SingleUse (enrolled : String → Option MfaRow) (s : MfaService) : Prop :=
  ∀ userId, (s.accepted userId ++ stored s.rows userId).Perm (stored enrolled userId)

/-- A list is written back only while the stored hashes are those it was computed from. -/
def Orderly (s : MfaService) : MfaEvent → Prop
  | .proceed i => ∀ call hashes, s.calls[i]? = some call → call.phase = .updating hashes → stored s.rows call.userId = hashes
  | _ => True

/-- Where the codes enrolled are different, none is accepted twice, and none that is left has been accepted. -/
theorem SingleUse.once {enrolled : String → Option MfaRow} {s : MfaService} (h : SingleUse enrolled s) (userId : String)
    (hnodup : (stored enrolled userId).Nodup) :
    (s.accepted userId).Nodup ∧ ∀ hash ∈ s.accepted userId, hash ∉ stored s.rows userId := by
  obtain ⟨haccepted, -, hdisjoint⟩ := List.nodup_append.1 ((h userId).nodup_iff.2 hnodup)
  exact ⟨haccepted, fun hash hmem hleft => hdisjoint hash hmem hash hleft rfl⟩

/-! ## The invariant -/

/-- The hashes stored are among `hashes`. -/
def Holds (rows : String → Option MfaRow) (userId : String) (hashes : List String) : Prop :=
  ∃ row, rows userId = some row ∧ row.recoveryHashes.Sublist hashes

def CallOk (rows : String → Option MfaRow) (call : MfaCall) : Prop :=
  match call.phase with
  | .selected (some row) => Holds rows call.userId row.recoveryHashes
  | .updating hashes => hashCode call.code ∈ hashes ∧ Holds rows call.userId hashes
  | _ => True

structure Inv (enrolled : String → Option MfaRow) (s : MfaService) : Prop where
  single : SingleUse enrolled s
  calls : ∀ call ∈ s.calls, CallOk hashCode s.rows call

variable {hashCode verifyTotp} {enrolled : String → Option MfaRow} {s i call}

theorem CallOk.mono {rows rows' : String → Option MfaRow} (h : CallOk hashCode rows call)
    (hle : ∀ userId hashes, Holds rows userId hashes → Holds rows' userId hashes) : CallOk hashCode rows' call := by
  unfold CallOk at h ⊢
  split at h
  · exact hle _ _ h
  · exact ⟨h.1, hle _ _ h.2⟩
  · trivial

theorem Inv.start (h : Inv hashCode enrolled s) (hcall : CallOk hashCode s.rows call) :
    Inv hashCode enrolled { s with calls := s.calls ++ [call] } :=
  { h with calls := fun c hc => (List.mem_append.1 hc).elim (h.calls c) fun hc => List.mem_singleton.1 hc ▸ hcall }

/-- A call moves on, and nothing else changes. -/
theorem Inv.setPhase (h : Inv hashCode enrolled s) {phase : MfaPhase}
    (hcall : CallOk hashCode s.rows { call with phase }) : Inv hashCode enrolled (s.setPhase i call phase) :=
  { h with calls := fun c hc => (List.mem_or_eq_of_mem_set hc).elim (h.calls c) fun heq => heq ▸ hcall }

/-- A row that was read is there to be updated. -/
theorem callOk_selected (userId code : String) : CallOk hashCode s.rows ⟨userId, code, .selected (s.rows userId)⟩ := by
  cases hrow : s.rows userId with
  | none => trivial
  | some row => exact ⟨row, hrow, List.Sublist.refl _⟩

/-- **The list written back is the one that is left**, when it was computed from the one stored. -/
theorem Inv.update (h : Inv hashCode enrolled s) {hashes : List String} (hphase : call.phase = .updating hashes)
    (hcall : CallOk hashCode s.rows call) (hstored : stored s.rows call.userId = hashes) :
    Inv hashCode enrolled (s.proceed hashCode verifyTotp i call) := by
  simp only [CallOk, hphase] at hcall
  obtain ⟨hmem, row, hrow, -⟩ := hcall
  simp only [stored, hrow, Option.elim_some] at hstored
  simp only [proceed, hphase]
  refine ⟨fun userId => ?_, fun c hc => ?_⟩
  · by_cases huser : userId = call.userId
    · subst huser
      have hperm := h.single call.userId
      simp only [stored, hrow, Option.elim_some, hstored] at hperm
      simp only [stored, Function.update_self, hrow, Option.map_some, Option.elim_some]
      exact (List.perm_middle.symm.trans ((List.perm_cons_erase hmem).symm.append_left _)).trans hperm
    · simpa only [stored, Function.update_of_ne huser] using h.single userId
  · have hle : ∀ userId hashes', Holds s.rows userId hashes' → Holds (Function.update s.rows call.userId
        ((s.rows call.userId).map fun row => { row with recoveryHashes := hashes.erase (hashCode call.code) }))
        userId hashes' := by
      rintro userId hashes' ⟨row', hrow', hsub⟩
      by_cases huser : userId = call.userId
      · subst huser
        obtain rfl : row = row' := Option.some.inj (hrow.symm.trans hrow')
        exact ⟨_, by rw [Function.update_self, hrow]; rfl, (List.erase_sublist.trans (hstored ▸ hsub))⟩
      · exact ⟨row', by rwa [Function.update_of_ne huser], hsub⟩
    rcases List.mem_or_eq_of_mem_set hc with hc | rfl
    · exact (h.calls c hc).mono hle
    · trivial

theorem Inv.proceed (h : Inv hashCode enrolled s) (hcall : CallOk hashCode s.rows call)
    (hg : ∀ hashes, call.phase = .updating hashes → stored s.rows call.userId = hashes) :
    Inv hashCode enrolled (s.proceed hashCode verifyTotp i call) := by
  cases hphase : call.phase with
  | updating hashes => exact h.update hphase hcall (hg hashes hphase)
  | selected row =>
    simp only [MfaService.proceed, hphase]
    simp only [CallOk, hphase] at hcall
    refine h.setPhase ?_
    split
    · trivial
    · rename_i row' hrow
      obtain ⟨rfl, -⟩ := Option.filter_eq_some_iff.1 hrow
      split
      · rename_i hmem
        exact ⟨hmem, hcall⟩
      · trivial
  | verified row =>
    simp only [MfaService.proceed, hphase]
    refine h.setPhase ?_
    split
    · trivial
    · split <;> trivial
  | selecting =>
    simp only [MfaService.proceed, hphase]
    exact h.setPhase (callOk_selected _ _)
  | verifying =>
    simp only [MfaService.proceed, hphase]
    exact h.setPhase trivial
  | done => simpa only [MfaService.proceed, hphase] using h
  | rejected => simpa only [MfaService.proceed, hphase] using h

theorem Inv.step (h : Inv hashCode enrolled s) {ev : MfaEvent} (hg : Orderly s ev) :
    Inv hashCode enrolled (s.step hashCode verifyTotp ev) := by
  cases ev with
  | useRecoveryCode userId code => exact h.start trivial
  | verifyMfaStepUp userId code => exact h.start trivial
  | proceed i =>
    unfold MfaService.step
    dsimp only
    cases hi : s.calls[i]? with
    | none => exact h
    | some call => exact h.proceed (h.calls _ (List.mem_of_getElem? hi)) fun hashes => hg call hashes hi
  | tick ms => exact { h with }

/-- A list written back restores or removes a code unless it was computed from the list stored: the stored list is as
long as the one that was read, and so it is that one. -/
theorem Inv.orderly (h : Inv hashCode enrolled s) {ev : MfaEvent}
    (hnext : SingleUse enrolled (s.step hashCode verifyTotp ev)) : Orderly s ev := by
  cases ev with
  | proceed i =>
    intro call hashes hi hphase
    have hcall := h.calls _ (List.mem_of_getElem? hi)
    simp only [CallOk, hphase] at hcall
    obtain ⟨hmem, row, hrow, hsub⟩ := hcall
    have hbefore := (h.single call.userId).length_eq
    have hafter := (hnext call.userId).length_eq
    simp only [MfaService.step, hi, Option.elim_some, MfaService.proceed, hphase, stored, Function.update_self, hrow,
      Option.map_some, List.length_append, List.length_cons, List.length_erase_of_mem hmem] at hbefore hafter ⊢
    have hpos := List.length_pos_of_mem hmem
    exact hsub.eq_of_length (by omega)
  | _ => trivial

/-- **The codes accepted and the codes left are those enrolled in every state of a run exactly when every list written
back was computed from the list stored.** -/
theorem singleUse_iff (hashCode : String → String) (verifyTotp : String → String → Nat → Option Bool)
    (enrolled : String → Option MfaRow) (now : Nat) (es : List MfaEvent) :
    (∀ n, SingleUse enrolled (run (step hashCode verifyTotp) (new enrolled now) (es.take n))) ↔
      Guarded (step hashCode verifyTotp) Orderly (new enrolled now) es :=
  forall_take_iff_guarded (P := Inv hashCode enrolled) (D := fun _ _ => True) (step hashCode verifyTotp)
    (fun _ h => h.single) (fun _ _ h _ hg => h.step hg) (fun _ _ h _ hnext => h.orderly hnext) es
    ⟨fun _ => .refl _, nofun⟩ (guarded_of_forall _ (fun _ _ => trivial) _ _)

/-- Two calls with the same code read the hashes before either writes: both are accepted. With different codes, the
second write restores the code of the first. -/
theorem singleUse_counterexample : let enrolled := fun _ : String => some (MfaRow.mk "JBSWY3DP" true ["a1b2c3d4e5", "0f1e2d3c4b"])
    let final := fun code => run (step id fun _ _ _ => some false) (new enrolled 0) [.useRecoveryCode "ada" "a1b2c3d4e5",
      .useRecoveryCode "ada" code, .proceed 0, .proceed 1, .proceed 0, .proceed 1, .proceed 0, .proceed 1]
    ¬SingleUse enrolled (final "a1b2c3d4e5") ∧ ¬SingleUse enrolled (final "0f1e2d3c4b") := by
  constructor
  · exact fun h => absurd (h.once "ada" (by decide)).1 (by decide +kernel)
  · exact fun h => (h.once "ada" (by decide)).2 "a1b2c3d4e5" (by decide +kernel) (by decide +kernel)

end MfaService

end StreetJS.Auth
