/-
Whether a queue starts no more jobs in a window than its limit says, and what a deferral does to its job.
The count and the hit of a check are two awaits, each worker has its own chain of checks, and the store has
bounds of its own.
-/
import StreetJS.Queue.RateLimit

namespace StreetJS.Queue

open StreetJS.Lib StreetJS.Store SlidingWindow InMemoryRateLimitStore
open List hiding count

variable {P : Type}

/-! ## The property and its condition -/

/-- The instants of a queue's stamps. -/
def instants (stamps : List Stamp) (queue : String) : List Int :=
  (stamps.filter fun st => st.2.1 = queue).map fun st => st.2.2

/-- No window of a limited queue has more starts than its limit. -/
def RateKept (context : RateContext) (s : RateLimited P) : Prop :=
  ∀ queue limit, context.rateLimits.get queue = some limit → ∀ t, within limit.windowMs t (instants s.starts queue) ≤ limit.requests

def issuedOf (s : DriverRun P) (id : String) : Nat := s.issued.countP fun r => r.envelope.id = id

def deferralsOf (s : RateLimited P) (id : String) : Nat :=
  s.executions.countP fun e => e.reservation.envelope.id = id ∧ e.admission = .deferred

/-- Every reservation but a deferred one has consumed one attempt, and a deferral leaves every job in as many
places as it was in. -/
structure Transparent (context : RateContext) (s : RateLimited P) : Prop where
  attempts : ∀ id, issuedOf s.run id = s.run.driver.attemptsOf id + deferralsOf s id
  kept : ∀ x id, (s.step context (.defer x)).run.driver.occurs id = s.run.driver.occurs id

def Admission.isCounted : Admission → Bool
  | .counted _ _ => true
  | _ => false

/-- A check counts while no other execution of its queue is between its count and its hit, and no later than
any that was admitted; a hit finds room for its key; a job starts at the instant of its check. -/
def Alone (context : RateContext) (s : RateLimited P) : RateEvent P → Prop
  | .check x now => ∀ e, s.executions[x]? = some e →
    (∀ f ∈ s.executions, f.reservation.queue = e.reservation.queue → f.admission.isCounted = false) ∧
      ∀ a ∈ instants s.admissions e.reservation.queue, a ≤ now
  | .decide x => ∀ e, s.executions[x]? = some e → s.store.has e.reservation.queue = true ∨ s.store.length < context.store.maxKeys
  | .start x now => ∀ e now', s.executions[x]? = some e → e.admission = .admitted now' → now' = now
  | _ => True

/-! ## What a step does -/

section

variable {context : RateContext} {s : RateLimited P}

/-- The steps of the system, each with what it requires. -/
inductive StepCase (context : RateContext) (s : RateLimited P) : RateEvent P → RateLimited P → Prop where
  | same (ev : RateEvent P) : StepCase context s ev s
  | driver (op : DriverOp P) : StepCase context s (.driver op) { s with run := s.run.step op }
  | reserved (worker : Nat) (queues : List String) (visibilityMs now : Int) (reservation : Reservation P)
      (admission : Admission) (rateCheckChain : Nat → List Nat)
      (hr : (s.run.driver.reserve queues visibilityMs now).2 = some reservation)
      (ha : context.rateLimits.has reservation.queue = true ∧ admission = .waiting ∨
        context.rateLimits.has reservation.queue = false ∧ admission = .unlimited) :
      StepCase context s (.reserve worker queues visibilityMs now) { s with
          run := s.run.step (.reserve queues visibilityMs now)
          executions := s.executions ++ [{ worker, reservation, admission }]
          rateCheckChain }
  | unreserved (worker : Nat) (queues : List String) (visibilityMs now : Int) : StepCase context s (.reserve worker queues visibilityMs now)
        { s with run := s.run.step (.reserve queues visibilityMs now) }
  | counted (x : Nat) (e : Execution P) (limit : ResolvedRateLimit) (now : Int) (hx : s.executions[x]? = some e)
      (he : e.admission = .waiting) (hl : context.rateLimits.get e.reservation.queue = some limit) :
      StepCase context s (.check x now) (s.move x e (.counted now (s.store.count e.reservation.queue now limit.windowMs)))
  | refused (x : Nat) (e : Execution P) (now : Int) (inWindow : Nat) (rateCheckChain : Nat → List Nat)
      (hx : s.executions[x]? = some e) (he : e.admission = .counted now inWindow) :
      StepCase context s (.decide x) { s.move x e (.deferring now) with rateCheckChain }
  | hit (x : Nat) (e : Execution P) (limit : ResolvedRateLimit) (now : Int) (inWindow : Nat)
      (rateCheckChain : Nat → List Nat) (hx : s.executions[x]? = some e) (he : e.admission = .counted now inWindow)
      (hl : context.rateLimits.get e.reservation.queue = some limit) (hlt : inWindow < limit.requests) :
      StepCase context s (.decide x) { s.move x e (.admitted now) with
          rateCheckChain
          store := (s.store.hit context.store e.reservation.queue now limit.windowMs).1
          admissions := s.admissions ++ [(x, e.reservation.queue, now)] }
  | deferred (x : Nat) (e : Execution P) (limit : ResolvedRateLimit) (now : Int) (hx : s.executions[x]? = some e)
      (he : e.admission = .deferring now) (hl : context.rateLimits.get e.reservation.queue = some limit) :
      StepCase context s (.defer x) (s.defer x e limit now)
  | started (x : Nat) (e : Execution P) (now : Int) (hx : s.executions[x]? = some e)
      (he : (∃ now', e.admission = .admitted now') ∨ e.admission = .unlimited) :
      StepCase context s (.start x now) (s.start x e now)

theorem step_cases (context : RateContext) (s : RateLimited P) (ev : RateEvent P) : StepCase context s ev (s.step context ev) := by
  cases ev with
  | driver op => exact .driver op
  | reserve worker queues visibilityMs now =>
    show StepCase context s _ (s.reserve context worker queues visibilityMs now)
    unfold RateLimited.reserve
    cases hr : (s.run.driver.reserve queues visibilityMs now).2 with
    | none => exact .unreserved worker queues visibilityMs now
    | some reservation =>
      dsimp only
      split
      · rename_i hl
        exact .reserved worker queues visibilityMs now reservation _ _ hr (.inl ⟨hl, rfl⟩)
      · rename_i hl
        exact .reserved worker queues visibilityMs now reservation _ _ hr (.inr ⟨Bool.eq_false_iff.2 hl, rfl⟩)
  | check x now =>
    simp only [RateLimited.step]
    cases hx : s.executions[x]? with
    | none => exact .same _
    | some e =>
      dsimp only
      cases he : e.admission with
      | waiting =>
        cases hl : context.rateLimits.get e.reservation.queue with
        | none => exact .same _
        | some limit =>
          dsimp only [RateLimited.check]
          split
          · exact .counted x e limit now hx he hl
          · exact .same _
      | _ => exact .same _
  | decide x =>
    simp only [RateLimited.step]
    cases hx : s.executions[x]? with
    | none => exact .same _
    | some e =>
      dsimp only
      cases he : e.admission with
      | counted now inWindow =>
        cases hl : context.rateLimits.get e.reservation.queue with
        | none => exact .same _
        | some limit =>
          dsimp only [RateLimited.decide]
          split
          · exact .refused x e now inWindow _ hx he
          · rename_i hlt
            exact .hit x e limit now inWindow _ hx he hl (not_le.1 hlt)
      | _ => exact .same _
  | defer x =>
    simp only [RateLimited.step]
    cases hx : s.executions[x]? with
    | none => exact .same _
    | some e =>
      dsimp only
      cases he : e.admission with
      | deferring now =>
        cases hl : context.rateLimits.get e.reservation.queue with
        | none => exact .same _
        | some limit => exact .deferred x e limit now hx he hl
      | _ => exact .same _
  | start x now =>
    simp only [RateLimited.step]
    cases hx : s.executions[x]? with
    | none => exact .same _
    | some e =>
      dsimp only
      cases he : e.admission with
      | admitted now' => exact .started x e now hx (.inl ⟨now', he⟩)
      | unlimited => exact .started x e now hx (.inr he)
      | _ => exact .same _

theorem getElem?_move {x : Nat} {e : Execution P} (hx : s.executions[x]? = some e) (admission : Admission) (y : Nat) :
    (s.move x e admission).executions[y]? = if y = x then some { e with admission } else s.executions[y]? := by
  have hlt := (of_getElem?_eq_some hx)
  simp only [RateLimited.move, getElem?_set]
  by_cases hy : y = x
  · rw [if_pos hy, if_pos hy.symm, if_pos (hy ▸ hlt)]
  · rw [if_neg hy, if_neg fun h => hy h.symm]

theorem move_cases {x y : Nat} {e f : Execution P} (hx : s.executions[x]? = some e) {admission : Admission}
    (hy : (s.move x e admission).executions[y]? = some f) :
    y = x ∧ f = { e with admission } ∨ y ≠ x ∧ s.executions[y]? = some f := by
  rw [getElem?_move hx] at hy
  split at hy
  · rename_i hyx
    cases hy
    exact .inl ⟨hyx, rfl⟩
  · rename_i hyx
    exact .inr ⟨hyx, hy⟩

theorem instants_concat (stamps : List Stamp) (x : Nat) (queue queue' : String) (now : Int) :
    instants (stamps ++ [(x, queue', now)]) queue = instants stamps queue ++ if queue' = queue then [now] else [] := by
  unfold instants
  rw [filter_append, map_append]
  congr 1
  by_cases h : queue' = queue
  · rw [if_pos h, filter_cons_of_pos (by simpa using h)]
    rfl
  · rw [if_neg h, filter_cons_of_neg (by simpa using h)]
    rfl

end

/-! ## The bound -/

/-- The invariant of a queue with a limit. The hits that the store keeps of it tell the count of every later
window; a check between its count and its hit is the only one, and its count still stands; what has been
started was admitted, once. -/
structure Paced (queue : String) (limit : ResolvedRateLimit) (s : RateLimited P) : Prop where
  ascending : (instants s.admissions queue).Pairwise (· ≤ ·)
  recorded : (s.store.timestamps queue).Sublist (instants s.admissions queue)
  counts : ∀ now, (∀ a ∈ instants s.admissions queue, a ≤ now) →
    s.store.count queue now limit.windowMs = since (now - limit.windowMs) (instants s.admissions queue)
  bound : ∀ t, within limit.windowMs t (instants s.admissions queue) ≤ limit.requests
  alone : ∀ (x : Nat) (e : Execution P) (now : Int) (n : Nat), s.executions[x]? = some e →
    e.reservation.queue = queue → e.admission = .counted now n →
    n = s.store.count queue now limit.windowMs ∧ (∀ a ∈ instants s.admissions queue, a ≤ now) ∧
      ∀ (y : Nat) (f : Execution P), s.executions[y]? = some f → f.reservation.queue = queue → f.admission.isCounted = true → y = x
  admitted : ∀ (x : Nat) (e : Execution P) (now : Int), s.executions[x]? = some e → e.reservation.queue = queue →
    e.admission = .admitted now → (x, queue, now) ∈ s.admissions
  limited : ∀ e ∈ s.executions, e.reservation.queue = queue → e.admission ≠ .unlimited
  started : ∀ st ∈ s.starts, st.2.1 = queue → st ∈ s.admissions
  gone : ∀ st ∈ s.starts, ∃ e, s.executions[st.1]? = some e ∧ e.admission = .started
  once : s.starts.Nodup

section

variable {context : RateContext} {queue : String} {limit : ResolvedRateLimit} {s : RateLimited P}

theorem Paced.kept (h : Paced queue limit s) (t : Int) : within limit.windowMs t (instants s.starts queue) ≤ limit.requests := by
  have hsub : (s.starts.filter fun st => st.2.1 = queue).Subperm (s.admissions.filter fun st => st.2.1 = queue) := by
    refine subperm_of_subset (h.once.filter _) fun st hst => ?_
    obtain ⟨hmem, hq⟩ := mem_filter.1 hst
    exact mem_filter.2 ⟨h.started st hmem (by simpa using hq), hq⟩
  obtain ⟨stamps, hperm, hsub⟩ := hsub
  have hle : within limit.windowMs t (instants s.starts queue) ≤ within limit.windowMs t (instants s.admissions queue) := by
    unfold within instants
    rw [← (hperm.map fun st => st.2.2).countP_eq]
    exact (hsub.map _).countP_le
  exact le_trans hle (h.bound t)

theorem Paced.reserved (h : Paced queue limit s) {e : Execution P} {run : DriverRun P} {rateCheckChain : Nat → List Nat}
    (hw : e.admission = .waiting ∨ e.reservation.queue ≠ queue ∧ e.admission = .unlimited) :
    Paced queue limit { s with run, executions := s.executions ++ [e], rateCheckChain } := by
  have hold : ∀ (y : Nat) (f : Execution P), (s.executions ++ [e])[y]? = some f → f.reservation.queue = queue →
      s.executions[y]? = some f ∨ f.admission = .waiting := by
    intro y f hy hq
    rw [getElem?_append] at hy
    split at hy
    · exact .inl hy
    · have hf := mem_singleton.1 (mem_of_getElem? hy)
      subst hf
      rcases hw with hw | ⟨hne, -⟩
      · exact .inr hw
      · exact absurd hq hne
  refine ⟨h.ascending, h.recorded, h.counts, h.bound, fun y f now n hy hq hf => ?_, fun y f now hy hq hf => ?_,
    fun f hf hq => ?_, h.started, fun st hst => ?_, h.once⟩
  · rcases hold y f hy hq with hy | hwait
    · obtain ⟨hn, hle, halone⟩ := h.alone y f now n hy hq hf
      refine ⟨hn, hle, fun z g hz hqz hg => ?_⟩
      rcases hold z g hz hqz with hz | hwait
      · exact halone z g hz hqz hg
      · rw [hwait] at hg
        cases hg
    · rw [hwait] at hf
      cases hf
  · rcases hold y f hy hq with hy | hwait
    · exact h.admitted y f now hy hq hf
    · rw [hwait] at hf
      cases hf
  · rcases mem_append.1 hf with hf | hf
    · exact h.limited f hf hq
    · rw [mem_singleton.1 hf] at hq ⊢
      rcases hw with hw | ⟨hne, -⟩
      · rw [hw]
        exact nofun
      · exact absurd hq hne
  · obtain ⟨f, hf, hs⟩ := h.gone st hst
    refine ⟨f, ?_, hs⟩
    rw [getElem?_append_left (List.getElem?_eq_some_iff.1 hf).1]
    exact hf

end

section

variable {context : RateContext} {queue : String} {limit : ResolvedRateLimit} {s : RateLimited P}

variable {x : Nat} {e : Execution P}

section

variable (h : Paced queue limit s) (hx : s.executions[x]? = some e)
include h hx

theorem Paced.gone_move {admission : Admission} (hstarted : e.admission ≠ .started) (st : Stamp) (hst : st ∈ s.starts) :
    ∃ f, (s.move x e admission).executions[st.1]? = some f ∧ f.admission = .started := by
  obtain ⟨f, hf, hs⟩ := h.gone st hst
  have hne : st.1 ≠ x := by
    intro heq
    rw [heq, hx] at hf
    cases hf
    exact hstarted hs
  refine ⟨f, ?_, hs⟩
  rw [getElem?_move hx, if_neg hne]
  exact hf

/-- A move that is not from where it started and, for a job of the queue, not to a count nor to an admission. -/
theorem Paced.move {admission : Admission} (hstarted : e.admission ≠ .started) (hmine : e.reservation.queue = queue →
      admission.isCounted = false ∧ (∀ now, admission ≠ .admitted now) ∧ admission ≠ .unlimited) :
    Paced queue limit (s.move x e admission) :=
  { h with
    alone := fun y f now n hy hq hf => by
      rcases move_cases hx hy with ⟨-, rfl⟩ | ⟨-, hy⟩
      · have hf' : admission = .counted now n := hf
        have hcounted := (hmine hq).1
        rw [hf'] at hcounted
        cases hcounted
      · obtain ⟨hn, hle, halone⟩ := h.alone y f now n hy hq hf
        refine ⟨hn, hle, fun z g hz hqz hg => ?_⟩
        rcases move_cases hx hz with ⟨-, rfl⟩ | ⟨-, hz⟩
        · cases (hmine hqz).1.symm.trans hg
        · exact halone z g hz hqz hg
    admitted := fun y f now hy hq hf => by
      rcases move_cases hx hy with ⟨-, rfl⟩ | ⟨-, hy⟩
      · exact absurd hf ((hmine hq).2.1 now)
      · exact h.admitted y f now hy hq hf
    limited := fun f hf hq => by
      rcases mem_or_eq_of_mem_set hf with hf | rfl
      · exact h.limited f hf hq
      · exact (hmine hq).2.2
    gone := h.gone_move hx hstarted }

theorem Paced.moveOther (hq : e.reservation.queue ≠ queue) (hstarted : e.admission ≠ .started) (admission : Admission) :
    Paced queue limit (s.move x e admission) :=
  h.move hx hstarted fun heq => absurd heq hq

theorem Paced.counted {now : Int} (he : e.admission = .waiting)
    (halone : ∀ f ∈ s.executions, f.reservation.queue = queue → f.admission.isCounted = false)
    (hle : ∀ a ∈ instants s.admissions queue, a ≤ now) :
    Paced queue limit (s.move x e (.counted now (s.store.count queue now limit.windowMs))) where
  ascending := h.ascending
  recorded := h.recorded
  counts := h.counts
  bound := h.bound
  alone y f now' n hy hqf hf := by
    have hself : ∀ z g, (s.move x e (.counted now (s.store.count queue now limit.windowMs))).executions[z]? = some g →
        g.reservation.queue = queue → g.admission.isCounted = true → z = x := by
      intro z g hz hqz hg
      rcases move_cases hx hz with ⟨hzx, -⟩ | ⟨-, hz⟩
      · exact hzx
      · rw [halone g (mem_of_getElem? hz) hqz] at hg
        cases hg
    obtain rfl : y = x := hself y f hy hqf (by rw [hf]; rfl)
    rcases move_cases hx hy with ⟨-, rfl⟩ | ⟨hne, -⟩
    · cases hf
      exact ⟨rfl, hle, hself⟩
    · exact absurd rfl hne
  admitted y f now' hy hqf hf := by
    rcases move_cases hx hy with ⟨-, rfl⟩ | ⟨-, hy⟩
    · cases hf
    · exact h.admitted y f now' hy hqf hf
  limited f hf hqf := by
    rcases mem_or_eq_of_mem_set hf with hf | rfl
    · exact h.limited f hf hqf
    · exact nofun
  started := h.started
  gone := h.gone_move hx (by rw [he]; exact nofun)
  once := h.once

theorem Paced.hit {now : Int} {n : Nat} {rateCheckChain : Nat → List Nat} (he : e.admission = .counted now n)
    (hq : e.reservation.queue = queue) (hlt : n < limit.requests)
    (hcap : limit.requests ≤ context.store.maxRequestsPerKey) :
    Paced queue limit { s.move x e (.admitted now) with
        rateCheckChain
        store := (s.store.hit context.store queue now limit.windowMs).1
        admissions := s.admissions ++ [(x, queue, now)] } := by
  obtain ⟨hn, hle, halone⟩ := h.alone x e now n hx hq he
  have hinst : instants (s.admissions ++ [(x, queue, now)]) queue = instants s.admissions queue ++ [now] := by
    rw [instants_concat, if_pos rfl]
  have hsorted := h.ascending.sublist h.recorded
  have htimes : timestamps (s.store.hit context.store queue now limit.windowMs).1 queue =
      prune (now - limit.windowMs) (s.store.timestamps queue) ++ [now] :=
    timestamps_hit hsorted (by omega)
  have hroom : since (now - limit.windowMs) (instants s.admissions queue) < limit.requests := by
    rw [← h.counts now hle, ← hn]
    exact hlt
  refine ⟨?_, ?_, fun now' hle' => ?_, fun t => ?_, fun y f now' n' hy hqf hf => ?_, fun y f now' hy hqf hf => ?_,
    fun f hf hqf => ?_, fun st hst hqs => mem_append_left _ (h.started st hst hqs), h.gone_move hx (by rw [he]; exact nofun), h.once⟩
  · rw [hinst]
    refine pairwise_append.2 ⟨h.ascending, pairwise_singleton _ _, fun a ha b hb => ?_⟩
    rw [mem_singleton.1 hb]
    exact hle a ha
  · rw [hinst, htimes]
    exact (prune_sublist.trans h.recorded).append (List.Sublist.refl _)
  · rw [hinst] at hle'
    have hnow : now ≤ now' := hle' now (mem_append_right _ (mem_singleton.2 rfl))
    have hold := h.counts now' fun a ha => hle' a (mem_append_left _ ha)
    show since (now' - limit.windowMs) (timestamps _ queue) = _
    rw [hinst, htimes, since, since, countP_append, countP_append]
    congr 1
    exact (since_prune (by omega)).trans hold
  · rw [hinst]
    exact within_concat h.bound hroom t
  · rcases move_cases hx hy with ⟨-, rfl⟩ | ⟨hne, hy⟩
    · cases hf
    · exact absurd (halone y f hy hqf (by rw [hf]; rfl)) hne
  · rcases move_cases hx hy with ⟨rfl, rfl⟩ | ⟨-, hy⟩
    · cases hf
      exact mem_append_right _ (mem_singleton.2 rfl)
    · exact mem_append_left _ (h.admitted y f now' hy hqf hf)
  · rcases mem_or_eq_of_mem_set hf with hf | rfl
    · exact h.limited f hf hqf
    · simp

theorem Paced.hitOther {now : Int} {n : Nat} {windowMs : Int}
    {rateCheckChain : Nat → List Nat} (he : e.admission = .counted now n)
    (hq : e.reservation.queue ≠ queue)
    (hroom : s.store.has e.reservation.queue = true ∨ s.store.length < context.store.maxKeys) :
    Paced queue limit { s.move x e (.admitted now) with
        rateCheckChain
        store := (s.store.hit context.store e.reservation.queue now windowMs).1
        admissions := s.admissions ++ [(x, e.reservation.queue, now)] } := by
  have hinst : instants (s.admissions ++ [(x, e.reservation.queue, now)]) queue = instants s.admissions queue := by
    rw [instants_concat, if_neg hq, append_nil]
  have htimes : timestamps (s.store.hit context.store e.reservation.queue now windowMs).1 queue =
      s.store.timestamps queue := timestamps_hit_of_ne hroom hq.symm
  have hmoved := h.moveOther hx hq (by rw [he]; exact nofun) (.admitted now)
  refine ⟨?_, ?_, fun now' hle' => ?_, fun t => ?_, fun y f now' n' hy hqf hf => ?_, fun y f now' hy hqf hf => ?_,
    hmoved.limited, fun st hst hqs => mem_append_left _ (h.started st hst hqs), hmoved.gone, h.once⟩
  · rw [hinst]
    exact h.ascending
  · rw [hinst, htimes]
    exact h.recorded
  · rw [hinst] at hle' ⊢
    rw [count, htimes]
    exact h.counts now' hle'
  · rw [hinst]
    exact h.bound t
  · obtain ⟨hn, hle, halone⟩ := hmoved.alone y f now' n' hy hqf hf
    refine ⟨?_, ?_, halone⟩
    · rw [count, htimes]
      exact hn
    · rw [hinst]
      exact hle
  · exact mem_append_left _ (hmoved.admitted y f now' hy hqf hf)

theorem Paced.start {now : Int} (he : (∃ now', e.admission = .admitted now') ∨ e.admission = .unlimited)
    (hnow : ∀ now', e.admission = .admitted now' → now' = now) : Paced queue limit (s.start x e now) := by
  have hrunning : e.admission ≠ .started := by
    rcases he with ⟨now', he⟩ | he
    · rw [he]
      exact nofun
    · rw [he]
      exact nofun
  have hmoved : Paced queue limit (s.move x e .started) := h.move hx hrunning fun _ => ⟨rfl, nofun, nofun⟩
  refine { hmoved with started := fun st hst hqs => ?_, gone := fun st hst => ?_, once := ?_ }
  · rcases mem_append.1 hst with hst | hst
    · exact h.started st hst hqs
    · rw [mem_singleton.1 hst] at hqs ⊢
      have hq : e.reservation.queue = queue := hqs
      rcases he with ⟨now', he⟩ | he
      · have hmem := h.admitted x e now' hx hq he
        rw [hnow now' he] at hmem
        rw [hq]
        exact hmem
      · exact absurd he (h.limited e (mem_of_getElem? hx) hq)
  · rcases mem_append.1 hst with hst | hst
    · exact hmoved.gone st hst
    · rw [mem_singleton.1 hst]
      refine ⟨{ e with admission := .started }, ?_, rfl⟩
      show (s.move x e .started).executions[x]? = _
      rw [getElem?_move hx, if_pos rfl]
  · refine nodup_append.2 ⟨h.once, nodup_singleton _, fun a ha b hb hab => ?_⟩
    obtain ⟨f, hf, hs⟩ := h.gone a ha
    rw [hab, mem_singleton.1 hb, hx] at hf
    cases hf
    exact hrunning hs

end

theorem Paced.step (hl : context.rateLimits.get queue = some limit)
    (hcap : limit.requests ≤ context.store.maxRequestsPerKey) (h : Paced queue limit s) {ev : RateEvent P}
    (hg : Alone context s ev) : Paced queue limit (s.step context ev) := by
  have hcase := step_cases context s ev
  generalize s.step context ev = s' at hcase
  cases hcase with
  | same => exact h
  | driver op => exact { h with }
  | unreserved => exact { h with }
  | reserved worker queues visibilityMs now reservation admission rateCheckChain hr ha =>
    refine h.reserved ?_
    rcases ha with ⟨-, rfl⟩ | ⟨hno, rfl⟩
    · exact .inl rfl
    · refine .inr ⟨fun hq => ?_, rfl⟩
      rw [hq] at hno
      cases hno.symm.trans (congrArg Option.isSome hl)
  | counted x e limit' now hx he hl' =>
    obtain ⟨halone, hle⟩ := hg e hx
    by_cases hq : e.reservation.queue = queue
    · rw [hq] at hl' halone hle ⊢
      rw [hl] at hl'
      cases hl'
      exact h.counted hx he halone hle
    · exact h.moveOther hx hq (by rw [he]; exact nofun) _
  | refused x e now n rateCheckChain hx he =>
    have hmoved : Paced queue limit (s.move x e (.deferring now)) :=
      h.move hx (by rw [he]; exact nofun) fun _ => ⟨rfl, nofun, nofun⟩
    exact { hmoved with }
  | hit x e limit' now n rateCheckChain hx he hl' hlt =>
    by_cases hq : e.reservation.queue = queue
    · rw [hq] at hl' ⊢
      rw [hl] at hl'
      cases hl'
      exact h.hit hx he hq hlt hcap
    · exact h.hitOther hx he hq (hg e hx)
  | deferred x e limit' now hx he hl' =>
    have hmoved : Paced queue limit (s.move x e .deferred) := h.move hx (by rw [he]; exact nofun) fun _ => ⟨rfl, nofun, nofun⟩
    exact { hmoved with }
  | started x e now hx he => exact h.start hx he fun now' hn => hg e now' hx hn

end

/-! ## Deferrals -/

section

variable {context : RateContext}

theorem foldl_attempts {B : Type} (f : MemoryDriver P → B → MemoryDriver P) (hf : ∀ d b, (f d b).attempts = d.attempts)
    (bs : List B) (d : MemoryDriver P) : (bs.foldl f d).attempts = d.attempts := by
  induction bs generalizing d with
  | nil => rfl
  | cons b bs ih => exact (ih (f d b)).trans (hf d b)

theorem promoteQueue_attempts (now : Int) (acc : MemoryDriver P × Nat) (queue : String) :
    (MemoryDriver.promoteQueue now acc queue).1.attempts = acc.1.attempts := by
  exact foldl_attempts (fun d (entry : DelayedEntry P) => d.enqueue queue entry.envelope) (fun _ _ => rfl) _ _

theorem promoteDue_attempts (d : MemoryDriver P) (now : Int) : (d.promoteDue now).1.attempts = d.attempts := by
  unfold MemoryDriver.promoteDue
  generalize d.delayed.map Prod.fst = queues
  suffices h : ∀ acc : MemoryDriver P × Nat, (queues.foldl (MemoryDriver.promoteQueue now) acc).1.attempts = acc.1.attempts from h (d, 0)
  induction queues with
  | nil => exact fun _ => rfl
  | cons queue queues ih => exact fun acc => (ih _).trans (promoteQueue_attempts now acc queue)

theorem nack_attempts (d : MemoryDriver P) (r : Reservation P) (runAt : Option Int) : (d.nack r runAt).attempts = d.attempts := by
  unfold MemoryDriver.nack
  split
  · cases runAt <;> rfl
  · rfl

theorem reserve_attempts (d : MemoryDriver P) (queues : List String) (visibilityMs now : Int) (id : String) :
    (d.reserve queues visibilityMs now).1.attemptsOf id =
      d.attemptsOf id + (d.reserve queues visibilityMs now).2.toList.countP fun r => r.envelope.id = id := by
  have hre : (d.reclaimExpiredLeases now).attempts = d.attempts :=
    foldl_attempts (fun d (e : Nat × LeaseRecord P) => d.reclaim e.1 e.2) (fun _ _ => rfl) _ _
  unfold MemoryDriver.reserve
  dsimp only
  split
  · rename_i queue envelope d' htake
    have hd : d'.attempts = d.attempts := (take_spec htake).2.2.1.trans hre
    simp only [MemoryDriver.lease, MemoryDriver.attemptsOf, OrderedMap.get_set, Option.toList_some, countP_singleton, hd]
    by_cases he : id = envelope.id
    · simp [he]
    · have hne : ¬ envelope.id = id := fun h => he h.symm
      simp [he, hne]
  · simp only [Option.toList_none, countP_nil, Nat.add_zero, MemoryDriver.attemptsOf, hre]

/-- Only a reservation issues and counts attempts. -/
theorem step_issues (s : DriverRun P) (op : DriverOp P) :
    (∃ queues visibilityMs now, (s.step op).driver = (s.driver.reserve queues visibilityMs now).1 ∧
      (s.step op).issued = s.issued ++ (s.driver.reserve queues visibilityMs now).2.toList) ∨
    (s.step op).driver.attempts = s.driver.attempts ∧ (s.step op).issued = s.issued := by
  have hcall : ∀ (i : Nat) (call : Reservation P → DriverRun P),
      (∀ r, (call r).driver.attempts = s.driver.attempts ∧ (call r).issued = s.issued) →
        (s.withReservation i call).driver.attempts = s.driver.attempts ∧ (s.withReservation i call).issued = s.issued := by
    intro i call h
    unfold DriverRun.withReservation
    cases s.issued[i]? with
    | none => exact ⟨rfl, rfl⟩
    | some r => exact h r
  cases op with
  | enqueue | enqueueDelayed => exact .inr ⟨rfl, rfl⟩
  | reserve queues visibilityMs now => exact .inl ⟨queues, visibilityMs, now, rfl, rfl⟩
  | ack i | moveToDeadLetter i => exact .inr (hcall i _ fun r => ⟨rfl, rfl⟩)
  | nack i runAt => exact .inr (hcall i _ fun r => ⟨nack_attempts _ r runAt, rfl⟩)
  | promoteDue now => exact .inr ⟨promoteDue_attempts _ now, rfl⟩

theorem step_attempts (s : DriverRun P) (op : DriverOp P) (id : String) :
    (s.step op).driver.attemptsOf id + issuedOf s id = s.driver.attemptsOf id + issuedOf (s.step op) id := by
  rcases step_issues s op with ⟨queues, visibilityMs, now, hd, hi⟩ | ⟨ha, hi⟩
  · rw [hd, reserve_attempts, issuedOf, issuedOf, hi, countP_append]
    omega
  · rw [MemoryDriver.attemptsOf, ha, issuedOf, issuedOf, hi]
    rfl

theorem issued_step (s : DriverRun P) (op : DriverOp P) : s.issued.Sublist (s.step op).issued := by
  rcases step_issues s op with ⟨queues, visibilityMs, now, -, hi⟩ | ⟨-, hi⟩
  · exact hi ▸ sublist_append_left _ _
  · exact hi ▸ List.Sublist.refl _

/-- The executions of a job. -/
def executionsOf (s : RateLimited P) (id : String) : Nat :=
  s.executions.countP fun e => e.reservation.envelope.id = id

/-- The invariant of the accounts: the driver is sound, executions are of reservations it has issued, and
attempts are the reservations that were not deferred. -/
structure Accounted (s : RateLimited P) : Prop where
  sound : Sound s.run
  issued : ∀ e ∈ s.executions, e.reservation ∈ s.run.issued
  attempts : ∀ id, issuedOf s.run id = s.run.driver.attemptsOf id + deferralsOf s id
  executed : ∀ id, executionsOf s id ≤ issuedOf s.run id

variable {s : RateLimited P}

theorem deferralsOf_le (s : RateLimited P) (id : String) : deferralsOf s id ≤ executionsOf s id :=
  countP_mono_left fun e _ he => by
    simp only [decide_eq_true_eq] at he ⊢
    exact he.1

variable {x : Nat} {e : Execution P}

theorem executionsOf_move (hx : s.executions[x]? = some e) (admission : Admission)
    (id : String) : executionsOf (s.move x e admission) id = executionsOf s id := by
  obtain ⟨hlt, rfl⟩ := List.getElem?_eq_some_iff.1 hx
  simp only [executionsOf, RateLimited.move, countP_set hlt]
  have hle := boole_getElem_le_countP (p := fun e => decide (e.reservation.envelope.id = id)) hlt
  omega

variable {admission : Admission}

theorem deferralsOf_move (hx : s.executions[x]? = some e) (he : e.admission ≠ .deferred) (ha : admission ≠ .deferred) (id : String) :
    deferralsOf (s.move x e admission) id = deferralsOf s id := by
  obtain ⟨hlt, rfl⟩ := List.getElem?_eq_some_iff.1 hx
  simp only [deferralsOf, RateLimited.move, countP_set hlt, he, ha, and_false, decide_false, Bool.false_eq_true,
    if_false, Nat.sub_zero, Nat.add_zero]

theorem deferralsOf_defer (hx : s.executions[x]? = some e) (he : e.admission ≠ .deferred) (id : String) :
    deferralsOf (s.move x e .deferred) id = deferralsOf s id + (if e.reservation.envelope.id = id then 1 else 0) := by
  obtain ⟨hlt, rfl⟩ := List.getElem?_eq_some_iff.1 hx
  simp only [deferralsOf, RateLimited.move, countP_set hlt, he, and_false, decide_false, Bool.false_eq_true,
    if_false, Nat.sub_zero, and_true, decide_eq_true_eq]

section

variable (h : Accounted s)
include h

theorem Accounted.move (hx : s.executions[x]? = some e) (he : e.admission ≠ .deferred) (ha : admission ≠ .deferred) :
    Accounted (s.move x e admission) where
  sound := h.sound
  issued f hf := by
    rcases mem_or_eq_of_mem_set hf with hf | rfl
    · exact h.issued f hf
    · exact h.issued e (mem_of_getElem? hx)
  attempts id := by
    rw [deferralsOf_move hx he ha]
    exact h.attempts id
  executed id := by
    rw [executionsOf_move hx]
    exact h.executed id

theorem defer_driver (hx : s.executions[x]? = some e) (limit : ResolvedRateLimit) (now : Int) :
    Rearranged s.run.driver (s.defer x e limit now).run.driver ∧ ∀ id, (s.defer x e limit now).run.driver.attemptsOf id =
        s.run.driver.attemptsOf id - (if e.reservation.envelope.id = id then 1 else 0) := by
  generalize hd : ({ s.run.driver with
    attempts := s.run.driver.attempts.set e.reservation.envelope.id
      (s.run.driver.attemptsOf e.reservation.envelope.id - 1) } : MemoryDriver P) = d
  have hrun : (s.defer x e limit now).run.driver = d.nack e.reservation (some (now + limit.windowMs)) := by
    rw [← hd]
    rfl
  have hsound : Sound { s.run with driver := d } := by
    rw [← hd]
    exact h.sound.moved (List.Sublist.refl _) rfl h.sound.known
  have hsame : Rearranged s.run.driver d := by
    rw [← hd]
    exact ⟨List.Sublist.refl _, rfl, fun _ => rfl⟩
  have hissued : e.reservation ∈ s.run.issued := h.issued e (mem_of_getElem? hx)
  rw [hrun]
  refine ⟨hsame.trans (nack_spec hsound hissued _), fun id => ?_⟩
  rw [MemoryDriver.attemptsOf, nack_attempts, ← hd, OrderedMap.get_set]
  by_cases hid : id = e.reservation.envelope.id
  · rw [if_pos hid, if_pos hid.symm, hid, Option.getD_some]
  · rw [if_neg hid, if_neg fun heq => hid heq.symm]
    rfl

theorem Accounted.defer (hx : s.executions[x]? = some e)
    (he : e.admission ≠ .deferred) (limit : ResolvedRateLimit) (now : Int) : Accounted (s.defer x e limit now) := by
  obtain ⟨hre, hatt⟩ := defer_driver h hx limit now
  have hdef := deferralsOf_defer hx he
  have hexec := executionsOf_move hx .deferred
  refine ⟨h.sound.moved hre.reserved hre.nextToken fun id hid => ?_, fun f hf => ?_, fun id => ?_, fun id => ?_⟩
  · have ho := hre.occurs id
    exact h.sound.known id (ho ▸ hid)
  · rcases mem_or_eq_of_mem_set hf with hf | rfl
    · exact h.issued f hf
    · exact h.issued e (mem_of_getElem? hx)
  · have hle := deferralsOf_le (s.move x e .deferred) id
    have hnow : deferralsOf (s.defer x e limit now) id = deferralsOf (s.move x e .deferred) id := rfl
    have hissued : issuedOf (s.defer x e limit now).run id = issuedOf s.run id := rfl
    have hexecuted := h.executed id
    have hattempts := h.attempts id
    rw [hissued, hatt, hnow, hdef]
    rw [hdef, hexec] at hle
    omega
  · have hnow : executionsOf (s.defer x e limit now) id = executionsOf (s.move x e .deferred) id := rfl
    rw [hnow, hexec]
    exact h.executed id

theorem Accounted.driver (op : DriverOp P) : Accounted { s with run := s.run.step op } where
  sound := (step_spec h.sound op).1
  issued e he := (issued_step s.run op).subset (h.issued e he)
  attempts id := by
    have hstep := step_attempts s.run op id
    have hold := h.attempts id
    show issuedOf (s.run.step op) id = (s.run.step op).driver.attemptsOf id + deferralsOf s id
    omega
  executed id := by
    have hmono : issuedOf s.run id ≤ issuedOf (s.run.step op) id := (issued_step s.run op).countP_le
    exact le_trans (h.executed id) hmono

theorem Accounted.reserved {worker : Nat} {queues : List String} {visibilityMs now : Int}
    {reservation : Reservation P} {rateCheckChain : Nat → List Nat}
    (hr : (s.run.driver.reserve queues visibilityMs now).2 = some reservation) (ha : admission ≠ .deferred) :
    Accounted { s with
      run := s.run.step (.reserve queues visibilityMs now)
      executions := s.executions ++ [{ worker, reservation, admission }]
      rateCheckChain } := by
  have hdriver := h.driver (.reserve queues visibilityMs now)
  have hissued : (s.run.step (.reserve queues visibilityMs now)).issued = s.run.issued ++ [reservation] := by
    show s.run.issued ++ (s.run.driver.reserve queues visibilityMs now).2.toList = _
    rw [hr]
    rfl
  refine ⟨hdriver.sound, fun e he => ?_, fun id => ?_, fun id => ?_⟩
  · rcases mem_append.1 he with he | he
    · exact hdriver.issued e he
    · rw [mem_singleton.1 he]
      rw [hissued]
      exact mem_append_right _ (mem_singleton.2 rfl)
  · have hnew : deferralsOf { s with executions := s.executions ++ [{ worker, reservation, admission }] } id = deferralsOf s id := by
      unfold deferralsOf
      rw [countP_append, countP_singleton, if_neg (by simp [ha]), Nat.add_zero]
    exact (hdriver.attempts id).trans (congrArg ((s.run.step _).driver.attemptsOf id + ·) hnew.symm)
  · have hexec := h.executed id
    show (s.executions ++ [_]).countP _ ≤ (s.run.step _).issued.countP _
    rw [hissued, countP_append, countP_append, countP_singleton, countP_singleton]
    exact Nat.add_le_add_right hexec _

theorem Accounted.step (context : RateContext) (ev : RateEvent P) : Accounted (s.step context ev) := by
  have hcase := step_cases context s ev
  generalize s.step context ev = s' at hcase
  cases hcase with
  | same => exact h
  | driver op => exact h.driver op
  | unreserved worker queues visibilityMs now => exact h.driver (.reserve queues visibilityMs now)
  | reserved worker queues visibilityMs now reservation admission rateCheckChain hr ha =>
    refine h.reserved hr ?_
    rcases ha with ⟨-, rfl⟩ | ⟨-, rfl⟩
    · exact nofun
    · exact nofun
  | counted x e limit now hx he hl => exact h.move hx (by rw [he]; exact nofun) nofun
  | refused x e now n rateCheckChain hx he =>
    have hmoved : Accounted (s.move x e (.deferring now)) := h.move hx (by rw [he]; exact nofun) nofun
    exact { hmoved with }
  | hit x e limit now n rateCheckChain hx he hl hlt =>
    have hmoved : Accounted (s.move x e (.admitted now)) := h.move hx (by rw [he]; exact nofun) nofun
    exact { hmoved with }
  | deferred x e limit now hx he hl => exact h.defer hx (by rw [he]; exact nofun) limit now
  | started x e now hx he =>
    have hne : e.admission ≠ .deferred := by
      rcases he with ⟨now', he⟩ | he
      · rw [he]
        exact nofun
      · rw [he]
        exact nofun
    have hmoved : Accounted (s.move x e .started) := h.move hx hne nofun
    exact { hmoved with }

theorem Accounted.transparent (context : RateContext) : Transparent context s := by
  refine ⟨h.attempts, fun x id => ?_⟩
  have hcase := step_cases context s (.defer x)
  generalize s.step context (.defer x) = s' at hcase
  cases hcase with
  | same => rfl
  | deferred x e limit now hx he hl => exact (defer_driver h hx limit now).1.occurs id

end

end

/-! ## Runs -/

/-- Over every run of any number of workers that share a driver and a store: a deferral gives its attempt
back and loses no job; and where no limit is above the store's bound for a key, no check of a queue counts
between another's count and its hit, the clock does not go back behind an admission or on between a check
and its start, and no key is evicted, no window has more starts of a queue than its limit. -/
theorem rate_kept_of_alone (context : RateContext) (es : List (RateEvent P)) : Transparent context (run (RateLimited.step context) {} es) ∧
      ((∀ queue limit, context.rateLimits.get queue = some limit → limit.requests ≤ context.store.maxRequestsPerKey) →
        Guarded (RateLimited.step context) (Alone context) {} es → RateKept context (run (RateLimited.step context) {} es)) := by
  constructor
  · have hstart : Accounted ({} : RateLimited P) :=
    ⟨sound_empty, fun _ he => absurd he not_mem_nil, fun _ => rfl, fun _ => le_rfl⟩
    have haccounted : Accounted (run (RateLimited.step context) {} es) :=
      run_invariant (RateLimited.step context) (fun s ev h => h.step context ev) es hstart
    exact haccounted.transparent context
  · intro hcap hg queue limit hl
    have hstart : Paced queue limit ({} : RateLimited P) :=
      { ascending := List.Pairwise.nil
        recorded := List.Sublist.refl _
        counts := fun _ _ => rfl
        bound := fun _ => Nat.zero_le _
        alone := fun x e now n hx => by cases hx
        admitted := fun x e now hx => by cases hx
        limited := fun e he => absurd he not_mem_nil
        started := fun st hst => absurd hst not_mem_nil
        gone := fun st hst => absurd hst not_mem_nil
        once := nodup_nil }
    have hpaced : Paced queue limit (run (RateLimited.step context) {} es) :=
      run_invariant_of_guarded (RateLimited.step context) (fun s ev h hg => h.step hl (hcap queue limit hl) hg) es hg hstart
    exact hpaced.kept

section

variable {context : RateContext} {s : RateLimited P} {x : Nat}

theorem alone_check {now : Int} (hcounted : ∀ f ∈ s.executions, f.admission.isCounted = false)
    (hle : ∀ st ∈ s.admissions, st.2.2 ≤ now) : Alone context s (.check x now) := by
  refine fun e _ => ⟨fun f hf _ => hcounted f hf, fun a ha => ?_⟩
  obtain ⟨st, hst, rfl⟩ := mem_map.1 ha
  exact hle st (mem_of_mem_filter hst)

theorem alone_decide (hroom : s.store.length < context.store.maxKeys) : Alone context s (.decide x) :=
  fun _ _ => .inr hroom

end

/-- A limit of the queue "mail" for 100 milliseconds, and the bound of the store. -/
def mailLimit (requests maxRequestsPerKey : Nat) : RateContext :=
  { rateLimits := [("mail", { requests, windowMs := 100 })], store := { maxRequestsPerKey } }

/-- Two jobs of the queue "mail", each reserved by a worker of its own. -/
def mailJobs : List (RateEvent Unit) :=
  [.driver (.enqueue "mail" { id := "a", type := "send", payload := (), seq := 0 }),
    .driver (.enqueue "mail" { id := "b", type := "send", payload := (), seq := 1 }),
    .reserve 0 ["mail"] 30000 0, .reserve 1 ["mail"] 30000 0]

/-- The first job is started, the second deferred. -/
def oneByOne : List (RateEvent Unit) :=
  mailJobs ++ [.check 0 0, .decide 0, .start 0 0, .check 1 5, .decide 1, .defer 1]

theorem rate_kept_of_alone_mail : Transparent (mailLimit 1 1000) (run (RateLimited.step (mailLimit 1 1000)) {} oneByOne) ∧
      RateKept (mailLimit 1 1000) (run (RateLimited.step (mailLimit 1 1000)) {} oneByOne) := by
  have hcap : ∀ queue limit, (mailLimit 1 1000).rateLimits.get queue = some limit →
      limit.requests ≤ (mailLimit 1 1000).store.maxRequestsPerKey := by
    intro queue limit hl
    have hmem := OrderedMap.get_mem hl
    cases mem_singleton.1 hmem
    decide
  have hstart : ∀ e now', (run (RateLimited.step (mailLimit 1 1000)) {} (oneByOne.take 6)).executions[0]? = some e →
      e.admission = .admitted now' → now' = 0 := by
    intro e now' he ha
    cases he
    cases ha
    rfl
  have hg : Guarded (RateLimited.step (mailLimit 1 1000)) (Alone (mailLimit 1 1000)) {} oneByOne :=
    ⟨trivial, trivial, trivial, trivial, alone_check (by decide) (by decide), alone_decide (by decide), hstart,
      alone_check (by decide) (by decide), alone_decide (by decide), trivial, trivial⟩
  exact ⟨(rate_kept_of_alone (mailLimit 1 1000) oneByOne).1, (rate_kept_of_alone (mailLimit 1 1000) oneByOne).2 hcap hg⟩

/-- Both workers count before either hits. -/
def bothCount : List (RateEvent Unit) :=
  mailJobs ++ [.check 0 0, .check 1 0, .decide 0, .decide 1, .start 0 0, .start 1 0]

/-- The first job is checked at 0 and started at 100; the second is checked at 101. -/
def slowStart : List (RateEvent Unit) :=
  mailJobs ++ [.check 0 0, .decide 0, .start 0 100, .check 1 101, .decide 1, .start 1 101]

/-- A third job, under a limit of two in a store that keeps one hit of a key. -/
def thirdJob : List (RateEvent Unit) :=
  mailJobs ++ [.driver (.enqueue "mail" { id := "c", type := "send", payload := (), seq := 2 }),
    .reserve 0 ["mail"] 30000 0, .check 0 0, .decide 0, .start 0 0, .check 1 1, .decide 1, .start 1 1, .check 2 2,
    .decide 2, .start 2 2]

/-- Two starts in a window of one, by two workers at once and by a start that comes late; and three in a window
of two, in a store that keeps one. -/
theorem overrun_counterexample : ¬ RateKept (mailLimit 1 1000) (run (RateLimited.step (mailLimit 1 1000)) {} bothCount) ∧
      ¬ RateKept (mailLimit 1 1000) (run (RateLimited.step (mailLimit 1 1000)) {} slowStart) ∧
      ¬ RateKept (mailLimit 2 1) (run (RateLimited.step (mailLimit 2 1)) {} thirdJob) := by
  refine ⟨fun h => ?_, fun h => ?_, fun h => ?_⟩
  · exact absurd (h "mail" _ rfl 0) (by decide)
  · exact absurd (h "mail" _ rfl 101) (by decide)
  · exact absurd (h "mail" _ rfl 2) (by decide)

end StreetJS.Queue
