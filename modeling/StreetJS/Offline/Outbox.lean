/-
What every undisturbed run of the offline outbox keeps: the stored mutations stand in the order of their
enqueueing, each with as many attempts as it had offers, and with what was sent, dropped and cleared they are
all that was enqueued.
-/
import StreetJS.Lib.ListSet
import StreetJS.Offline.MutationQueue

namespace StreetJS.Offline

open StreetJS.Lib MutationQueue List

variable {P : Type} {maxAttempts : Nat} {s : MutationQueue P}

/-! ## The log -/

theorem offersOf_append (log tail : List Record) : offersOf (log ++ tail) = offersOf log ++ offersOf tail :=
  filterMap_append

theorem settledIn_append (log tail : List Record) : settledIn (log ++ tail) = settledIn log ++ settledIn tail :=
  filterMap_append

/-- A flush has returned what it did. -/
def Reported (log : List Record) (number : Nat) (result : FlushResult) (stored : Nat) : Prop :=
  result.sent = log.countP (Record.sentBy number) ∧ result.dropped = log.countP (Record.droppedBy number) ∧ result.remaining = stored

/-- The record is not a deed of the flush. -/
def Record.spares (r : Record) (number : Nat) : Prop := r.sentBy number = false ∧ r.droppedBy number = false

variable {tail : List Record}

theorem countP_spared (log : List Record) {number : Nat} (h : ∀ r ∈ tail, r.spares number) :
    (log ++ tail).countP (Record.sentBy number) = log.countP (Record.sentBy number) ∧
      (log ++ tail).countP (Record.droppedBy number) = log.countP (Record.droppedBy number) := by
  have hs : tail.countP (Record.sentBy number) = 0 := countP_eq_zero.2 fun r hr => by simp [(h r hr).1]
  have hd : tail.countP (Record.droppedBy number) = 0 := countP_eq_zero.2 fun r hr => by simp [(h r hr).2]
  rw [countP_append, countP_append, hs, hd]
  exact ⟨rfl, rfl⟩

theorem Reported.append {log : List Record} {number stored : Nat} {result : FlushResult}
    (h : Reported log number result stored) (ht : ∀ r ∈ tail, r.spares number) :
    Reported (log ++ tail) number result stored := by
  obtain ⟨hs, hd⟩ := countP_spared log ht
  exact ⟨h.1.trans hs.symm, h.2.1.trans hd.symm, h.2.2⟩

/-! ## The invariant -/

/-- The mutation whose attempt a flush has made, and not stored yet. -/
def FlushPhase.head : FlushPhase P → Option (Entry P)
  | .reading => none
  | .offering head _ => some head
  | .removing head _ => some head
  | .retrying head _ => some head

def MutationQueue.current (s : MutationQueue P) : Option Nat :=
  s.flush.bind fun f => f.phase.head.map Entry.serial

/-- The counts of a flush in progress. -/
structure Counted (s : MutationQueue P) (f : Flush P) : Prop where
  number : f.number < s.flushes
  sent : f.sent = s.log.countP (Record.sentBy f.number)
  dropped : f.dropped = s.log.countP (Record.droppedBy f.number)
  unreturned : ∀ result stored, .flushed f.number result stored ∉ s.log
  alone : ∀ (c k : Nat), s.calls[c]? = some (.refused k) → k ≠ f.number

/-- What a call in progress holds. -/
def CallOk (s : MutationQueue P) : Call P → Prop
  | .enqueueWrite seen mutation => mutation.attempts = 0 ∧ mutation.id ∉ seen.map fun e => e.id
  | .refused k => k < s.flushes ∧ s.log.countP (Record.sentBy k) = 0 ∧ s.log.countP (Record.droppedBy k) = 0
  | _ => True

structure Sound (maxAttempts : Nat) (s : MutationQueue P) : Prop where
  accounted : (s.queued ++ settledIn s.log).Perm (List.range s.enqueued)
  serials : (s.outbox.map Entry.serial).Pairwise (· < ·)
  ids : (s.outbox.map fun e => e.id).Nodup
  /-- The stored attempts are the offers, but for the one a flush is about to store. -/
  attempts : ∀ e ∈ s.outbox, e.attempts < maxAttempts ∧
    (offersOf s.log).count e.serial = e.attempts + if s.current = some e.serial then 1 else 0
  bounded : ∀ n, (offersOf s.log).count n ≤ maxAttempts
  sorted : (offersOf s.log).Pairwise (· ≤ ·)
  below : ∀ m ∈ offersOf s.log, ∀ e ∈ s.outbox, m ≤ e.serial
  known : ∀ m ∈ offersOf s.log, m < s.enqueued
  final : s.log.Pairwise fun a b => ∀ n, a.settles = some n → b.offers ≠ some n
  results : ∀ number result stored, .flushed number result stored ∈ s.log → Reported s.log number result stored ∧ number < s.flushes
  counted : ∀ f, s.flush = some f → Counted s f
  head : ∀ f head, s.flush = some f → f.phase.head = some head → head.serial < s.enqueued
  retries : ∀ f head rest, s.flush = some f → f.phase = .retrying head rest → head.attempts + 1 < maxAttempts
  calls : ∀ (c : Nat) call, s.calls[c]? = some call → CallOk s call
  /-- The numbers of the records are numbers of flushes that were begun. -/
  begun : ∀ k, s.flushes ≤ k → ∀ r ∈ s.log, r.spares k

theorem sound_empty : Sound maxAttempts ({} : MutationQueue P) := by
  constructor <;> simp [queued, settledIn, offersOf]

theorem sound_faithful (h : Sound maxAttempts s) : Faithful maxAttempts s where
  accounted := h.accounted
  order i j k hk hij hi := by
    obtain ⟨p, hp⟩ := getElem?_of_mem hi
    have hpk : p < k := by
      by_contra hge
      -- a later offer is of no lower number
      rcases Nat.lt_or_eq_of_le (not_lt.1 hge) with hlt | heq
      · obtain ⟨hkl, hkj⟩ := List.getElem?_eq_some_iff.1 hk
        obtain ⟨hpl, hpi⟩ := List.getElem?_eq_some_iff.1 hp
        have := pairwise_iff_getElem.1 h.sorted k p hkl hpl hlt
        omega
      · rw [← heq, hk] at hp
        have := Option.some.inj hp
        omega
    exact mem_of_getElem? (by rw [getElem?_take_of_lt hpk, hp])
  final := h.final
  bounded := h.bounded
  ids := h.ids
  results number result stored hr := (h.results number result stored hr).1

theorem Sound.not_settled (h : Sound maxAttempts s) {n : Nat} (hn : n ∈ s.queued) : n ∉ settledIn s.log := by
  have hnodup := h.accounted.nodup_iff.2 nodup_range
  exact fun hs => (nodup_append.1 hnodup).2.2 n hn n hs rfl

theorem queued_of_removing_nil (h : s.removing = []) : s.queued = s.outbox.map Entry.serial := by
  unfold queued
  rw [h]
  exact filter_eq_self.2 fun _ _ => by simp

theorem Sound.serial_lt (h : Sound maxAttempts s) {n : Nat} (hn : n ∈ s.queued) : n < s.enqueued :=
  mem_range.1 (h.accounted.subset (mem_append_left _ hn))

/-! ## The steps of the other calls -/

theorem Sound.moved (h : Sound maxAttempts s) {calls : List (Call P)} {flushes : Nat} (hle : s.flushes ≤ flushes)
    (hcalls : ∀ (c : Nat) call, calls[c]? = some call → CallOk { s with calls, flushes } call)
    (halone : ∀ f, s.flush = some f → ∀ (c k : Nat), calls[c]? = some (.refused k) → k ≠ f.number) :
    Sound maxAttempts { s with calls, flushes } where
  accounted := h.accounted
  serials := h.serials
  ids := h.ids
  attempts := h.attempts
  bounded := h.bounded
  sorted := h.sorted
  below := h.below
  known := h.known
  final := h.final
  results number result stored hr := by
    obtain ⟨hreported, hlt⟩ := h.results number result stored hr
    exact ⟨hreported, lt_of_lt_of_le hlt hle⟩
  counted f hf := by
    have hc := h.counted f hf
    exact ⟨lt_of_lt_of_le hc.number hle, hc.sent, hc.dropped, hc.unreturned, halone f hf⟩
  head := h.head
  retries := h.retries
  calls := hcalls
  begun k hk := h.begun k (le_trans hle hk)

variable {call : Call P}

theorem CallOk.append (h : CallOk s call) {s' : MutationQueue P} (hlog : s'.log = s.log ++ tail) (hflushes : s'.flushes = s.flushes)
    (hspares : ∀ k, call = .refused k → ∀ r ∈ tail, r.spares k) : CallOk s' call := by
  cases call with
  | refused k =>
    obtain ⟨hsent, hdropped⟩ := countP_spared s.log (hspares k rfl)
    exact ⟨hflushes.symm ▸ h.1, by rw [hlog, hsent, h.2.1], by rw [hlog, hdropped, h.2.2]⟩
  | enqueueWrite seen mutation => exact h
  | enqueueRead input => trivial
  | clear => trivial
  | read => trivial
  | done => trivial

variable {f : Flush P}

theorem Counted.append (h : Counted s f) {s' : MutationQueue P}
    (hlog : s'.log = s.log ++ tail) (hflushes : s'.flushes = s.flushes) (hcalls : s'.calls = s.calls)
    (hspares : ∀ r ∈ tail, r.spares f.number) (hopen : ∀ result stored, .flushed f.number result stored ∉ tail) :
    Counted s' f := by
  obtain ⟨hsent, hdropped⟩ := countP_spared s.log hspares
  refine ⟨hflushes.symm ▸ h.number, by rw [hlog, hsent, h.sent], by rw [hlog, hdropped, h.dropped],
    fun result stored hr => ?_, hcalls.symm ▸ h.alone⟩
  rw [hlog] at hr
  rcases mem_append.1 hr with hr | hr
  · exact h.unreturned _ _ hr
  · exact hopen _ _ hr

theorem CallOk.mono (h : CallOk s call) {calls : List (Call P)} {flushes : Nat}
    (hle : s.flushes ≤ flushes) : CallOk { s with calls, flushes } call := by
  cases call with
  | refused k => exact ⟨lt_of_lt_of_le h.1 hle, h.2⟩
  | enqueueWrite seen mutation => exact h
  | enqueueRead input => trivial
  | clear => trivial
  | read => trivial
  | done => trivial

section

variable (h : Sound maxAttempts s)
include h

theorem Sound.setCall {c : Nat} (hcall : CallOk s call)
    (hrefused : ∀ k, call ≠ .refused k) : Sound maxAttempts { s with calls := s.calls.set c call } := by
  refine h.moved le_rfl (fun c' call' hc' => ?_) (fun f hf c' k hc' => ?_)
  · rcases getElem?_set_cases hc' with ⟨rfl, rfl⟩ | ⟨-, hc'⟩
    · exact hcall.mono le_rfl
    · exact (h.calls c' call' hc').mono le_rfl
  · rcases getElem?_set_cases hc' with ⟨rfl, rfl⟩ | ⟨-, hc'⟩
    · exact absurd rfl (hrefused k)
    · exact (h.counted f hf).alone c' k hc'

theorem Sound.begin (hcall : CallOk s call) (hrefused : ∀ k, call ≠ .refused k) : Sound maxAttempts (s.begin call) := by
  refine h.moved le_rfl (fun c' call' hc' => ?_) (fun f hf c' k hc' => ?_)
  · rcases getElem?_concat_cases hc' with hc' | ⟨-, rfl⟩
    · exact (h.calls c' call' hc').mono le_rfl
    · exact hcall.mono le_rfl
  · rcases getElem?_concat_cases hc' with hc' | ⟨-, heq⟩
    · exact (h.counted f hf).alone c' k hc'
    · exact absurd heq.symm (hrefused k)

theorem Sound.refuse : Sound maxAttempts { s.begin (.refused s.flushes) with flushes := s.flushes + 1 } := by
  have hnone := countP_spared [] (fun r hr => h.begun s.flushes le_rfl r hr)
  refine h.moved (Nat.le_succ _) (fun c' call' hc' => ?_) (fun f hf c' k hc' => ?_)
  · rcases getElem?_concat_cases hc' with hc' | ⟨-, rfl⟩
    · exact (h.calls c' call' hc').mono (Nat.le_succ _)
    · exact ⟨Nat.lt_succ_self _, hnone⟩
  · have hc := h.counted f hf
    rcases getElem?_concat_cases hc' with hc' | ⟨-, heq⟩
    · exact hc.alone c' k hc'
    · cases heq
      exact (Nat.ne_of_lt hc.number).symm

/-- Records of no offer and of no flush's deeds; entries that leave the outbox are accounted for. -/
theorem Sound.quiet {outbox : List (Entry P)} {tail : List Record} (hsub : outbox.Sublist s.outbox)
    (haccounted : (queued { s with outbox } ++ settledIn (s.log ++ tail)).Perm (List.range s.enqueued))
    (hquiet : ∀ r ∈ tail, r.offers = none) (hspares : ∀ k, ∀ r ∈ tail, r.spares k)
    (hresults : ∀ number result stored, .flushed number result stored ∈ tail →
      Reported s.log number result stored ∧ number < s.flushes ∧ ∀ f, s.flush = some f → f.number ≠ number) :
    Sound maxAttempts { s with outbox, log := s.log ++ tail } := by
  have hoffers : offersOf (s.log ++ tail) = offersOf s.log := by
    have hnone : offersOf tail = [] := filterMap_eq_nil_iff.2 hquiet
    rw [offersOf_append, hnone, append_nil]
  constructor
  case accounted => exact haccounted
  case serials => exact h.serials.sublist (hsub.map _)
  case ids => exact h.ids.sublist (hsub.map _)
  case attempts => exact fun e he => hoffers.symm ▸ h.attempts e (hsub.subset he)
  case bounded => exact hoffers.symm ▸ h.bounded
  case sorted => exact hoffers.symm ▸ h.sorted
  case below => exact fun m hm e he => h.below m (hoffers ▸ hm) e (hsub.subset he)
  case known => exact hoffers.symm ▸ h.known
  case final =>
    have hlast : ∀ (a : Record), ∀ b ∈ tail, ∀ n, a.settles = some n → b.offers ≠ some n := fun a b hb n _ => by
      rw [hquiet b hb]
      exact nofun
    exact pairwise_append.2 ⟨h.final, pairwise_of_forall_mem_list fun a _ => hlast a, fun a _ => hlast a⟩
  case results =>
    intro number result stored hr
    rcases mem_append.1 hr with hr | hr
    · exact ⟨(h.results _ _ _ hr).1.append (hspares _), (h.results _ _ _ hr).2⟩
    · obtain ⟨hreported, hlt, -⟩ := hresults _ _ _ hr
      exact ⟨hreported.append (hspares _), hlt⟩
  case counted =>
    exact fun f hf => (h.counted f hf).append rfl rfl rfl (hspares _) fun _ _ hr => (hresults _ _ _ hr).2.2 f hf rfl
  case head => exact h.head
  case retries => exact h.retries
  case calls => exact fun c call hc => (h.calls c call hc).append rfl rfl fun k _ => hspares k
  case begun =>
    intro k hk r hr
    rcases mem_append.1 hr with hr | hr
    · exact h.begun k hk r hr
    · exact hspares k r hr

theorem Sound.returned {number stored : Nat} {result : FlushResult}
    (hreported : Reported s.log number result stored) (hlt : number < s.flushes)
    (hother : ∀ f, s.flush = some f → f.number ≠ number) :
    Sound maxAttempts { s with log := s.log ++ [.flushed number result stored] } := by
  refine h.quiet (.refl _) ?_ (fun r hr => ?_) (fun k r hr => ?_) fun number' result' stored' hr => ?_
  · rw [settledIn_append]
    exact (append_nil (settledIn s.log)).symm ▸ h.accounted
  · rw [mem_singleton.1 hr]
    rfl
  · rw [mem_singleton.1 hr]
    exact ⟨rfl, rfl⟩
  · cases mem_singleton.1 hr
    exact ⟨hreported, hlt, hother⟩

theorem Sound.refusedReturns {c k : Nat} (hc : s.calls[c]? = some (.refused k)) : Sound maxAttempts { s with
        calls := s.calls.set c .done
        log := s.log ++ [.flushed k ⟨0, 0, s.outbox.length⟩ s.outbox.length] } := by
  have hcall := h.calls c _ hc
  have hdone : Sound maxAttempts { s with calls := s.calls.set c .done } := h.setCall trivial fun k hk => by cases hk
  exact hdone.returned ⟨hcall.2.1.symm, hcall.2.2.symm, rfl⟩ hcall.1 fun f hf =>
    ((h.counted f hf).alone c k hc).symm

theorem Sound.enqueue (hmax : 1 ≤ maxAttempts) {mutation : Mutation P}
    (hzero : mutation.attempts = 0) (hid : mutation.id ∉ s.outbox.map fun e => e.id) :
    Sound maxAttempts { s with
        outbox := s.outbox ++ [{ toMutation := mutation, serial := s.enqueued }]
        enqueued := s.enqueued + 1 } := by
  have hfresh : ∀ n ∈ s.outbox.map Entry.serial, n < s.enqueued := fun n hn => by
    by_cases hr : n ∈ s.removing
    · unfold removing at hr
      split at hr
      · rename_i number sent dropped head rest hf
        rw [mem_singleton.1 hr]
        exact h.head _ head hf rfl
      · cases hr
    · exact h.serial_lt (mem_filter.2 ⟨hn, by simpa using hr⟩)
  have hnot : s.enqueued ∉ s.removing := fun hr => by
    unfold removing at hr
    split at hr
    · rename_i number sent dropped head rest hf
      have := h.head _ head hf rfl
      have := mem_singleton.1 hr
      omega
    · cases hr
  constructor
  case accounted =>
    have hqueued : MutationQueue.queued { s with
          outbox := s.outbox ++ [{ toMutation := mutation, serial := s.enqueued }]
          enqueued := s.enqueued + 1 } = s.queued ++ [s.enqueued] := by
      unfold queued
      rw [map_append, filter_append]
      congr 1
      exact filter_cons_of_pos (decide_eq_true hnot)
    rw [hqueued, range_succ]
    have hperm := h.accounted.append_right [s.enqueued]
    refine List.Perm.trans ?_ hperm
    rw [append_assoc, append_assoc]
    exact List.Perm.append_left _ perm_append_comm
  case serials =>
    rw [map_append]
    exact pairwise_append.2 ⟨h.serials, pairwise_singleton _ _, fun a ha b hb =>
      mem_singleton.1 hb ▸ hfresh a ha⟩
  case ids =>
    rw [map_append]
    refine nodup_append.2 ⟨h.ids, nodup_singleton _, fun a ha b hb heq => hid ?_⟩
    have hb' : b = mutation.id := mem_singleton.1 hb
    rwa [← hb', ← heq]
  case attempts =>
    intro e he
    rcases mem_append.1 he with he | he
    · exact h.attempts e he
    · -- the new mutation has not been offered, and is no flush's head
      rw [mem_singleton.1 he]
      have hcount : (offersOf s.log).count s.enqueued = 0 :=
        count_eq_zero.2 fun hm => lt_irrefl _ (h.known _ hm)
      have hcurrent : s.current ≠ some s.enqueued := fun hc => by
        obtain ⟨f, hf, hhead⟩ := Option.bind_eq_some_iff.1 hc
        obtain ⟨head, hp, hn⟩ := Option.map_eq_some_iff.1 hhead
        have := h.head f head hf hp
        omega
      refine ⟨by simp [hzero]; omega, ?_⟩
      show (offersOf s.log).count s.enqueued = mutation.attempts + if s.current = some s.enqueued then 1 else 0
      rw [hcount, hzero, if_neg hcurrent]
  case bounded => exact h.bounded
  case sorted => exact h.sorted
  case below =>
    intro m hm e he
    rcases mem_append.1 he with he | he
    · exact h.below m hm e he
    · rw [mem_singleton.1 he]
      exact le_of_lt (h.known m hm)
  case known => exact fun m hm => Nat.lt_succ_of_lt (h.known m hm)
  case final => exact h.final
  case results => exact h.results
  case counted =>
    intro f hf
    have hc := h.counted f hf
    exact { hc with }
  case head => exact fun f head hf hp => Nat.lt_succ_of_lt (h.head f head hf hp)
  case retries => exact h.retries
  case calls =>
    intro c call hc
    have hcall := h.calls c call hc
    cases call <;> exact hcall
  case begun => exact h.begun

theorem Sound.clear : Sound maxAttempts { s with outbox := [], log := s.log ++ s.queued.map .cleared } := by
  refine h.quiet (nil_sublist _) ?_ (fun r hr => ?_) (fun k r hr => ?_) fun number result stored hr => ?_
  · have hsettled : settledIn (s.queued.map .cleared) = s.queued := by
      unfold settledIn
      rw [filterMap_map]
      exact filterMap_some
    rw [settledIn_append, hsettled]
    show (settledIn s.log ++ s.queued).Perm (List.range s.enqueued)
    exact perm_append_comm.trans h.accounted
  · obtain ⟨n, -, rfl⟩ := mem_map.1 hr
    rfl
  · obtain ⟨n, -, rfl⟩ := mem_map.1 hr
    exact ⟨rfl, rfl⟩
  · obtain ⟨n, -, hn⟩ := mem_map.1 hr
    cases hn

end

/-! ## The steps of the flush -/

theorem removing_nil (hf : s.flush = some f) (hp : ∀ head rest, f.phase ≠ .removing head rest) : s.removing = [] := by
  unfold removing
  rw [hf]
  obtain ⟨number, sent, dropped, phase⟩ := f
  cases phase with
  | removing head rest => exact absurd rfl (hp head rest)
  | reading => rfl
  | offering head rest => rfl
  | retrying head rest => rfl

variable {head : Entry P}

theorem current_eq (hf : s.flush = some f) (hp : f.phase.head = some head) : s.current = some head.serial := by
  unfold MutationQueue.current
  rw [hf, Option.bind_some, hp]
  rfl

theorem Sound.idle (h : Sound maxAttempts s) (hf : s.flush = some f) (hp : f.phase = .reading) :
    Sound maxAttempts { s with flush := none } := by
  have hcurrent : s.current = none := by
    unfold MutationQueue.current
    rw [hf, Option.bind_some, hp]
    rfl
  have hremoving : s.removing = [] := removing_nil hf fun _ _ hr => by simp [hp] at hr
  refine ⟨?_, h.serials, h.ids, fun e he => ?_, h.bounded, h.sorted, h.below, h.known, h.final, h.results,
    fun f' hf' => (by cases hf'), fun f' head hf' => (by cases hf'), fun f' head rest hf' => (by cases hf'),
    fun c call hc => (h.calls c call hc).append (append_nil _).symm rfl fun _ _ r hr => (by cases hr), h.begun⟩
  · have hq := h.accounted
    rw [queued_of_removing_nil hremoving] at hq
    rw [queued_of_removing_nil (s := { s with flush := none }) rfl]
    exact hq
  · have ha := h.attempts e he
    rw [hcurrent] at ha
    exact ha

theorem Sound.start (h : Sound maxAttempts s) (hf : s.flush = none) :
    Sound maxAttempts { s with flush := some { number := s.flushes }, flushes := s.flushes + 1 } := by
  have hremoving : s.removing = [] := by
    unfold removing
    rw [hf]
  have hcurrent : s.current = none := by
    unfold MutationQueue.current
    rw [hf]
    rfl
  have hnone := countP_spared [] (fun r hr => h.begun s.flushes le_rfl r hr)
  refine ⟨?_, h.serials, h.ids, fun e he => ?_, h.bounded, h.sorted, h.below, h.known, h.final,
    fun number result stored hr => ⟨(h.results _ _ _ hr).1, Nat.lt_succ_of_lt (h.results _ _ _ hr).2⟩,
    fun f hf => ?_, fun f head hf hp => ?_, fun f head rest hf hp => ?_, fun c call hc => ?_,
    fun k hk => h.begun k (Nat.le_of_succ_le hk)⟩
  · have hq := h.accounted
    rw [queued_of_removing_nil hremoving] at hq
    exact queued_of_removing_nil (s := { s with flush := some { number := s.flushes }, flushes := s.flushes + 1 }) rfl ▸ hq
  · have ha := h.attempts e he
    rw [hcurrent] at ha
    exact ha
  · cases hf
    refine ⟨Nat.lt_succ_self _, hnone.1.symm, hnone.2.symm, fun result stored hr => ?_, fun c k hc => ?_⟩
    · exact absurd (h.results _ _ _ hr).2 (lt_irrefl _)
    · exact Nat.ne_of_lt (h.calls c _ hc).1
  · cases hf
    cases hp
  · cases hf
    cases hp
  · have hcall := h.calls c call hc
    cases call with
    | refused k => exact ⟨Nat.lt_succ_of_lt hcall.1, hcall.2⟩
    | enqueueWrite seen mutation => exact hcall
    | enqueueRead input => trivial
    | clear => trivial
    | read => trivial
    | done => trivial

theorem Sound.finish (h : Sound maxAttempts s) (hnone : s.flush = none) (hc : Counted s f) : Sound maxAttempts (s.finish f s.outbox) := by
  have hreported : Reported s.log f.number ⟨f.sent, f.dropped, s.outbox.length⟩ s.outbox.length :=
    ⟨hc.sent, hc.dropped, rfl⟩
  have hr := h.returned hreported hc.number fun g hg => by rw [hnone] at hg; cases hg
  unfold MutationQueue.finish
  rw [← hnone]
  exact hr

/-- It offers the first mutation that is stored. -/
theorem Sound.pass (h : Sound maxAttempts s) (hnone : s.flush = none) (hc : Counted s f) : Sound maxAttempts (s.pass f s.outbox) := by
  cases hout : s.outbox with
  | nil =>
    have hend := h.finish hnone hc
    rw [hout] at hend
    exact hend
  | cons head rest =>
    have hhead : head ∈ s.outbox := hout ▸ mem_cons_self
    have hremoving : s.removing = [] := by
      unfold removing
      rw [hnone]
    have hcurrent : s.current = none := by
      unfold MutationQueue.current
      rw [hnone]
      rfl
    have hqueued : head.serial ∈ s.queued := by
      rw [queued_of_removing_nil hremoving]
      exact mem_map_of_mem hhead
    have hoffers : offersOf (s.log ++ [.offered f.number head.serial]) = offersOf s.log ++ [head.serial] :=
      offersOf_append _ _
    have hspares : ∀ k, ∀ r ∈ [Record.offered f.number head.serial], r.spares k := fun k r hr => by
      rw [mem_singleton.1 hr]
      exact ⟨rfl, rfl⟩
    have hcount : ∀ n, (offersOf s.log ++ [head.serial]).count n =
        (offersOf s.log).count n + if some head.serial = some n then 1 else 0 := fun n => by
      rw [count_append, count_singleton]
      simp
    have hattempts : ∀ e ∈ s.outbox, e.attempts < maxAttempts ∧ (offersOf s.log).count e.serial = e.attempts := fun e he => by
      have ha := h.attempts e he
      rw [hcurrent] at ha
      simpa using ha
    show Sound maxAttempts { s with
        flush := some { f with phase := .offering head rest }
        log := s.log ++ [.offered f.number head.serial] }
    constructor
    case accounted =>
      have hq := h.accounted
      rw [queued_of_removing_nil hremoving] at hq
      have hsettled : settledIn (s.log ++ [.offered f.number head.serial]) = settledIn s.log := by
        rw [settledIn_append]
        exact append_nil _
      rw [queued_of_removing_nil rfl, hsettled]
      exact hq
    case serials => exact h.serials
    case ids => exact h.ids
    case attempts =>
      intro e he
      obtain ⟨hlt, heq⟩ := hattempts e he
      refine ⟨hlt, ?_⟩
      rw [hoffers, hcount, heq]
      rfl
    case bounded =>
      intro n
      rw [hoffers, hcount]
      have hb := h.bounded n
      split
      · rename_i heq
        cases heq
        obtain ⟨hlt, heq⟩ := hattempts head hhead
        omega
      · omega
    case sorted =>
      rw [hoffers]
      exact pairwise_append.2 ⟨h.sorted, pairwise_singleton _ _, fun m hm n hn => by
        rw [mem_singleton.1 hn]
        exact h.below m hm head hhead⟩
    case below =>
      intro m hm e he
      rw [hoffers] at hm
      rcases mem_append.1 hm with hm | hm
      · exact h.below m hm e he
      · -- the head is the oldest that is stored
        rw [mem_singleton.1 hm]
        have hserials := h.serials
        rw [hout, map_cons, pairwise_cons] at hserials
        have he' : e ∈ s.outbox := he
        rw [hout] at he'
        rcases mem_cons.1 he' with rfl | he'
        · exact le_rfl
        · exact le_of_lt (hserials.1 _ (mem_map_of_mem he'))
    case known =>
      intro m hm
      rw [hoffers] at hm
      rcases mem_append.1 hm with hm | hm
      · exact h.known m hm
      · rw [mem_singleton.1 hm]
        exact h.serial_lt hqueued
    case final =>
      refine pairwise_append.2 ⟨h.final, pairwise_singleton _ _, fun a ha b hb n hn heq => ?_⟩
      rw [mem_singleton.1 hb] at heq
      cases heq
      exact h.not_settled hqueued (mem_filterMap.2 ⟨a, ha, hn⟩)
    case results =>
      intro number result stored hr
      rcases mem_append.1 hr with hr | hr
      · exact ⟨(h.results _ _ _ hr).1.append (hspares _), (h.results _ _ _ hr).2⟩
      · cases mem_singleton.1 hr
    case counted =>
      intro g hg
      cases hg
      exact Counted.append (f := { f with phase := .offering head rest })
        ⟨hc.number, hc.sent, hc.dropped, hc.unreturned, hc.alone⟩ rfl rfl rfl (hspares _) fun _ _ hr => by
          cases mem_singleton.1 hr
    case head =>
      intro g head' hg hp
      cases hg
      cases hp
      exact h.serial_lt hqueued
    case retries =>
      intro g head' rest' hg hp
      cases hg
      cases hp
    case calls => exact fun c call hcall => (h.calls c call hcall).append rfl rfl fun k _ => hspares k
    case begun =>
      intro k hk r hr
      rcases mem_append.1 hr with hr | hr
      · exact h.begun k hk r hr
      · exact hspares k r hr

variable {rest : List (Entry P)}

theorem Sound.settle (h : Sound maxAttempts s) {f' : Flush P} {r : Record}
    (hf : s.flush = some f) (hp : f.phase = .offering head rest) (hmem : head.serial ∈ s.outbox.map Entry.serial)
    (hsettles : r.settles = some head.serial) (hoffers : r.offers = none)
    (hspares : ∀ k, k ≠ f.number → r.spares k) (hnumber : f'.number = f.number)
    (hsent : f'.sent = f.sent + (r.sentBy f.number).toNat)
    (hdropped : f'.dropped = f.dropped + (r.droppedBy f.number).toNat) :
    Sound maxAttempts (s.settle f' head rest r) := by
  have hremoving : s.removing = [] := removing_nil hf fun _ _ hr => by simp [hp] at hr
  have hcurrent : s.current = some head.serial := current_eq hf (by rw [hp]; rfl)
  have hoffers' : offersOf (s.log ++ [r]) = offersOf s.log := by
    rw [offersOf_append]
    have hnil : offersOf [r] = [] := by simp [offersOf, hoffers]
    rw [hnil, append_nil]
  have hc := h.counted f hf
  have hspares' : ∀ k, k ≠ f.number → ∀ r' ∈ [r], r'.spares k := fun k hk r' hr => by
    rw [mem_singleton.1 hr]
    exact hspares k hk
  have hunflushed : ∀ k result stored, r ≠ .flushed k result stored := fun k result stored heq => by
    rw [heq] at hsettles
    cases hsettles
  unfold MutationQueue.settle
  constructor
  case accounted =>
    have hq := h.accounted
    rw [queued_of_removing_nil hremoving] at hq
    have hsettled : settledIn (s.log ++ [r]) = settledIn s.log ++ [head.serial] := by
      simp [settledIn, hsettles]
    have hnodup : (s.outbox.map Entry.serial).Nodup := h.serials.imp Nat.ne_of_lt
    have hsplit : (s.outbox.map Entry.serial).Perm (head.serial :: (s.outbox.map Entry.serial).filter (· ∉ [head.serial])) := by
      refine (perm_cons_erase hmem).trans (List.Perm.cons _ (List.Perm.of_eq ?_))
      rw [hnodup.erase_eq_filter]
      exact filter_congr fun n _ => by by_cases hn : n = head.serial <;> simp [hn]
    rw [hsettled]
    refine List.Perm.trans ?_ ((hsplit.symm.append_right _).trans hq)
    rw [← append_assoc]
    exact perm_append_singleton _ _
  case serials => exact h.serials
  case ids => exact h.ids
  case attempts =>
    intro e he
    have ha := h.attempts e he
    rw [hcurrent] at ha
    rw [hoffers']
    exact ha
  case bounded => exact hoffers'.symm ▸ h.bounded
  case sorted => exact hoffers'.symm ▸ h.sorted
  case below => exact hoffers'.symm ▸ h.below
  case known => exact hoffers'.symm ▸ h.known
  case final =>
    refine pairwise_append.2 ⟨h.final, pairwise_singleton _ _, fun a _ b hb n _ => ?_⟩
    rw [mem_singleton.1 hb, hoffers]
    simp
  case results =>
    intro number result stored hr
    rcases mem_append.1 hr with hr | hr
    · refine ⟨(h.results _ _ _ hr).1.append (hspares' _ fun heq => ?_), (h.results _ _ _ hr).2⟩
      exact hc.unreturned result stored (heq ▸ hr)
    · exact absurd (mem_singleton.1 hr).symm (hunflushed _ _ _)
  case counted =>
    intro g hg
    cases hg
    refine ⟨hnumber ▸ hc.number, ?_, ?_, fun result stored hr => ?_, fun c k hk => hnumber ▸ hc.alone c k hk⟩
    · rw [hsent, hc.sent, hnumber]
      cases hr : r.sentBy f.number <;> simp [hr]
    · rw [hdropped, hc.dropped, hnumber]
      cases hr : r.droppedBy f.number <;> simp [hr]
    · rcases mem_append.1 hr with hr | hr
      · exact hc.unreturned result stored (hnumber ▸ hr)
      · exact hunflushed _ _ _ (mem_singleton.1 hr).symm
  case head =>
    intro g head' hg hp'
    cases hg
    cases hp'
    exact h.head f head hf (by rw [hp]; rfl)
  case retries =>
    intro g head' rest' hg hp'
    cases hg
    cases hp'
  case calls =>
    exact fun c call hcall => (h.calls c call hcall).append rfl rfl fun k hk =>
      hspares' k (hc.alone c k (hk ▸ hcall))
  case begun =>
    intro k hk r' hr
    rcases mem_append.1 hr with hr | hr
    · exact h.begun k hk r' hr
    · exact hspares' k (fun heq => lt_irrefl _ (lt_of_lt_of_le (heq ▸ hc.number) hk)) r' hr

theorem Sound.retry (h : Sound maxAttempts s)
    (hf : s.flush = some f) (hp : f.phase = .offering head rest) (hlt : head.attempts + 1 < maxAttempts) :
    Sound maxAttempts { s with flush := some { f with phase := .retrying head rest } } := by
  have hremoving : s.removing = [] := removing_nil hf fun _ _ hr => by simp [hp] at hr
  have hcurrent : s.current = some head.serial := current_eq hf (by rw [hp]; rfl)
  have hc := h.counted f hf
  refine ⟨?_, h.serials, h.ids, fun e he => ?_, h.bounded, h.sorted, h.below, h.known, h.final, h.results,
    fun g hg => ?_, fun g head' hg hp' => ?_, fun g head' rest' hg hp' => ?_,
    fun c call hcall => (h.calls c call hcall).append (append_nil _).symm rfl fun _ _ r hr => (by cases hr), h.begun⟩
  · have hq := h.accounted
    rw [queued_of_removing_nil hremoving] at hq
    rw [queued_of_removing_nil rfl]
    exact hq
  · have ha := h.attempts e he
    rw [hcurrent] at ha
    exact ha
  · cases hg
    exact { hc with }
  · cases hg
    cases hp'
    exact h.head f head hf (by rw [hp]; rfl)
  · cases hg
    cases hp'
    exact hlt

theorem Sound.stored (h : Sound maxAttempts s) {f : Flush P} {head : Entry P} {rest kept : List (Entry P)}
    (hf : s.flush = some f) (hp : f.phase.head = some head) (hout : s.outbox = head :: rest)
    (hqueued : s.queued = (kept ++ rest).map Entry.serial)
    (hkept : ∀ e ∈ kept, e = head.attempted ∧ e.attempts < maxAttempts) (hone : kept.length ≤ 1) :
    Sound maxAttempts { s with outbox := kept ++ rest, flush := none } := by
  have hcurrent : s.current = some head.serial := current_eq hf hp
  have hserials := h.serials
  have hids := h.ids
  rw [hout, map_cons] at hserials hids
  have hcases : kept = [] ∨ kept = [head.attempted] := by
    match kept, hone, hkept with
    | [], _, _ => exact Or.inl rfl
    | [e], _, hk => exact Or.inr (by rw [(hk e mem_cons_self).1])
  have hold : ∀ e ∈ rest, e ∈ s.outbox := fun e he => hout ▸ mem_cons_of_mem _ he
  refine ⟨?_, ?_, ?_, fun e he => ?_, h.bounded, h.sorted, fun m hm e he => ?_, h.known, h.final, h.results,
    fun g hg => (by cases hg), fun g head' hg => (by cases hg), fun g head' rest' hg => (by cases hg),
    fun c call hcall => (h.calls c call hcall).append (append_nil _).symm rfl fun _ _ r hr => (by cases hr), h.begun⟩
  · rw [queued_of_removing_nil rfl, ← hqueued]
    exact h.accounted
  · rcases hcases with rfl | rfl
    · exact (pairwise_cons.1 hserials).2
    · exact hserials
  · rcases hcases with rfl | rfl
    · exact (nodup_cons.1 hids).2
    · exact hids
  · rcases mem_append.1 he with he | he
    · -- the attempt that is stored now is the head's last offer
      obtain ⟨rfl, hlt⟩ := hkept e he
      have ha := (h.attempts head (hout ▸ mem_cons_self)).2
      rw [hcurrent, if_pos rfl] at ha
      exact ⟨hlt, ha⟩
    · obtain ⟨hlt, ha⟩ := h.attempts e (hold e he)
      have hne : head.serial ≠ e.serial := Nat.ne_of_lt ((pairwise_cons.1 hserials).1 _ (mem_map_of_mem he))
      rw [hcurrent, if_neg (fun heq => hne (Option.some.inj heq))] at ha
      exact ⟨hlt, ha⟩
  · rcases mem_append.1 he with he | he
    · rw [(hkept e he).1]
      exact h.below m hm head (hout ▸ mem_cons_self)
    · exact h.below m hm e (hold e he)

/-! ## Whole runs -/

theorem pass_flush (s : MutationQueue P) (f : Flush P) (list : List (Entry P)) :
    MutationQueue.pass { s with flush := none } f list = s.pass f list := by
  cases list <;> rfl

theorem Sound.get (h : Sound maxAttempts s) {c : Nat} {now : Int} (hc : s.calls[c]? = some call) : Sound maxAttempts (s.get c now call) := by
  have hdone : Sound maxAttempts { s with calls := s.calls.set c .done } := h.setCall trivial fun k hk => by cases hk
  cases call with
  | enqueueRead input =>
    cases hfind : s.outbox.find? fun m => m.id = input.id with
    | some existing =>
      simp only [MutationQueue.get, hfind]
      exact hdone
    | none =>
      simp only [MutationQueue.get, hfind]
      refine h.setCall (show CallOk s (.enqueueWrite _ _) from ⟨rfl, fun hid => ?_⟩) fun k hk => by cases hk
      obtain ⟨m, hm, heq⟩ := mem_map.1 hid
      have := find?_eq_none.1 hfind m hm
      simp only [decide_eq_true_eq] at this
      exact this heq
  | read => exact hdone
  | refused k => exact h.refusedReturns hc
  | enqueueWrite seen mutation => exact h
  | clear => exact h
  | done => exact h

theorem Sound.answer (h : Sound maxAttempts s)
    (hf : s.flush = some f) (hp : f.phase = .offering head rest) {outcome : SendOutcome} {throws : Bool}
    (hstored : outcome.isOk ∨ (dropReason maxAttempts (head.attempts + 1) outcome).isSome → head.serial ∈ s.outbox.map Entry.serial)
    (hthrows : throws = true → dropReason maxAttempts (head.attempts + 1) outcome = none) :
    Sound maxAttempts (s.answer maxAttempts f head rest outcome throws) := by
  have hdrop : ∀ reason, dropReason maxAttempts (head.attempts + 1) outcome = some reason → throws = false ∧ Sound maxAttempts
        (s.settle { f with dropped := f.dropped + 1 } head rest (.dropped f.number head.serial reason)) := by
    intro reason hreason
    constructor
    · cases throws with
      | false => rfl
      | true =>
        have := hthrows rfl
        rw [hreason] at this
        cases this
    · refine h.settle hf hp (hstored (Or.inr (by rw [hreason]; rfl))) rfl rfl (fun k hk => ⟨rfl, ?_⟩) rfl ?_ ?_
      · simpa [Record.droppedBy] using hk.symm
      · simp [Record.sentBy]
      · simp [Record.droppedBy]
  unfold MutationQueue.answer
  cases outcome with
  | ok =>
    refine h.settle hf hp (hstored (Or.inl rfl)) rfl rfl (fun k hk => ⟨?_, rfl⟩) rfl ?_ ?_
    · simpa [Record.sentBy] using hk.symm
    · simp [Record.sentBy]
    · simp [Record.droppedBy]
  | drop error =>
    obtain ⟨hfalse, hs⟩ := hdrop _ rfl
    subst hfalse
    exact hs
  | retry error =>
    cases hreason : dropReason maxAttempts (head.attempts + 1) (.retry error) with
    | some reason =>
      obtain ⟨hfalse, hs⟩ := hdrop reason hreason
      subst hfalse
      exact hs
    | none =>
      refine h.retry hf hp ?_
      by_contra hge
      rw [dropReason, if_pos (not_lt.1 hge)] at hreason
      cases hreason

theorem Sound.flushSet (h : Sound maxAttempts s) (hf : s.flush = some f) (hout : ∀ list, f.phase.storesOver = some list → s.outbox = list) :
    Sound maxAttempts (MutationQueue.step maxAttempts s .flushSet) := by
  have hc := h.counted f hf
  cases hp : f.phase with
  | reading =>
    simp only [MutationQueue.step, hf, hp]
    exact h
  | offering head rest =>
    simp only [MutationQueue.step, hf, hp]
    exact h
  | removing head rest =>
    simp only [MutationQueue.step, hf, hp]
    have hhead : s.outbox = head :: rest := hout _ (by rw [hp]; rfl)
    have hqueued : s.queued = (([] : List (Entry P)) ++ rest).map Entry.serial := by
      have hremoving : s.removing = [head.serial] := by
        unfold removing
        rw [hf]
        obtain ⟨number, sent, dropped, phase⟩ := f
        cases hp
        rfl
      have hserials := h.serials
      rw [hhead, map_cons, pairwise_cons] at hserials
      unfold queued
      rw [hremoving, hhead, map_cons, filter_cons_of_neg (by simp)]
      exact filter_eq_self.2 fun n hn => by
        have := hserials.1 n hn
        simp
        omega
    have hs := h.stored hf (by rw [hp]; rfl) hhead hqueued (fun e he => by cases he) (Nat.zero_le 1)
    have hpass := hs.pass rfl (f := f) ⟨hc.number, hc.sent, hc.dropped, hc.unreturned, hc.alone⟩
    exact pass_flush { s with outbox := rest } f rest ▸ hpass
  | retrying head rest =>
    simp only [MutationQueue.step, hf, hp]
    have hhead : s.outbox = head :: rest := hout _ (by rw [hp]; rfl)
    have hqueued : s.queued = ([head.attempted] ++ rest).map Entry.serial := by
      rw [queued_of_removing_nil (removing_nil hf fun _ _ hr => by simp [hp] at hr), hhead]
      rfl
    have hs := h.stored hf (by rw [hp]; rfl) hhead hqueued (fun e he => by
      rw [mem_singleton.1 he]
      exact ⟨rfl, h.retries f head rest hf hp⟩) (Nat.le_refl 1)
    exact hs.finish rfl (f := f) ⟨hc.number, hc.sent, hc.dropped, hc.unreturned, hc.alone⟩

theorem Sound.step (h : Sound maxAttempts s) (hmax : 1 ≤ maxAttempts) {event : Event P}
    (hg : Undisturbed maxAttempts s event) : Sound maxAttempts (MutationQueue.step maxAttempts s event) := by
  cases event with
  | enqueue input => exact h.begin trivial fun k hk => by cases hk
  | clear => exact h.begin trivial fun k hk => by cases hk
  | list => exact h.begin trivial fun k hk => by cases hk
  | size => exact h.begin trivial fun k hk => by cases hk
  | flush =>
    simp only [MutationQueue.step]
    cases hf : s.flush with
    | none => exact h.start hf
    | some f => exact h.refuse
  | get c now =>
    simp only [MutationQueue.step]
    cases hc : s.calls[c]? with
    | none => exact h
    | some call => exact h.get hc
  | set c =>
    simp only [MutationQueue.step]
    split
    · rename_i seen mutation hc
      have hcall := h.calls c _ hc
      have hdone : Sound maxAttempts { s with calls := s.calls.set c .done } :=
        h.setCall trivial fun k hk => by cases hk
      have hseen : s.outbox = seen := hg seen mutation hc
      subst hseen
      exact hdone.enqueue hmax hcall.1 hcall.2
    · exact h
  | delete c =>
    simp only [MutationQueue.step]
    split
    · have hdone : Sound maxAttempts { s with calls := s.calls.set c .done } :=
        h.setCall trivial fun k hk => by cases hk
      exact hdone.clear
    · exact h
  | flushGet =>
    cases hf : s.flush with
    | none =>
      simp only [MutationQueue.step, hf]
      exact h
    | some f =>
      have hc := h.counted f hf
      cases hp : f.phase with
      | reading =>
        simp only [MutationQueue.step, hf, hp]
        have hpass := (h.idle hf hp).pass rfl (f := f) ⟨hc.number, hc.sent, hc.dropped, hc.unreturned, hc.alone⟩
        exact pass_flush s f s.outbox ▸ hpass
      | _ =>
        simp only [MutationQueue.step, hf, hp]
        exact h
  | answer outcome throws =>
    cases hf : s.flush with
    | none =>
      simp only [MutationQueue.step, hf]
      exact h
    | some f =>
      cases hp : f.phase with
      | offering head rest =>
        simp only [MutationQueue.step, hf, hp]
        obtain ⟨hstored, hthrows⟩ := hg f head rest hf hp
        exact h.answer hf hp hstored hthrows
      | _ =>
        simp only [MutationQueue.step, hf, hp]
        exact h
  | flushSet =>
    cases hf : s.flush with
    | none =>
      simp only [MutationQueue.step, hf]
      exact h
    | some f => exact h.flushSet hf (hg f hf)

/-- In every undisturbed run of a queue that allows an attempt, nothing is lost and nothing reordered. -/
theorem faithful_of_undisturbed (maxAttempts : Nat) (hmax : 1 ≤ maxAttempts) (events : List (Event P))
    (hg : Guarded (MutationQueue.step maxAttempts) (Undisturbed maxAttempts) {} events) (n : Nat) :
    Faithful maxAttempts (run (MutationQueue.step maxAttempts) {} (events.take n)) :=
  sound_faithful (take_invariant_of_guarded _ (fun _ _ h hstep => h.step hmax hstep) hg sound_empty n)

/-- Two mutations are enqueued one after the other, and flushed while the second answer is a failure. -/
def twoPosts : List (Event Unit) :=
  [.enqueue ⟨"m1", "createPost", ()⟩, .get 0 10, .set 0, .enqueue ⟨"m2", "createPost", ()⟩, .get 1 20, .set 1,
    .flush, .flushGet, .answer .ok false, .flushSet, .answer (.retry (some "net")) false, .flushSet]

theorem faithful_of_undisturbed_twoPosts : Faithful 8 (run (MutationQueue.step 8) {} (twoPosts.take 12)) := by
  refine faithful_of_undisturbed 8 (by decide) twoPosts ?_ 12
  simp only [twoPosts, Guarded, Undisturbed, true_and, and_true]
  refine ⟨?_, ?_, ?_, ?_, ?_, ?_⟩
  · rintro seen mutation h
    cases h
    rfl
  · rintro seen mutation h
    cases h
    rfl
  · rintro f head rest h hp
    cases h
    cases hp
    exact ⟨fun _ => by decide, fun h => by cases h⟩
  · rintro f h list hl
    cases h
    cases hl
    rfl
  · rintro f head rest h hp
    cases h
    cases hp
    exact ⟨fun _ => by decide, fun h => by cases h⟩
  · rintro f h list hl
    cases h
    cases hl
    rfl

/-- Of two mutations enqueued at once one is lost; and a mutation that is cleared while the sender has it is
reported sent too. -/
theorem concurrent_counterexample : ¬ Faithful 8 (run (MutationQueue.step 8) ({} : MutationQueue Unit)
      [.enqueue ⟨"m1", "createPost", ()⟩, .enqueue ⟨"m2", "createPost", ()⟩, .get 0 10, .get 1 10, .set 0, .set 1]) ∧
    ¬ Faithful 8 (run (MutationQueue.step 8) ({} : MutationQueue Unit)
      [.enqueue ⟨"m1", "createPost", ()⟩, .get 0 10, .set 0, .flush, .flushGet, .clear, .delete 1, .answer .ok false]) := by
  constructor
  · intro h
    have hlength := h.accounted.length_eq
    revert hlength
    decide
  · intro h
    have hlength := h.accounted.length_eq
    revert hlength
    decide

end StreetJS.Offline
