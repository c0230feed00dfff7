/-
What the two upload managers promise under any interleaving of their calls, and the condition on each step under which
every run keeps the promise.
-/
import StreetJS.Storage.Uploads
import StreetJS.Lib.Runs

namespace StreetJS.Storage.Uploads

open StreetJS.Lib OrderedMap Managers List
open Option (map_some some.inj)

variable {cfg : UploadConfig}

/-! ## What is promised -/

/-- What a call wrote at the key of its upload, in order. -/
def entries (w : Managers) (i : Nat) : List Written := w.written.filter fun e => e.call = i

/-- The call wrote, and this is what its last write left at the key. -/
def Left (w : Managers) (i : Nat) (key : Key) (object : StoredObject) : Prop :=
  ∃ e, (entries w i).getLast? = some e ∧ e.key = key ∧ e.object = object

def onSession (s : Nat) : Call → Bool
  | .resume s' _ | .cancel s' _ => s' = s
  | _ => false

def partOf (u : Nat) : Call → Bool
  | .uploadPart u' _ => u' = u
  | _ => false

def completeOf (u : Nat) : Call → Bool
  | .complete u' _ _ => u' = u
  | _ => false

def abortOf (u : Nat) : Call → Bool
  | .abort u' _ => u' = u
  | _ => false

def onUpload (u : Nat) (call : Call) : Bool := partOf u call || completeOf u call || abortOf u call

/-- Exact and all or nothing: a fulfilled call left its content, a rejected one wrote nothing, nothing is written for an
upload that was withdrawn, and an upload that ended left no reserved key behind. -/
structure Exact (cfg : UploadConfig) (w : Managers) : Prop where
  resumed : ∀ i s, w.calls[i]? = some (.resumed s) → ∃ session, w.sessions[s]? = some session ∧
    Left w i session.key ⟨session.content, some session.metadata⟩
  completed : ∀ i u expected, w.calls[i]? = some (.completed u expected) → ∃ upload bytes,
    w.uploads[u]? = some upload ∧ expected = some bytes ∧ Left w i upload.key ⟨bytes, some upload.metadata⟩
  rejected : ∀ i, w.calls[i]? = some .rejected → entries w i = []
  withdrawn : ∀ e ∈ w.written, e.withdrawn = false
  sessions : ∀ s session, w.sessions[s]? = some session → session.listed = false →
    (∀ call ∈ w.calls, onSession s call = false) → w.objects.get (reservedKey cfg s) = none
  uploads : ∀ u upload, w.uploads[u]? = some upload → upload.listed = false →
    (∀ call ∈ w.calls, onUpload u call = false) → ∀ part, w.objects.get (reservedPart cfg u part) = none

/-! ## The condition on a step -/

/-- The key that a call streams to. -/
def streamsTo (w : Managers) : Call → Option Key
  | .complete _ _ (.discarding _) => none
  | .complete u _ _ => (w.uploads[u]?).map MultipartSession.key
  | _ => none

/-- The key that a call is about to put the whole content at. -/
def finishesAt (w : Managers) : Call → Option Key
  | .resume s (.finishing _) => (w.sessions[s]?).map ResumableSession.key
  | _ => none

/-- The session of a call that waits for its source. -/
def streamingOf (w : Managers) (i : Nat) : Option (Nat × ResumableSession) :=
  match w.calls[i]? with
  | some (.resume s (.streaming _ _)) => (w.sessions[s]?).map fun session => (s, session)
  | _ => none

/-- Keys are not reserved. The source of a call does not end after a cancel, and is not interrupted after the session
was cancelled or another call began to complete it, unless nothing of it is stored. Parts are not stored while the
upload is completed or aborted, and it is not completed beside another call on it; and where the driver streams, all
listed parts are there, and nothing else is written at the key meanwhile. -/
def Orderly (cfg : UploadConfig) (w : Managers) : Event → Prop
  | .start key _ _ | .create key _ => isScratch key = false
  | .endOfStream i => ∀ s session, streamingOf w i = some (s, session) → session.cancelled = false ∧
    (cfg.streams = true → ∀ call ∈ w.calls, streamsTo w call ≠ some session.key)
  | .interrupt i => ∀ s session, streamingOf w i = some (s, session) →
    session.cancelled = false ∧ session.completing = false ∨ w.objects.get (reservedKey cfg s) = none
  | .uploadPart u _ _ => ∀ call ∈ w.calls, completeOf u call = false ∧ abortOf u call = false
  | .complete u parts => (∀ call ∈ w.calls, onUpload u call = false) ∧
    (cfg.streams = true → ∀ upload, w.uploads[u]? = some upload → assemble cfg w.objects u parts ≠ none ∧
      ∀ call ∈ w.calls, streamsTo w call ≠ some upload.key ∧ finishesAt w call ≠ some upload.key)
  | .abort u => ∀ call ∈ w.calls, partOf u call = false ∧ completeOf u call = false
  | _ => True

/-! ## Reserved keys -/

variable {s : Nat}

theorem reservedKey_inj {s' : Nat} : reservedKey cfg s = reservedKey cfg s' ↔ s = s' := by
  constructor
  · intro h
    exact cfg.uuids.injective (append_cancel_left h)
  · rintro rfl
    rfl

theorem isScratch_reservedKey (s : Nat) : isScratch (reservedKey cfg s) = true := isScratch_sessionKey _

theorem isScratch_reservedPart (u part : Nat) : isScratch (reservedPart cfg u part) = true := isScratch_partKey _ _

theorem digits_plain (n : Nat) : '/' ∉ Nat.toDigits 10 n := fun h =>
  absurd (Nat.isDigit_of_mem_toDigits (by decide) (by decide) h) (by decide)

theorem reservedPart_inj {u u' part part' : Nat} : reservedPart cfg u part = reservedPart cfg u' part' ↔ u = u' ∧ part = part' := by
  constructor
  · intro h
    simp only [reservedPart, partKey, append_assoc, singleton_append] at h
    obtain ⟨hid, hdigits⟩ := append_cons_inj (digits_plain part) (digits_plain part') (append_cancel_left h)
    refine ⟨cfg.uuids.injective hid, ?_⟩
    have hread := congrArg (fun ds => Nat.ofDigitChars 10 ds 0) hdigits
    simpa only [Nat.ofDigitChars_ten_toDigits] using hread
  · rintro ⟨rfl, rfl⟩
    rfl

theorem reservedKey_ne_reservedPart (s u part : Nat) : reservedKey cfg s ≠ reservedPart cfg u part := by
  intro h
  have hp : partKeyPrefix.isPrefixOf (reservedKey cfg s) = true := by
    rw [h, reservedPart, partKey, append_assoc, append_assoc]
    exact isPrefixOf_append _ _
  cases hp

theorem ne_reserved {key reserved : Key} (hkey : isScratch key = false) (hr : isScratch reserved = true) : key ≠ reserved := by
  rintro rfl
  rw [hkey] at hr
  cases hr

theorem ne_reservedPart (cfg : UploadConfig) {key : Key} (hkey : isScratch key = false) (u part : Nat) :
    key ≠ reservedPart cfg u part := ne_reserved hkey (isScratch_reservedPart u part)

/-! ## What is written -/

theorem entries_write_self (w : Managers) (i : Nat) (key : Key) (object : StoredObject) (withdrawn : Bool) :
    entries (w.write i key object withdrawn) i = entries w i ++ [⟨i, key, object, withdrawn⟩] := by
  simp [entries, Managers.write]

variable {i : Nat}

theorem entries_write_other (w : Managers) {j : Nat} (h : j ≠ i) (key : Key) (object : StoredObject)
    (withdrawn : Bool) : entries (w.write i key object withdrawn) j = entries w j := by
  simp [entries, Managers.write, Ne.symm h]

theorem left_write (w : Managers) (i : Nat) (key : Key) (object : StoredObject) (withdrawn : Bool) :
    Left (w.write i key object withdrawn) i key object := by
  refine ⟨⟨i, key, object, withdrawn⟩, ?_, rfl, rfl⟩
  rw [entries_write_self, getLast?_concat]

variable {w w' : Managers}

theorem entries_congr (h : w'.written = w.written) (i : Nat) : entries w' i = entries w i := by
  rw [entries, entries, h]

/-! ## The resumable half of the invariant -/

def isResumable : Call → Bool
  | .resume _ _ | .cancel _ _ | .resumed _ => true
  | _ => false

/-- The call deletes what the session has stored, before it settles or unless it is interrupted. -/
def cleansSession (s : Nat) : Call → Bool
  | .resume _ .closing | .cancel _ .closing => false
  | .resume s' _ | .cancel s' _ => s' = s
  | _ => false

def ResumeOk (w : Managers) (i : Nat) (session : ResumableSession) : Resuming → Prop
  | .reading | .rejecting => entries w i = []
  | .streaming persisted seen | .appending persisted seen =>
    entries w i = [] ∧ persisted <+: session.content ∧ seen ≤ persisted.length
  | .finishing persisted => entries w i = [] ∧ persisted = session.content ∧ session.completing = true
  | .cleaning | .closing =>
    session.completing = true ∧ Left w i session.key ⟨session.content, some session.metadata⟩

structure SessionOk (session : ResumableSession) : Prop where
  key : isScratch session.key = false
  completing : session.completing = true → session.cancelled = false
  listed : session.listed = false → session.cancelled = true ∨ session.completing = true
  withdrawn : session.withdrawn = true → session.cancelled = true

/-- What the call says of its session. -/
def SessionCallOk (w : Managers) (i : Nat) : Call → Prop
  | .resume s phase => ∃ session, w.sessions[s]? = some session ∧ ResumeOk w i session phase
  | .cancel s _ => ∃ session, w.sessions[s]? = some session ∧ session.cancelled = true
  | .resumed s => ∃ session, w.sessions[s]? = some session ∧ Left w i session.key ⟨session.content, some session.metadata⟩
  | _ => True

/-- What is stored of a session is a part of its content, and goes away with it. -/
def StoredOk (w : Managers) (s : Nat) (session : ResumableSession) (object : StoredObject) : Prop :=
  object.bytes <+: session.content ∧ (session.cancelled = false ∧ session.completing = false ∨
    ∃ (j : Nat) (call : Call), w.calls[j]? = some call ∧ cleansSession s call = true)

structure Resumables (cfg : UploadConfig) (w : Managers) : Prop where
  session : ∀ (s : Nat) session, w.sessions[s]? = some session → SessionOk session
  stored : ∀ (s : Nat) (object : StoredObject), w.objects.get (reservedKey cfg s) = some object →
    ∃ session, w.sessions[s]? = some session ∧ StoredOk w s session object
  call : ∀ (i : Nat) (call : Call), w.calls[i]? = some call → SessionCallOk w i call

variable {call : Call}

theorem cleansSession_isResumable (h : cleansSession s call = true) : isResumable call = true := by
  cases call <;> first | rfl | cases h

/-- A session goes on as the same upload. -/
structure SameUpload (session session' : ResumableSession) : Prop where
  key : session'.key = session.key
  metadata : session'.metadata = session.metadata
  content : session'.content = session.content
  completing : session.completing = true → session'.completing = true
  cancelled : session.cancelled = true → session'.cancelled = true

theorem SameUpload.refl (session : ResumableSession) : SameUpload session session := ⟨rfl, rfl, rfl, id, id⟩

variable {object : StoredObject}

theorem Left.congr {key : Key} (h : Left w i key object) (he : entries w' i = entries w i) : Left w' i key object := by
  simpa only [Left, he] using h

variable {session session' : ResumableSession} {phase : Resuming}

theorem ResumeOk.congr (h : ResumeOk w i session phase) (he : entries w' i = entries w i) (hs : SameUpload session session') :
    ResumeOk w' i session' phase := by
  cases phase with
  | reading | rejecting => exact he.trans h
  | streaming persisted seen | appending persisted seen =>
    obtain ⟨h₁, h₂, h₃⟩ := h
    exact ⟨he.trans h₁, hs.content ▸ h₂, h₃⟩
  | finishing persisted =>
    obtain ⟨h₁, h₂, h₃⟩ := h
    exact ⟨he.trans h₁, h₂.trans hs.content.symm, hs.completing h₃⟩
  | cleaning | closing =>
    obtain ⟨h₁, h₂⟩ := h
    rw [← hs.key, ← hs.content, ← hs.metadata] at h₂
    exact ⟨hs.completing h₁, h₂.congr he⟩

theorem SessionCallOk.congr (h : SessionCallOk w i call) (he : isResumable call = true → entries w' i = entries w i)
    (hs : ∀ (s : Nat) session, w.sessions[s]? = some session → ∃ session', w'.sessions[s]? = some session' ∧
      SameUpload session session') : SessionCallOk w' i call := by
  cases call with
  | resume s phase =>
    obtain ⟨session, hsession, hok⟩ := h
    obtain ⟨session', hsession', hsame⟩ := hs s session hsession
    exact ⟨session', hsession', hok.congr (he rfl) hsame⟩
  | cancel s phase =>
    obtain ⟨session, hsession, hok⟩ := h
    obtain ⟨session', hsession', hsame⟩ := hs s session hsession
    exact ⟨session', hsession', hsame.cancelled hok⟩
  | resumed s =>
    obtain ⟨session, hsession, hleft⟩ := h
    obtain ⟨session', hsession', hsame⟩ := hs s session hsession
    rw [← hsame.key, ← hsame.content, ← hsame.metadata] at hleft
    exact ⟨session', hsession', hleft.congr (he rfl)⟩
  | _ => trivial

/-- What the resumable half looks at. -/
structure SameResumables (cfg : UploadConfig) (w w' : Managers) : Prop where
  sessions : w'.sessions = w.sessions
  stored : ∀ s, w'.objects.get (reservedKey cfg s) = w.objects.get (reservedKey cfg s)
  calls : ∀ (j : Nat) call, isResumable call = true → (w'.calls[j]? = some call ↔ w.calls[j]? = some call)
  entries : ∀ (j : Nat) call, isResumable call = true → w.calls[j]? = some call → entries w' j = entries w j

theorem Resumables.frame (h : Resumables cfg w) (hs : SameResumables cfg w w') : Resumables cfg w' := by
  constructor
  · rw [hs.sessions]
    exact h.session
  · intro s object hget
    rw [hs.stored] at hget
    obtain ⟨session, hsession, hpre, hlive | ⟨j, call, hj, hclean⟩⟩ := h.stored s object hget
    · exact ⟨session, by rw [hs.sessions]; exact hsession, hpre, .inl hlive⟩
    · exact ⟨session, by rw [hs.sessions]; exact hsession, hpre,
        .inr ⟨j, call, (hs.calls j call (cleansSession_isResumable hclean)).2 hj, hclean⟩⟩
  · intro i call hi
    cases hr : isResumable call with
    | true =>
      have hi' := (hs.calls i call hr).1 hi
      refine (h.call i call hi').congr (fun _ => hs.entries i call hr hi') fun s session hsession => ?_
      exact ⟨session, by rw [hs.sessions]; exact hsession, .refl session⟩
    | false => cases call <;> trivial

theorem Resumables.update (h : Resumables cfg w) (hsession : w.sessions[s]? = some session)
    (hsessions : ∀ (s' : Nat), w'.sessions[s']? = if s' = s then some session' else w.sessions[s']?)
    (hsame : SameUpload session session') (hok : SessionOk session')
    (hmine : ∀ s' call, w.calls[i]? = some call → cleansSession s' call = true → s' = s)
    (hstored : ∀ s', s' ≠ s → w'.objects.get (reservedKey cfg s') = w.objects.get (reservedKey cfg s'))
    (hself : ∀ object, w'.objects.get (reservedKey cfg s) = some object → StoredOk w' s session' object)
    {call' : Call} (hcall : w'.calls[i]? = some call') (hcallOk : SessionCallOk w' i call')
    (hothers : ∀ (j : Nat), j ≠ i → w'.calls[j]? = w.calls[j]? ∧ entries w' j = entries w j) : Resumables cfg w' := by
  have hupload : ∀ (s' : Nat) session₀, w.sessions[s']? = some session₀ → ∃ session₁, w'.sessions[s']? = some session₁ ∧
      SameUpload session₀ session₁ := by
    intro s' session₀ hs'
    rw [hsessions]
    by_cases heq : s' = s
    · subst heq
      obtain rfl := some.inj (hsession.symm.trans hs')
      exact ⟨session', if_pos rfl, hsame⟩
    · exact ⟨session₀, by rw [if_neg heq]; exact hs', .refl session₀⟩
  constructor
  · intro s' session₀ hs'
    rw [hsessions] at hs'
    split at hs'
    · obtain rfl := some.inj hs'
      exact hok
    · exact h.session s' session₀ hs'
  · intro s' object hget
    rw [hsessions]
    by_cases heq : s' = s
    · subst heq
      exact ⟨session', if_pos rfl, hself object hget⟩
    · rw [hstored s' heq] at hget
      obtain ⟨session₀, hs', hpre, hlive⟩ := h.stored s' object hget
      refine ⟨session₀, by rw [if_neg heq]; exact hs', hpre, ?_⟩
      rcases hlive with hlive | ⟨j, call, hj, hclean⟩
      · exact .inl hlive
      · -- the cleaning call is of another session, so it is another call
        have hne : j ≠ i := by
          rintro rfl
          exact heq (hmine s' call hj hclean)
        exact .inr ⟨j, call, by rw [(hothers j hne).1]; exact hj, hclean⟩
  · intro j call hj
    by_cases hij : j = i
    · subst hij
      obtain rfl := some.inj (hcall.symm.trans hj)
      exact hcallOk
    · rw [(hothers j hij).1] at hj
      exact (h.call j call hj).congr (fun _ => (hothers j hij).2) hupload

/-! ### One step of a `resume` or a `cancel` -/

theorem getElem?_go (w : Managers) (hi : w.calls[i]? = some call) (call' : Call) : (w.go i call').calls[i]? = some call' := by
  rw [Managers.go, getElem?_set_self (List.getElem?_eq_some_iff.1 hi).1]

theorem getElem?_go_ne (w : Managers) {j : Nat} (h : j ≠ i) (call : Call) : (w.go i call).calls[j]? = w.calls[j]? := by
  rw [Managers.go, getElem?_set_ne (Ne.symm h)]

theorem others_go (w : Managers) (i : Nat) (call : Call) (j : Nat) (h : j ≠ i) :
    (w.go i call).calls[j]? = w.calls[j]? ∧ entries (w.go i call) j = entries w j := ⟨getElem?_go_ne w h call, rfl⟩

theorem getElem?_begin (w : Managers) (call : Call) : (w.begin_ call).calls[w.calls.length]? = some call := by
  simp [Managers.begin_]

theorem getElem?_begin_ne (w : Managers) (call : Call) {j : Nat} (h : j ≠ w.calls.length) : (w.begin_ call).calls[j]? = w.calls[j]? := by
  rw [Managers.begin_]
  rcases Nat.lt_or_gt_of_ne h with hlt | hgt
  · exact getElem?_append_left hlt
  · rw [getElem?_eq_none (le_of_lt hgt), getElem?_eq_none]
    rw [length_append, length_singleton]
    exact hgt

theorem getElem?_same {X : Type} {l : List X} {x : X} (h : l[s]? = some x) (s' : Nat) : l[s']? = if s' = s then some x else l[s']? := by
  split
  case isTrue heq => rw [heq, h]
  case isFalse => rfl

theorem getElem?_changed {X : Type} {l : List X} {x : X} (h : l[s]? = some x) (x' : X) (s' : Nat) :
    (l.set s x')[s']? = if s' = s then some x' else l[s']? := by
  split
  case isTrue heq => rw [heq, getElem?_set_self (List.getElem?_eq_some_iff.1 h).1]
  case isFalse hne => rw [getElem?_set_ne (Ne.symm hne)]

theorem cleans_resume (hi : w.calls[i]? = some (.resume s phase)) :
    ∀ s' call, w.calls[i]? = some call → cleansSession s' call = true → s' = s := by
  intro s' call hcall hclean
  obtain rfl := some.inj (hi.symm.trans hcall)
  cases phase <;> first | exact (of_decide_eq_true hclean).symm | cases hclean

theorem cleans_cancel {phase : Cancelling} (hi : w.calls[i]? = some (.cancel s phase)) :
    ∀ s' call, w.calls[i]? = some call → cleansSession s' call = true → s' = s := by
  intro s' call hcall hclean
  obtain rfl := some.inj (hi.symm.trans hcall)
  cases phase <;> first | exact (of_decide_eq_true hclean).symm | cases hclean

theorem StoredOk.of_cleaning (h : StoredOk w s session object) (hsame : SameUpload session session')
    (hi : w'.calls[i]? = some call) (hclean : cleansSession s call = true) : StoredOk w' s session' object :=
  ⟨hsame.content ▸ h.1, .inr ⟨i, call, hi, hclean⟩⟩

theorem StoredOk.of_other (h : StoredOk w s session object)
    (hended : ¬ (session.cancelled = false ∧ session.completing = false)) (hi : w.calls[i]? = some call)
    (hclean : cleansSession s call = false) (hsame : SameUpload session session')
    (hcalls : ∀ (j : Nat), j ≠ i → w'.calls[j]? = w.calls[j]?) : StoredOk w' s session' object := by
  obtain ⟨hpre, hlive | ⟨j, call', hj, hclean'⟩⟩ := h
  · exact absurd hlive hended
  · have hne : j ≠ i := by
      rintro rfl
      obtain rfl := some.inj (hi.symm.trans hj)
      rw [hclean] at hclean'
      cases hclean'
    exact ⟨hsame.content ▸ hpre, .inr ⟨j, call', by rw [hcalls j hne]; exact hj, hclean'⟩⟩

theorem Resumables.stored_self (h : Resumables cfg w) (hsession : w.sessions[s]? = some session)
    (hget : w.objects.get (reservedKey cfg s) = some object) : StoredOk w s session object := by
  obtain ⟨session', hs', hok⟩ := h.stored s object hget
  obtain rfl := some.inj (hsession.symm.trans hs')
  exact hok

theorem Resumables.goResume (h : Resumables cfg w)
    {phase' : Resuming} (hi : w.calls[i]? = some (.resume s phase)) (hsession : w.sessions[s]? = some session)
    (hclean : cleansSession s (.resume s phase') = true) (hok : ResumeOk w i session phase') :
    Resumables cfg (w.go i (.resume s phase')) := by
  have hcall := getElem?_go w hi (.resume s phase')
  refine h.update hsession (getElem?_same hsession) (.refl session)
    (h.session s session hsession) (cleans_resume hi) (fun _ _ => rfl) ?_ hcall ?_ (others_go w i _)
  · intro object hget
    exact (h.stored_self hsession hget).of_cleaning (.refl session) hcall hclean
  · exact ⟨session, hsession, hok⟩

theorem Resumables.resumePhase (h : Resumables cfg w) (hi : w.calls[i]? = some (.resume s phase)) (hsession : w.sessions[s]? = some session) :
    ResumeOk w i session phase := by
  obtain ⟨session', hs', hok⟩ := h.call i _ hi
  obtain rfl := some.inj (hsession.symm.trans hs')
  exact hok

theorem append_prefix {content persisted : Bytes} (hpre : persisted <+: content) {seen : Nat} (hseen : seen ≤ persisted.length) (n : Nat) :
    persisted ++ ((content.drop seen).take n).drop (persisted.length - seen) <+: content := by
  have htake : persisted = content.take persisted.length := prefix_iff_eq_take.1 hpre
  rw [drop_take, drop_drop, Nat.add_sub_cancel' hseen]
  have hadd : persisted ++ (content.drop persisted.length).take (n - (persisted.length - seen)) =
      content.take (persisted.length + (n - (persisted.length - seen))) := by
    rw [take_add, ← htake]
  rw [hadd]
  exact List.take_prefix _ _

theorem Resumables.chunk (h : Resumables cfg w) (i n : Nat) : Resumables cfg (w.chunk i n) := by
  simp only [Managers.chunk]
  split
  case h_2 => exact h
  case h_1 s persisted seen hi =>
    split
    case h_1 => exact h
    case h_2 session hsession =>
      obtain ⟨hentries, hpre, hseen⟩ := h.resumePhase hi hsession
      split
      · exact h.goResume hi hsession (by simp [cleansSession]) hentries
      · split
        case isTrue hlt =>
          refine h.goResume hi hsession (by simp [cleansSession]) ⟨hentries, append_prefix hpre hseen n, ?_⟩
          rw [length_append, length_drop]
          omega
        case isFalse hge => exact h.goResume hi hsession (by simp [cleansSession]) ⟨hentries, hpre, by omega⟩

theorem Resumables.endOfStream (h : Resumables cfg w) (ho : Orderly cfg w (.endOfStream i)) : Resumables cfg (w.endOfStream i) := by
  simp only [Managers.endOfStream]
  split
  case h_2 => exact h
  case h_1 s persisted seen hi =>
    split
    case h_1 => exact h
    case h_2 session hsession =>
      split
      case isFalse => exact h
      case isTrue hend =>
        obtain ⟨hentries, hpre, hseen⟩ := h.resumePhase hi hsession
        have hlive := (ho s session (by simp only [streamingOf, hi, hsession, map_some])).1
        have hok := h.session s session hsession
        have hcall := getElem?_go w hi (.resume s (.finishing persisted))
        have hsame : SameUpload session { session with completing := true } := ⟨rfl, rfl, rfl, fun _ => rfl, id⟩
        refine h.update hsession (getElem?_changed hsession _) hsame
          ⟨hok.key, fun _ => hlive, fun _ => .inr rfl, hok.withdrawn⟩ (cleans_resume hi) (fun _ _ => rfl) ?_ hcall ?_ (others_go w i _)
        · intro object hget
          exact (h.stored_self hsession hget).of_cleaning hsame hcall (by simp [cleansSession])
        · have hfull : persisted = session.content := hpre.eq_of_length (by have := hpre.length_le; omega)
          have hset := getElem?_changed hsession { session with completing := true } s
          rw [if_pos rfl] at hset
          exact ⟨_, hset, hentries, hfull, rfl⟩

theorem Resumables.interrupt (h : Resumables cfg w) (ho : Orderly cfg w (.interrupt i)) : Resumables cfg (w.interrupt i) := by
  simp only [Managers.interrupt]
  split
  case h_2 => exact h
  case h_1 s persisted seen hi =>
    obtain ⟨session, hsession, -⟩ := h.call i _ hi
    have hcall := getElem?_go w hi .rejected
    refine h.update hsession (getElem?_same hsession)
      (.refl session) (h.session s session hsession) (cleans_resume hi) (fun _ _ => rfl) ?_ hcall ?_ (others_go w i _)
    · intro object hget
      rcases ho s session (by simp only [streamingOf, hi, hsession, map_some]) with hlive | hnone
      · exact ⟨(h.stored_self hsession hget).1, .inl hlive⟩
      · rw [show (w.go i Call.rejected).objects = w.objects from rfl, hnone] at hget
        cases hget
    · trivial

theorem get_reserved_ne {s' : Nat} (h : s' ≠ s) (object : StoredObject) :
    (w.objects.set (reservedKey cfg s) object).get (reservedKey cfg s') = w.objects.get (reservedKey cfg s') := by
  rw [get_set, if_neg (fun heq => h (reservedKey_inj.1 heq))]

theorem get_deleted {s' : Nat} : (w.objects.delete (reservedKey cfg s)).get (reservedKey cfg s') =
      if s' = s then none else w.objects.get (reservedKey cfg s') := by
  simp only [get_delete, reservedKey_inj]

theorem Resumables.stepResume (h : Resumables cfg w) (hi : w.calls[i]? = some (.resume s phase)) (hsession : w.sessions[s]? = some session) :
    Resumables cfg (w.stepResume cfg i s session phase) := by
  have hphase := h.resumePhase hi hsession
  have hok := h.session s session hsession
  cases phase with
  | reading =>
    refine h.goResume hi hsession (by simp [cleansSession]) ⟨hphase, ?_, Nat.zero_le _⟩
    cases hget : w.objects.get (reservedKey cfg s) with
    | none => exact List.nil_prefix
    | some object => exact (h.stored_self hsession hget).1
  | streaming persisted seen => exact h
  | appending persisted seen =>
    simp only [Managers.stepResume]
    have hcall := getElem?_go w hi (.resume s (.streaming persisted seen))
    refine h.update hsession (getElem?_same hsession)
      (.refl session) hok (cleans_resume hi) (fun s' hs' => get_reserved_ne hs' _) ?_ hcall ?_ (others_go w i _)
    · intro object hget
      simp only [Managers.go, Managers.put, get_set, if_true, Option.some.injEq] at hget
      subst hget
      exact ⟨hphase.2.1, .inr ⟨i, _, hcall, by simp [cleansSession]⟩⟩
    · exact ⟨session, hsession, hphase⟩
  | rejecting =>
    simp only [Managers.stepResume]
    have hcall := getElem?_go w hi .rejected
    refine h.update hsession (getElem?_same hsession)
      (.refl session) hok (cleans_resume hi) (fun s' hs' => by simp only [Managers.go, Managers.delete, get_deleted, if_neg hs'])
      ?_ hcall ?_ (others_go w i _)
    · intro object hget
      simp only [Managers.go, Managers.delete, get_deleted, if_true] at hget
      cases hget
    · trivial
  | finishing persisted =>
    simp only [Managers.stepResume]
    obtain ⟨hentries, rfl, hcomp⟩ := hphase
    have hcall := getElem?_go (w.write i session.key ⟨session.content, some session.metadata⟩ session.withdrawn) hi (.resume s .cleaning)
    have hother : ∀ s', session.key ≠ reservedKey cfg s' := fun s' => ne_reserved hok.key (isScratch_reservedKey s')
    refine h.update hsession (getElem?_same hsession) (.refl session) hok (cleans_resume hi)
      (fun s' _ => by simp only [Managers.go, Managers.write, Managers.put, get_set, if_neg (hother s').symm]) ?_ hcall ?_
      fun j hj => ⟨getElem?_go_ne _ hj _, entries_write_other w hj _ _ _⟩
    · intro object hget
      simp only [Managers.go, Managers.write, Managers.put, get_set, if_neg (hother s).symm] at hget
      exact (h.stored_self hsession hget).of_cleaning (.refl session) hcall (by simp [cleansSession])
    · exact ⟨session, hsession, hcomp, left_write w i _ _ _⟩
  | cleaning =>
    simp only [Managers.stepResume]
    have hcall := getElem?_go w hi (.resume s .closing)
    refine h.update hsession (getElem?_same hsession)
      (.refl session) hok (cleans_resume hi) (fun s' hs' => by simp only [Managers.go, Managers.delete, get_deleted, if_neg hs'])
      ?_ hcall ?_ (others_go w i _)
    · intro object hget
      simp only [Managers.go, Managers.delete, get_deleted, if_true] at hget
      cases hget
    · exact ⟨session, hsession, hphase⟩
  | closing =>
    obtain ⟨hcomp, hleft⟩ := hphase
    have hcall := getElem?_go w hi (.resumed s)
    have hset := getElem?_changed hsession { session with listed := false }
    refine h.update hsession hset ⟨rfl, rfl, rfl, id, id⟩
      ⟨hok.key, hok.completing, fun _ => .inr hcomp, hok.withdrawn⟩ (cleans_resume hi) (fun _ _ => rfl) ?_ hcall ?_ (others_go w i _)
    · intro object hget
      refine (h.stored_self hsession hget).of_other (by simp [hcomp]) hi rfl ⟨rfl, rfl, rfl, id, id⟩ fun j hj => ?_
      exact getElem?_go_ne w hj _
    · have hs := hset s
      rw [if_pos rfl] at hs
      exact ⟨_, hs, hleft⟩

theorem Resumables.stepCancel (h : Resumables cfg w) {phase : Cancelling}
    (hi : w.calls[i]? = some (.cancel s phase)) (hsession : w.sessions[s]? = some session) :
    Resumables cfg (w.stepCancel cfg i s session phase) := by
  have hok := h.session s session hsession
  obtain ⟨session', hs', hcancelled⟩ := h.call i _ hi
  obtain rfl := some.inj (hsession.symm.trans hs')
  cases phase with
  | deleting =>
    simp only [Managers.stepCancel]
    have hcall := getElem?_go w hi (.cancel s .closing)
    refine h.update hsession (getElem?_same hsession)
      (.refl session) hok (cleans_cancel hi) (fun s' hs' => by simp only [Managers.go, Managers.delete, get_deleted, if_neg hs'])
      ?_ hcall ?_ (others_go w i _)
    · intro object hget
      simp only [Managers.go, Managers.delete, get_deleted, if_true] at hget
      cases hget
    · exact ⟨session, hsession, hcancelled⟩
  | closing =>
    have hcall := getElem?_go w hi .resolved
    have hset := getElem?_changed hsession { session with listed := false, withdrawn := true }
    refine h.update hsession hset ⟨rfl, rfl, rfl, id, id⟩
      ⟨hok.key, hok.completing, fun _ => .inl hcancelled, fun _ => hcancelled⟩ (cleans_cancel hi) (fun _ _ => rfl) ?_ hcall ?_ (others_go w i _)
    · intro object hget
      refine (h.stored_self hsession hget).of_other (by simp [hcancelled]) hi rfl ⟨rfl, rfl, rfl, id, id⟩ fun j hj => ?_
      exact getElem?_go_ne w hj _
    · trivial

/-! ### Beginning -/

theorem Resumables.begin_ (h : Resumables cfg w) (hcall : isResumable call = false) : Resumables cfg (w.begin_ call) := by
  refine h.frame ⟨rfl, fun _ => rfl, fun j call' hr => ?_, fun _ _ _ _ => rfl⟩
  by_cases hj : j = w.calls.length
  · subst hj
    rw [getElem?_begin, getElem?_eq_none le_rfl]
    constructor
    · intro heq
      obtain rfl := some.inj heq
      rw [hr] at hcall
      cases hcall
    · intro heq
      cases heq
  · rw [getElem?_begin_ne w call hj]

theorem cleans_none : ∀ (s s' : Nat) (call : Call), w.calls[w.calls.length]? = some call → cleansSession s' call = true → s' = s := by
  intro s s' call hcall
  rw [getElem?_eq_none le_rfl] at hcall
  cases hcall

/-- No call that has not begun has written. -/
def Begun (w : Managers) : Prop := ∀ e ∈ w.written, e.call < w.calls.length

theorem Begun.entries (h : Begun w) : entries w w.calls.length = [] := by
  refine filter_eq_nil_iff.2 fun e he heq => ?_
  have := h e he
  have := of_decide_eq_true heq
  omega

theorem Resumables.resumeCall (h : Resumables cfg w) (hb : Begun w) (s : Nat) : Resumables cfg (w.resume s) := by
  simp only [Managers.resume]
  split
  case h_1 => exact h.begin_ rfl
  case h_2 session hsession =>
    split
    case isFalse => exact h.begin_ rfl
    case isTrue =>
      have hcall := getElem?_begin w (.resume s .reading)
      refine h.update hsession (getElem?_same hsession)
        (.refl session) (h.session s session hsession) (cleans_none s) (fun _ _ => rfl) ?_ hcall ?_ fun j hj => ⟨getElem?_begin_ne w _ hj, rfl⟩
      · intro object hget
        exact (h.stored_self hsession hget).of_cleaning (.refl session) hcall (by simp [cleansSession])
      · exact ⟨session, hsession, hb.entries⟩

theorem Resumables.cancelCall (h : Resumables cfg w) (s : Nat) : Resumables cfg (w.cancel s) := by
  simp only [Managers.cancel]
  split
  case h_1 => exact h.begin_ rfl
  case h_2 session hsession =>
    split
    case isTrue => exact h.begin_ rfl
    case isFalse hlive =>
      have hcomp : session.completing ≠ true := fun hc => hlive (.inr hc)
      have hok := h.session s session hsession
      have hcall := getElem?_begin w (.cancel s .deleting)
      have hset := getElem?_changed hsession { session with cancelled := true }
      have hsame : SameUpload session { session with cancelled := true } := ⟨rfl, rfl, rfl, id, fun _ => rfl⟩
      refine h.update hsession hset hsame
        ⟨hok.key, fun hc => absurd hc hcomp, fun _ => .inl rfl, fun _ => rfl⟩ (cleans_none s) (fun _ _ => rfl) ?_ hcall ?_ fun j hj => ⟨getElem?_begin_ne w _ hj, rfl⟩
      · intro object hget
        exact (h.stored_self hsession hget).of_cleaning hsame hcall (by simp [cleansSession])
      · have hs := hset s
        rw [if_pos rfl] at hs
        exact ⟨_, hs, rfl⟩

theorem Resumables.start (h : Resumables cfg w) {key : Key} (hkey : isScratch key = false) (metadata : WriteMetadata)
    (content : Bytes) : Resumables cfg (w.start key metadata content) := by
  have hold : ∀ {s : Nat} {session}, w.sessions[s]? = some session →
      (w.sessions ++ [⟨key, metadata, content, false, false, true, false⟩])[s]? = some session := by
    intro s session hs
    rw [getElem?_append_left (List.getElem?_eq_some_iff.1 hs).1]
    exact hs
  constructor
  · intro s session hs
    simp only [Managers.start, getElem?_append] at hs
    split at hs
    · exact h.session s session hs
    · obtain rfl := mem_singleton.1 (mem_of_getElem? hs)
      exact ⟨hkey, nofun, nofun, nofun⟩
  · intro s object hget
    obtain ⟨session, hs, hok⟩ := h.stored s object hget
    exact ⟨session, hold hs, hok⟩
  · intro i call hi
    exact (h.call i call hi).congr (fun _ => rfl) fun s session hs => ⟨session, hold hs, .refl session⟩

end StreetJS.Storage.Uploads
