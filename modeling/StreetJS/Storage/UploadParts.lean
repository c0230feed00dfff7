/-
The multipart half of the invariant of the upload managers: what a completing call has assembled, which parts are still
stored, and which calls on one upload are never in flight together.
-/
import StreetJS.Storage.UploadsExact

namespace StreetJS.Storage.Uploads

open StreetJS.Lib OrderedMap Managers
open Option (map_some some.inj)

variable {cfg : UploadConfig}

/-! ## Calls that are not in flight together -/

/-- A completing call is the only one on its upload, and no part is stored beside an abort. -/
structure Exclusive (w : Managers) : Prop where
  alone : ∀ (i j : Nat) (ci cj : Call) (u : Nat), w.calls[i]? = some ci → w.calls[j]? = some cj → i ≠ j →
    completeOf u ci = true → onUpload u cj = false
  apart : ∀ (i j : Nat) (ci cj : Call) (u : Nat), w.calls[i]? = some ci → w.calls[j]? = some cj → abortOf u ci = true → partOf u cj = false

/-- The call is of the same kind on the same upload, or settled. -/
structure Follows (call call' : Call) : Prop where
  part : ∀ u, partOf u call' = true → partOf u call = true
  complete : ∀ u, completeOf u call' = true → completeOf u call = true
  abort : ∀ u, abortOf u call' = true → abortOf u call = true

theorem Follows.onUpload {call call' : Call} (h : Follows call call') {u : Nat} (hu : onUpload u call' = true) : onUpload u call = true := by
  simp only [Uploads.onUpload, Bool.or_eq_true] at hu ⊢
  exact hu.imp (Or.imp (h.part u) (h.complete u)) (h.abort u)

theorem Follows.refl (call : Call) : Follows call call := ⟨fun _ => id, fun _ => id, fun _ => id⟩

variable {call call' : Call}

theorem follows_settled (h : ∀ u, onUpload u call' = false) : Follows call call' := by
  have h' : ∀ u, partOf u call' = false ∧ completeOf u call' = false ∧ abortOf u call' = false := by
    intro u
    have hu := h u
    simp only [Uploads.onUpload, Bool.or_eq_false_iff] at hu
    exact ⟨hu.1.1, hu.1.2, hu.2⟩
  constructor
  · intro u hu
    rw [(h' u).1] at hu
    cases hu
  · intro u hu
    rw [(h' u).2.1] at hu
    cases hu
  · intro u hu
    rw [(h' u).2.2] at hu
    cases hu

variable {w w' : Managers}

theorem Exclusive.follow (h : Exclusive w) (hcalls : ∀ (i : Nat) call', w'.calls[i]? = some call' →
    ∃ call, w.calls[i]? = some call ∧ Follows call call') : Exclusive w' := by
  constructor
  · intro i j ci cj u hi hj hne hc
    obtain ⟨ci₀, hi₀, hfi⟩ := hcalls i ci hi
    obtain ⟨cj₀, hj₀, hfj⟩ := hcalls j cj hj
    have hold := h.alone i j ci₀ cj₀ u hi₀ hj₀ hne (hfi.complete u hc)
    cases hu : Uploads.onUpload u cj with
    | false => rfl
    | true =>
      rw [hfj.onUpload hu] at hold
      cases hold
  · intro i j ci cj u hi hj ha
    obtain ⟨ci₀, hi₀, hfi⟩ := hcalls i ci hi
    obtain ⟨cj₀, hj₀, hfj⟩ := hcalls j cj hj
    have hold := h.apart i j ci₀ cj₀ u hi₀ hj₀ (hfi.abort u ha)
    cases hu : partOf u cj with
    | false => rfl
    | true =>
      rw [hfj.part u hu] at hold
      cases hold

theorem Exclusive.same (h : Exclusive w) (hcalls : w'.calls = w.calls) : Exclusive w' :=
  h.follow fun _ call hi => ⟨call, by rw [← hcalls]; exact hi, .refl call⟩

variable {i : Nat}

theorem Exclusive.go (h : Exclusive w) (hcalls : w'.calls = w.calls.set i call') (hi : w.calls[i]? = some call) (hf : Follows call call') :
    Exclusive w' := by
  refine h.follow fun j cj hj => ?_
  rw [hcalls, getElem?_changed hi] at hj
  split at hj
  case isTrue heq =>
    obtain rfl := some.inj hj
    exact ⟨call, heq ▸ hi, hf⟩
  case isFalse => exact ⟨cj, hj, .refl cj⟩

theorem Exclusive.begin_ (h : Exclusive w) (hcomplete : ∀ u, completeOf u call = true → ∀ c ∈ w.calls, Uploads.onUpload u c = false)
    (hon : ∀ u, Uploads.onUpload u call = true → ∀ c ∈ w.calls, completeOf u c = false)
    (habort : ∀ u, abortOf u call = true → ∀ c ∈ w.calls, partOf u c = false)
    (hpart : ∀ u, partOf u call = true → ∀ c ∈ w.calls, abortOf u c = false) : Exclusive (w.begin_ call) := by
  have hcases : ∀ {i : Nat} {c}, (w.begin_ call).calls[i]? = some c →
      w.calls[i]? = some c ∧ i ≠ w.calls.length ∨ c = call ∧ i = w.calls.length := by
    intro i c hi
    by_cases heq : i = w.calls.length
    · subst heq
      rw [getElem?_begin] at hi
      exact .inr ⟨(some.inj hi).symm, rfl⟩
    · rw [getElem?_begin_ne w call heq] at hi
      exact .inl ⟨hi, heq⟩
  have hnot : ∀ {b : Bool}, (b = true → False) → b = false := fun {b} hb => by
    cases b with
    | false => rfl
    | true => exact (hb rfl).elim
  constructor
  · intro i j ci cj u hi hj hne hc
    rcases hcases hi with ⟨hi', -⟩ | ⟨rfl, hi'⟩ <;> rcases hcases hj with ⟨hj', -⟩ | ⟨rfl, hj'⟩
    · exact h.alone i j ci cj u hi' hj' hne hc
    · refine hnot fun hu => ?_
      rw [hon u hu ci (List.mem_of_getElem? hi')] at hc
      cases hc
    · exact hcomplete u hc cj (List.mem_of_getElem? hj')
    · exact absurd (hi'.trans hj'.symm) hne
  · intro i j ci cj u hi hj ha
    rcases hcases hi with ⟨hi', -⟩ | ⟨rfl, hi'⟩ <;> rcases hcases hj with ⟨hj', -⟩ | ⟨rfl, hj'⟩
    · exact h.apart i j ci cj u hi' hj' ha
    · refine hnot fun hu => ?_
      rw [hpart u hu ci (List.mem_of_getElem? hi')] at ha
      cases ha
    · exact habort u ha cj (List.mem_of_getElem? hj')
    · cases cj <;> first | rfl | cases ha

/-! ## The multipart half of the invariant -/

def isMultipart : Call → Bool
  | .uploadPart _ _ | .complete _ _ _ | .abort _ _ | .completed _ _ => true
  | _ => false

variable {u : Nat}

theorem onUpload_isMultipart (h : onUpload u call = true) : isMultipart call = true := by
  cases call <;> first | rfl | cases h

def Cleared (cfg : UploadConfig) (w : Managers) (u : Nat) (parts : List Nat) : Prop :=
  ∀ part ∈ parts, w.objects.get (reservedPart cfg u part) = none

def DiscardOk (cfg : UploadConfig) (w : Managers) (u : Nat) (upload : MultipartSession) : Discarding → Prop
  | .next index => Cleared cfg w u (upload.partNumbers.take index)
  | .deleting index part => upload.partNumbers[index]? = some part ∧ Cleared cfg w u (upload.partNumbers.take index)

def fileAt (w : Managers) (key : Key) : Bytes := ((w.objects.get key).map StoredObject.bytes).getD []

/-- What is assembled and what is still listed make the expected content; a driver that streams has what is assembled in
the file, and misses no part, and another has written nothing. -/
def CompleteOk (cfg : UploadConfig) (w : Managers) (i u : Nat) (upload : MultipartSession) (expected : Option Bytes) : Completing → Prop
  | .opening parts => cfg.streams = true ∧ expected ≠ none ∧ assemble cfg w.objects u parts = expected
  | .collecting parts assembled =>
    (assemble cfg w.objects u parts).map (fun rest => assembled ++ rest) = expected ∧
      (cfg.streams = true → expected ≠ none ∧ fileAt w upload.key = assembled) ∧ (cfg.streams = false → entries w i = [])
  | .writing parts assembled chunk =>
    (assemble cfg w.objects u parts).map (fun rest => assembled ++ chunk ++ rest) = expected ∧ cfg.streams = true ∧
      expected ≠ none ∧ fileAt w upload.key = assembled
  | .discarding phase => DiscardOk cfg w u upload phase ∧ ∃ bytes, expected = some bytes ∧ Left w i upload.key ⟨bytes, some upload.metadata⟩

/-- What the call says of its upload. -/
def UploadCallOk (cfg : UploadConfig) (w : Managers) (i : Nat) : Call → Prop
  | .uploadPart u _ => ∃ upload, w.uploads[u]? = some upload ∧ upload.listed = true
  | .complete u expected phase => ∃ upload, w.uploads[u]? = some upload ∧ upload.listed = true ∧ CompleteOk cfg w i u upload expected phase
  | .abort u phase => ∃ upload, w.uploads[u]? = some upload ∧ DiscardOk cfg w u upload phase
  | .completed u expected => ∃ upload bytes, w.uploads[u]? = some upload ∧ expected = some bytes ∧
    Left w i upload.key ⟨bytes, some upload.metadata⟩
  | _ => True

/-- A part that is stored is known to its upload, or will be by the call that stored it. -/
def PartOk (w : Managers) (u part : Nat) (upload : MultipartSession) : Prop :=
  upload.listed = true ∧ (part ∈ upload.partNumbers ∨ ∃ j : Nat, w.calls[j]? = some (.uploadPart u (.noting part)))

structure Multiparts (cfg : UploadConfig) (w : Managers) : Prop where
  upload : ∀ (u : Nat) upload, w.uploads[u]? = some upload → isScratch upload.key = false ∧ (upload.withdrawn = true → upload.listed = false)
  part : ∀ (u part : Nat) (object : StoredObject), w.objects.get (reservedPart cfg u part) = some object →
    ∃ upload, w.uploads[u]? = some upload ∧ PartOk w u part upload
  call : ∀ (i : Nat) (call : Call), w.calls[i]? = some call → UploadCallOk cfg w i call

theorem assemble_congr {w w' : Managers} {u : Nat}
    (h : ∀ part, w'.objects.get (reservedPart cfg u part) = w.objects.get (reservedPart cfg u part)) :
    ∀ parts, assemble cfg w'.objects u parts = assemble cfg w.objects u parts
  | [] => rfl
  | part :: parts => by simp only [assemble, h part, assemble_congr h parts]

variable {upload upload' : MultipartSession}

theorem DiscardOk.congr {phase : Discarding} (h : DiscardOk cfg w u upload phase) (hparts : upload'.partNumbers = upload.partNumbers)
    (hnone : ∀ part, w.objects.get (reservedPart cfg u part) = none → w'.objects.get (reservedPart cfg u part) = none) :
    DiscardOk cfg w' u upload' phase := by
  cases phase with
  | next index =>
    intro part hpart
    rw [hparts] at hpart
    exact hnone part (h part hpart)
  | deleting index part =>
    refine ⟨by rw [hparts]; exact h.1, fun part' hpart => ?_⟩
    rw [hparts] at hpart
    exact hnone part' (h.2 part' hpart)

theorem CompleteOk.congr {expected : Option Bytes}
    {phase : Completing} (h : CompleteOk cfg w i u upload expected phase) (he : entries w' i = entries w i)
    (hparts : ∀ part, w'.objects.get (reservedPart cfg u part) = w.objects.get (reservedPart cfg u part))
    (hfile : cfg.streams = true → (∀ d, phase ≠ .discarding d) → w'.objects.get upload.key = w.objects.get upload.key) :
    CompleteOk cfg w' i u upload expected phase := by
  have hassemble := assemble_congr hparts
  have hfile' : cfg.streams = true → (∀ d, phase ≠ .discarding d) → fileAt w' upload.key = fileAt w upload.key :=
    fun hs hd => by rw [fileAt, fileAt, hfile hs hd]
  cases phase with
  | opening parts =>
    obtain ⟨h₁, h₂, h₃⟩ := h
    exact ⟨h₁, h₂, (hassemble parts).trans h₃⟩
  | collecting parts assembled =>
    obtain ⟨h₁, h₂, h₃⟩ := h
    refine ⟨by rw [hassemble]; exact h₁, fun hs => ⟨(h₂ hs).1, ?_⟩, fun hs => he.trans (h₃ hs)⟩
    rw [hfile' hs nofun]
    exact (h₂ hs).2
  | writing parts assembled chunk =>
    obtain ⟨h₁, h₂, h₃, h₄⟩ := h
    exact ⟨by rw [hassemble]; exact h₁, h₂, h₃, (hfile' h₂ nofun).trans h₄⟩
  | discarding phase =>
    obtain ⟨h₁, bytes, h₂, h₃⟩ := h
    exact ⟨h₁.congr rfl fun part hp => (hparts part).trans hp, bytes, h₂, h₃.congr he⟩

theorem UploadCallOk.congr (h : UploadCallOk cfg w i call) (he : isMultipart call = true → entries w' i = entries w i)
    (hu : ∀ (u : Nat) upload, w.uploads[u]? = some upload → ∃ upload', w'.uploads[u]? = some upload' ∧
      upload'.key = upload.key ∧ upload'.metadata = upload.metadata ∧ (onUpload u call = true → upload' = upload))
    (hparts : ∀ u part, onUpload u call = true → w'.objects.get (reservedPart cfg u part) = w.objects.get (reservedPart cfg u part))
    (hfile : cfg.streams = true → ∀ key, streamsTo w call = some key → w'.objects.get key = w.objects.get key) :
    UploadCallOk cfg w' i call := by
  cases call with
  | uploadPart u phase =>
    obtain ⟨upload, hupload, hlisted⟩ := h
    obtain ⟨upload', hupload', -, -, hsame⟩ := hu u upload hupload
    obtain rfl := hsame (by simp [onUpload, partOf])
    exact ⟨_, hupload', hlisted⟩
  | complete u expected phase =>
    obtain ⟨upload, hupload, hlisted, hok⟩ := h
    have hon : onUpload u (.complete u expected phase) = true := by simp [onUpload, completeOf]
    obtain ⟨upload', hupload', -, -, hsame⟩ := hu u upload hupload
    obtain rfl := hsame hon
    refine ⟨_, hupload', hlisted, hok.congr (he rfl) (fun part => hparts u part hon) fun hs hd => ?_⟩
    refine hfile hs _ ?_
    cases phase with
    | discarding d => exact absurd rfl (hd d)
    | _ => simp only [streamsTo, hupload, map_some]
  | abort u phase =>
    obtain ⟨upload, hupload, hok⟩ := h
    have hon : onUpload u (.abort u phase) = true := by simp [onUpload, abortOf]
    obtain ⟨upload', hupload', -, -, hsame⟩ := hu u upload hupload
    obtain rfl := hsame hon
    exact ⟨_, hupload', hok.congr rfl fun part hp => (hparts u part hon).trans hp⟩
  | completed u expected =>
    obtain ⟨upload, bytes, hupload, hbytes, hleft⟩ := h
    obtain ⟨upload', hupload', hkey, hmetadata, -⟩ := hu u upload hupload
    rw [← hkey, ← hmetadata] at hleft
    exact ⟨upload', bytes, hupload', hbytes, hleft.congr (he rfl)⟩
  | _ => trivial

/-- What the multipart half looks at. -/
structure SameMultiparts (cfg : UploadConfig) (w w' : Managers) : Prop where
  uploads : w'.uploads = w.uploads
  parts : ∀ u part, w'.objects.get (reservedPart cfg u part) = w.objects.get (reservedPart cfg u part)
  files : cfg.streams = true → ∀ (j : Nat) call key, w.calls[j]? = some call → streamsTo w call = some key →
    w'.objects.get key = w.objects.get key
  calls : ∀ (j : Nat) call, isMultipart call = true → (w'.calls[j]? = some call ↔ w.calls[j]? = some call)
  entries : ∀ (j : Nat) call, isMultipart call = true → w.calls[j]? = some call → entries w' j = entries w j

theorem Multiparts.frame (h : Multiparts cfg w) (hs : SameMultiparts cfg w w') : Multiparts cfg w' := by
  constructor
  · rw [hs.uploads]
    exact h.upload
  · intro u part object hget
    rw [hs.parts] at hget
    obtain ⟨upload, hupload, hlisted, hknown | ⟨j, hj⟩⟩ := h.part u part object hget
    · exact ⟨upload, by rw [hs.uploads]; exact hupload, hlisted, .inl hknown⟩
    · exact ⟨upload, by rw [hs.uploads]; exact hupload, hlisted, .inr ⟨j, (hs.calls j _ rfl).2 hj⟩⟩
  · intro i call hi
    cases hm : isMultipart call with
    | false => cases call <;> trivial
    | true =>
      have hi' := (hs.calls i call hm).1 hi
      refine (h.call i call hi').congr (fun _ => hs.entries i call hm hi') ?_ (fun u part _ => hs.parts u part)
        (fun hst key hkey => hs.files hst i call key hi' hkey)
      intro u upload hupload
      exact ⟨upload, by rw [hs.uploads]; exact hupload, rfl, rfl, fun _ => rfl⟩

theorem Multiparts.update (h : Multiparts cfg w) (hupload : w.uploads[u]? = some upload)
    (huploads : ∀ (u' : Nat), w'.uploads[u']? = if u' = u then some upload' else w.uploads[u']?)
    (hwithdrawn : upload'.withdrawn = true → upload'.listed = false)
    (hmine : ∀ u' call, w.calls[i]? = some call → onUpload u' call = true → u' = u)
    (hparts : ∀ u' part, u' ≠ u → w'.objects.get (reservedPart cfg u' part) = w.objects.get (reservedPart cfg u' part))
    (hpart : ∀ part object, w'.objects.get (reservedPart cfg u part) = some object → PartOk w' u part upload')
    (hfiles : cfg.streams = true → ∀ (j : Nat) call key, j ≠ i → w.calls[j]? = some call →
      streamsTo w call = some key → w'.objects.get key = w.objects.get key)
    (hothers : ∀ (j : Nat) call, j ≠ i → w.calls[j]? = some call → onUpload u call = true →
      UploadCallOk cfg w j call → UploadCallOk cfg w' j call)
    {call' : Call} (hcall : w'.calls[i]? = some call') (hcallOk : UploadCallOk cfg w' i call')
    (hbeside : ∀ (j : Nat), j ≠ i → w'.calls[j]? = w.calls[j]? ∧ entries w' j = entries w j)
    (hkey : upload'.key = upload.key) (hmetadata : upload'.metadata = upload.metadata) : Multiparts cfg w' := by
  constructor
  · intro u' upload₀ hu'
    rw [huploads] at hu'
    split at hu'
    · obtain rfl := some.inj hu'
      exact ⟨hkey ▸ (h.upload u upload hupload).1, hwithdrawn⟩
    · exact h.upload u' upload₀ hu'
  · intro u' part object hget
    rw [huploads]
    by_cases heq : u' = u
    · subst heq
      exact ⟨upload', if_pos rfl, hpart part object hget⟩
    · rw [hparts u' part heq] at hget
      obtain ⟨upload₀, hu', hlisted, hknown⟩ := h.part u' part object hget
      refine ⟨upload₀, by rw [if_neg heq]; exact hu', hlisted, ?_⟩
      rcases hknown with hknown | ⟨j, hj⟩
      · exact .inl hknown
      · have hne : j ≠ i := by
          rintro rfl
          exact heq (hmine u' _ hj (by simp [onUpload, partOf]))
        exact .inr ⟨j, by rw [(hbeside j hne).1]; exact hj⟩
  · intro j call hj
    by_cases hij : j = i
    · subst hij
      obtain rfl := some.inj (hcall.symm.trans hj)
      exact hcallOk
    · rw [(hbeside j hij).1] at hj
      have hok := h.call j call hj
      cases hon : onUpload u call with
      | true => exact hothers j call hij hj hon hok
      | false =>
        have hne : ∀ {u'}, onUpload u' call = true → u' ≠ u := by
          rintro u' hu' rfl
          rw [hon] at hu'
          cases hu'
        refine hok.congr (fun _ => (hbeside j hij).2) ?_ (fun u' part hu' => hparts u' part (hne hu'))
          (fun hs key hk => hfiles hs j call key hij hj hk)
        intro u' upload₀ hu'
        rw [huploads]
        by_cases heq : u' = u
        · subst heq
          obtain rfl := some.inj (hupload.symm.trans hu')
          exact ⟨upload', if_pos rfl, hkey, hmetadata, fun hu => absurd rfl (hne hu)⟩
        · exact ⟨upload₀, by rw [if_neg heq]; exact hu', rfl, rfl, fun _ => rfl⟩

/-! ## Files that a call streams to -/

/-- Where the driver streams, no other call writes at the key that a call streams to. -/
def Separate (cfg : UploadConfig) (w : Managers) : Prop :=
  cfg.streams = true → ∀ (i j : Nat) (ci cj : Call) (key : Key), w.calls[i]? = some ci → w.calls[j]? = some cj → i ≠ j →
    streamsTo w ci = some key → streamsTo w cj ≠ some key ∧ finishesAt w cj ≠ some key

/-- Every upload and every session keeps its key. -/
structure SameKeys (w w' : Managers) : Prop where
  uploads : ∀ u : Nat, (w'.uploads[u]?).map MultipartSession.key = (w.uploads[u]?).map MultipartSession.key
  sessions : ∀ s : Nat, (w'.sessions[s]?).map ResumableSession.key = (w.sessions[s]?).map ResumableSession.key

theorem SameKeys.of_eq (hu : w'.uploads = w.uploads) (hs : w'.sessions = w.sessions) : SameKeys w w' := by
  constructor
  · intro u
    rw [hu]
  · intro s
    rw [hs]

theorem SameKeys.of_upload (hupload : w.uploads[u]? = some upload) (hu : w'.uploads = w.uploads.set u upload')
    (hkey : upload'.key = upload.key) (hs : w'.sessions = w.sessions) : SameKeys w w' := by
  constructor
  · intro u'
    rw [hu, getElem?_changed hupload]
    split
    case isTrue heq => rw [heq, hupload, map_some, map_some, hkey]
    case isFalse => rfl
  · intro s
    rw [hs]

theorem SameKeys.of_session {s : Nat} {session session' : ResumableSession}
    (hsession : w.sessions[s]? = some session) (hs : w'.sessions = w.sessions.set s session')
    (hkey : session'.key = session.key) (hu : w'.uploads = w.uploads) : SameKeys w w' := by
  constructor
  · intro u
    rw [hu]
  · intro s'
    rw [hs, getElem?_changed hsession]
    split
    case isTrue heq => rw [heq, hsession, map_some, map_some, hkey]
    case isFalse => rfl

theorem SameKeys.streamsTo {w w' : Managers} (h : SameKeys w w') (call : Call) : streamsTo w' call = streamsTo w call := by
  cases call with
  | complete u expected phase =>
    cases phase with
    | discarding => rfl
    | _ => exact h.uploads u
  | _ => rfl

theorem SameKeys.finishesAt {w w' : Managers} (h : SameKeys w w') (call : Call) : finishesAt w' call = finishesAt w call := by
  cases call with
  | resume s phase =>
    cases phase with
    | finishing => exact h.sessions s
    | _ => rfl
  | _ => rfl

/-- The call writes at no key that the one before it does not write at. -/
structure WritesLess (w : Managers) (call call' : Call) : Prop where
  streams : ∀ key, streamsTo w call' = some key → streamsTo w call = some key
  finishes : ∀ key, finishesAt w call' = some key → finishesAt w call = some key

theorem WritesLess.refl (call : Call) : WritesLess w call call := ⟨fun _ => id, fun _ => id⟩

theorem writesLess_none (hs : streamsTo w call' = none) (hf : finishesAt w call' = none) : WritesLess w call call' := by
  constructor
  · intro key hk
    rw [hs] at hk
    cases hk
  · intro key hk
    rw [hf] at hk
    cases hk

section

variable (h : Separate cfg w) (hkeys : SameKeys w w')
include h hkeys

theorem Separate.follow (hcalls : ∀ (i : Nat) call', w'.calls[i]? = some call' → ∃ call, w.calls[i]? = some call ∧ WritesLess w call call') :
    Separate cfg w' := by
  intro hst i j ci cj key hi hj hne hkey
  obtain ⟨ci₀, hi₀, hli⟩ := hcalls i ci hi
  obtain ⟨cj₀, hj₀, hlj⟩ := hcalls j cj hj
  rw [hkeys.streamsTo] at hkey
  have hold := h hst i j ci₀ cj₀ key hi₀ hj₀ hne (hli.streams key hkey)
  rw [hkeys.streamsTo, hkeys.finishesAt]
  exact ⟨fun hk => hold.1 (hlj.streams key hk), fun hk => hold.2 (hlj.finishes key hk)⟩

theorem Separate.go (hcalls : w'.calls = w.calls.set i call') (hi : w.calls[i]? = some call) (hl : WritesLess w call call') :
    Separate cfg w' := by
  refine h.follow hkeys fun j cj hj => ?_
  rw [hcalls, getElem?_changed hi] at hj
  split at hj
  case isTrue heq =>
    obtain rfl := some.inj hj
    exact ⟨call, heq ▸ hi, hl⟩
  case isFalse => exact ⟨cj, hj, .refl cj⟩

theorem Separate.enter (hother : ∀ (j : Nat), j ≠ i → w'.calls[j]? = w.calls[j]?) (hi : w'.calls[i]? = some call)
    (hstreams : cfg.streams = true → ∀ key, streamsTo w call = some key → ∀ c ∈ w.calls, streamsTo w c ≠ some key ∧ finishesAt w c ≠ some key)
    (hfinishes : cfg.streams = true → ∀ key, finishesAt w call = some key → ∀ c ∈ w.calls, streamsTo w c ≠ some key) :
    Separate cfg w' := by
  intro hst j k cj ck key hj hk hne hkey
  rw [hkeys.streamsTo] at hkey ⊢
  rw [hkeys.finishesAt]
  by_cases hji : j = i
  · subst hji
    obtain rfl := some.inj (hi.symm.trans hj)
    rw [hother k (Ne.symm hne)] at hk
    exact hstreams hst key hkey ck (List.mem_of_getElem? hk)
  · rw [hother j hji] at hj
    by_cases hki : k = i
    · subst hki
      obtain rfl := some.inj (hi.symm.trans hk)
      exact ⟨fun hs => (hstreams hst key hs cj (List.mem_of_getElem? hj)).1 hkey,
        fun hf => hfinishes hst key hf cj (List.mem_of_getElem? hj) hkey⟩
    · rw [hother k hki] at hk
      exact h hst j k cj ck key hj hk hne hkey

end

theorem Multiparts.streamsTo_plain (h : Multiparts cfg w) {key : Key} (hkey : streamsTo w call = some key) : isScratch key = false := by
  have hplain : ∀ u : Nat, (w.uploads[u]?).map MultipartSession.key = some key → isScratch key = false := by
    intro u hu
    obtain ⟨upload, hupload, rfl⟩ := Option.map_eq_some_iff.1 hu
    exact (h.upload u upload hupload).1
  cases call with
  | complete u expected phase =>
    cases phase with
    | discarding => cases hkey
    | _ => exact hplain u hkey
  | _ => cases hkey

end StreetJS.Storage.Uploads
