/-
In every run whose steps are orderly the uploads are exact, and runs that are not orderly where they are not.
-/
import StreetJS.Storage.UploadSteps

namespace StreetJS.Storage.Uploads

open StreetJS.Lib OrderedMap Managers List
open Option (map_some some.inj some.injEq)

variable {cfg : UploadConfig} {w w' : Managers}

/-! ## What is recorded -/

structure Records (w : Managers) : Prop where
  begun : Begun w
  rejected : ∀ i : Nat, w.calls[i]? = some .rejected → entries w i = []
  withdrawn : ∀ e ∈ w.written, e.withdrawn = false

theorem Records.same (h : Records w) (hcalls : w'.calls = w.calls) (hwritten : w'.written = w.written) : Records w' := by
  constructor
  · intro e he
    rw [hwritten] at he
    rw [hcalls]
    exact h.begun e he
  · intro i hi
    rw [hcalls] at hi
    rw [entries_congr hwritten]
    exact h.rejected i hi
  · rw [hwritten]
    exact h.withdrawn

variable {i : Nat} {call call' : Call}

theorem Records.go (h : Records w) (hi : w.calls[i]? = some call)
    (hcalls : w'.calls = w.calls.set i call') (hwritten : w'.written = w.written)
    (hr : call' = .rejected → entries w i = []) : Records w' := by
  constructor
  · intro e he
    rw [hwritten] at he
    rw [hcalls, length_set]
    exact h.begun e he
  · intro j hj
    rw [hcalls, getElem?_changed hi] at hj
    rw [entries_congr hwritten]
    split at hj
    case isTrue heq => exact heq ▸ hr (some.inj hj)
    case isFalse => exact h.rejected j hj
  · rw [hwritten]
    exact h.withdrawn

variable {key : Key}

theorem Records.write (h : Records w) (hi : w.calls[i]? = some call)
    {object : StoredObject} {withdrawn : Bool} (hlive : withdrawn = false) (hne : call' ≠ .rejected) :
    Records ((w.write i key object withdrawn).go i call') := by
  subst hlive
  have hlt := (of_getElem?_eq_some hi)
  constructor
  · intro e he
    simp only [Managers.go, Managers.write, Managers.put, length_set]
    rcases mem_append.1 he with he | he
    · exact h.begun e he
    · obtain rfl := mem_singleton.1 he
      exact hlt
  · intro j hj
    by_cases hji : j = i
    · subst hji
      rw [getElem?_go (w.write j key object false) hi] at hj
      exact absurd (some.inj hj) hne
    · rw [getElem?_go_ne _ hji] at hj
      exact (entries_write_other w hji key object false).trans (h.rejected j hj)
  · intro e he
    rcases mem_append.1 he with he | he
    · exact h.withdrawn e he
    · obtain rfl := mem_singleton.1 he
      rfl

theorem Records.begin_ (h : Records w) (hcalls : w'.calls = w.calls ++ [call]) (hwritten : w'.written = w.written) : Records w' := by
  constructor
  · intro e he
    rw [hwritten] at he
    rw [hcalls, length_append, length_singleton]
    exact Nat.lt_succ_of_lt (h.begun e he)
  · intro i hi
    rw [entries_congr hwritten]
    by_cases heq : i = w.calls.length
    · exact heq ▸ h.begun.entries
    · rw [hcalls] at hi
      exact h.rejected i ((getElem?_begin_ne w call heq).symm.trans hi)
  · rw [hwritten]
    exact h.withdrawn

/-! ## The invariant -/

structure Inv (cfg : UploadConfig) (w : Managers) : Prop where
  records : Records w
  exclusive : Exclusive w
  separate : Separate cfg w
  resumables : Resumables cfg w
  multiparts : Multiparts cfg w

theorem Multiparts.beside (h : Multiparts cfg w) (hi : w.calls[i]? = some call)
    (hcall : isMultipart call = false) (hcall' : isMultipart call' = false) (hcalls : w'.calls = w.calls.set i call')
    (huploads : w'.uploads = w.uploads)
    (hparts : ∀ u part, w'.objects.get (reservedPart cfg u part) = w.objects.get (reservedPart cfg u part))
    (hfiles : cfg.streams = true → ∀ (j : Nat) call key, w.calls[j]? = some call → streamsTo w call = some key →
      w'.objects.get key = w.objects.get key)
    (hentries : ∀ j, j ≠ i → entries w' j = entries w j) : Multiparts cfg w' := by
  refine h.frame ⟨huploads, hparts, hfiles, fun j c hc => ?_, fun j c hc hj => hentries j ?_⟩
  · rw [hcalls, getElem?_changed hi]
    split
    case isTrue heq =>
      subst heq
      constructor
      · intro heq
        rw [some.inj heq, hc] at hcall'
        cases hcall'
      · intro heq
        rw [some.inj (hi.symm.trans heq), hc] at hcall
        cases hcall
    case isFalse => exact Iff.rfl
  · rintro rfl
    rw [some.inj (hi.symm.trans hj), hc] at hcall
    cases hcall

theorem Resumables.beside (h : Resumables cfg w) (hi : w.calls[i]? = some call)
    (hcall : isResumable call = false) (hcall' : isResumable call' = false) (hcalls : w'.calls = w.calls.set i call')
    (hsessions : w'.sessions = w.sessions)
    (hstored : ∀ s, w'.objects.get (reservedKey cfg s) = w.objects.get (reservedKey cfg s))
    (hentries : ∀ j, j ≠ i → entries w' j = entries w j) : Resumables cfg w' := by
  refine h.frame ⟨hsessions, hstored, fun j c hc => ?_, fun j c hc hj => hentries j ?_⟩
  · rw [hcalls, getElem?_changed hi]
    split
    case isTrue heq =>
      subst heq
      constructor
      · intro heq
        rw [some.inj heq, hc] at hcall'
        cases hcall'
      · intro heq
        rw [some.inj (hi.symm.trans heq), hc] at hcall
        cases hcall
    case isFalse => exact Iff.rfl
  · rintro rfl
    rw [some.inj (hi.symm.trans hj), hc] at hcall
    cases hcall

/-! ## Calls that go on -/

theorem follows_resumable (h : isMultipart call' = false) : Follows call call' := by
  refine follows_settled fun u => ?_
  cases hu : onUpload u call' with
  | false => rfl
  | true =>
    rw [onUpload_isMultipart hu] at h
    cases h

theorem Inv.goResumable (h : Inv cfg w) {s : Nat} (hi : w.calls[i]? = some call) (hcalls : w'.calls = w.calls.set i call')
    (hobjects : ∀ key, key ≠ reservedKey cfg s → w'.objects.get key = w.objects.get key) (hres : Resumables cfg w')
    (hf : finishesAt w call' = none) (hr : call' = .rejected → entries w i = []) (hkeys : SameKeys w w')
    (hsame : (isMultipart call, isMultipart call', streamsTo w call', w'.written, w'.uploads) =
      (false, false, none, w.written, w.uploads)) : Inv cfg w' := by
  simp only [Prod.mk.injEq] at hsame
  obtain ⟨hcall, hcall', hstreams, hwritten, huploads⟩ := hsame
  refine ⟨h.records.go hi hcalls hwritten hr, h.exclusive.go hcalls hi (follows_resumable hcall'),
    h.separate.go hkeys hcalls hi (writesLess_none hstreams hf), hres, ?_⟩
  refine h.multiparts.beside hi hcall hcall' hcalls huploads ?_ ?_ fun j _ => entries_congr hwritten j
  · intro u part
    exact hobjects _ (reservedKey_ne_reservedPart s u part).symm
  · intro _ j c key _ hkey
    exact hobjects key (ne_reserved (h.multiparts.streamsTo_plain hkey) (isScratch_reservedKey s))

theorem get_put_other (w : Managers) {reserved : Key} (h : key ≠ reserved) (object : StoredObject) :
    (w.put reserved object).objects.get key = w.objects.get key := by
  rw [Managers.put, get_set, if_neg h]

theorem get_delete_other (w : Managers) {reserved : Key} (h : key ≠ reserved) : (w.delete reserved).objects.get key = w.objects.get key := by
  rw [Managers.delete, get_delete, if_neg h]

theorem Inv.stepResume (h : Inv cfg w) {s : Nat} {phase : Resuming} (hi : w.calls[i]? = some (.resume s phase))
    {session : ResumableSession} (hsession : w.sessions[s]? = some session) :
    Inv cfg (w.stepResume cfg i s session phase) := by
  have hres := h.resumables.stepResume hi hsession
  have hphase := h.resumables.resumePhase hi hsession
  have hok := h.resumables.session s session hsession
  cases phase with
  | streaming persisted seen => exact h
  | reading =>
    exact h.goResumable (s := s) hi rfl (fun _ _ => rfl) hres rfl nofun (.of_eq rfl rfl) rfl
  | appending persisted seen =>
    exact h.goResumable hi rfl (fun key hne => get_put_other w hne _) hres rfl nofun (.of_eq rfl rfl) rfl
  | rejecting =>
    exact h.goResumable hi rfl (fun key hne => get_delete_other w hne) hres rfl (fun _ => hphase) (.of_eq rfl rfl) rfl
  | cleaning =>
    exact h.goResumable hi rfl (fun key hne => get_delete_other w hne) hres rfl nofun (.of_eq rfl rfl) rfl
  | closing =>
    exact h.goResumable (s := s) hi rfl (fun _ _ => rfl) hres rfl nofun (.of_session hsession rfl rfl rfl) rfl
  | finishing persisted =>
    have hlive : session.withdrawn = false := by
      cases hw : session.withdrawn with
      | false => rfl
      | true =>
        have := hok.completing hphase.2.2
        rw [hok.withdrawn hw] at this
        cases this
    refine ⟨h.records.write hi hlive nofun, h.exclusive.go rfl hi (follows_resumable rfl),
      h.separate.go (.of_eq rfl rfl) rfl hi (writesLess_none rfl rfl), hres, ?_⟩
    refine h.multiparts.beside hi rfl rfl rfl rfl ?_ ?_ fun j hj => entries_write_other w hj _ _ _
    · intro u part
      exact get_put_other w (ne_reservedPart cfg hok.key u part).symm _
    · intro hst j call key hj hkey
      -- no call streams to the key that this one finishes at
      have hne : key ≠ session.key := by
        rintro rfl
        have hji : j ≠ i := by
          rintro rfl
          obtain rfl := some.inj (hi.symm.trans hj)
          cases hkey
        refine (h.separate hst j i call _ _ hj hi hji hkey).2 ?_
        simp only [finishesAt, hsession, map_some]
      exact get_put_other w hne _

theorem Inv.stepCancel (h : Inv cfg w) {s : Nat} {phase : Cancelling} (hi : w.calls[i]? = some (.cancel s phase))
    {session : ResumableSession} (hsession : w.sessions[s]? = some session) :
    Inv cfg (w.stepCancel cfg i s session phase) := by
  have hres := h.resumables.stepCancel hi hsession
  cases phase with
  | deleting =>
    exact h.goResumable hi rfl (fun key hne => get_delete_other w hne) hres rfl nofun (.of_eq rfl rfl) rfl
  | closing =>
    exact h.goResumable (s := s) hi rfl (fun _ _ => rfl) hres rfl nofun (.of_session hsession rfl rfl rfl) rfl

theorem Inv.goMultipart (h : Inv cfg w) (hi : w.calls[i]? = some call) (hcalls : w'.calls = w.calls.set i call')
    (hobjects : ∀ s, w'.objects.get (reservedKey cfg s) = w.objects.get (reservedKey cfg s)) (hmulti : Multiparts cfg w')
    (hfollows : Follows call call' := by exact ⟨fun _ => id, fun _ => id, fun _ => id⟩)
    (hkeys : SameKeys w w' := by exact .of_eq rfl rfl) (hless : WritesLess w call call' := by exact writesLess_none rfl rfl)
    (hr : call' = .rejected → entries w i = [] := by simp) (hcall : isResumable call = false := by rfl)
    (hcall' : isResumable call' = false := by rfl) (hwritten : w'.written = w.written := by rfl)
    (hsessions : w'.sessions = w.sessions := by rfl) : Inv cfg w' :=
  ⟨h.records.go hi hcalls hwritten hr, h.exclusive.go hcalls hi hfollows, h.separate.go hkeys hcalls hi hless,
    h.resumables.beside hi hcall hcall' hcalls hsessions hobjects fun j _ => entries_congr hwritten j, hmulti⟩

variable {u : Nat} {upload : MultipartSession}

theorem Inv.stepPart (h : Inv cfg w) {phase : Storing} (hi : w.calls[i]? = some (.uploadPart u phase))
    (hupload : w.uploads[u]? = some upload) :
    Inv cfg (w.stepPart cfg i u upload phase) := by
  have hmulti := h.multiparts.stepPart h.exclusive hi hupload
  cases phase with
  | storing part bytes =>
    exact h.goMultipart hi rfl (fun s => get_put_other w (reservedKey_ne_reservedPart s u part) _) hmulti
  | noting part =>
    exact h.goMultipart hi rfl (fun _ => rfl) hmulti (follows_settled fun _ => rfl) (.of_upload hupload rfl rfl rfl)

theorem Inv.stepAbort (h : Inv cfg w) {phase : Discarding} (hi : w.calls[i]? = some (.abort u phase))
    (hupload : w.uploads[u]? = some upload) :
    Inv cfg (w.stepAbort cfg i u upload phase) := by
  have hmulti := h.multiparts.stepAbort h.exclusive hi hupload
  cases phase with
  | next index =>
    simp only [Managers.stepAbort] at hmulti ⊢
    split at hmulti
    · exact h.goMultipart hi rfl (fun _ => rfl) hmulti
    · exact h.goMultipart hi rfl (fun _ => rfl) hmulti (follows_settled fun _ => rfl) (.of_upload hupload rfl rfl rfl)
  | deleting index part =>
    exact h.goMultipart hi rfl (fun s => get_delete_other w (reservedKey_ne_reservedPart s u part)) hmulti

theorem Inv.writeComplete (h : Inv cfg w) {expected : Option Bytes} {phase phase' : Completing}
    (hi : w.calls[i]? = some (.complete u expected phase))
    (hupload : w.uploads[u]? = some upload) {object : StoredObject}
    (hless : WritesLess w (.complete u expected phase) (.complete u expected phase'))
    (hmulti : Multiparts cfg ((w.write i upload.key object upload.withdrawn).go i (.complete u expected phase'))) :
    Inv cfg ((w.write i upload.key object upload.withdrawn).go i (.complete u expected phase')) := by
  obtain ⟨upload', hu', hlisted, -⟩ := h.multiparts.call i _ hi
  obtain rfl := some.inj (hupload.symm.trans hu')
  obtain ⟨hplain, hwithdrawn⟩ := h.multiparts.upload u upload hupload
  have hlive : upload.withdrawn = false := by
    cases hw : upload.withdrawn with
    | false => rfl
    | true =>
      rw [hwithdrawn hw] at hlisted
      cases hlisted
  refine ⟨h.records.write hi hlive nofun, h.exclusive.go rfl hi ⟨fun _ => id, fun _ => id, fun _ => id⟩,
    h.separate.go (.of_eq rfl rfl) rfl hi hless, ?_, hmulti⟩
  refine h.resumables.beside hi rfl rfl rfl rfl ?_ fun j hj => entries_write_other w hj _ _ _
  intro s
  exact get_put_other w (ne_reserved hplain (isScratch_reservedKey s)).symm _

theorem Inv.stepComplete (h : Inv cfg w) {expected : Option Bytes} {phase : Completing} (hi : w.calls[i]? = some (.complete u expected phase))
    (hupload : w.uploads[u]? = some upload) : Inv cfg (w.stepComplete cfg i u upload expected phase) := by
  have hmulti := h.multiparts.stepComplete h.exclusive h.separate hi hupload
  obtain ⟨upload', hu', -, hok⟩ := h.multiparts.call i _ hi
  obtain rfl := some.inj (hupload.symm.trans hu')
  match phase, hi, hok, hmulti with
  | .opening parts, hi, hok, hmulti => exact h.writeComplete hi hupload ⟨fun _ => id, fun _ => id⟩ hmulti
  | .writing parts assembled chunk, hi, hok, hmulti =>
    exact h.writeComplete hi hupload ⟨fun _ => id, fun _ => id⟩ hmulti
  | .collecting [] assembled, hi, hok, hmulti => exact h.writeComplete hi hupload (writesLess_none rfl rfl) hmulti
  | .collecting (part :: parts) assembled, hi, hok, hmulti =>
    simp only [Managers.stepComplete] at hmulti ⊢
    split at hmulti
    case h_1 hnone =>
      refine h.goMultipart hi rfl (fun _ => rfl) hmulti (follows_settled fun _ => rfl) (.of_eq rfl rfl) (writesLess_none rfl rfl) ?_
      -- only a driver that does not stream gets here, and it has written nothing
      intro _
      cases hst : cfg.streams with
      | false => exact hok.2.2 hst
      | true =>
        refine absurd ?_ (hok.2.1 hst).1
        rw [← hok.1]
        simp only [assemble, hnone, Option.map_none]
    case h_2 object hget =>
      by_cases hst : cfg.streams = true
      · simp only [if_pos hst] at hmulti ⊢
        exact h.goMultipart hi rfl (fun _ => rfl) hmulti ⟨fun _ => id, fun _ => id, fun _ => id⟩ (.of_eq rfl rfl) ⟨fun _ => id, fun _ => id⟩
      · simp only [if_neg hst] at hmulti ⊢
        exact h.goMultipart hi rfl (fun _ => rfl) hmulti ⟨fun _ => id, fun _ => id, fun _ => id⟩ (.of_eq rfl rfl) ⟨fun _ => id, fun _ => id⟩
  | .discarding (.next index), hi, hok, hmulti =>
    simp only [Managers.stepComplete] at hmulti ⊢
    split at hmulti
    · exact h.goMultipart hi rfl (fun _ => rfl) hmulti
    · exact h.goMultipart hi rfl (fun _ => rfl) hmulti (follows_settled fun _ => rfl) (.of_upload hupload rfl rfl rfl)
  | .discarding (.deleting index part), hi, hok, hmulti =>
    exact h.goMultipart hi rfl (fun s => get_delete_other w (reservedKey_ne_reservedPart s u part)) hmulti

theorem Inv.advance (h : Inv cfg w) (i : Nat) : Inv cfg (w.advance cfg i) := by
  simp only [Managers.advance]
  split
  case h_1 s phase hi =>
    cases hs : w.sessions[s]? with
    | none => exact h
    | some session => exact h.stepResume hi hs
  case h_2 s phase hi =>
    cases hs : w.sessions[s]? with
    | none => exact h
    | some session => exact h.stepCancel hi hs
  case h_3 u phase hi =>
    cases hu : w.uploads[u]? with
    | none => exact h
    | some upload => exact h.stepPart hi hu
  case h_4 u expected phase hi =>
    cases hu : w.uploads[u]? with
    | none => exact h
    | some upload => exact h.stepComplete hi hu
  case h_5 u phase hi =>
    cases hu : w.uploads[u]? with
    | none => exact h
    | some upload => exact h.stepAbort hi hu
  case h_6 => exact h

/-! ## The source of a `resume` -/

theorem Inv.chunk (h : Inv cfg w) (i n : Nat) : Inv cfg (w.chunk i n) := by
  have hres := h.resumables.chunk i n
  simp only [Managers.chunk] at hres ⊢
  revert hres
  split
  case h_2 => exact fun _ => h
  case h_1 s persisted seen hi =>
    have hgo : ∀ {phase : Resuming}, finishesAt w (.resume s phase) = none →
        Resumables cfg (w.go i (.resume s phase)) → Inv cfg (w.go i (.resume s phase)) := fun hf hres =>
      h.goResumable (s := s) hi rfl (fun _ _ => rfl) hres hf (by simp) (.of_eq rfl rfl) rfl
    split
    case h_1 => exact fun _ => h
    case h_2 session hsession =>
      split
      case isTrue => exact hgo rfl
      case isFalse =>
        split
        case isTrue => exact hgo rfl
        case isFalse => exact hgo rfl

theorem Inv.endOfStream (h : Inv cfg w) (ho : Orderly cfg w (.endOfStream i)) : Inv cfg (w.endOfStream i) := by
  have hres := h.resumables.endOfStream ho
  simp only [Managers.endOfStream] at hres ⊢
  revert hres
  split
  case h_2 => exact fun _ => h
  case h_1 s persisted seen hi =>
    split
    case h_1 => exact fun _ => h
    case h_2 session hsession =>
      split
      case isFalse => exact fun _ => h
      case isTrue hend =>
        intro hres
        have hkeys : SameKeys w { w.go i (.resume s (.finishing persisted)) with
            sessions := w.sessions.set s { session with completing := true } } := .of_session hsession rfl rfl rfl
        refine ⟨h.records.go hi rfl rfl (by simp), h.exclusive.go rfl hi (follows_resumable rfl), ?_, hres,
          h.multiparts.beside hi rfl rfl rfl rfl (fun _ _ => rfl) (fun _ _ _ _ _ _ => rfl) fun _ _ => rfl⟩
        refine h.separate.enter hkeys (fun j hj => getElem?_go_ne w hj _) (getElem?_go w hi _) (fun _ _ hk => by cases hk) ?_
        intro hst key hkey c hc
        simp only [finishesAt, hsession, map_some, some.injEq] at hkey
        subst hkey
        exact (ho s session (by simp only [streamingOf, hi, hsession, map_some])).2 hst c hc

theorem Inv.interrupt (h : Inv cfg w) (ho : Orderly cfg w (.interrupt i)) : Inv cfg (w.interrupt i) := by
  have hres := h.resumables.interrupt ho
  simp only [Managers.interrupt] at hres ⊢
  revert hres
  split
  case h_2 => exact fun _ => h
  case h_1 s persisted seen hi =>
    intro hres
    obtain ⟨session, hsession, -⟩ := h.resumables.call i _ hi
    have hphase := h.resumables.resumePhase hi hsession
    exact h.goResumable (s := s) hi rfl (fun _ _ => rfl) hres rfl (fun _ => hphase.1) (.of_eq rfl rfl) rfl

/-! ## Calls that begin -/

theorem Exclusive.begin_other (h : Exclusive w) (hcall : isMultipart call = false) : Exclusive (w.begin_ call) := by
  have hon : ∀ {u : Nat}, onUpload u call = true → False := fun hu => by
    rw [onUpload_isMultipart hu] at hcall
    cases hcall
  have hmore : ∀ {u : Nat}, partOf u call = true ∨ completeOf u call = true ∨ abortOf u call = true → onUpload u call = true := fun hu => by
    simp only [Uploads.onUpload, Bool.or_eq_true]
    tauto
  refine h.begin_ ?_ ?_ ?_ ?_
  · exact fun u hu => (hon (hmore (.inr (.inl hu)))).elim
  · exact fun u hu => (hon hu).elim
  · exact fun u hu => (hon (hmore (.inr (.inr hu)))).elim
  · exact fun u hu => (hon (hmore (.inl hu))).elim

theorem Separate.begin_ (h : Separate cfg w) (hstreams : streamsTo w call = none)
    (hfinishes : finishesAt w call = none) : Separate cfg (w.begin_ call) := by
  refine h.enter (.of_eq rfl rfl) (fun j hj => getElem?_begin_ne w call hj) (getElem?_begin w call) ?_ ?_
  · intro _ key hk
    rw [hstreams] at hk
    cases hk
  · intro _ key hk
    rw [hfinishes] at hk
    cases hk

theorem Inv.begin_ (h : Inv cfg w) (hcall : isMultipart call = false)
    (hfinishes : finishesAt w call = none) (hres : Resumables cfg (w.begin_ call)) : Inv cfg (w.begin_ call) := by
  refine ⟨h.records.begin_ rfl rfl, h.exclusive.begin_other hcall, h.separate.begin_ ?_ hfinishes, hres, h.multiparts.begin_ ?_⟩
  · cases call <;> first | rfl | cases hcall
  · cases call <;> trivial

/-- Uploads or sessions are added. -/
theorem Separate.grow (h : Separate cfg w) (hcalls : w'.calls = w.calls) (hstreams : ∀ call ∈ w.calls, streamsTo w' call = streamsTo w call)
    (hfinishes : ∀ call ∈ w.calls, finishesAt w' call = finishesAt w call) : Separate cfg w' := by
  intro hst i j ci cj key hi hj hne hkey
  rw [hcalls] at hi hj
  rw [hstreams ci (mem_of_getElem? hi)] at hkey
  rw [hstreams cj (mem_of_getElem? hj), hfinishes cj (mem_of_getElem? hj)]
  exact h hst i j ci cj key hi hj hne hkey

section

variable (h : Inv cfg w)
include h

theorem Inv.resume (s : Nat) : Inv cfg (w.resume s) := by
  have hres := h.resumables.resumeCall h.records.begun s
  simp only [Managers.resume] at hres ⊢
  revert hres
  split
  case h_1 => exact h.begin_ rfl rfl
  case h_2 session hsession =>
    split
    case isTrue => exact h.begin_ rfl rfl
    case isFalse => exact h.begin_ rfl rfl

theorem Inv.cancel (s : Nat) : Inv cfg (w.cancel s) := by
  have hres := h.resumables.cancelCall s
  simp only [Managers.cancel] at hres ⊢
  revert hres
  split
  case h_1 => exact h.begin_ rfl rfl
  case h_2 session hsession =>
    split
    case isTrue => exact h.begin_ rfl rfl
    case isFalse =>
      intro hres
      have hkeys : SameKeys w { w.begin_ (.cancel s .deleting) with
          sessions := w.sessions.set s { session with cancelled := true } } := .of_session hsession rfl rfl rfl
      have hmulti : Multiparts cfg (w.begin_ (.cancel s .deleting)) := h.multiparts.begin_ trivial
      refine ⟨h.records.begin_ rfl rfl, (h.exclusive.begin_other rfl).same rfl, ?_, hres,
        hmulti.frame ⟨rfl, fun _ _ => rfl, fun _ _ _ _ _ _ => rfl, fun _ _ _ => Iff.rfl, fun _ _ _ _ => rfl⟩⟩
      exact h.separate.enter hkeys (fun j hj => getElem?_begin_ne w _ hj) (getElem?_begin w _)
        (fun _ _ hk => by cases hk) fun _ _ hk => by cases hk

theorem Inv.start (hkey : isScratch key = false) (metadata : WriteMetadata) (content : Bytes) : Inv cfg (w.start key metadata content) := by
  refine ⟨h.records.same rfl rfl, h.exclusive.same rfl, ?_, h.resumables.start hkey metadata content,
    h.multiparts.frame ⟨rfl, fun _ _ => rfl, fun _ _ _ _ _ _ => rfl, fun _ _ _ => Iff.rfl, fun _ _ _ _ => rfl⟩⟩
  refine h.separate.grow rfl (fun call _ => ?_) fun call hcall => ?_
  · cases call with
    | complete u expected phase => cases phase <;> rfl
    | _ => rfl
  · obtain ⟨i, hi⟩ := mem_iff_getElem?.1 hcall
    cases call with
    | resume s phase =>
      obtain ⟨session, hsession, -⟩ := h.resumables.call i _ hi
      cases phase with
      | finishing persisted =>
        have hlt := (of_getElem?_eq_some hsession)
        simp only [finishesAt, Managers.start, getElem?_append_left hlt]
      | _ => rfl
    | _ => rfl

theorem Inv.create (hkey : isScratch key = false) (metadata : WriteMetadata) : Inv cfg (w.create key metadata) := by
  refine ⟨h.records.same rfl rfl, h.exclusive.same rfl, ?_,
    h.resumables.frame ⟨rfl, fun _ => rfl, fun _ _ _ => Iff.rfl, fun _ _ _ _ => rfl⟩, h.multiparts.create hkey metadata⟩
  refine h.separate.grow rfl (fun call hcall => ?_) fun call _ => ?_
  · obtain ⟨i, hi⟩ := mem_iff_getElem?.1 hcall
    cases call with
    | complete u expected phase =>
      obtain ⟨upload, hupload, -⟩ := h.multiparts.call i _ hi
      have hlt := (of_getElem?_eq_some hupload)
      cases phase with
      | discarding => rfl
      | _ => simp only [streamsTo, Managers.create, getElem?_append_left hlt]
    | _ => rfl
  · cases call with
    | resume s phase => cases phase <;> rfl
    | _ => rfl

theorem Inv.beginMultipart (hcall : isResumable call = false)
    (hexclusive : Exclusive (w.begin_ call)) (hseparate : Separate cfg (w.begin_ call))
    (hmulti : Multiparts cfg (w.begin_ call)) : Inv cfg (w.begin_ call) :=
  ⟨h.records.begin_ rfl rfl, hexclusive, hseparate, h.resumables.begin_ hcall, hmulti⟩

theorem Inv.uploadPart {part : Nat} {bytes : Bytes} (ho : Orderly cfg w (.uploadPart u part bytes)) :
    Inv cfg (w.uploadPart u part bytes) := by
  have hmulti := h.multiparts.uploadPart u part bytes
  have hrejected : Inv cfg (w.begin_ .rejected) := h.begin_ rfl rfl (h.resumables.begin_ rfl)
  simp only [Managers.uploadPart] at hmulti ⊢
  revert hmulti
  split
  case h_1 => exact fun _ => hrejected
  case h_2 upload hupload =>
    split
    case isTrue => exact fun _ => hrejected
    case isFalse =>
      refine h.beginMultipart rfl (h.exclusive.begin_ (by rintro _ ⟨⟩) ?_ (by rintro _ ⟨⟩) ?_) (h.separate.begin_ rfl rfl)
      · intro u' hu' c hc
        obtain rfl : u = u' := onUpload_unique hu' (by simp [onUpload, partOf])
        exact (ho c hc).1
      · intro u' hu' c hc
        obtain rfl : u = u' := of_decide_eq_true hu'
        exact (ho c hc).2

theorem Inv.complete {parts : List Nat} (ho : Orderly cfg w (.complete u parts)) : Inv cfg (w.complete cfg u parts) := by
  have hmulti := h.multiparts.complete h.records.begun ho
  have hrejected : Inv cfg (w.begin_ .rejected) := h.begin_ rfl rfl (h.resumables.begin_ rfl)
  simp only [Managers.complete] at hmulti ⊢
  revert hmulti
  split
  case h_1 => exact fun _ => hrejected
  case h_2 upload hupload =>
    split
    case isFalse => exact fun _ => hrejected
    case isTrue hlisted =>
      refine h.beginMultipart rfl (h.exclusive.begin_ ?_ ?_ (by rintro _ ⟨⟩) (by rintro _ ⟨⟩)) ?_
      · intro u' hu' c hc
        obtain rfl : u = u' := of_decide_eq_true hu'
        exact ho.1 c hc
      · intro u' hu' c hc
        obtain rfl : u = u' := onUpload_unique hu' (by simp [onUpload, completeOf])
        have := ho.1 c hc
        simp only [Uploads.onUpload, Bool.or_eq_false_iff] at this
        exact this.1.2
      · refine h.separate.enter (.of_eq rfl rfl) (fun j hj => getElem?_begin_ne w _ hj) (getElem?_begin w _) ?_ fun _ _ hk => by cases hk
        intro hst key hk c hc
        simp only [if_pos hst, streamsTo, hupload, map_some, some.injEq] at hk
        subst hk
        exact (ho.2 hst upload hupload).2 c hc

theorem Inv.abort (ho : Orderly cfg w (.abort u)) : Inv cfg (w.abort u) := by
  have hmulti := h.multiparts.abort u
  have hresolved : Inv cfg (w.begin_ .resolved) := h.begin_ rfl rfl (h.resumables.begin_ rfl)
  simp only [Managers.abort] at hmulti ⊢
  revert hmulti
  split
  case h_1 => exact fun _ => hresolved
  case h_2 upload hupload =>
    split
    case isFalse => exact fun _ => hresolved
    case isTrue =>
      refine h.beginMultipart rfl (h.exclusive.begin_ (by rintro _ ⟨⟩) ?_ ?_ (by rintro _ ⟨⟩)) (h.separate.begin_ rfl rfl)
      · intro u' hu' c hc
        obtain rfl : u = u' := onUpload_unique hu' (by simp [onUpload, abortOf])
        exact (ho c hc).2
      · intro u' hu' c hc
        obtain rfl : u = u' := of_decide_eq_true hu'
        exact (ho c hc).1

end

/-! ## Runs -/

theorem Inv.step (h : Inv cfg w) {event : Event} (ho : Orderly cfg w event) : Inv cfg (step cfg w event) := by
  cases event with
  | start key metadata content => exact h.start ho metadata content
  | create key metadata => exact h.create ho metadata
  | resume s => exact h.resume s
  | cancel s => exact h.cancel s
  | uploadPart u part bytes => exact h.uploadPart ho
  | complete u parts => exact h.complete ho
  | abort u => exact h.abort ho
  | chunk i n => exact h.chunk i n
  | endOfStream i => exact h.endOfStream ho
  | interrupt i => exact h.interrupt ho
  | advance i => exact h.advance i

theorem inv_initial {objects : Objects} (hfresh : ∀ key, isScratch key = true → objects.get key = none) : Inv cfg (initial objects) := by
  refine ⟨⟨nofun, nofun, nofun⟩, ⟨nofun, nofun⟩, fun _ _ _ _ _ _ => nofun, ⟨nofun, ?_, nofun⟩, ⟨nofun, ?_, nofun⟩⟩
  · intro s object hget
    rw [initial, hfresh _ (isScratch_reservedKey s)] at hget
    cases hget
  · intro u part object hget
    rw [initial, hfresh _ (isScratch_reservedPart u part)] at hget
    cases hget

theorem Inv.exact (h : Inv cfg w) : Exact cfg w := by
  refine ⟨fun i s hi => h.resumables.call i _ hi, fun i u expected hi => h.multiparts.call i _ hi, h.records.rejected,
    h.records.withdrawn, ?_, ?_⟩
  · intro s session hsession hended hquiet
    cases hget : w.objects.get (reservedKey cfg s) with
    | none => rfl
    | some object =>
      have hok := (h.resumables.session s session hsession).listed hended
      rcases (h.resumables.stored_self hsession hget).2 with ⟨hcan, hcomp⟩ | ⟨j, call, hj, hclean⟩
      · rcases hok with hc | hc
        · rw [hc] at hcan
          cases hcan
        · rw [hc] at hcomp
          cases hcomp
      · -- the call that cleans the session is on it
        have hon : onSession s call = true := by
          cases call with
          | resume s' phase => cases phase <;> first | exact hclean | cases hclean
          | cancel s' phase => cases phase <;> first | exact hclean | cases hclean
          | _ => cases hclean
        rw [hquiet call (mem_of_getElem? hj)] at hon
        cases hon
  · intro u upload hupload hended _ part
    cases hget : w.objects.get (reservedPart cfg u part) with
    | none => rfl
    | some object =>
      have hlisted := (h.multiparts.uploadOf hupload hget).1
      rw [hended] at hlisted
      cases hlisted

/-- In every run whose steps are orderly the uploads are exact and all or nothing. -/
theorem uploads_exact (cfg : UploadConfig) (objects : Objects)
    (hfresh : ∀ key, isScratch key = true → objects.get key = none) (events : List Event)
    (ho : Guarded (step cfg) (Orderly cfg) (initial objects) events) :
    ∀ n, Exact cfg (run (step cfg) (initial objects) (events.take n)) := by
  intro n
  rw [← take_append_drop n events, guarded_append] at ho
  have hinv := run_invariant_of_guarded (step cfg) (fun w event (h : Inv cfg w) ho => h.step ho) (events.take n) ho.1 (inv_initial hfresh)
  exact hinv.exact

/-! ## Runs that are orderly, and runs that are not -/

/-- What holds of the value, if there is one. -/
def decidableIfSome {X : Type} (o : Option X) (P : X → Prop) [DecidablePred P] : Decidable (∀ x, o = some x → P x) :=
  match o with
  | none => isTrue nofun
  | some x => decidable_of_iff (P x) ⟨fun h _ heq => some.inj heq ▸ h, fun h => h x rfl⟩

def decidableIfPair {X Y : Type} (o : Option (X × Y)) (P : X → Y → Prop) [∀ x y, Decidable (P x y)] :
    Decidable (∀ x y, o = some (x, y) → P x y) :=
  match o with
  | none => isTrue nofun
  | some (x, y) =>
    decidable_of_iff (P x y) ⟨fun h _ _ heq => by obtain ⟨rfl, rfl⟩ := some.inj heq; exact h, fun h => h x y rfl⟩

instance (cfg : UploadConfig) (w : Managers) (event : Event) : Decidable (Orderly cfg w event) :=
  match event with
  | .start key _ _ => inferInstanceAs (Decidable (isScratch key = false))
  | .create key _ => inferInstanceAs (Decidable (isScratch key = false))
  | .endOfStream i => decidableIfPair (streamingOf w i) fun _ session => session.cancelled = false ∧
      (cfg.streams = true → ∀ call ∈ w.calls, streamsTo w call ≠ some session.key)
  | .interrupt i => decidableIfPair (streamingOf w i) fun s session =>
      session.cancelled = false ∧ session.completing = false ∨ w.objects.get (reservedKey cfg s) = none
  | .uploadPart u _ _ =>
    inferInstanceAs (Decidable (∀ call ∈ w.calls, completeOf u call = false ∧ abortOf u call = false))
  | .complete u parts =>
    let _ := decidableIfSome (w.uploads[u]?) fun upload => assemble cfg w.objects u parts ≠ none ∧
      ∀ call ∈ w.calls, streamsTo w call ≠ some upload.key ∧ finishesAt w call ≠ some upload.key
    inferInstanceAs (Decidable ((∀ call ∈ w.calls, onUpload u call = false) ∧
      (cfg.streams = true → ∀ upload, w.uploads[u]? = some upload → assemble cfg w.objects u parts ≠ none ∧
        ∀ call ∈ w.calls, streamsTo w call ≠ some upload.key ∧ finishesAt w call ≠ some upload.key)))
  | .abort u => inferInstanceAs (Decidable (∀ call ∈ w.calls, partOf u call = false ∧ completeOf u call = false))
  | .resume _ | .cancel _ | .chunk _ _ | .advance _ => isTrue trivial

/-- The drivers of the file system and of the memory. -/
def localUploads : UploadConfig := ⟨versioned.uuid, versioned_uuids, true⟩

def memoryUploads : UploadConfig := ⟨versioned.uuid, versioned_uuids, false⟩

def plainMetadata : WriteMetadata := ⟨none, none, none, none, none⟩

/-- An upload that is interrupted and resumed, beside one of two parts. -/
def uploading : List Event :=
  [.start "a".toList plainMetadata [1, 2, 3], .create "b".toList plainMetadata, .resume 0, .uploadPart 0 2 [7],
    .advance 0, .uploadPart 0 1 [8], .chunk 0 2, .advance 1, .advance 2, .advance 0, .interrupt 0, .advance 2,
    .advance 1, .resume 0, .complete 0 [1, 2], .advance 3, .advance 4, .chunk 3 2, .advance 4, .advance 4, .chunk 3 5,
    .advance 3, .endOfStream 3, .advance 4, .advance 4, .advance 3, .advance 4, .advance 3, .advance 4, .advance 4,
    .advance 4, .advance 4, .advance 3, .advance 4]

theorem uploading_orderly : Guarded (step localUploads) (Orderly localUploads) (initial []) uploading := by
  simp only [uploading, Guarded]
  decide +kernel

theorem uploads_exact_uploading : (∀ n, Exact localUploads (run (step localUploads) (initial []) (uploading.take n))) ∧
      (run (step localUploads) (initial []) uploading).objects =
        [("b".toList, ⟨[8, 7], some plainMetadata⟩), ("a".toList, ⟨[1, 2, 3], some plainMetadata⟩)] :=
  ⟨uploads_exact localUploads [] (fun _ _ => rfl) uploading uploading_orderly, by decide +kernel⟩

/-- A cancel between the last chunk and the end of the source. -/
def cancelledLate : List Event :=
  [.start "a".toList plainMetadata [1], .resume 0, .advance 0, .chunk 0 1, .advance 0, .cancel 0, .endOfStream 0,
    .advance 1, .advance 1, .advance 0]

/-- A part that is listed and not there, where the driver streams. -/
def missingPart : List Event :=
  [.create "b".toList plainMetadata, .complete 0 [1], .advance 0, .advance 0]

/-- A part that is stored while the upload is aborted. -/
def partBesideAbort : List Event :=
  [.create "b".toList plainMetadata, .uploadPart 0 1 [8], .abort 0, .advance 1, .advance 0, .advance 0]

/-- What is cancelled is written, what is rejected replaced the object at the key, and what is aborted left a part. -/
theorem uploads_counterexample : ¬ Exact memoryUploads (run (step memoryUploads) (initial []) cancelledLate) ∧
      ¬ Exact localUploads (run (step localUploads) (initial [("b".toList, ⟨[5], none⟩)]) missingPart) ∧
        ¬ Exact memoryUploads (run (step memoryUploads) (initial []) partBesideAbort) := by
  refine ⟨fun h => ?_, fun h => ?_, fun h => ?_⟩
  · have := h.withdrawn
    revert this
    decide +kernel
  · have := h.rejected 0
    revert this
    decide +kernel
  · have := h.uploads 0 ⟨"b".toList, plainMetadata, [1], false, true⟩ (by decide +kernel) rfl (by decide +kernel) 1
    revert this
    decide +kernel

end StreetJS.Storage.Uploads
