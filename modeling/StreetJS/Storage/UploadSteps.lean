/-
One step of an `uploadPart`, a `complete` or an `abort` keeps the multipart half of the invariant.
-/
import StreetJS.Storage.UploadParts

namespace StreetJS.Storage.Uploads

open StreetJS.Lib OrderedMap Managers List
open Option (map_some some.inj)

variable {cfg : UploadConfig} {w : Managers}

/-! ## Objects at the reserved keys of parts -/

variable {u : Nat}

theorem get_part_ne {u' part' : Nat} (h : u' ≠ u) (part : Nat) (object : StoredObject) :
    (w.objects.set (reservedPart cfg u part) object).get (reservedPart cfg u' part') = w.objects.get (reservedPart cfg u' part') := by
  rw [get_set, if_neg (fun heq => h (reservedPart_inj.1 heq).1)]

variable {part : Nat}

theorem get_deleted_part {u' part' : Nat} : (w.objects.delete (reservedPart cfg u part)).get (reservedPart cfg u' part') =
      if u' = u ∧ part' = part then none else w.objects.get (reservedPart cfg u' part') := by
  simp only [get_delete, reservedPart_inj]

variable {call : Call}

theorem onUpload_unique {u' : Nat} (h : onUpload u call = true) (h' : onUpload u' call = true) : u' = u := by
  cases call <;> simp_all [onUpload, partOf, completeOf, abortOf]

variable {i : Nat}

theorem on_unique (hi : w.calls[i]? = some call) (h : onUpload u call = true) :
    ∀ u' c, w.calls[i]? = some c → onUpload u' c = true → u' = u := by
  intro u' c hc hu'
  obtain rfl := some.inj (hi.symm.trans hc)
  exact onUpload_unique h hu'

variable {upload : MultipartSession} {object : StoredObject}

theorem Multiparts.uploadOf (h : Multiparts cfg w) (hupload : w.uploads[u]? = some upload)
    (hget : w.objects.get (reservedPart cfg u part) = some object) : PartOk w u part upload := by
  obtain ⟨upload', hu', hok⟩ := h.part u part object hget
  obtain rfl := some.inj (hupload.symm.trans hu')
  exact hok

theorem PartOk.of_other {w' : Managers} (h : PartOk w u part upload) (hi : w.calls[i]? ≠ some (.uploadPart u (.noting part)))
    (hcalls : ∀ (j : Nat), j ≠ i → w'.calls[j]? = w.calls[j]?) : PartOk w' u part upload := by
  obtain ⟨hlisted, hknown | ⟨j, hj⟩⟩ := h
  · exact ⟨hlisted, .inl hknown⟩
  · have hne : j ≠ i := by
      rintro rfl
      exact hi hj
    exact ⟨hlisted, .inr ⟨j, by rw [hcalls j hne]; exact hj⟩⟩

/-! ## Storing a part -/

theorem Exclusive.besidePart (h : Exclusive w) {j : Nat} {phase : Storing}
    (hi : w.calls[i]? = some (.uploadPart u phase)) (hj : w.calls[j]? = some call) (hne : j ≠ i)
    (hon : onUpload u call = true) : ∃ phase', call = .uploadPart u phase' := by
  cases call with
  | uploadPart u' phase' =>
    obtain rfl : u = u' := onUpload_unique (by simp [onUpload, partOf]) hon
    exact ⟨phase', rfl⟩
  | complete u' expected phase' =>
    obtain rfl : u = u' := onUpload_unique (by simp [onUpload, completeOf]) hon
    have := h.alone j i _ _ u hj hi hne (by simp [completeOf])
    simp [onUpload, partOf] at this
  | abort u' phase' =>
    obtain rfl : u = u' := onUpload_unique (by simp [onUpload, abortOf]) hon
    have := h.apart j i _ _ u hj hi (by simp [abortOf])
    simp [partOf] at this
  | _ => simp [onUpload, partOf, completeOf, abortOf] at hon

theorem Multiparts.stepPart (h : Multiparts cfg w) (hx : Exclusive w) {phase : Storing} (hi : w.calls[i]? = some (.uploadPart u phase))
    (hupload : w.uploads[u]? = some upload) : Multiparts cfg (w.stepPart cfg i u upload phase) := by
  obtain ⟨upload', hu', hlisted⟩ := h.call i _ hi
  obtain rfl := some.inj (hupload.symm.trans hu')
  have hmine := on_unique hi (u := u) (by simp [onUpload, partOf])
  cases phase with
  | storing part bytes =>
    simp only [Managers.stepPart]
    have hcall := getElem?_go w hi (.uploadPart u (.noting part))
    refine h.update hupload (getElem?_same hupload) (h.upload u upload hupload).2 hmine (fun u' part' hne => get_part_ne hne part _) ?_ ?_ ?_ hcall ?_ (others_go w i _) rfl rfl
    · intro part' object hget
      by_cases hp : part' = part
      · subst hp
        exact ⟨hlisted, .inr ⟨i, hcall⟩⟩
      · simp only [Managers.go, Managers.put, get_set, reservedPart_inj, true_and, if_neg hp] at hget
        refine (h.uploadOf hupload hget).of_other ?_ fun j hj => getElem?_go_ne w hj _
        rw [hi]
        simp
    · intro _ j call key _ _ hkey
      have hne := ne_reservedPart cfg (h.streamsTo_plain hkey) u part
      simp only [Managers.go, Managers.put, get_set, if_neg hne]
    · intro j call hj hcj hon hok
      obtain ⟨phase', rfl⟩ := hx.besidePart hi hcj hj hon
      exact hok
    · exact ⟨upload, hupload, hlisted⟩
  | noting part =>
    have hcall := getElem?_go w hi .resolved
    have hset := getElem?_changed hupload
      { upload with partNumbers := if part ∈ upload.partNumbers then upload.partNumbers else upload.partNumbers ++ [part] }
    have hself := hset u
    rw [if_pos rfl] at hself
    refine h.update hupload hset (h.upload u upload hupload).2 hmine (fun _ _ _ => rfl) ?_ (fun _ _ _ _ _ _ _ => rfl) ?_ hcall ?_ (others_go w i _) rfl rfl
    · intro part' object hget
      refine ⟨hlisted, ?_⟩
      by_cases hp : part' = part
      · subst hp
        refine .inl ?_
        simp only
        split
        case isTrue hin => exact hin
        case isFalse => simp
      · have hother : PartOk _ u part' upload := (h.uploadOf hupload hget).of_other (i := i)
          (by rw [hi]; simp [Ne.symm hp]) fun j hj => getElem?_go_ne w hj Call.resolved
        refine hother.2.imp (fun hin => ?_) id
        simp only
        split
        case isTrue => exact hin
        case isFalse => exact mem_append_left _ hin
    · intro j call hj hcj hon hok
      obtain ⟨phase', rfl⟩ := hx.besidePart hi hcj hj hon
      exact ⟨_, hself, hlisted⟩
    · trivial

/-! ## Discarding the parts -/

theorem Multiparts.cleared (h : Multiparts cfg w) {index : Nat}
    (hupload : w.uploads[u]? = some upload) (hend : upload.partNumbers[index]? = none)
    (hcleared : Cleared cfg w u (upload.partNumbers.take index))
    (hnoting : ∀ (j part : Nat), w.calls[j]? ≠ some (.uploadPart u (.noting part))) (part : Nat) :
    w.objects.get (reservedPart cfg u part) = none := by
  cases hget : w.objects.get (reservedPart cfg u part) with
  | none => rfl
  | some object =>
    obtain ⟨-, hknown | ⟨j, hj⟩⟩ := h.uploadOf hupload hget
    · rw [take_of_length_le (getElem?_eq_none_iff.1 hend)] at hcleared
      exact (hcleared part hknown).symm.trans hget |>.symm
    · exact absurd hj (hnoting j part)

theorem Cleared.delete {index : Nat} (h : Cleared cfg w u (upload.partNumbers.take index)) (hpart : upload.partNumbers[index]? = some part) :
    Cleared cfg (w.delete (reservedPart cfg u part)) u (upload.partNumbers.take (index + 1)) := by
  intro part' hin
  rw [Managers.delete, get_deleted_part]
  rw [take_add_one, hpart] at hin
  split
  case isTrue => rfl
  case isFalse hne =>
    rcases mem_append.1 hin with hin | hin
    · exact h part' hin
    · exact absurd ⟨rfl, mem_singleton.1 hin⟩ hne

/-! ## Completing -/

variable {expected : Option Bytes} {phase : Completing}

theorem Multiparts.goComplete (h : Multiparts cfg w) (hx : Exclusive w) (hi : w.calls[i]? = some (.complete u expected phase))
    (hupload : w.uploads[u]? = some upload) {w' : Managers} (huploads : w'.uploads = w.uploads) {call' : Call}
    (hcalls : w'.calls = w.calls.set i call') (hentries : ∀ j, j ≠ i → entries w' j = entries w j)
    (hparts : ∀ u' part, u' ≠ u → w'.objects.get (reservedPart cfg u' part) = w.objects.get (reservedPart cfg u' part))
    (hpart : ∀ part object, w'.objects.get (reservedPart cfg u part) = some object → w.objects.get (reservedPart cfg u part) = some object)
    (hfiles : cfg.streams = true → ∀ (j : Nat) call key, j ≠ i → w.calls[j]? = some call →
      streamsTo w call = some key → w'.objects.get key = w.objects.get key)
    (hcall : UploadCallOk cfg w' i call') : Multiparts cfg w' := by
  have hother : ∀ (j : Nat), j ≠ i → w'.calls[j]? = w.calls[j]? := by
    intro j hj
    rw [hcalls, getElem?_set_ne (Ne.symm hj)]
  have hself : w'.calls[i]? = some call' := by
    rw [hcalls, getElem?_set_self (List.getElem?_eq_some_iff.1 hi).1]
  refine h.update hupload (by rw [huploads]; exact getElem?_same hupload) (h.upload u upload hupload).2
    (on_unique hi (by simp [onUpload, completeOf])) hparts ?_ hfiles ?_ hself hcall (fun j hj => ⟨hother j hj, hentries j hj⟩) rfl rfl
  · intro part object hget
    refine (h.uploadOf hupload (hpart part object hget)).of_other ?_ hother
    rw [hi]
    simp
  · intro j call hj hcj hon
    rw [hx.alone i j _ call u hi hcj (Ne.symm hj) (by simp [completeOf])] at hon
    cases hon

theorem Multiparts.writeComplete (h : Multiparts cfg w) (hx : Exclusive w) (hsep : Separate cfg w)
    {phase' : Completing} (hi : w.calls[i]? = some (.complete u expected phase))
    (hupload : w.uploads[u]? = some upload)
    (hstreams : streamsTo w (.complete u expected phase) = some upload.key)
    (hok : ∀ w' : Managers, w'.objects = w.objects.set upload.key object →
      (∀ part, w'.objects.get (reservedPart cfg u part) = w.objects.get (reservedPart cfg u part)) →
      entries w' i = entries w i ++ [⟨i, upload.key, object, upload.withdrawn⟩] →
      CompleteOk cfg w' i u upload expected phase') :
    Multiparts cfg ((w.write i upload.key object upload.withdrawn).go i (.complete u expected phase')) := by
  obtain ⟨upload', hu', hlisted, -⟩ := h.call i _ hi
  obtain rfl := some.inj (hupload.symm.trans hu')
  have hplain : ∀ u' part, ((w.write i upload.key object upload.withdrawn).go i
      (.complete u expected phase')).objects.get (reservedPart cfg u' part) = w.objects.get (reservedPart cfg u' part) := by
    intro u' part
    have hne := ne_reservedPart cfg (h.upload u upload hupload).1 u' part
    simp only [Managers.go, Managers.write, Managers.put, get_set, if_neg (Ne.symm hne)]
  refine h.goComplete hx hi hupload rfl rfl (fun j hj => entries_write_other w hj _ _ _)
    (fun u' part _ => hplain u' part) (fun part object hget => by rw [← hplain u part]; exact hget) ?_ ?_
  · intro hst j call key hj hcj hkey
    -- no other call streams to this key
    have hne : key ≠ upload.key := by
      rintro rfl
      exact (hsep hst i j _ call _ hi hcj (Ne.symm hj) hstreams).1 hkey
    simp only [Managers.go, Managers.write, Managers.put, get_set, if_neg hne]
  · exact ⟨upload, hupload, hlisted, hok _ rfl (hplain u) (entries_write_self w i _ _ _)⟩

theorem writeAt_end (file bytes : Bytes) : writeAt file file.length bytes = file ++ bytes := by
  simp [writeAt]

theorem fileAt_set {objects : Objects} {key : Key} (h : w.objects = objects.set key object) : fileAt w key = object.bytes := by
  rw [fileAt, h, get_set, if_pos rfl]
  rfl

theorem Multiparts.stepComplete (h : Multiparts cfg w) (hx : Exclusive w) (hsep : Separate cfg w)
    (hi : w.calls[i]? = some (.complete u expected phase))
    (hupload : w.uploads[u]? = some upload) :
    Multiparts cfg (w.stepComplete cfg i u upload expected phase) := by
  obtain ⟨upload', hu', hlisted, hok⟩ := h.call i _ hi
  obtain rfl := some.inj (hupload.symm.trans hu')
  match phase, hi, hok with
  | .opening parts, hi, hok =>
    obtain ⟨hst, hexpected, hassemble⟩ := hok
    refine h.writeComplete hx hsep hi hupload (by simp only [streamsTo, hupload, map_some]) ?_
    intro w' hobjects hparts _
    refine ⟨?_, fun _ => ⟨hexpected, fileAt_set hobjects⟩, fun hf => ?_⟩
    · rw [assemble_congr hparts, hassemble]
      cases expected <;> rfl
    · rw [hst] at hf
      cases hf
  | .collecting [] assembled, hi, hok =>
    obtain ⟨hassemble, hst, hbuf⟩ := hok
    have hexpected : expected = some assembled := by
      rw [← hassemble]
      simp [assemble]
    -- a driver that streams finds what was assembled in the file
    have hbytes : (if cfg.streams then ((w.objects.get upload.key).map StoredObject.bytes).getD [] else assembled) =
        assembled := by
      split
      case isTrue hs => exact (hst hs).2
      case isFalse => rfl
    simp only [Managers.stepComplete, hbytes]
    refine h.writeComplete hx hsep hi hupload (by simp only [streamsTo, hupload, map_some]) ?_
    intro w' _ _ hentries
    refine ⟨?_, assembled, hexpected, ⟨_, by rw [hentries, getLast?_concat], rfl, rfl⟩⟩
    intro part hin
    cases hin
  | .collecting (part :: parts) assembled, hi, hok =>
    obtain ⟨hassemble, hst, hbuf⟩ := hok
    simp only [Managers.stepComplete]
    split
    case h_1 hnone =>
      exact h.goComplete hx hi hupload rfl rfl (fun _ _ => rfl) (fun _ _ _ => rfl) (fun _ _ => id) (fun _ _ _ _ _ _ _ => rfl) trivial
    case h_2 object hget =>
      have hrest : (assemble cfg w.objects u parts).map (fun rest => assembled ++ object.bytes ++ rest) = expected := by
        rw [← hassemble]
        simp only [assemble, hget, Option.map_map]
        congr 1
        funext rest
        simp
      split
      case isTrue hs =>
        refine h.goComplete hx hi hupload rfl rfl (fun _ _ => rfl) (fun _ _ _ => rfl) (fun _ _ => id) (fun _ _ _ _ _ _ _ => rfl) ?_
        exact ⟨upload, hupload, hlisted, hrest, hs, (hst hs).1, (hst hs).2⟩
      case isFalse hs =>
        refine h.goComplete hx hi hupload rfl rfl (fun _ _ => rfl) (fun _ _ _ => rfl) (fun _ _ => id) (fun _ _ _ _ _ _ _ => rfl) ?_
        exact ⟨upload, hupload, hlisted, hrest, fun hs' => absurd hs' hs, hbuf⟩
  | .writing parts assembled chunk, hi, hok =>
    obtain ⟨hassemble, hs, hexpected, hfile⟩ := hok
    refine h.writeComplete hx hsep hi hupload (by simp only [streamsTo, hupload, map_some]) ?_
    intro w' hobjects hparts _
    refine ⟨by rw [assemble_congr hparts]; exact hassemble, fun _ => ⟨hexpected, ?_⟩, fun hf => ?_⟩
    · rw [fileAt_set hobjects, ← fileAt, hfile, writeAt_end]
    · rw [hs] at hf
      cases hf
  | .discarding (.next index), hi, hok =>
    obtain ⟨hcleared, bytes, hexpected, hleft⟩ := hok
    simp only [Managers.stepComplete]
    split
    case h_1 part hpart =>
      refine h.goComplete hx hi hupload rfl rfl (fun _ _ => rfl) (fun _ _ _ => rfl) (fun _ _ => id) (fun _ _ _ _ _ _ _ => rfl) ?_
      exact ⟨upload, hupload, hlisted, ⟨hpart, hcleared⟩, bytes, hexpected, hleft⟩
    case h_2 hend =>
      have hcall := getElem?_go w hi (.completed u expected)
      have hset := getElem?_changed hupload { upload with listed := false }
      have halone : ∀ (j : Nat) call, j ≠ i → w.calls[j]? = some call → onUpload u call = false := fun j call hj hcj =>
        hx.alone i j _ call u hi hcj (Ne.symm hj) (by simp [completeOf])
      refine h.update hupload hset (fun _ => rfl)
        (on_unique hi (by simp [onUpload, completeOf])) (fun _ _ _ => rfl) ?_ (fun _ _ _ _ _ _ _ => rfl) ?_ hcall ?_ (others_go w i _) rfl rfl
      · intro part object hget
        have hnone := h.cleared hupload hend hcleared (fun j part hj => ?_) part
        · cases hnone.symm.trans hget
        · by_cases hji : j = i
          · subst hji
            cases hi.symm.trans hj
          · have := halone j _ hji hj
            simp [onUpload, partOf] at this
      · intro j call hj hcj hon
        rw [halone j call hj hcj] at hon
        cases hon
      · have hself := hset u
        rw [if_pos rfl] at hself
        exact ⟨_, bytes, hself, hexpected, hleft⟩
  | .discarding (.deleting index part), hi, hok =>
    obtain ⟨⟨hpart, hcleared⟩, bytes, hexpected, hleft⟩ := hok
    simp only [Managers.stepComplete]
    refine h.goComplete hx hi hupload rfl rfl (fun _ _ => rfl) ?_ ?_ ?_ ?_
    · intro u' part' hne
      simp only [Managers.go, Managers.delete, get_deleted_part, hne, false_and, if_false]
    · intro part' object hget
      simp only [Managers.go, Managers.delete, get_deleted_part] at hget
      split at hget
      · cases hget
      · exact hget
    · intro _ j call key _ _ hkey
      have hne := ne_reservedPart cfg (h.streamsTo_plain hkey) u part
      simp only [Managers.go, Managers.delete, get_delete, if_neg hne]
    · exact ⟨upload, hupload, hlisted, hcleared.delete hpart, bytes, hexpected, hleft⟩

/-! ## Aborting -/

theorem Exclusive.besideAbort (h : Exclusive w) {j : Nat} {phase : Discarding}
    (hi : w.calls[i]? = some (.abort u phase)) (hj : w.calls[j]? = some call) (hne : j ≠ i)
    (hon : onUpload u call = true) : ∃ phase', call = .abort u phase' := by
  cases call with
  | uploadPart u' phase' =>
    obtain rfl : u = u' := onUpload_unique (by simp [onUpload, partOf]) hon
    have := h.apart i j _ _ u hi hj (by simp [abortOf])
    simp [partOf] at this
  | complete u' expected phase' =>
    obtain rfl : u = u' := onUpload_unique (by simp [onUpload, completeOf]) hon
    have := h.alone j i _ _ u hj hi hne (by simp [completeOf])
    simp [onUpload, abortOf] at this
  | abort u' phase' =>
    obtain rfl : u = u' := onUpload_unique (by simp [onUpload, abortOf]) hon
    exact ⟨phase', rfl⟩
  | _ => simp [onUpload, partOf, completeOf, abortOf] at hon

theorem Multiparts.stepAbort (h : Multiparts cfg w) (hx : Exclusive w) {phase : Discarding}
    (hi : w.calls[i]? = some (.abort u phase)) (hupload : w.uploads[u]? = some upload) :
    Multiparts cfg (w.stepAbort cfg i u upload phase) := by
  obtain ⟨upload', hu', hok⟩ := h.call i _ hi
  obtain rfl := some.inj (hupload.symm.trans hu')
  have hmine := on_unique hi (u := u) (by simp [onUpload, abortOf])
  have hplain := (h.upload u upload hupload).2
  have hpartOk : ∀ {call' : Call} {part object}, w.objects.get (reservedPart cfg u part) = some object →
      PartOk (w.go i call') u part upload := by
    intro call' part object hget
    refine (h.uploadOf hupload hget).of_other (i := i) ?_ fun j hj => getElem?_go_ne w hj _
    rw [hi]
    simp
  cases phase with
  | next index =>
    simp only [Managers.stepAbort]
    split
    case h_1 part hpart =>
      have hcall := getElem?_go w hi (.abort u (.deleting index part))
      refine h.update hupload (getElem?_same hupload) hplain hmine (fun _ _ _ => rfl) (fun part object hget => hpartOk hget) (fun _ _ _ _ _ _ _ => rfl)
        (fun _ _ _ _ _ => id) hcall ?_ (others_go w i _) rfl rfl
      exact ⟨upload, hupload, hpart, hok⟩
    case h_2 hend =>
      have hcall := getElem?_go w hi .resolved
      have hset := getElem?_changed hupload { upload with listed := false, withdrawn := true }
      have hself := hset u
      rw [if_pos rfl] at hself
      refine h.update hupload hset (fun _ => rfl) hmine (fun _ _ _ => rfl) ?_ (fun _ _ _ _ _ _ _ => rfl) ?_ hcall ?_ (others_go w i _) rfl rfl
      · intro part object hget
        have hnone := h.cleared hupload hend hok (fun j part hj => ?_) part
        · cases hnone.symm.trans hget
        · have := hx.apart i j _ _ u hi hj (by simp [abortOf])
          simp [partOf] at this
      · intro j call hj hcj hon hcallOk
        obtain ⟨phase', rfl⟩ := hx.besideAbort hi hcj hj hon
        obtain ⟨upload₀, hu₀, hok₀⟩ := hcallOk
        obtain rfl := some.inj (hupload.symm.trans hu₀)
        exact ⟨_, hself, hok₀.congr rfl fun _ => id⟩
      · trivial
  | deleting index part =>
    obtain ⟨hpart, hcleared⟩ := hok
    simp only [Managers.stepAbort]
    have hcall := getElem?_go w hi (.abort u (.next (index + 1)))
    refine h.update hupload (getElem?_same hupload) hplain hmine ?_ ?_ ?_ ?_ hcall ?_ (others_go w i _) rfl rfl
    · intro u' part' hne
      simp only [Managers.go, Managers.delete, get_deleted_part, hne, false_and, if_false]
    · intro part' object hget
      simp only [Managers.go, Managers.delete, get_deleted_part] at hget
      split at hget
      · cases hget
      · exact hpartOk hget
    · intro _ j call key _ _ hkey
      have hne := ne_reservedPart cfg (h.streamsTo_plain hkey) u part
      simp only [Managers.go, Managers.delete, get_delete, if_neg hne]
    · intro j call hj hcj hon hcallOk
      obtain ⟨phase', rfl⟩ := hx.besideAbort hi hcj hj hon
      obtain ⟨upload₀, hu₀, hok₀⟩ := hcallOk
      refine ⟨upload₀, hu₀, hok₀.congr rfl fun part' hnone => ?_⟩
      simp only [Managers.go, Managers.delete, get_deleted_part]
      split
      · rfl
      · exact hnone
    · exact ⟨upload, hupload, hcleared.delete hpart⟩

/-! ## Beginning -/

section

variable (h : Multiparts cfg w)
include h

theorem Multiparts.begin_ (hcall : UploadCallOk cfg w w.calls.length call) : Multiparts cfg (w.begin_ call) := by
  constructor
  · exact h.upload
  · intro u part object hget
    obtain ⟨upload, hupload, hok⟩ := h.part u part object hget
    refine ⟨upload, hupload, hok.of_other (i := w.calls.length) ?_ fun j hj => getElem?_begin_ne w call hj⟩
    rw [getElem?_eq_none le_rfl]
    nofun
  · intro i call' hi
    by_cases heq : i = w.calls.length
    · subst heq
      rw [getElem?_begin] at hi
      obtain rfl := some.inj hi
      exact hcall
    · rw [getElem?_begin_ne w call heq] at hi
      exact h.call i call' hi

theorem Multiparts.uploadPart (u part : Nat) (bytes : Bytes) : Multiparts cfg (w.uploadPart u part bytes) := by
  simp only [Managers.uploadPart]
  split
  case h_1 => exact h.begin_ trivial
  case h_2 upload hupload =>
    split
    case isTrue => exact h.begin_ trivial
    case isFalse hopen =>
      refine h.begin_ ⟨upload, hupload, ?_⟩
      cases hl : upload.listed with
      | false => exact absurd (.inl hl) hopen
      | true => rfl

theorem Multiparts.complete (hb : Begun w) {parts : List Nat}
    (ho : Orderly cfg w (.complete u parts)) : Multiparts cfg (w.complete cfg u parts) := by
  simp only [Managers.complete]
  split
  case h_1 => exact h.begin_ trivial
  case h_2 upload hupload =>
    split
    case isFalse => exact h.begin_ trivial
    case isTrue hlisted =>
      refine h.begin_ ⟨upload, hupload, hlisted, ?_⟩
      split
      case isTrue hs => exact ⟨hs, (ho.2 hs upload hupload).1, rfl⟩
      case isFalse hs =>
        refine ⟨?_, fun hs' => absurd hs' hs, fun _ => hb.entries⟩
        simp

theorem Multiparts.abort (u : Nat) : Multiparts cfg (w.abort u) := by
  simp only [Managers.abort]
  split
  case h_1 => exact h.begin_ trivial
  case h_2 upload hupload =>
    split
    case isTrue =>
      refine h.begin_ ⟨upload, hupload, ?_⟩
      intro part hin
      cases hin
    case isFalse => exact h.begin_ trivial

theorem Multiparts.create {key : Key} (hkey : isScratch key = false) (metadata : WriteMetadata) : Multiparts cfg (w.create key metadata) := by
  have hold : ∀ {u : Nat} {upload}, w.uploads[u]? = some upload → (w.uploads ++ [⟨key, metadata, [], true, false⟩])[u]? = some upload := by
    intro u upload hu
    rw [getElem?_append_left (List.getElem?_eq_some_iff.1 hu).1]
    exact hu
  constructor
  · intro u upload hu
    simp only [Managers.create, getElem?_append] at hu
    split at hu
    · exact h.upload u upload hu
    · obtain rfl := mem_singleton.1 (mem_of_getElem? hu)
      exact ⟨hkey, nofun⟩
  · intro u part object hget
    obtain ⟨upload, hu, hok⟩ := h.part u part object hget
    exact ⟨upload, hold hu, hok⟩
  · intro i call hi
    refine (h.call i call hi).congr (fun _ => rfl) ?_ (fun _ _ _ => rfl) fun _ _ _ => rfl
    intro u upload hu
    exact ⟨upload, hold hu, rfl, rfl, fun _ => rfl⟩

end

end StreetJS.Storage.Uploads
