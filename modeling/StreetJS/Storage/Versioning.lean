/-
The history of an object that `VersioningManager` simulates with reserved keys: what it keeps of every content that a
`put` replaces, and when the reserved keys show exactly that.
-/
import StreetJS.Lib.ListSet
import StreetJS.Storage.Facade

namespace StreetJS.Storage

open StreetJS.Lib OrderedMap StorageFacade List

variable {cfg : StorageConfig}

/-! ## The history -/

/-- A content that was replaced, with its write metadata. -/
structure Version where
  key : Key
  versionId : List Char
  bytes : Bytes
  metadata : WriteMetadata
  createdAt : Int
  deriving DecidableEq

/-- The key an operation writes an object under, if it gets as far as writing it. -/
def target (cfg : StorageConfig) (w : StorageFacade) : Operation → Option Key
  | .put key bytes options => if (w.checkWrite cfg key bytes options).toOption.isSome then some key else none
  | .putStream key content options =>
    content.bind fun bytes => if (w.checkWrite cfg key bytes options).toOption.isSome then some key else none
  | .copy source destination | .move source destination => if w.store.has source then some destination else none
  | .completeMultipartUpload uploadId parts =>
    (w.multipart.get uploadId).bind fun session =>
      if (assembleParts w.store uploadId parts).toOption.isSome then some session.key else none
  | .resumeUpload sessionId _ interrupted =>
    if interrupted then none else (w.resumable.get sessionId).map ResumableSession.key
  | .restoreVersion key versionId => if w.store.has (versionKey key versionId) then some key else none
  | _ => none

/-- The object an operation replaces, under its key. -/
def replaced (cfg : StorageConfig) (w : StorageFacade) (op : Operation) : Option (Key × StoredEntry) :=
  (target cfg w op).bind fun key => (w.store.get key).map fun entry => (key, entry)

/-- What an operation does to the history: a content that is replaced is kept, unless it gives way to one of its own
versions, and a version is kept until it is deleted. -/
def record (cfg : StorageConfig) (w : StorageFacade) (history : List Version) (op : Operation) : List Version :=
  match op with
  | .deleteVersion key versionId => history.filter fun v => ¬ (v.key = key ∧ v.versionId = versionId)
  | .restoreVersion _ _ => history
  | op =>
    match replaced cfg w op with
    | none => history
    | some (key, entry) =>
      history ++ [⟨key, cfg.uuid w.nextId, entry.bytes, toWriteMetadata entry.metadata, w.now⟩]

/-- A step of the facade beside the history. -/
def recording (cfg : StorageConfig) (s : StorageFacade × List Version) (op : Operation) : StorageFacade × List Version :=
  (step cfg s.1 op, record cfg s.1 s.2 op)

/-! ## Orderly runs -/

/-- The keys that an operation names. -/
def names : Operation → List Key
  | .put key _ _ | .putStream key _ _ | .get key | .getStream key | .delete key => [key]
  | .copy source destination | .move source destination => [source, destination]
  | .createMultipartUpload key _ | .startUpload key _ => [key]
  | .restoreVersion key _ | .deleteVersion key _ => [key]
  | _ => []

/-- The version ids that an operation names. -/
def versionIds : Operation → List (List Char)
  | .restoreVersion _ versionId | .deleteVersion _ versionId => [versionId]
  | _ => []

/-- The operations that may replace an object. -/
def mayReplace : Operation → Bool
  | .put _ _ _ | .restoreVersion _ _ => true
  | _ => false

/-- No reserved key and no part of a key in place of a version id, and only a `put` and a restored version replace an
object. -/
structure Orderly (cfg : StorageConfig) (w : StorageFacade) (op : Operation) : Prop where
  keys : ∀ key ∈ names op, isReserved key = false
  ids : ∀ versionId ∈ versionIds op, '/' ∉ versionId
  replaces : mayReplace op = false → replaced cfg w op = none

/-- The ids of `randomUUID`: different from one another, not empty and without `/`. -/
structure Uuids (uuid : Nat → List Char) : Prop where
  injective : Function.Injective uuid
  nonempty : ∀ n, uuid n ≠ []
  plain : ∀ n, '/' ∉ uuid n

/-! ## Version keys -/

def isVersionKey (key : Key) : Bool := versionKeyPrefix.isPrefixOf key

theorem isVersionKey_versionKey (key : Key) (versionId : List Char) : isVersionKey (versionKey key versionId) = true := by
  rw [isVersionKey, versionKey, versionPrefix, append_assoc, append_assoc, isPrefixOf_append versionKeyPrefix]

variable {key : Key}

theorem isVersionKey_of_not_isReserved (h : isReserved key = false) : isVersionKey key = false := by
  cases hv : isVersionKey key with
  | false => rfl
  | true =>
    rw [isVersionKey] at hv
    simp [isReserved, hv] at h

theorem isPrefixOf_clash {a b : Key} (hlen : a.length ≤ b.length) (hab : a.isPrefixOf b = false)
    (ha : a.isPrefixOf key = true) : b.isPrefixOf key = false := by
  cases hb : b.isPrefixOf key with
  | false => rfl
  | true =>
    rw [List.isPrefixOf_iff_prefix] at ha hb
    have h := prefix_of_prefix_length_le ha hb hlen
    rw [← List.isPrefixOf_iff_prefix, hab] at h
    cases h

theorem isScratch_of_isVersionKey (h : isVersionKey key = true) : isScratch key = false := by
  rw [isScratch, isPrefixOf_clash (by decide) (by decide) h, isPrefixOf_clash (by decide) (by decide) h, Bool.or_false]

theorem isVersionKey_of_isScratch (h : isScratch key = true) : isVersionKey key = false := by
  cases hv : isVersionKey key with
  | false => rfl
  | true =>
    rw [isScratch_of_isVersionKey hv] at h
    cases h

theorem versionKey_eq (key : Key) (versionId : List Char) : versionKey key versionId = versionKeyPrefix ++ (key ++ '/' :: versionId) := by
  simp only [versionKey, versionPrefix, append_assoc, singleton_append]

theorem versionKey_inj {key' : Key} {id id' : List Char} (hid : '/' ∉ id) (hid' : '/' ∉ id') :
    versionKey key id = versionKey key' id' ↔ key = key' ∧ id = id' := by
  constructor
  · intro h
    rw [versionKey_eq, versionKey_eq] at h
    exact append_cons_inj hid hid' (append_cancel_left h)
  · rintro ⟨rfl, rfl⟩
    rfl

/-! ## The history as it is stored -/

/-- The reserved copy of a version. -/
def Version.entry (cfg : StorageConfig) (v : Version) : StoredEntry :=
  ⟨v.bytes, buildObjectMetadata (versionKey v.key v.versionId) v.bytes.length (cfg.sha256Hex v.bytes) v.createdAt v.createdAt v.metadata⟩

/-- The reserved copies are the history, in its order, and the uploads aim at plain keys. -/
structure Kept (cfg : StorageConfig) (w : StorageFacade) (history : List Version) : Prop where
  archive : restrict isVersionKey w.store = history.map fun v => (versionKey v.key v.versionId, v.entry cfg)
  issued : ∀ v ∈ history, ∃ n < w.nextId, v.versionId = cfg.uuid n
  once : (history.map Version.versionId).Nodup
  written : ∀ v ∈ history, toWriteMetadata (v.entry cfg).metadata = v.metadata
  multipart : ∀ id session, w.multipart.get id = some session → isReserved session.key = false
  resumable : ∀ id session, w.resumable.get id = some session → isReserved session.key = false

variable {w : StorageFacade} {history : List Version}

theorem Kept.frame {w' : StorageFacade} (h : Kept cfg w history)
    (hstore : restrict isVersionKey w'.store = restrict isVersionKey w.store) (hid : w.nextId ≤ w'.nextId)
    (hm : ∀ id session, w'.multipart.get id = some session → isReserved session.key = false)
    (hr : ∀ id session, w'.resumable.get id = some session →
    isReserved session.key = false) : Kept cfg w' history := by
  refine ⟨hstore.trans h.archive, ?_, h.once, h.written, hm, hr⟩
  intro v hv
  obtain ⟨n, hn, heq⟩ := h.issued v hv
  exact ⟨n, lt_of_lt_of_le hn hid, heq⟩

theorem versions_write (w : StorageFacade) (hkey : isVersionKey key = false) (bytes : Bytes) (options : WriteMetadata) :
    restrict isVersionKey (w.write cfg key bytes options).store = restrict isVersionKey w.store :=
  restrict_set_of_not hkey w.store _

theorem versions_erase (w : StorageFacade) (hkey : isVersionKey key = false) :
    restrict isVersionKey (w.erase key).store = restrict isVersionKey w.store :=
  restrict_delete_of_not hkey w.store

/-- The parts of the state that a write or a removal does not touch. -/
structure SameSessions (w w' : StorageFacade) : Prop where
  nextId : w'.nextId = w.nextId
  multipart : w'.multipart = w.multipart
  resumable : w'.resumable = w.resumable

theorem access_sessions (w : StorageFacade) (key : Key) (operation : AccessOperation) : SameSessions w (w.access key operation) := by
  simp only [StorageFacade.access]
  split
  · split
    · exact ⟨rfl, rfl, rfl⟩
    · exact ⟨rfl, rfl, rfl⟩
  · exact ⟨rfl, rfl, rfl⟩

theorem write_sessions (w : StorageFacade) (key : Key) (bytes : Bytes) (options : WriteMetadata) :
    SameSessions w (w.write cfg key bytes options) := by
  have h := access_sessions w key .write
  exact { h with }

theorem erase_sessions (w : StorageFacade) (key : Key) : SameSessions w (w.erase key) := by
  have h := access_sessions w key .delete
  exact { h with }

theorem Kept.same {w' : StorageFacade} (h : Kept cfg w history)
    (hs : SameSessions w w') (hstore : restrict isVersionKey w'.store = restrict isVersionKey w.store) :
    Kept cfg w' history := by
  refine h.frame hstore (le_of_eq hs.nextId.symm) ?_ ?_
  · rw [hs.multipart]
    exact h.multipart
  · rw [hs.resumable]
    exact h.resumable

theorem Kept.access (h : Kept cfg w history) (key : Key) (operation : AccessOperation) : Kept cfg (w.access key operation) history :=
  h.same (access_sessions w key operation) (by rw [access_store])

theorem Kept.write (h : Kept cfg w history) (hkey : isVersionKey key = false) (bytes : Bytes) (options : WriteMetadata) :
    Kept cfg (w.write cfg key bytes options) history :=
  h.same (write_sessions w key bytes options) (versions_write w hkey bytes options)

theorem Kept.erase (h : Kept cfg w history) (hkey : isVersionKey key = false) : Kept cfg (w.erase key) history :=
  h.same (erase_sessions w key) (versions_erase w hkey)

theorem Kept.discardParts (uploadId : List Char) :
    ∀ (parts : List Nat) {w : StorageFacade}, Kept cfg w history → Kept cfg (w.discardParts uploadId parts) history
  | [], _, h => h
  | part :: parts, _, h =>
    Kept.discardParts uploadId parts (h.erase (isVersionKey_of_isScratch (isScratch_partKey uploadId part)))

theorem Kept.appendChunks (hkey : isVersionKey key = false) :
    ∀ (chunks : List Bytes) {w : StorageFacade} (persisted : Bytes) (seen : Nat), Kept cfg w history →
      Kept cfg (w.appendChunks cfg key persisted seen chunks).1 history
  | [], _, _, _, h => h
  | chunk :: chunks, w, persisted, seen, h => by
    simp only [StorageFacade.appendChunks]
    split
    · exact Kept.appendChunks hkey chunks _ _ (h.write hkey _ _)
    · exact Kept.appendChunks hkey chunks _ _ h

theorem Kept.uploads (h : Kept cfg w history)
    {multipart : OrderedMap (List Char) MultipartSession} {resumable : OrderedMap (List Char) ResumableSession}
    (hm : ∀ id session, multipart.get id = some session → isReserved session.key = false)
    (hr : ∀ id session, resumable.get id = some session → isReserved session.key = false) :
    Kept cfg { w with multipart := multipart, resumable := resumable } history :=
  h.frame rfl le_rfl hm hr

/-! ### Retaining a content -/

theorem not_has_fresh (hu : Uuids cfg.uuid) (h : Kept cfg w history) (key : Key) :
    versionKey key (cfg.uuid w.nextId) ∉ (restrict isVersionKey w.store).map Prod.fst := by
  rw [h.archive, map_map]
  intro hmem
  obtain ⟨v, hv, heq⟩ := mem_map.1 hmem
  obtain ⟨n, hn, hid⟩ := h.issued v hv
  have hplain : '/' ∉ v.versionId := hid ▸ hu.plain n
  have heq' := ((versionKey_inj hplain (hu.plain w.nextId)).1 heq).2
  have := hu.injective (hid.symm.trans heq')
  omega

theorem Kept.snapshot (hu : Uuids cfg.uuid) (h : Kept cfg w history)
    (key : Key) {current : StoredEntry} (hget : w.store.get key = some current) :
    Kept cfg (w.snapshot cfg key) (history ++ [⟨key, cfg.uuid w.nextId, current.bytes, toWriteMetadata current.metadata, w.now⟩]) := by
  have hfresh := not_has_fresh hu h key
  have hvk := isVersionKey_versionKey key (cfg.uuid w.nextId)
  have hnone : w.store.get (versionKey key (cfg.uuid w.nextId)) = none := by
    rw [← get_restrict hvk, ← Option.not_isSome_iff_eq_none]
    intro hs
    exact hfresh (has_iff_mem_keys.1 hs)
  have hs : SameSessions w (w.write cfg (versionKey key (cfg.uuid w.nextId)) current.bytes
    (toWriteMetadata current.metadata)) := write_sessions w _ _ _
  simp only [StorageFacade.snapshot, hget]
  constructor
  · simp only [StorageFacade.write, Store.put]
    rw [restrict_set hvk, set_of_not_has hfresh, h.archive, map_append, Store.entry, hnone]
    rfl
  · intro v hv
    rcases mem_append.1 hv with hv | hv
    · obtain ⟨n, hn, hid⟩ := h.issued v hv
      exact ⟨n, Nat.lt_succ_of_lt hn, hid⟩
    · obtain rfl := mem_singleton.1 hv
      exact ⟨w.nextId, Nat.lt_succ_self _, rfl⟩
  · rw [map_append, nodup_append]
    refine ⟨h.once, nodup_singleton _, ?_⟩
    rintro a ha b hb rfl
    obtain ⟨v, hv, rfl⟩ := mem_map.1 ha
    obtain ⟨n, hn, hid⟩ := h.issued v hv
    have := hu.injective (hid.symm.trans (mem_singleton.1 hb))
    omega
  · intro v hv
    rcases mem_append.1 hv with hv | hv
    · exact h.written v hv
    · obtain rfl := mem_singleton.1 hv
      rfl
  · simp only [hs.multipart]
    exact h.multipart
  · simp only [hs.resumable]
    exact h.resumable

/-! ### One operation -/

theorem set_plain {X : Type} {f : X → Key} {m : OrderedMap (List Char) X}
    (h : ∀ id x, m.get id = some x → isReserved (f x) = false) {id : List Char} {x : X}
    (hx : isReserved (f x) = false) :
    ∀ id' x', (m.set id x).get id' = some x' → isReserved (f x') = false := by
  intro id' x' hget
  rw [get_set] at hget
  split at hget
  · obtain rfl := Option.some.inj hget
    exact hx
  · exact h id' x' hget

theorem delete_plain {X : Type} {f : X → Key} {m : OrderedMap (List Char) X}
    (h : ∀ id x, m.get id = some x → isReserved (f x) = false) (id : List Char) :
    ∀ id' x', (m.delete id).get id' = some x' → isReserved (f x') = false := by
  intro id' x' hget
  rw [get_delete] at hget
  split at hget
  · cases hget
  · exact h id' x' hget

theorem put_kept (hv : cfg.versioning = true) (hu : Uuids cfg.uuid)
    (h : Kept cfg w history) (hkey : isReserved key = false) (bytes : Bytes) (options : WriteMetadata) :
    Kept cfg (w.put cfg key bytes options).1 (record cfg w history (.put key bytes options)) := by
  simp only [StorageFacade.put, record, replaced, target, hv, if_true]
  cases hcheck : w.checkWrite cfg key bytes options with
  | error e => exact h
  | ok u =>
    simp only [Except.toOption, Option.isSome_some, if_true, Option.bind_some]
    have hplain := isVersionKey_of_not_isReserved hkey
    cases hget : w.store.get key with
    | none =>
      have hsnap : w.snapshot cfg key = w := by simp only [StorageFacade.snapshot, hget]
      rw [hsnap]
      exact h.write hplain bytes options
    | some current => exact (h.snapshot hu key hget).write hplain bytes options

section

variable (h : Kept cfg w history)
include h

theorem putStream_kept (hkey : isReserved key = false) (content : Option Bytes) (options : WriteMetadata) :
    Kept cfg (w.putStream cfg key content options).1 history := by
  simp only [StorageFacade.putStream]
  split
  · exact h
  · cases content with
    | none => exact h
    | some bytes =>
      dsimp only
      split
      · exact h
      · exact h.write (isVersionKey_of_not_isReserved hkey) bytes options

theorem copy_kept (source : Key) {destination : Key} (hkey : isReserved destination = false) :
    Kept cfg (w.copy cfg source destination).1 history := by
  simp only [StorageFacade.copy]
  split
  · exact h
  · exact h.write (isVersionKey_of_not_isReserved hkey) _ _

theorem move_kept {source destination : Key} (hsource : isReserved source = false) (hkey : isReserved destination = false) :
    Kept cfg (w.move cfg source destination).1 history := by
  simp only [StorageFacade.move]
  split
  · exact h
  · exact (h.write (isVersionKey_of_not_isReserved hkey) _ _).erase (isVersionKey_of_not_isReserved hsource)

theorem uploadPart_kept (uploadId : List Char) (part : Nat) (bytes : Bytes) : Kept cfg (w.uploadPart cfg uploadId part bytes).1 history := by
  simp only [StorageFacade.uploadPart]
  split
  · exact h
  · next session hget =>
    split
    · exact h
    · have hw := h.write (isVersionKey_of_isScratch (isScratch_partKey uploadId part)) bytes partWriteMetadata
      exact hw.uploads (set_plain (f := MultipartSession.key) h.multipart (h.multipart uploadId session hget)) hw.resumable

theorem completeMultipartUpload_kept (uploadId : List Char) (parts : List Nat) :
    Kept cfg (w.completeMultipartUpload cfg uploadId parts).1 history := by
  simp only [StorageFacade.completeMultipartUpload]
  split
  · exact h
  · next session hget =>
    split
    · exact h
    · have hw := (h.write (isVersionKey_of_not_isReserved (h.multipart uploadId session hget)) ‹_›
        session.metadata).discardParts uploadId session.partNumbers
      exact hw.uploads (delete_plain (f := MultipartSession.key) h.multipart uploadId) hw.resumable

theorem abortMultipartUpload_kept (uploadId : List Char) : Kept cfg (w.abortMultipartUpload uploadId).1 history := by
  simp only [StorageFacade.abortMultipartUpload]
  split
  · exact h
  · next session _ =>
    have hw := h.discardParts uploadId session.partNumbers
    exact hw.uploads (delete_plain (f := MultipartSession.key) h.multipart uploadId) hw.resumable

theorem resumeUpload_kept (sessionId : List Char) (chunks : List Bytes) (interrupted : Bool) :
    Kept cfg (w.resumeUpload cfg sessionId chunks interrupted).1 history := by
  simp only [StorageFacade.resumeUpload]
  split
  · exact h
  · next session hget =>
    have hscratch := isVersionKey_of_isScratch (isScratch_sessionKey sessionId)
    have happ := Kept.appendChunks hscratch chunks (w.readPersisted sessionId) 0 h
    split
    · exact happ
    · have hw := (happ.write (isVersionKey_of_not_isReserved (h.resumable sessionId session hget))
        (w.appendChunks cfg (sessionKey sessionId) (w.readPersisted sessionId) 0 chunks).2 session.metadata).erase hscratch
      exact hw.uploads hw.multipart (delete_plain (f := ResumableSession.key) h.resumable sessionId)

theorem cancelUpload_kept (sessionId : List Char) : Kept cfg (w.cancelUpload sessionId).1 history := by
  simp only [StorageFacade.cancelUpload]
  split
  · exact h
  · have hw := h.erase (isVersionKey_of_isScratch (isScratch_sessionKey sessionId))
    exact hw.uploads hw.multipart (delete_plain (f := ResumableSession.key) h.resumable sessionId)

theorem restoreVersion_kept (hkey : isReserved key = false) (versionId : List Char) :
    Kept cfg (w.restoreVersion cfg key versionId).1 history := by
  simp only [StorageFacade.restoreVersion]
  split
  · exact h
  · exact h.write (isVersionKey_of_not_isReserved hkey) _ _

end

theorem deleteVersion_kept (hu : Uuids cfg.uuid) (h : Kept cfg w history) (key : Key) {versionId : List Char} (hid : '/' ∉ versionId) :
    Kept cfg (w.deleteVersion key versionId).1 (record cfg w history (.deleteVersion key versionId)) := by
  have hs := erase_sessions w (versionKey key versionId)
  simp only [StorageFacade.deleteVersion, record]
  constructor
  · simp only [StorageFacade.erase]
    rw [restrict_delete, h.archive, OrderedMap.delete, filter_map]
    refine congrArg (List.map _) (filter_congr fun v hv => ?_)
    obtain ⟨n, -, hn⟩ := h.issued v hv
    have hplain : '/' ∉ v.versionId := hn ▸ hu.plain n
    simp only [Function.comp_apply, ne_eq, versionKey_inj hplain hid]
  · intro v hv
    rw [hs.nextId]
    exact h.issued v (mem_filter.1 hv).1
  · exact h.once.sublist ((filter_sublist).map Version.versionId)
  · intro v hv
    exact h.written v (mem_filter.1 hv).1
  · rw [hs.multipart]
    exact h.multipart
  · rw [hs.resumable]
    exact h.resumable

theorem record_of_replaced_none (history : List Version) {op : Operation}
    (hv : ∀ key versionId, op ≠ .deleteVersion key versionId) (h : replaced cfg w op = none) :
    record cfg w history op = history := by
  cases op with
  | deleteVersion key versionId => exact absurd rfl (hv key versionId)
  | restoreVersion key versionId => rfl
  | _ => simp only [record, h]

theorem step_kept (hv : cfg.versioning = true) (hu : Uuids cfg.uuid) (h : Kept cfg w history) {op : Operation} (ho : Orderly cfg w op) :
    Kept cfg (step cfg w op) (record cfg w history op) := by
  cases op with
  | put key bytes options => exact put_kept hv hu h (ho.keys key (by simp [names])) bytes options
  | deleteVersion key versionId => exact deleteVersion_kept hu h key (ho.ids versionId (by simp [versionIds]))
  | restoreVersion key versionId => exact restoreVersion_kept h (ho.keys key (by simp [names])) versionId
  | putStream key content options =>
    rw [record_of_replaced_none history (by simp) (ho.replaces rfl)]
    exact putStream_kept h (ho.keys key (by simp [names])) content options
  | copy source destination =>
    rw [record_of_replaced_none history (by simp) (ho.replaces rfl)]
    exact copy_kept h source (ho.keys destination (by simp [names]))
  | move source destination =>
    rw [record_of_replaced_none history (by simp) (ho.replaces rfl)]
    exact move_kept h (ho.keys source (by simp [names])) (ho.keys destination (by simp [names]))
  | get key =>
    simp only [step, perform, StorageFacade.get]
    split
    · exact h
    · exact h.access key .read
  | getStream key =>
    simp only [step, perform, StorageFacade.getStream]
    split
    · exact h
    · split
      · exact h
      · exact h.access key .read
  | delete key =>
    simp only [step, perform, StorageFacade.delete]
    split
    · exact h
    · exact h.erase (isVersionKey_of_not_isReserved (ho.keys key (by simp [names])))
  | createMultipartUpload key options =>
    have hkey := ho.keys key (by simp [names])
    exact h.frame rfl (Nat.le_succ _) (set_plain (f := MultipartSession.key) h.multipart hkey) h.resumable
  | startUpload key options =>
    have hkey := ho.keys key (by simp [names])
    exact h.frame rfl (Nat.le_succ _) h.multipart (set_plain (f := ResumableSession.key) h.resumable hkey)
  | uploadPart uploadId part bytes => exact uploadPart_kept h uploadId part bytes
  | completeMultipartUpload uploadId parts =>
    rw [record_of_replaced_none history (by simp) (ho.replaces rfl)]
    exact completeMultipartUpload_kept h uploadId parts
  | abortMultipartUpload uploadId => exact abortMultipartUpload_kept h uploadId
  | resumeUpload sessionId chunks interrupted =>
    rw [record_of_replaced_none history (by simp) (ho.replaces rfl)]
    exact resumeUpload_kept h sessionId chunks interrupted
  | cancelUpload sessionId => exact cancelUpload_kept h sessionId
  | clock now => exact h.same ⟨rfl, rfl, rfl⟩ rfl
  | authenticate principal => exact h.same ⟨rfl, rfl, rfl⟩ rfl

/-! ## What is listed and restored -/

def Version.info (cfg : StorageConfig) (v : Version) : VersionInfo :=
  ⟨v.versionId, v.bytes.length, v.createdAt, cfg.sha256Hex v.bytes⟩

theorem Kept.get_copy (hu : Uuids cfg.uuid) (h : Kept cfg w history)
    {v : Version} (hv : v ∈ history) : w.store.get (versionKey v.key v.versionId) = some (v.entry cfg) := by
  rw [← get_restrict (isVersionKey_versionKey v.key v.versionId), h.archive]
  refine get_of_mem ?_ (mem_map.2 ⟨v, hv, rfl⟩)
  -- the ids are different, so the keys are
  have hplain : ∀ v ∈ history, '/' ∉ v.versionId := by
    intro v hv
    obtain ⟨n, -, hn⟩ := h.issued v hv
    exact hn ▸ hu.plain n
  rw [map_map]
  refine List.Nodup.map_on ?_ (List.Nodup.of_map Version.versionId h.once)
  intro a ha b hb heq
  have hid := ((versionKey_inj (hplain a ha) (hplain b hb)).1 heq).2
  exact inj_on_of_nodup_map h.once ha hb hid

theorem listed_one (hu : Uuids cfg.uuid) (h : Kept cfg w history) (key : Key) {v : Version} (hv : v ∈ history) :
    (if (versionPrefix key).isPrefixOf (versionKey v.key v.versionId) = true then
      let id := (versionKey v.key v.versionId).drop (versionPrefix key).length
      if ¬ (id = [] ∨ '/' ∈ id) then
        (w.store.get (versionKey key id)).map fun entry =>
          (⟨id, entry.metadata.size, entry.metadata.createdAt, entry.metadata.checksum⟩ : VersionInfo)
      else none
    else none) = if v.key = key then some (v.info cfg) else none := by
  obtain ⟨n, -, hn⟩ := h.issued v hv
  have hplain : '/' ∉ v.versionId := hn ▸ hu.plain n
  have hne : v.versionId ≠ [] := hn ▸ hu.nonempty n
  by_cases hkey : v.key = key
  · subst hkey
    have hpre : (versionPrefix v.key).isPrefixOf (versionKey v.key v.versionId) = true := isPrefixOf_append _ _
    have hdrop : (versionKey v.key v.versionId).drop (versionPrefix v.key).length = v.versionId := drop_left
    simp only [hpre, if_true, hdrop, hne, hplain, or_self, not_false_eq_true, h.get_copy hu hv, Option.map_some]
    rfl
  · split
    case isFalse => rfl
    case isTrue hpre =>
      obtain ⟨rest, hrest⟩ := List.isPrefixOf_iff_prefix.1 hpre
      have hdrop : (versionKey v.key v.versionId).drop (versionPrefix key).length = rest := by
        rw [← hrest]
        exact drop_left
      simp only [hdrop]
      -- the rest belongs to a deeper key, or else the keys are the same
      have hslash : '/' ∈ rest := by
        by_contra hno
        exact hkey ((versionKey_inj hplain hno).1 hrest.symm).1
      simp [hslash]

theorem keys_with_versions (w : StorageFacade) (key : Key) : (w.store.map Prod.fst).filter (fun k => (versionPrefix key).isPrefixOf k) =
      ((restrict isVersionKey w.store).map Prod.fst).filter fun k => (versionPrefix key).isPrefixOf k := by
  rw [restrict, filter_map, filter_map, filter_filter]
  refine congrArg (List.map Prod.fst) (filter_congr fun e _ => ?_)
  simp only [Function.comp_apply]
  cases hpre : (versionPrefix key).isPrefixOf e.1 with
  | false => rfl
  | true =>
    rw [Bool.true_and, isVersionKey, eq_comm, List.isPrefixOf_iff_prefix]
    refine List.IsPrefix.trans ?_ (List.isPrefixOf_iff_prefix.1 hpre)
    exact prefix_append _ _

theorem listVersions_perm (hu : Uuids cfg.uuid) (h : Kept cfg w history) (key : Key) :
    (w.listVersions key).Perm ((history.filter fun v => v.key = key).map (Version.info cfg)) := by
  have hlist : ∀ {l l' : List Key}, l.Perm l' → _ := fun {l l'} hp =>
    (((hp.map fun item => item.drop (versionPrefix key).length).filter fun id => ¬ (id = [] ∨ '/' ∈ id)).filterMap
      fun id => (w.store.get (versionKey key id)).map fun entry =>
        (⟨id, entry.metadata.size, entry.metadata.createdAt, entry.metadata.checksum⟩ : VersionInfo))
  refine (sortOn_perm _ _).trans ((hlist (sortOn_perm _ _)).trans (.of_eq ?_))
  rw [keys_with_versions, h.archive, map_map]
  simp only [← filterMap_eq_filter, ← filterMap_eq_map, filterMap_filterMap]
  refine filterMap_congr fun v hv => ?_
  have hone := listed_one hu h key hv
  simp only [Option.guard, Function.comp_apply, Option.bind_some, decide_eq_true_eq] at hone ⊢
  refine Eq.trans ?_ (hone.trans ?_)
  · split
    · simp only [Option.bind_some]
      split
      · rfl
      · rfl
    · rfl
  · split
    · rfl
    · rfl

theorem listVersions_sorted (w : StorageFacade) (key : Key) :
    (w.listVersions key).Pairwise fun a b => a.createdAt ≤ b.createdAt := sortOn_pairwise _ _

theorem restoreVersion_of_mem (hu : Uuids cfg.uuid) (h : Kept cfg w history) {v : Version} (hv : v ∈ history) :
    ((w.restoreVersion cfg v.key v.versionId).1.store.get v.key).map
      (fun entry => (entry.bytes, toWriteMetadata entry.metadata)) = some (v.bytes, v.metadata) := by
  simp only [StorageFacade.restoreVersion, h.get_copy hu hv, stored, store_get_write, if_true, Option.map_some,
    Option.some.injEq, Prod.mk.injEq]
  exact ⟨rfl, h.written v hv⟩

/-! ## Runs -/

theorem recording_run (ops : List Operation) : ∀ (w : StorageFacade) (history : List Version),
    (run (recording cfg) (w, history) ops).1 = run (step cfg) w ops := by
  induction ops with
  | nil => exact fun _ _ => rfl
  | cons op ops ih => exact fun w history => ih (step cfg w op) (record cfg w history op)

theorem guarded_recording {G : StorageFacade → Operation → Prop} : ∀ (ops : List Operation) {w : StorageFacade}
    (history : List Version), Guarded (step cfg) G w ops → Guarded (recording cfg) (fun s op => G s.1 op) (w, history) ops
  | [], _, _, _ => trivial
  | _ :: ops, _, _, h => ⟨h.1, guarded_recording ops _ h.2⟩

theorem initial_kept : Kept cfg initial [] := ⟨rfl, nofun, nodup_nil, nofun, nofun, nofun⟩

theorem run_kept (hv : cfg.versioning = true) (hu : Uuids cfg.uuid) {ops : List Operation}
    (hops : Guarded (step cfg) (Orderly cfg) initial ops) :
    Kept cfg (run (step cfg) initial ops) (run (recording cfg) (initial, []) ops).2 := by
  have h := run_invariant_of_guarded (recording cfg) (P := fun s => Kept cfg s.1 s.2)
    (fun s op hs ho => step_kept hv hu hs ho) ops (guarded_recording ops [] hops) initial_kept
  rw [recording_run] at h
  exact h

/-! ## Uploads that are not complete -/

/-- The operations on objects. -/
def isObjectOperation : Operation → Bool
  | .put _ _ _ | .get _ | .copy _ _ | .move _ _ | .delete _ => true
  | _ => false

theorem scratch_write (w : StorageFacade) (hkey : isScratch key = false) (bytes : Bytes) (options : WriteMetadata) :
    restrict isScratch (w.write cfg key bytes options).store = restrict isScratch w.store :=
  restrict_set_of_not hkey w.store _

theorem scratch_erase (w : StorageFacade) (hkey : isScratch key = false) :
    restrict isScratch (w.erase key).store = restrict isScratch w.store :=
  restrict_delete_of_not hkey w.store

theorem scratch_snapshot (w : StorageFacade) (key : Key) : restrict isScratch (w.snapshot cfg key).store = restrict isScratch w.store := by
  simp only [StorageFacade.snapshot]
  split
  · rfl
  · exact scratch_write w (isScratch_of_isVersionKey (isVersionKey_versionKey key _)) _ _

theorem step_scratch {op : Operation} (hop : isObjectOperation op = true) (ho : Orderly cfg w op) :
    restrict isScratch (step cfg w op).store = restrict isScratch w.store := by
  have hplain : ∀ key ∈ names op, isScratch key = false := fun key hkey =>
    isScratch_of_not_isReserved (ho.keys key hkey)
  cases op with
  | put key bytes options =>
    simp only [step, perform, StorageFacade.put, stored]
    split
    · rfl
    · rw [scratch_write _ (hplain key (by simp [names]))]
      split
      · exact scratch_snapshot w key
      · rfl
  | get key =>
    simp only [step, perform, StorageFacade.get, stored]
    split
    · rfl
    · rw [access_store]
  | delete key =>
    simp only [step, perform, StorageFacade.delete]
    split
    · rfl
    · exact scratch_erase w (hplain key (by simp [names]))
  | copy source destination =>
    simp only [step, perform, StorageFacade.copy, stored]
    split
    · rfl
    · exact scratch_write w (hplain destination (by simp [names])) _ _
  | move source destination =>
    simp only [step, perform, StorageFacade.move]
    split
    · rfl
    · rw [scratch_erase _ (hplain source (by simp [names]))]
      exact scratch_write w (hplain destination (by simp [names])) _ _
  | _ => cases hop

/-! ## The whole run -/

/-- No bridge and no pipeline, and versions that are numbered. -/
def versioned : StorageConfig where
  sha256Hex bytes := String.ofList (bytes.map fun b => Char.ofNat b.toNat)
  uuid n := List.replicate (n + 1) '0'
  can := none
  validators := none
  versioning := true

theorem versioned_uuids : Uuids versioned.uuid := by
  constructor
  · intro m n h
    have hlen := congrArg List.length h
    simpa [versioned] using hlen
  · intro n h
    simp [versioned] at h
  · intro n h
    simp only [versioned, mem_replicate] at h
    exact absurd h.2 (by decide)

/-- Two versions of one key, beside a key below it, and the older one restored. -/
def rewriting : List Operation :=
  [.put "a".toList [1] ⟨none, none, none, none, none⟩, .put "a/b".toList [4] ⟨none, none, none, none, none⟩,
    .put "a".toList [2] ⟨none, none, none, none, none⟩, .clock 5, .put "a".toList [3] ⟨none, none, none, none, none⟩,
    .put "a/b".toList [5] ⟨none, none, none, none, none⟩, .restoreVersion "a".toList "0".toList]

instance (w : StorageFacade) (op : Operation) : Decidable (Orderly cfg w op) :=
  decidable_of_iff ((∀ key ∈ names op, isReserved key = false) ∧ (∀ versionId ∈ versionIds op, '/' ∉ versionId) ∧
      (mayReplace op = false → replaced cfg w op = none))
    ⟨fun ⟨h₁, h₂, h₃⟩ => ⟨h₁, h₂, h₃⟩, fun ⟨h₁, h₂, h₃⟩ => ⟨h₁, h₂, h₃⟩⟩

theorem rewriting_orderly : Guarded (step versioned) (Orderly versioned) initial rewriting := by
  simp only [rewriting, Guarded]
  decide +kernel

end StreetJS.Storage
