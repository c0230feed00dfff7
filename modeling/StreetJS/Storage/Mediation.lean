/-
Which operations of the facade keep the promise of the auth bridge and of the validation pipeline: the exact condition
on each operation, and runs that break it.
-/
import StreetJS.Storage.Facade

namespace StreetJS.Storage

open StreetJS.Lib OrderedMap StorageFacade
open Option (some.inj some.injEq)

variable {cfg : StorageConfig}

/-! ## What is promised -/

/-- The bridge does not deny the access. -/
def Allowed (cfg : StorageConfig) (principal : String) (context : AccessContext) : Prop :=
  ∀ can, cfg.can = some can → can principal context = true

/-- A write as it is stored: the defaults of the fields that are not given. -/
def normal (options : WriteMetadata) : WriteMetadata :=
  toWriteMetadata (buildObjectMetadata [] 0 "" 0 0 options)

/-- The pipeline accepts these bytes under the key with options that are stored the same way. -/
def Acceptable (cfg : StorageConfig) (key : Key) (bytes : Bytes) (options : WriteMetadata) : Prop :=
  ∀ validators, cfg.validators = some validators → ∃ given, normal given = normal options ∧
    validate validators ⟨key, bytes.length, given.contentType, cfg.sha256Hex bytes, given⟩ = none

structure Mediated (cfg : StorageConfig) (w : StorageFacade) : Prop where
  allowed : ∀ a ∈ w.accesses, Allowed cfg a.1 a.2
  accepted : ∀ key entry, w.store.get key = some entry → isReserved key = false →
    Acceptable cfg key entry.bytes (toWriteMetadata entry.metadata)

/-! ## The condition on an operation -/

/-- What is stored under the key may be dealt with, if anything is. -/
def Permits (cfg : StorageConfig) (w : StorageFacade) (key : Key) (operation : AccessOperation) : Prop :=
  ∀ entry, w.store.get key = some entry → isScratch key = false → Allowed cfg w.principal (context key operation entry.metadata)

/-- A write that nothing has checked yet. -/
structure Writable (cfg : StorageConfig) (w : StorageFacade) (key : Key) (bytes : Bytes) (options : WriteMetadata) : Prop where
  permits : Permits cfg w key .write
  acceptable : isReserved key = false → Acceptable cfg key bytes options

/-- What an upload has persisted, continued with the chunks of another try. -/
def continued (persisted : Bytes) (chunks : List Bytes) : Bytes := persisted ++ chunks.flatten.drop persisted.length

/-- What the facade does not check itself: a `put` or a `putStream` looks at what the caller gives but not at what it
overwrites, and the other writes look at nothing. -/
def Mediates (cfg : StorageConfig) (w : StorageFacade) : Operation → Prop
  | .put key bytes options => w.checkWrite cfg key bytes options = .ok () → Permits cfg w key .write ∧
      (cfg.versioning = true → w.store.has key = true → Permits cfg w (versionKey key (cfg.uuid w.nextId)) .write)
  | .putStream key content options =>
    ∀ bytes, content = some bytes → w.checkWrite cfg key bytes options = .ok () → Permits cfg w key .write
  | .copy source destination => ∀ entry, w.store.get source = some entry →
    Writable cfg w destination entry.bytes (toWriteMetadata entry.metadata)
  | .move source destination => ∀ entry, w.store.get source = some entry →
    Permits cfg w destination .write ∧ Permits cfg w source .delete ∧ (source ≠ destination → isReserved destination = false →
        Acceptable cfg destination entry.bytes (toWriteMetadata entry.metadata))
  | .completeMultipartUpload uploadId parts => ∀ session bytes, w.multipart.get uploadId = some session →
    assembleParts w.store uploadId parts = .ok bytes → Writable cfg w session.key bytes session.metadata
  | .resumeUpload sessionId chunks interrupted => ∀ session, w.resumable.get sessionId = some session →
    interrupted = false → Writable cfg w session.key (continued (w.readPersisted sessionId) chunks) session.metadata
  | .restoreVersion key versionId => ∀ entry, w.store.get (versionKey key versionId) = some entry →
    Writable cfg w key entry.bytes (toWriteMetadata entry.metadata)
  | .deleteVersion key versionId => Permits cfg w (versionKey key versionId) .delete
  | _ => True

/-! ## One write and one removal -/

theorem access_allowed (w : StorageFacade) (key : Key) (operation : AccessOperation) :
    (∀ a ∈ (w.access key operation).accesses, Allowed cfg a.1 a.2) ↔
      (∀ a ∈ w.accesses, Allowed cfg a.1 a.2) ∧ Permits cfg w key operation := by
  simp only [StorageFacade.access, Permits]
  cases hget : OrderedMap.get w.store key with
  | none => simp
  | some entry =>
    cases hs : isScratch key with
    | true => simp
    | false => simp [or_imp, forall_and]

theorem entry_acceptable (w : StorageFacade) (key : Key) (bytes : Bytes) (options : WriteMetadata) :
    Acceptable cfg key (w.store.entry cfg.sha256Hex w.now key bytes options).bytes
        (toWriteMetadata (w.store.entry cfg.sha256Hex w.now key bytes options).metadata) ↔
      Acceptable cfg key bytes options := Iff.rfl

/-- The objects of two states are the same, whatever the uploads keep. -/
structure SameObjects (w w' : StorageFacade) : Prop where
  accesses : w'.accesses = w.accesses
  principal : w'.principal = w.principal
  get : ∀ key, isScratch key = false → w'.store.get key = w.store.get key

theorem SameObjects.refl (w : StorageFacade) : SameObjects w w := ⟨rfl, rfl, fun _ _ => rfl⟩

theorem SameObjects.trans {a b c : StorageFacade} (h : SameObjects a b) (h' : SameObjects b c) : SameObjects a c :=
  ⟨h'.accesses.trans h.accesses, h'.principal.trans h.principal, fun key hs => (h'.get key hs).trans (h.get key hs)⟩

variable {w : StorageFacade}

theorem SameObjects.permits {w' : StorageFacade} (h : SameObjects w w') (key : Key) (operation : AccessOperation) :
    Permits cfg w' key operation ↔ Permits cfg w key operation := by
  simp only [Permits, h.principal]
  constructor
  · intro hp entry hget hs
    exact hp entry ((h.get key hs).trans hget) hs
  · intro hp entry hget hs
    exact hp entry ((h.get key hs).symm.trans hget) hs

theorem SameObjects.mediated {w' : StorageFacade} (h : SameObjects w w') : Mediated cfg w' ↔ Mediated cfg w := by
  constructor
  · rintro ⟨ha, hacc⟩
    rw [h.accesses] at ha
    refine ⟨ha, fun key entry hget hr => hacc key entry ?_ hr⟩
    rw [h.get key (isScratch_of_not_isReserved hr), hget]
  · rintro ⟨ha, hacc⟩
    rw [← h.accesses] at ha
    refine ⟨ha, fun key entry hget hr => hacc key entry ?_ hr⟩
    rw [← h.get key (isScratch_of_not_isReserved hr), hget]

variable {key : Key}

theorem sameObjects_write (w : StorageFacade) (hs : isScratch key = true) (bytes : Bytes)
    (options : WriteMetadata) : SameObjects w (w.write cfg key bytes options) := by
  constructor
  · simp only [StorageFacade.write, access_scratch w hs]
  · exact write_principal w key bytes options
  · intro key' hs'
    rw [store_get_write, if_neg]
    rintro rfl
    rw [hs] at hs'
    cases hs'

theorem sameObjects_erase (w : StorageFacade) (hs : isScratch key = true) : SameObjects w (w.erase key) := by
  constructor
  · simp only [StorageFacade.erase, access_scratch w hs]
  · exact access_principal w key .delete
  · intro key' hs'
    rw [store_get_erase, if_neg]
    rintro rfl
    rw [hs] at hs'
    cases hs'

theorem sameObjects_discardParts (uploadId : List Char) :
    ∀ (parts : List Nat) (w : StorageFacade), SameObjects w (w.discardParts uploadId parts)
  | [], w => .refl w
  | part :: parts, w =>
    (sameObjects_erase w (isScratch_partKey uploadId part)).trans (sameObjects_discardParts uploadId parts (w.erase (partKey uploadId part)))

theorem sameObjects_appendChunks {key : Key} (hs : isScratch key = true) :
    ∀ (chunks : List Bytes) (w : StorageFacade) (persisted : Bytes) (seen : Nat),
      SameObjects w (w.appendChunks cfg key persisted seen chunks).1
  | [], w, _, _ => .refl w
  | chunk :: chunks, w, persisted, seen => by
    simp only [appendChunks]
    split
    · exact (sameObjects_write w hs _ _).trans (sameObjects_appendChunks hs chunks _ _ _)
    · exact sameObjects_appendChunks hs chunks w _ _

theorem appendChunks_snd (key : Key) : ∀ (chunks : List Bytes) (w : StorageFacade) {persisted : Bytes} {seen : Nat}, seen ≤ persisted.length →
      (w.appendChunks cfg key persisted seen chunks).2 = persisted ++ chunks.flatten.drop (persisted.length - seen)
  | [], w, persisted, seen, _ => by simp [appendChunks]
  | chunk :: chunks, w, persisted, seen, h => by
    simp only [appendChunks, List.flatten_cons, List.drop_append]
    split
    case isTrue hlt =>
      have hlen : (persisted ++ chunk.drop (persisted.length - seen)).length = seen + chunk.length := by
        simp only [List.length_append, List.length_drop]
        omega
      have hdrop : persisted.length - seen - chunk.length = 0 := by omega
      rw [appendChunks_snd key chunks _ (le_of_eq hlen.symm), hlen, Nat.sub_self, hdrop, List.append_assoc]
    case isFalse hge =>
      rw [appendChunks_snd key chunks w (by omega), List.drop_eq_nil_of_le (by omega : chunk.length ≤ _), List.nil_append, Nat.sub_sub]

theorem write_allowed (w : StorageFacade) (key : Key) (bytes : Bytes) (options : WriteMetadata) :
    (∀ a ∈ (w.write cfg key bytes options).accesses, Allowed cfg a.1 a.2) ↔
      (∀ a ∈ w.accesses, Allowed cfg a.1 a.2) ∧ Permits cfg w key .write := access_allowed w key .write

theorem erase_allowed (w : StorageFacade) (key : Key) : (∀ a ∈ (w.erase key).accesses, Allowed cfg a.1 a.2) ↔
      (∀ a ∈ w.accesses, Allowed cfg a.1 a.2) ∧ Permits cfg w key .delete := access_allowed w key .delete

theorem write_accepted (hw : Mediated cfg w) {bytes : Bytes} {options : WriteMetadata}
    (ha : isReserved key = false → Acceptable cfg key bytes options) (key' : Key) (entry : StoredEntry)
    (hget : (w.write cfg key bytes options).store.get key' = some entry) (hr : isReserved key' = false) :
    Acceptable cfg key' entry.bytes (toWriteMetadata entry.metadata) := by
  rw [store_get_write] at hget
  split at hget
  case isTrue heq =>
    obtain rfl := heq
    obtain rfl := some.inj hget
    exact (entry_acceptable w key' bytes options).2 (ha hr)
  case isFalse => exact hw.accepted key' entry hget hr

theorem write_mediated (hw : Mediated cfg w) (key : Key) (bytes : Bytes) (options : WriteMetadata) :
    Mediated cfg (w.write cfg key bytes options) ↔ Writable cfg w key bytes options := by
  constructor
  · intro h
    constructor
    · exact ((write_allowed w key bytes options).1 h.allowed).2
    · intro hr
      refine (entry_acceptable w key bytes options).1 (h.accepted key _ ?_ hr)
      rw [store_get_write, if_pos rfl]
  · rintro ⟨hp, ha⟩
    exact ⟨(write_allowed w key bytes options).2 ⟨hw.allowed, hp⟩, write_accepted hw ha⟩

theorem erase_mediated (hw : Mediated cfg w) (key : Key) : Mediated cfg (w.erase key) ↔ Permits cfg w key .delete := by
  constructor
  · intro h
    exact ((erase_allowed w key).1 h.allowed).2
  · intro hp
    constructor
    · exact (erase_allowed w key).2 ⟨hw.allowed, hp⟩
    · intro key' entry hget hr
      rw [store_get_erase] at hget
      split at hget
      · cases hget
      · exact hw.accepted key' entry hget hr

/-! ## What the facade checks -/

theorem authorize_ok {context : AccessContext} : authorize (w.can cfg) context = .ok () ↔ Allowed cfg w.principal context := by
  cases hcan : cfg.can with
  | none => simp [authorize, StorageFacade.can, Allowed, hcan]
  | some can =>
    simp only [authorize, StorageFacade.can, Allowed, hcan, Option.map_some, some.injEq, forall_eq']
    cases hd : can w.principal context with
    | true => simp
    | false => simp

theorem checkWrite_acceptable {bytes : Bytes} {options : WriteMetadata}
    (h : w.checkWrite cfg key bytes options = .ok ()) : Acceptable cfg key bytes options := by
  intro validators hv
  refine ⟨options, rfl, ?_⟩
  simp only [StorageFacade.checkWrite, hv] at h
  split at h
  · cases h
  · split at h
    · cases h
    · assumption

theorem authorizeStored_ok {operation : AccessOperation}
    (h : w.authorizeStored cfg key operation = .ok ()) : Permits cfg w key operation := by
  intro entry hget _
  simp only [StorageFacade.authorizeStored, hget] at h
  exact authorize_ok.1 h

/-! ## One operation -/

theorem access_mediated (hw : Mediated cfg w) {operation : AccessOperation}
    (hp : Permits cfg w key operation) : Mediated cfg (w.access key operation) := by
  constructor
  · exact (access_allowed w key operation).2 ⟨hw.allowed, hp⟩
  · rw [access_store]
    exact hw.accepted

theorem get_mediated (hw : Mediated cfg w) (key : Key) : Mediated cfg (w.get cfg key).1 := by
  simp only [StorageFacade.get]
  split
  · exact hw
  · exact access_mediated hw (authorizeStored_ok ‹_›)

theorem getStream_mediated (hw : Mediated cfg w) (key : Key) : Mediated cfg (w.getStream cfg key).1 := by
  simp only [StorageFacade.getStream]
  split
  · exact hw
  · split
    · exact hw
    · exact access_mediated hw (authorizeStored_ok ‹_›)

theorem delete_mediated (hw : Mediated cfg w) (key : Key) : Mediated cfg (w.delete cfg key).1 := by
  simp only [StorageFacade.delete]
  split
  · exact hw
  · exact (erase_mediated hw key).2 (authorizeStored_ok ‹_›)

theorem snapshot_allowed (w : StorageFacade) (key : Key) :
    (∀ a ∈ (w.snapshot cfg key).accesses, Allowed cfg a.1 a.2) ↔ (∀ a ∈ w.accesses, Allowed cfg a.1 a.2) ∧
      (w.store.has key = true → Permits cfg w (versionKey key (cfg.uuid w.nextId)) .write) := by
  simp only [StorageFacade.snapshot, OrderedMap.has]
  cases hget : w.store.get key with
  | none => simp
  | some current =>
    simp only [Option.isSome_some, forall_const]
    exact write_allowed w (versionKey key (cfg.uuid w.nextId)) current.bytes (toWriteMetadata current.metadata)

theorem snapshot_mediated (hw : Mediated cfg w)
    (ha : ∀ a ∈ (w.snapshot cfg key).accesses, Allowed cfg a.1 a.2) : Mediated cfg (w.snapshot cfg key) := by
  refine ⟨ha, ?_⟩
  simp only [StorageFacade.snapshot]
  cases hget : w.store.get key with
  | none => exact hw.accepted
  | some current =>
    exact write_accepted hw fun hr => by rw [isReserved_versionKey] at hr; cases hr

theorem snapshot_permits (w : StorageFacade) (key : Key) (operation : AccessOperation) :
    Permits cfg (w.snapshot cfg key) key operation ↔ Permits cfg w key operation := by
  simp only [StorageFacade.snapshot]
  cases hget : w.store.get key with
  | none => rfl
  | some current =>
    simp only [Permits, store_get_write, if_neg (versionKey_ne key _).symm, write_principal]

theorem put_mediated (hw : Mediated cfg w) (key : Key) (bytes : Bytes) (options : WriteMetadata) :
    Mediated cfg (w.put cfg key bytes options).1 ↔ Mediates cfg w (.put key bytes options) := by
  simp only [StorageFacade.put, Mediates]
  cases hcheck : w.checkWrite cfg key bytes options with
  | error e => simp [hw]
  | ok u =>
    have hacc : isReserved key = false → Acceptable cfg key bytes options := fun _ => checkWrite_acceptable hcheck
    simp only [forall_const, stored]
    cases hv : cfg.versioning with
    | false =>
      simp only [Bool.false_eq_true, if_false, false_implies, and_true]
      rw [write_mediated hw]
      exact ⟨Writable.permits, fun hp => ⟨hp, hacc⟩⟩
    | true =>
      simp only [if_true, forall_const]
      constructor
      · intro h
        have ha := (write_allowed (w.snapshot cfg key) key bytes options).1 h.allowed
        exact ⟨(snapshot_permits w key .write).1 ha.2, ((snapshot_allowed w key).1 ha.1).2⟩
      · rintro ⟨hp, hsnap⟩
        have ha := (snapshot_allowed w key).2 ⟨hw.allowed, hsnap⟩
        exact (write_mediated (snapshot_mediated hw ha) key bytes options).2 ⟨(snapshot_permits w key .write).2 hp, hacc⟩

theorem putStream_mediated (hw : Mediated cfg w) (key : Key) (content : Option Bytes) (options : WriteMetadata) :
    Mediated cfg (w.putStream cfg key content options).1 ↔ Mediates cfg w (.putStream key content options) := by
  simp only [StorageFacade.putStream, Mediates]
  cases hauth : authorize (w.can cfg) (requested key options) with
  | error e =>
    -- a refusal of the first check is one of the second
    simp [hw, StorageFacade.checkWrite, hauth]
  | ok u =>
    cases content with
    | none => simp [hw]
    | some bytes =>
      simp only [some.injEq, forall_eq']
      cases hcheck : w.checkWrite cfg key bytes options with
      | error e => simp [hw]
      | ok u' =>
        simp only [forall_const]
        refine (write_mediated hw key bytes options).trans ?_
        exact ⟨Writable.permits, fun hp => ⟨hp, fun _ => checkWrite_acceptable hcheck⟩⟩

theorem copy_mediated (hw : Mediated cfg w) (source destination : Key) :
    Mediated cfg (w.copy cfg source destination).1 ↔ Mediates cfg w (.copy source destination) := by
  simp only [StorageFacade.copy, Mediates]
  cases hget : w.store.get source with
  | none => simp [hw]
  | some entry =>
    simp only [some.injEq, forall_eq']
    exact write_mediated hw destination entry.bytes (toWriteMetadata entry.metadata)

/-- The content that moves keeps its level, so what is removed is permitted as before. -/
theorem permits_of_write (w : StorageFacade) {source : Key} (destination : Key) {entry : StoredEntry}
    (hget : w.store.get source = some entry) (operation : AccessOperation) :
    Permits cfg (w.write cfg destination entry.bytes (toWriteMetadata entry.metadata)) source operation ↔ Permits cfg w source operation := by
  simp only [Permits, store_get_write, write_principal, hget]
  by_cases heq : source = destination
  · subst heq
    simp only [if_true, some.injEq, forall_eq']
    exact Iff.rfl
  · simp only [if_neg heq]

theorem move_mediated (hw : Mediated cfg w) (source destination : Key) :
    Mediated cfg (w.move cfg source destination).1 ↔ Mediates cfg w (.move source destination) := by
  simp only [StorageFacade.move, Mediates]
  cases hget : w.store.get source with
  | none => simp [hw]
  | some entry =>
    simp only [some.injEq, forall_eq']
    constructor
    · intro h
      have ha := (erase_allowed _ source).1 h.allowed
      refine ⟨((write_allowed w destination _ _).1 ha.1).2, (permits_of_write w destination hget .delete).1 ha.2, ?_⟩
      intro hne hr
      refine (entry_acceptable w destination _ _).1 (h.accepted destination _ ?_ hr)
      rw [store_get_erase, if_neg hne.symm, store_get_write, if_pos rfl]
    · rintro ⟨hwrite, hdelete, hacc⟩
      constructor
      · exact (erase_allowed _ source).2
          ⟨(write_allowed w destination _ _).2 ⟨hw.allowed, hwrite⟩, (permits_of_write w destination hget .delete).2 hdelete⟩
      · intro key stored hstored hr
        rw [store_get_erase] at hstored
        split at hstored
        case isTrue => cases hstored
        case isFalse hne =>
          rw [store_get_write] at hstored
          split at hstored
          case isTrue heq =>
            obtain rfl := heq
            obtain rfl := some.inj hstored
            exact (entry_acceptable w key _ _).2 (hacc (fun h => hne h.symm) hr)
          case isFalse => exact hw.accepted key stored hstored hr

/-! ### Uploads and versions -/

section

variable (hw : Mediated cfg w)
include hw

theorem uploadPart_mediated (uploadId : List Char) (part : Nat) (bytes : Bytes) : Mediated cfg (w.uploadPart cfg uploadId part bytes).1 := by
  simp only [StorageFacade.uploadPart]
  split
  · exact hw
  · split
    · exact hw
    · have h : SameObjects w (w.write cfg (partKey uploadId part) bytes partWriteMetadata) :=
        sameObjects_write w (isScratch_partKey uploadId part) bytes partWriteMetadata
      refine (SameObjects.mediated ?_).2 hw
      exact ⟨h.1, h.2, h.3⟩

theorem completeMultipartUpload_mediated (uploadId : List Char) (parts : List Nat) :
    Mediated cfg (w.completeMultipartUpload cfg uploadId parts).1 ↔ Mediates cfg w (.completeMultipartUpload uploadId parts) := by
  simp only [StorageFacade.completeMultipartUpload, Mediates]
  cases hs : w.multipart.get uploadId with
  | none => simp [hw]
  | some session =>
    cases ha : assembleParts w.store uploadId parts with
    | error missing => simp [hw]
    | ok bytes =>
      have h := sameObjects_discardParts uploadId session.partNumbers (w.write cfg session.key bytes session.metadata)
      have hone : (∀ session' bytes', some session = some session' → (Except.ok bytes : Except Key Bytes) = .ok bytes' →
          Writable cfg w session'.key bytes' session'.metadata) ↔ Writable cfg w session.key bytes session.metadata := by
        constructor
        · intro hm
          exact hm session bytes rfl rfl
        · intro hm session' bytes' hsession hbytes
          obtain rfl := some.inj hsession
          obtain rfl := Except.ok.inj hbytes
          exact hm
      refine Iff.trans ?_ ((write_mediated hw session.key bytes session.metadata).trans hone.symm)
      exact SameObjects.mediated ⟨h.1, h.2, h.3⟩

theorem abortMultipartUpload_mediated (uploadId : List Char) : Mediated cfg (w.abortMultipartUpload uploadId).1 := by
  simp only [StorageFacade.abortMultipartUpload]
  split
  · exact hw
  · next session _ =>
    have h := sameObjects_discardParts uploadId session.partNumbers w
    refine (SameObjects.mediated ?_).2 hw
    exact ⟨h.1, h.2, h.3⟩

theorem resumeUpload_mediated (sessionId : List Char) (chunks : List Bytes) (interrupted : Bool) :
    Mediated cfg (w.resumeUpload cfg sessionId chunks interrupted).1 ↔ Mediates cfg w (.resumeUpload sessionId chunks interrupted) := by
  simp only [StorageFacade.resumeUpload, Mediates]
  cases hs : w.resumable.get sessionId with
  | none => simp [hw]
  | some session =>
    simp only [some.injEq, forall_eq']
    have happ : SameObjects w (w.appendChunks cfg (sessionKey sessionId) (w.readPersisted sessionId) 0 chunks).1 :=
      sameObjects_appendChunks (isScratch_sessionKey sessionId) chunks w (w.readPersisted sessionId) 0
    have hsnd : (w.appendChunks cfg (sessionKey sessionId) (w.readPersisted sessionId) 0 chunks).2 = _ :=
      appendChunks_snd (sessionKey sessionId) chunks w (Nat.zero_le (w.readPersisted sessionId).length)
    cases interrupted with
    | true =>
      simp only [if_true, Bool.true_eq_false, false_implies, iff_true]
      exact happ.mediated.2 hw
    | false =>
      simp only [Bool.false_eq_true, if_false, forall_const, continued, hsnd]
      have herase := sameObjects_erase ((w.appendChunks cfg (sessionKey sessionId) (w.readPersisted sessionId) 0
        chunks).1.write cfg session.key (continued (w.readPersisted sessionId) chunks) session.metadata)
        (isScratch_sessionKey sessionId)
      refine Iff.trans (SameObjects.mediated ⟨herase.1, herase.2, herase.3⟩) ?_
      refine (write_mediated (happ.mediated.2 hw) session.key _ session.metadata).trans ?_
      constructor
      · rintro ⟨hp, ha⟩
        exact ⟨(happ.permits session.key .write).1 hp, ha⟩
      · rintro ⟨hp, ha⟩
        exact ⟨(happ.permits session.key .write).2 hp, ha⟩

theorem cancelUpload_mediated (sessionId : List Char) : Mediated cfg (w.cancelUpload sessionId).1 := by
  simp only [StorageFacade.cancelUpload]
  split
  · exact hw
  · have h := sameObjects_erase w (isScratch_sessionKey sessionId)
    refine (SameObjects.mediated ?_).2 hw
    exact ⟨h.1, h.2, h.3⟩

theorem restoreVersion_mediated (key : Key) (versionId : List Char) :
    Mediated cfg (w.restoreVersion cfg key versionId).1 ↔ Mediates cfg w (.restoreVersion key versionId) := by
  simp only [StorageFacade.restoreVersion, Mediates]
  cases hget : w.store.get (versionKey key versionId) with
  | none => simp [hw]
  | some entry =>
    simp only [some.injEq, forall_eq']
    exact write_mediated hw key entry.bytes (toWriteMetadata entry.metadata)

end

/-! ## Runs -/

theorem step_mediated (hw : Mediated cfg w) (op : Operation) : Mediated cfg (step cfg w op) ↔ Mediates cfg w op := by
  cases op with
  | put key bytes options => exact put_mediated hw key bytes options
  | putStream key content options => exact putStream_mediated hw key content options
  | get key => exact iff_of_true (get_mediated hw key) trivial
  | getStream key => exact iff_of_true (getStream_mediated hw key) trivial
  | delete key => exact iff_of_true (delete_mediated hw key) trivial
  | copy source destination => exact copy_mediated hw source destination
  | move source destination => exact move_mediated hw source destination
  | createMultipartUpload key options => exact iff_of_true ⟨hw.allowed, hw.accepted⟩ trivial
  | uploadPart uploadId part bytes => exact iff_of_true (uploadPart_mediated hw uploadId part bytes) trivial
  | completeMultipartUpload uploadId parts => exact completeMultipartUpload_mediated hw uploadId parts
  | abortMultipartUpload uploadId => exact iff_of_true (abortMultipartUpload_mediated hw uploadId) trivial
  | startUpload key options => exact iff_of_true ⟨hw.allowed, hw.accepted⟩ trivial
  | resumeUpload sessionId chunks interrupted => exact resumeUpload_mediated hw sessionId chunks interrupted
  | cancelUpload sessionId => exact iff_of_true (cancelUpload_mediated hw sessionId) trivial
  | restoreVersion key versionId => exact restoreVersion_mediated hw key versionId
  | deleteVersion key versionId => exact erase_mediated hw (versionKey key versionId)
  | clock now => exact iff_of_true ⟨hw.allowed, hw.accepted⟩ trivial
  | authenticate principal => exact iff_of_true ⟨hw.allowed, hw.accepted⟩ trivial

theorem initial_mediated : Mediated cfg initial := ⟨nofun, nofun⟩

/-- Everyone deals with what is theirs, and an object has at most two bytes. -/
def ownersOnly : StorageConfig where
  sha256Hex bytes := toString bytes.length
  uuid n := Nat.toDigits 10 n
  can := some fun principal context => context.owner = some principal
  validators := some [fun input => if 2 < input.size then some "too large" else none]
  versioning := false

/-- A `put` with options of its own over an object of someone else. -/
def takeover : List Operation :=
  [.authenticate "alice", .put "report".toList [1, 2] ⟨none, some "alice", none, some .isPrivate, none⟩,
    .authenticate "mallory", .put "report".toList [6] ⟨none, some "mallory", none, some .isPrivate, none⟩]

/-- Three parts of an upload, which no validator sees. -/
example : ((run (step ownersOnly) initial [.createMultipartUpload "big".toList ⟨none, none, none, none, none⟩, .uploadPart ['0'] 1 [1, 2],
      .uploadPart ['0'] 2 [3], .completeMultipartUpload ['0'] [1, 2]]).store.get "big".toList).map StoredEntry.bytes =
    some [1, 2, 3] := by decide

end StreetJS.Storage
