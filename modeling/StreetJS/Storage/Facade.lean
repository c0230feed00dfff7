/-
`StorageFacade` over a driver without native capabilities: access control, validation, and the simulated multipart
uploads, resumable uploads and versions, which keep their data under reserved keys. Calls run one after another.
-/
import StreetJS.Storage.Driver
import StreetJS.Lib.Runs

namespace StreetJS.Storage

open StreetJS.Lib List

/-! ## Access control and validation -/

structure AccessContext where
  key : Key
  operation : AccessOperation
  accessLevel : AccessLevel
  owner : Option String
  tenant : Option String
  deriving DecidableEq

structure ValidationInput where
  key : Key
  size : Nat
  contentType : Option String
  checksum : String
  metadata : WriteMetadata
  deriving DecidableEq

/-- A validator, as what it rejects with. -/
abbrev Validator := ValidationInput → Option String

/-- `can` is the decision of the auth bridge for who is signed in, which denies by `false`, and `uuid` counts the
random ids through. -/
structure StorageConfig where
  sha256Hex : Bytes → String
  uuid : Nat → List Char
  can : Option (String → AccessContext → Bool)
  validators : Option (List Validator)
  versioning : Bool

inductive StorageError
  | denied (context : AccessContext)
  | validation (error : String)
  | notFound (key : Key)
  | unknownUpload (id : List Char)
  | invalidPartNumber
  | stream
  deriving DecidableEq

/-- `AccessController.authorize`. -/
def authorize (can : Option (AccessContext → Bool)) (context : AccessContext) : Except StorageError Unit :=
  match can with
  | none => .ok ()
  | some can =>
    let decision := can context
    if context.accessLevel = .isPublic ∧ context.operation = .read then
      if decision = false then .error (.denied context) else .ok ()
    else if decision = false then .error (.denied context)
    else .ok ()

variable (key : Key)

/-- The context of a write, from what the caller gives. -/
def requested (options : WriteMetadata) : AccessContext :=
  ⟨key, .write, options.accessLevel.getD defaultAccessLevel, options.owner, options.tenant⟩

/-- `ValidationPipeline.validate`: the first rejection. -/
def validate (validators : List Validator) (input : ValidationInput) : Option String :=
  validators.findSome? fun validator => validator input

/-! ## Reserved keys -/

def versionKeyPrefix : Key := ".versions/".toList

def partKeyPrefix : Key := ".multipart/".toList

def sessionKeyPrefix : Key := ".resumable/".toList

def versionPrefix : Key := versionKeyPrefix ++ key ++ ['/']

def versionKey (versionId : List Char) : Key := versionPrefix key ++ versionId

def partKey (uploadId : List Char) (partNumber : Nat) : Key :=
  partKeyPrefix ++ uploadId ++ ['/'] ++ (Nat.toDigits 10 partNumber)

def sessionKey (sessionId : List Char) : Key := sessionKeyPrefix ++ sessionId

/-- The data of an upload that is not complete. -/
def isScratch : Bool := partKeyPrefix.isPrefixOf key || sessionKeyPrefix.isPrefixOf key

def isReserved : Bool := versionKeyPrefix.isPrefixOf key || isScratch key

/-! ### Which keys are reserved -/

theorem isReserved_of_isScratch {key : Key} (h : isScratch key = true) : isReserved key = true := by
  simp [isReserved, h]

theorem isScratch_of_not_isReserved {key : Key} (h : isReserved key = false) : isScratch key = false := by
  cases hs : isScratch key with
  | true => simp [isReserved_of_isScratch hs] at h
  | false => rfl

theorem isPrefixOf_append (keyPrefix key : Key) : keyPrefix.isPrefixOf (keyPrefix ++ key) = true := by
  rw [List.isPrefixOf_iff_prefix]
  exact prefix_append keyPrefix key

theorem isScratch_partKey (uploadId : List Char) (part : Nat) : isScratch (partKey uploadId part) = true := by
  rw [isScratch, partKey, append_assoc, append_assoc, isPrefixOf_append partKeyPrefix, Bool.true_or]

theorem isScratch_sessionKey (sessionId : List Char) : isScratch (sessionKey sessionId) = true := by
  rw [isScratch, sessionKey, isPrefixOf_append sessionKeyPrefix, Bool.or_true]

theorem isReserved_versionKey (versionId : List Char) : isReserved (versionKey key versionId) = true := by
  rw [isReserved, versionKey, versionPrefix, append_assoc, append_assoc, isPrefixOf_append versionKeyPrefix, Bool.true_or]

theorem versionKey_ne (versionId : List Char) : versionKey key versionId ≠ key := by
  intro h
  have hlen := congrArg List.length h
  rw [versionKey, versionPrefix, length_append, length_append, length_append, length_singleton] at hlen
  omega

/-! ## The facade -/

structure MultipartSession where
  key : Key
  metadata : WriteMetadata
  partNumbers : List Nat
  deriving DecidableEq

structure ResumableSession where
  key : Key
  metadata : WriteMetadata
  deriving DecidableEq

/-- `accesses` records whose content was returned, overwritten or removed, as it was stored, and for whom; no
operation reads it. -/
structure StorageFacade where
  store : Store
  principal : String
  now : Int
  nextId : Nat
  multipart : OrderedMap (List Char) MultipartSession
  resumable : OrderedMap (List Char) ResumableSession
  accesses : List (String × AccessContext)
  deriving DecidableEq

def partWriteMetadata : WriteMetadata := ⟨some "application/octet-stream", none, none, none, none⟩

def sessionWriteMetadata : WriteMetadata := partWriteMetadata

def context (operation : AccessOperation) (metadata : StorageObjectMetadata) : AccessContext :=
  ⟨key, operation, metadata.accessLevel, metadata.owner, metadata.tenant⟩

namespace StorageFacade

variable (cfg : StorageConfig)

/-- The decisions of the auth bridge for who is signed in. -/
def can (w : StorageFacade) : Option (AccessContext → Bool) := cfg.can.map fun can => can w.principal

/-- The operation deals with the content stored under the key. -/
def access (w : StorageFacade) (key : Key) (operation : AccessOperation) : StorageFacade :=
  match w.store.get key with
  | some entry =>
    if isScratch key then w
    else { w with accesses := w.accesses ++ [(w.principal, context key operation entry.metadata)] }
  | none => w

/-- `driver.put` -/
def write (w : StorageFacade) (key : Key) (bytes : Bytes) (metadata : WriteMetadata) : StorageFacade :=
  { w.access key .write with store := w.store.put cfg.sha256Hex w.now key bytes metadata }

/-- `driver.delete` -/
def erase (w : StorageFacade) (key : Key) : StorageFacade :=
  { w.access key .delete with store := w.store.delete key }

abbrev Result := Except StorageError (Option StoredEntry)

/-- What is stored under the key after a write. -/
def stored (w : StorageFacade) (key : Key) : StorageFacade × Result := (w, .ok (w.store.get key))

/-- The check of a write, on what the caller gives. -/
def checkWrite (w : StorageFacade) (key : Key) (bytes : Bytes) (options : WriteMetadata) : Except StorageError Unit :=
  match authorize (w.can cfg) (requested key options) with
  | .error e => .error e
  | .ok () =>
    match cfg.validators with
    | none => .ok ()
    | some validators =>
      match validate validators ⟨key, bytes.length, options.contentType, cfg.sha256Hex bytes, options⟩ with
      | some error => .error (.validation error)
      | none => .ok ()

/-- `VersioningManager.snapshot` -/
def snapshot (w : StorageFacade) (key : Key) : StorageFacade :=
  match w.store.get key with
  | none => w
  | some current =>
    { w.write cfg (versionKey key (cfg.uuid w.nextId)) current.bytes (toWriteMetadata current.metadata) with
      nextId := w.nextId + 1 }

def put (w : StorageFacade) (key : Key) (bytes : Bytes) (options : WriteMetadata) : StorageFacade × Result :=
  match w.checkWrite cfg key bytes options with
  | .error e => (w, .error e)
  | .ok () =>
    let w' := if cfg.versioning then w.snapshot cfg key else w
    (w'.write cfg key bytes options).stored key

/-- `none` where the source stream fails; nothing is stored then. -/
def putStream (w : StorageFacade) (key : Key) (content : Option Bytes) (options : WriteMetadata) : StorageFacade × Result :=
  match authorize (w.can cfg) (requested key options) with
  | .error e => (w, .error e)
  | .ok () =>
    match content with
    | none => (w, .error .stream)
    | some bytes =>
      match w.checkWrite cfg key bytes options with
      | .error e => (w, .error e)
      | .ok () => (w.write cfg key bytes options).stored key

/-- The check of `get`, `getStream` and `delete`, on what is stored. -/
def authorizeStored (w : StorageFacade) (key : Key) (operation : AccessOperation) : Except StorageError Unit :=
  match w.store.get key with
  | some entry => authorize (w.can cfg) (context key operation entry.metadata)
  | none => .ok ()

def get (w : StorageFacade) (key : Key) : StorageFacade × Result :=
  match w.authorizeStored cfg key .read with
  | .error e => (w, .error e)
  | .ok () => (w.access key .read).stored key

def getStream (w : StorageFacade) (key : Key) : StorageFacade × Result :=
  match w.authorizeStored cfg key .read with
  | .error e => (w, .error e)
  | .ok () =>
    match w.store.get key with
    | none => (w, .error (.notFound key))
    | some entry => (w.access key .read, .ok (some entry))

def delete (w : StorageFacade) (key : Key) : StorageFacade × Result :=
  match w.authorizeStored cfg key .delete with
  | .error e => (w, .error e)
  | .ok () => (w.erase key, .ok none)

/-- `none` where the source is not found. -/
def copy (w : StorageFacade) (source destination : Key) : StorageFacade × Result :=
  match w.store.get source with
  | none => (w, .ok none)
  | some entry => (w.write cfg destination entry.bytes (toWriteMetadata entry.metadata)).stored destination

/-- `rename` is the same. -/
def move (w : StorageFacade) (source destination : Key) : StorageFacade × Result :=
  match w.store.get source with
  | none => (w, .ok none)
  | some entry =>
    let w' := w.write cfg destination entry.bytes (toWriteMetadata entry.metadata)
    (w'.erase source, (w'.stored destination).2)

/-! ### Multipart uploads -/

def createMultipartUpload (w : StorageFacade) (key : Key) (options : WriteMetadata) : StorageFacade × Result :=
  ({ w with multipart := w.multipart.set (cfg.uuid w.nextId) ⟨key, options, []⟩, nextId := w.nextId + 1 }, .ok none)

def uploadPart (w : StorageFacade) (uploadId : List Char) (partNumber : Nat) (bytes : Bytes) : StorageFacade × Result :=
  match w.multipart.get uploadId with
  | none => (w, .error (.unknownUpload uploadId))
  | some session =>
    if partNumber < 1 then (w, .error .invalidPartNumber)
    else
      let w' := w.write cfg (partKey uploadId partNumber) bytes partWriteMetadata
      let numbers := if partNumber ∈ session.partNumbers then session.partNumbers else session.partNumbers ++ [partNumber]
      ({ w' with multipart := w.multipart.set uploadId { session with partNumbers := numbers } }, .ok none)

/-- The parts in the listed order, or the key of the first one that is missing. -/
def assembleParts (store : Store) (uploadId : List Char) : List Nat → Except Key Bytes
  | [] => .ok []
  | part :: parts =>
    match store.get (partKey uploadId part) with
    | none => .error (partKey uploadId part)
    | some entry => (assembleParts store uploadId parts).map fun rest => entry.bytes ++ rest

def discardParts (w : StorageFacade) (uploadId : List Char) (partNumbers : List Nat) : StorageFacade :=
  partNumbers.foldl (fun w part => w.erase (partKey uploadId part)) w

def completeMultipartUpload (w : StorageFacade) (uploadId : List Char) (parts : List Nat) : StorageFacade × Result :=
  match w.multipart.get uploadId with
  | none => (w, .error (.unknownUpload uploadId))
  | some session =>
    match assembleParts w.store uploadId parts with
    | .error missing => (w, .error (.notFound missing))
    | .ok bytes =>
      let w' := w.write cfg session.key bytes session.metadata
      let w'' := w'.discardParts uploadId session.partNumbers
      ({ w'' with multipart := w.multipart.delete uploadId }, (w'.stored session.key).2)

def abortMultipartUpload (w : StorageFacade) (uploadId : List Char) : StorageFacade × Result :=
  match w.multipart.get uploadId with
  | none => (w, .ok none)
  | some session =>
    ({ w.discardParts uploadId session.partNumbers with multipart := w.multipart.delete uploadId }, .ok none)

/-! ### Resumable uploads -/

def startUpload (w : StorageFacade) (key : Key) (options : WriteMetadata) : StorageFacade × Result :=
  ({ w with resumable := w.resumable.set (cfg.uuid w.nextId) ⟨key, options⟩, nextId := w.nextId + 1 }, .ok none)

/-- The loop over the chunks: only what lies beyond the persisted bytes is appended, and persisted. -/
def appendChunks (w : StorageFacade) (reservedKey : Key) (persisted : Bytes) (seen : Nat) : List Bytes → StorageFacade × Bytes
  | [] => (w, persisted)
  | chunk :: chunks =>
    if persisted.length < seen + chunk.length then
      let persisted' := persisted ++ chunk.drop (persisted.length - seen)
      appendChunks (w.write cfg reservedKey persisted' sessionWriteMetadata) reservedKey persisted' (seen + chunk.length) chunks
    else appendChunks w reservedKey persisted (seen + chunk.length) chunks

/-- What an upload has persisted. -/
def readPersisted (w : StorageFacade) (sessionId : List Char) : Bytes :=
  ((w.store.get (sessionKey sessionId)).map StoredEntry.bytes).getD []

/-- A stream that is interrupted fails after the chunks it brought. -/
def resumeUpload (w : StorageFacade) (sessionId : List Char) (chunks : List Bytes) (interrupted : Bool) : StorageFacade × Result :=
  match w.resumable.get sessionId with
  | none => (w, .error (.unknownUpload sessionId))
  | some session =>
    let (w', persisted) := w.appendChunks cfg (sessionKey sessionId) (w.readPersisted sessionId) 0 chunks
    if interrupted then (w', .error .stream)
    else
      let w'' := w'.write cfg session.key persisted session.metadata
      ({ w''.erase (sessionKey sessionId) with resumable := w.resumable.delete sessionId }, (w''.stored session.key).2)

def cancelUpload (w : StorageFacade) (sessionId : List Char) : StorageFacade × Result :=
  match w.resumable.get sessionId with
  | none => (w, .ok none)
  | some _ => ({ w.erase (sessionKey sessionId) with resumable := w.resumable.delete sessionId }, .ok none)

/-! ### Versions -/

structure VersionInfo where
  versionId : List Char
  size : Nat
  createdAt : Int
  checksum : String
  deriving DecidableEq

/-- Only direct versions of the key: an id that contains `/` is of a deeper key. -/
def listVersions (w : StorageFacade) (key : Key) : List VersionInfo :=
  let ids := (w.store.keysWith (versionPrefix key)).map fun item => item.drop (versionPrefix key).length
  let versions := (ids.filter fun id => ¬ (id = [] ∨ '/' ∈ id)).filterMap fun id =>
    (w.store.get (versionKey key id)).map fun entry =>
      ⟨id, entry.metadata.size, entry.metadata.createdAt, entry.metadata.checksum⟩
  sortOn VersionInfo.createdAt versions

def restoreVersion (w : StorageFacade) (key : Key) (versionId : List Char) : StorageFacade × Result :=
  match w.store.get (versionKey key versionId) with
  | none => (w, .error (.notFound (versionKey key versionId)))
  | some entry => (w.write cfg key entry.bytes (toWriteMetadata entry.metadata)).stored key

def deleteVersion (w : StorageFacade) (key : Key) (versionId : List Char) : StorageFacade × Result :=
  (w.erase (versionKey key versionId), .ok none)

end StorageFacade

/-! ## One write and one removal -/

section

variable {cfg : StorageConfig}

open OrderedMap StorageFacade

section

variable (w : StorageFacade)
include w

theorem access_store (key : Key) (operation : AccessOperation) : (w.access key operation).store = w.store := by
  simp only [StorageFacade.access]
  split
  · split <;> rfl
  · rfl

theorem access_principal (key : Key) (operation : AccessOperation) : (w.access key operation).principal = w.principal := by
  simp only [StorageFacade.access]
  split
  · split <;> rfl
  · rfl

theorem store_get_write (key key' : Key) (bytes : Bytes) (options : WriteMetadata) : (w.write cfg key bytes options).store.get key' =
      if key' = key then some (w.store.entry cfg.sha256Hex w.now key bytes options) else w.store.get key' := by
  simp only [StorageFacade.write, Store.put, get_set]

theorem store_get_erase (key key' : Key) : (w.erase key).store.get key' = if key' = key then none else w.store.get key' := by
  simp only [StorageFacade.erase, get_delete]

theorem write_principal (key : Key) (bytes : Bytes) (options : WriteMetadata) :
    (w.write cfg key bytes options).principal = w.principal := access_principal w key .write

theorem access_scratch {key : Key} (hs : isScratch key = true) (operation : AccessOperation) : w.access key operation = w := by
  simp only [StorageFacade.access, hs, if_true]
  split <;> rfl

end

end

/-! ## Runs -/

inductive Operation
  | put (key : Key) (bytes : Bytes) (options : WriteMetadata)
  | putStream (key : Key) (content : Option Bytes) (options : WriteMetadata)
  | get (key : Key)
  | getStream (key : Key)
  | delete (key : Key)
  | copy (source destination : Key)
  | move (source destination : Key)
  | createMultipartUpload (key : Key) (options : WriteMetadata)
  | uploadPart (uploadId : List Char) (partNumber : Nat) (bytes : Bytes)
  | completeMultipartUpload (uploadId : List Char) (parts : List Nat)
  | abortMultipartUpload (uploadId : List Char)
  | startUpload (key : Key) (options : WriteMetadata)
  | resumeUpload (sessionId : List Char) (chunks : List Bytes) (interrupted : Bool)
  | cancelUpload (sessionId : List Char)
  | restoreVersion (key : Key) (versionId : List Char)
  | deleteVersion (key : Key) (versionId : List Char)
  | clock (now : Int)
  | authenticate (principal : String)
  deriving DecidableEq

/-- An operation with its result. -/
def perform (cfg : StorageConfig) (w : StorageFacade) : Operation → StorageFacade × StorageFacade.Result
  | .put key bytes options => w.put cfg key bytes options
  | .putStream key content options => w.putStream cfg key content options
  | .get key => w.get cfg key
  | .getStream key => w.getStream cfg key
  | .delete key => w.delete cfg key
  | .copy source destination => w.copy cfg source destination
  | .move source destination => w.move cfg source destination
  | .createMultipartUpload key options => w.createMultipartUpload cfg key options
  | .uploadPart uploadId partNumber bytes => w.uploadPart cfg uploadId partNumber bytes
  | .completeMultipartUpload uploadId parts => w.completeMultipartUpload cfg uploadId parts
  | .abortMultipartUpload uploadId => w.abortMultipartUpload uploadId
  | .startUpload key options => w.startUpload cfg key options
  | .resumeUpload sessionId chunks interrupted => w.resumeUpload cfg sessionId chunks interrupted
  | .cancelUpload sessionId => w.cancelUpload sessionId
  | .restoreVersion key versionId => w.restoreVersion cfg key versionId
  | .deleteVersion key versionId => w.deleteVersion key versionId
  | .clock now => ({ w with now := now }, .ok none)
  | .authenticate principal => ({ w with principal := principal }, .ok none)

def step (cfg : StorageConfig) (w : StorageFacade) (op : Operation) : StorageFacade := (perform cfg w op).1

def initial : StorageFacade := ⟨[], "", 0, 0, [], [], []⟩

end StreetJS.Storage
