/-
`ResumableManager` and `MultipartManager` over one driver, with any number of calls in flight: a call goes on by one
driver operation or by what it does after one was answered, in any order among the calls.
-/
import StreetJS.Storage.Versioning

namespace StreetJS.Storage.Uploads

open StreetJS.Lib

/-- The random ids, and whether `putStream` writes into the object itself, as the local driver does, or puts the whole
content at its end. -/
structure UploadConfig where
  uuid : Nat → List Char
  uuids : Uuids uuid
  streams : Bool

/-- An object, whose write metadata is missing where only its bytes were written. -/
structure StoredObject where
  bytes : Bytes
  metadata : Option WriteMetadata
  deriving DecidableEq

abbrev Objects := OrderedMap Key StoredObject

/-! ## Sessions -/

/-- `content` is what every stream of the session carries a prefix of; `listed` is whether the session is in the map,
and `withdrawn` whether a cancel of it has resolved. -/
structure ResumableSession where
  key : Key
  metadata : WriteMetadata
  content : Bytes
  completing : Bool
  cancelled : Bool
  listed : Bool
  withdrawn : Bool
  deriving DecidableEq

structure MultipartSession where
  key : Key
  metadata : WriteMetadata
  partNumbers : List Nat
  listed : Bool
  withdrawn : Bool
  deriving DecidableEq

/-! ## Calls in flight -/

/-- What a `resume` waits for: a driver operation that is not done yet, or the next chunk. In `closing` its last one is
done and not answered yet. -/
inductive Resuming
  | reading
  | streaming (persisted : Bytes) (seen : Nat)
  | appending (persisted : Bytes) (seen : Nat)
  | rejecting
  | finishing (persisted : Bytes)
  | cleaning
  | closing
  deriving DecidableEq

inductive Cancelling
  | deleting
  | closing
  deriving DecidableEq

inductive Storing
  | storing (part : Nat) (bytes : Bytes)
  | noting (part : Nat)
  deriving DecidableEq

/-- The loop over the part numbers, before the one at the index and while the part is deleted. -/
inductive Discarding
  | next (index : Nat)
  | deleting (index : Nat) (part : Nat)
  deriving DecidableEq

/-- `opening` and `writing` are of a driver that streams. -/
inductive Completing
  | opening (parts : List Nat)
  | collecting (parts : List Nat) (assembled : Bytes)
  | writing (parts : List Nat) (assembled chunk : Bytes)
  | discarding (discarding : Discarding)
  deriving DecidableEq

/-- `expected` is the concatenation of the listed parts as they were stored when the call began. -/
inductive Call
  | resume (session : Nat) (phase : Resuming)
  | cancel (session : Nat) (phase : Cancelling)
  | uploadPart (upload : Nat) (phase : Storing)
  | complete (upload : Nat) (expected : Option Bytes) (phase : Completing)
  | abort (upload : Nat) (phase : Discarding)
  | resumed (session : Nat)
  | completed (upload : Nat) (expected : Option Bytes)
  | resolved
  | rejected
  deriving DecidableEq

/-- A write at the key of an upload: by which call, what it left there, and whether the upload had been withdrawn. -/
structure Written where
  call : Nat
  key : Key
  object : StoredObject
  withdrawn : Bool
  deriving DecidableEq

/-- `written` is a record that no call reads. -/
structure Managers where
  objects : Objects
  sessions : List ResumableSession
  uploads : List MultipartSession
  calls : List Call
  written : List Written
  deriving DecidableEq

namespace Managers

variable (cfg : UploadConfig)

def reservedKey (session : Nat) : Key := sessionKey (cfg.uuid session)

def reservedPart (upload part : Nat) : Key := partKey (cfg.uuid upload) part

variable (w : Managers)

def go (i : Nat) (call : Call) : Managers := { w with calls := w.calls.set i call }

def begin_ (call : Call) : Managers := { w with calls := w.calls ++ [call] }

def put (key : Key) (object : StoredObject) : Managers := { w with objects := w.objects.set key object }

def delete (key : Key) : Managers := { w with objects := w.objects.delete key }

/-- A write at the key of an upload. -/
def write (i : Nat) (key : Key) (object : StoredObject) (withdrawn : Bool) : Managers :=
  { w.put key object with written := w.written ++ [⟨i, key, object, withdrawn⟩] }

/-! ## Beginning a call -/

def start (key : Key) (metadata : WriteMetadata) (content : Bytes) : Managers :=
  { w with sessions := w.sessions ++ [⟨key, metadata, content, false, false, true, false⟩] }

def create (key : Key) (metadata : WriteMetadata) : Managers :=
  { w with uploads := w.uploads ++ [⟨key, metadata, [], true, false⟩] }

def resume (s : Nat) : Managers :=
  match w.sessions[s]? with
  | none => w.begin_ .rejected
  | some session => if session.listed then w.begin_ (.resume s .reading) else w.begin_ .rejected

def cancel (s : Nat) : Managers :=
  match w.sessions[s]? with
  | none => w.begin_ .resolved
  | some session =>
    if session.listed = false ∨ session.completing = true then w.begin_ .resolved
    else { w.begin_ (.cancel s .deleting) with sessions := w.sessions.set s { session with cancelled := true } }

def uploadPart (u part : Nat) (bytes : Bytes) : Managers :=
  match w.uploads[u]? with
  | none => w.begin_ .rejected
  | some upload =>
    if upload.listed = false ∨ part < 1 then w.begin_ .rejected else w.begin_ (.uploadPart u (.storing part bytes))

/-- The stored parts one after the other, if all of them are there. -/
def assemble (objects : Objects) (u : Nat) : List Nat → Option Bytes
  | [] => some []
  | part :: parts =>
    match objects.get (reservedPart cfg u part) with
    | none => none
    | some object => (assemble objects u parts).map fun rest => object.bytes ++ rest

def complete (u : Nat) (parts : List Nat) : Managers :=
  match w.uploads[u]? with
  | none => w.begin_ .rejected
  | some upload =>
    if upload.listed then
      w.begin_ (.complete u (assemble cfg w.objects u parts) (if cfg.streams then .opening parts else .collecting parts []))
    else w.begin_ .rejected

def abort (u : Nat) : Managers :=
  match w.uploads[u]? with
  | none => w.begin_ .resolved
  | some upload => if upload.listed then w.begin_ (.abort u (.next 0)) else w.begin_ .resolved

/-! ## The source of a `resume` -/

/-- The next bytes of the content arrive. -/
def chunk (i n : Nat) : Managers :=
  match w.calls[i]? with
  | some (.resume s (.streaming persisted seen)) =>
    match w.sessions[s]? with
    | none => w
    | some session =>
      if session.cancelled then w.go i (.resume s .rejecting)
      else
        let buf := (session.content.drop seen).take n
        if persisted.length < seen + buf.length then
          w.go i (.resume s (.appending (persisted ++ buf.drop (persisted.length - seen)) (seen + buf.length)))
        else w.go i (.resume s (.streaming persisted (seen + buf.length)))
  | _ => w

/-- The source ends, which it does not do before the content is complete. -/
def endOfStream (i : Nat) : Managers :=
  match w.calls[i]? with
  | some (.resume s (.streaming persisted seen)) =>
    match w.sessions[s]? with
    | none => w
    | some session =>
      if seen = session.content.length then
        { w.go i (.resume s (.finishing persisted)) with
          sessions := w.sessions.set s { session with completing := true } }
      else w
  | _ => w

/-- The source fails, and the call with it. -/
def interrupt (i : Nat) : Managers :=
  match w.calls[i]? with
  | some (.resume _ (.streaming _ _)) => w.go i .rejected
  | _ => w

/-! ## Going on with a call -/

def stepResume (i s : Nat) (session : ResumableSession) : Resuming → Managers
  | .reading =>
    let persisted := ((w.objects.get (reservedKey cfg s)).map StoredObject.bytes).getD []
    w.go i (.resume s (.streaming persisted 0))
  | .streaming _ _ => w
  | .appending persisted seen =>
    (w.put (reservedKey cfg s) ⟨persisted, some sessionWriteMetadata⟩).go i (.resume s (.streaming persisted seen))
  | .rejecting => (w.delete (reservedKey cfg s)).go i .rejected
  | .finishing persisted =>
    (w.write i session.key ⟨persisted, some session.metadata⟩ session.withdrawn).go i (.resume s .cleaning)
  | .cleaning => (w.delete (reservedKey cfg s)).go i (.resume s .closing)
  | .closing => { w.go i (.resumed s) with sessions := w.sessions.set s { session with listed := false } }

def stepCancel (i s : Nat) (session : ResumableSession) : Cancelling → Managers
  | .deleting => (w.delete (reservedKey cfg s)).go i (.cancel s .closing)
  | .closing =>
    { w.go i .resolved with sessions := w.sessions.set s { session with listed := false, withdrawn := true } }

def stepPart (i u : Nat) (upload : MultipartSession) : Storing → Managers
  | .storing part bytes =>
    (w.put (reservedPart cfg u part) ⟨bytes, some partWriteMetadata⟩).go i (.uploadPart u (.noting part))
  | .noting part =>
    let numbers := if part ∈ upload.partNumbers then upload.partNumbers else upload.partNumbers ++ [part]
    { w.go i .resolved with uploads := w.uploads.set u { upload with partNumbers := numbers } }

/-- Bytes written at a position of a file. -/
def writeAt (file : Bytes) (position : Nat) (bytes : Bytes) : Bytes :=
  (file ++ List.replicate (position - file.length) 0).take position ++ bytes ++ file.drop (position + bytes.length)

def stepComplete (i u : Nat) (upload : MultipartSession) (expected : Option Bytes) : Completing → Managers
  | .opening parts =>
    (w.write i upload.key ⟨[], (w.objects.get upload.key).bind StoredObject.metadata⟩ upload.withdrawn).go i
      (.complete u expected (.collecting parts []))
  | .collecting [] assembled =>
    let bytes := if cfg.streams then ((w.objects.get upload.key).map StoredObject.bytes).getD [] else assembled
    (w.write i upload.key ⟨bytes, some upload.metadata⟩ upload.withdrawn).go i (.complete u expected (.discarding (.next 0)))
  | .collecting (part :: parts) assembled =>
    match w.objects.get (reservedPart cfg u part) with
    | none => w.go i .rejected
    | some object =>
      if cfg.streams then w.go i (.complete u expected (.writing parts assembled object.bytes))
      else w.go i (.complete u expected (.collecting parts (assembled ++ object.bytes)))
  | .writing parts assembled chunk =>
    let file := ((w.objects.get upload.key).map StoredObject.bytes).getD []
    (w.write i upload.key ⟨writeAt file assembled.length chunk, (w.objects.get upload.key).bind StoredObject.metadata⟩
      upload.withdrawn).go i (.complete u expected (.collecting parts (assembled ++ chunk)))
  | .discarding (.next index) =>
    match upload.partNumbers[index]? with
    | some part => w.go i (.complete u expected (.discarding (.deleting index part)))
    | none => { w.go i (.completed u expected) with uploads := w.uploads.set u { upload with listed := false } }
  | .discarding (.deleting index part) =>
    (w.delete (reservedPart cfg u part)).go i (.complete u expected (.discarding (.next (index + 1))))

def stepAbort (i u : Nat) (upload : MultipartSession) : Discarding → Managers
  | .next index =>
    match upload.partNumbers[index]? with
    | some part => w.go i (.abort u (.deleting index part))
    | none =>
      { w.go i .resolved with uploads := w.uploads.set u { upload with listed := false, withdrawn := true } }
  | .deleting index part => (w.delete (reservedPart cfg u part)).go i (.abort u (.next (index + 1)))

def advance (i : Nat) : Managers :=
  match w.calls[i]? with
  | some (.resume s phase) => (w.sessions[s]?).elim w fun session => w.stepResume cfg i s session phase
  | some (.cancel s phase) => (w.sessions[s]?).elim w fun session => w.stepCancel cfg i s session phase
  | some (.uploadPart u phase) => (w.uploads[u]?).elim w fun upload => w.stepPart cfg i u upload phase
  | some (.complete u expected phase) =>
    (w.uploads[u]?).elim w fun upload => w.stepComplete cfg i u upload expected phase
  | some (.abort u phase) => (w.uploads[u]?).elim w fun upload => w.stepAbort cfg i u upload phase
  | _ => w

end Managers

/-! ## Runs -/

inductive Event
  | start (key : Key) (metadata : WriteMetadata) (content : Bytes)
  | create (key : Key) (metadata : WriteMetadata)
  | resume (session : Nat)
  | cancel (session : Nat)
  | uploadPart (upload part : Nat) (bytes : Bytes)
  | complete (upload : Nat) (parts : List Nat)
  | abort (upload : Nat)
  | chunk (call n : Nat)
  | endOfStream (call : Nat)
  | interrupt (call : Nat)
  | advance (call : Nat)
  deriving DecidableEq

def step (cfg : UploadConfig) (w : Managers) : Event → Managers
  | .start key metadata content => w.start key metadata content
  | .create key metadata => w.create key metadata
  | .resume s => w.resume s
  | .cancel s => w.cancel s
  | .uploadPart u part bytes => w.uploadPart u part bytes
  | .complete u parts => w.complete cfg u parts
  | .abort u => w.abort u
  | .chunk i n => w.chunk i n
  | .endOfStream i => w.endOfStream i
  | .interrupt i => w.interrupt i
  | .advance i => w.advance cfg i

/-- Before the first upload. -/
def initial (objects : Objects) : Managers := ⟨objects, [], [], [], []⟩

end StreetJS.Storage.Uploads
