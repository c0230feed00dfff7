/-
The two drivers that need no service: `MemoryStorageDriver` over a map, and `LocalStorageDriver` over a file tree, with
a sidecar file of metadata beside each object.
-/
import StreetJS.Storage.Driver
import StreetJS.Lib.FileTree
import StreetJS.Lib.Runs

namespace StreetJS.Storage

open StreetJS.Lib

/-! ## What a driver is asked and answers -/

structure ListOptions where
  cursor : Option Key
  limit : Option Nat
  delimiter : Bool
  deriving DecidableEq

structure StorageListItem where
  key : Key
  size : Nat
  updatedAt : Int
  deriving DecidableEq

inductive DriverError
  | traversal (key : Key)
  | errno (e : Errno)
  | json
  | stream
  deriving DecidableEq

/-- The stream of a `putStream` brings its chunks, and then may fail. -/
inductive DriverOperation
  | put (key : Key) (bytes : Bytes) (metadata : WriteMetadata)
  | putStream (key : Key) (chunks : List Bytes) (fails : Bool) (metadata : WriteMetadata)
  | get (key : Key)
  | exists (key : Key)
  | delete (key : Key)
  | stat (key : Key)
  | list (keyPrefix : Key) (options : ListOptions)
  | clock (now : Int)
  deriving DecidableEq

inductive DriverResult
  | metadata (metadata : StorageObjectMetadata)
  | object (entry : Option StoredEntry)
  | exists (found : Bool)
  | stat (metadata : Option StorageObjectMetadata)
  | items (items : List StorageListItem)
  | done
  deriving DecidableEq

abbrev Answer := Except DriverError DriverResult

/-- The child segment under the prefix that a key collapses to, if it lies deeper. -/
def immediateChild (keyPrefix key : Key) : Option Key :=
  let rest := key.drop keyPrefix.length
  if '/' ∈ rest then some (keyPrefix ++ rest.takeWhile (· ≠ '/') ++ ['/']) else none

/-- The keys that a list goes through. -/
def matchedKeys (allKeys : List Key) (keyPrefix : Key) (options : ListOptions) : List Key :=
  let matched := sortOn units (allKeys.filter fun key => keyPrefix.isPrefixOf key)
  match options.cursor with
  | none => matched
  | some cursor => matched.filter fun key => units cursor < units key

/-- The loop of `list`, the same in both drivers but for how the metadata is read. -/
def collect (readMeta : Key → Except DriverError (Option StorageObjectMetadata)) (keyPrefix : Key)
    (options : ListOptions) : List Key → List Key → List StorageListItem → Except DriverError (List StorageListItem)
  | [], _, items => .ok items
  | key :: keys, seenChildren, items =>
    let child := if options.delimiter then immediateChild keyPrefix key else none
    if child.any (· ∈ seenChildren) then collect readMeta keyPrefix options keys seenChildren items
    else
      let seenChildren := seenChildren ++ child.toList
      match readMeta key with
      | .error e => .error e
      | .ok none => collect readMeta keyPrefix options keys seenChildren items
      | .ok (some metadata) =>
        let items := items ++ [⟨key, metadata.size, metadata.updatedAt⟩]
        if options.limit.any (· ≤ items.length) then .ok items
        else collect readMeta keyPrefix options keys seenChildren items

/-! ## MemoryStorageDriver -/

structure MemoryStorageDriver where
  store : Store
  now : Int
  deriving DecidableEq

namespace MemoryStorageDriver

variable (sha256Hex : Bytes → String)

def put (d : MemoryStorageDriver) (key : Key) (bytes : Bytes) (metadata : WriteMetadata) : MemoryStorageDriver × Answer :=
  ({ d with store := d.store.put sha256Hex d.now key bytes metadata },
    .ok (.metadata (d.store.entry sha256Hex d.now key bytes metadata).metadata))

def readMeta (d : MemoryStorageDriver) (key : Key) : Except DriverError (Option StorageObjectMetadata) :=
  .ok ((d.store.get key).map StoredEntry.metadata)

def perform (d : MemoryStorageDriver) : DriverOperation → MemoryStorageDriver × Answer
  | .put key bytes metadata => d.put sha256Hex key bytes metadata
  | .putStream key chunks fails metadata =>
    if fails then (d, .error .stream) else d.put sha256Hex key chunks.flatten metadata
  | .get key => (d, .ok (.object (d.store.get key)))
  | .exists key => (d, .ok (.exists (d.store.has key)))
  | .delete key => ({ d with store := d.store.delete key }, .ok .done)
  | .stat key => (d, .ok (.stat ((d.store.get key).map StoredEntry.metadata)))
  | .list keyPrefix options =>
    (d, (collect d.readMeta keyPrefix options (matchedKeys (d.store.map Prod.fst) keyPrefix options) [] []).map .items)
  | .clock now => ({ d with now := now }, .ok .done)

end MemoryStorageDriver

/-! ## LocalStorageDriver -/

abbrev Name := List Char

/-- What a file was written from: bytes, or the text of `JSON.stringify`. -/
inductive Contents
  | bytes (bytes : Bytes)
  | json (metadata : StorageObjectMetadata)
  deriving DecidableEq

/-- `jsonText` is what a sidecar reads as when it is taken for an object, and `jsonParse` what an object reads as when
it is taken for a sidecar. -/
structure LocalConfig where
  sha256Hex : Bytes → String
  root : List Name
  jsonText : StorageObjectMetadata → Bytes
  jsonParse : Bytes → Option StorageObjectMetadata

structure LocalStorageDriver where
  tree : FileTree Name Contents
  now : Int

def metaSuffix : List Char := ".meta.json".toList

/-- One segment of `path.resolve`. -/
def pushSegment (path : List Name) (segment : Name) : List Name :=
  if segment = [] ∨ segment = ['.'] then path
  else if segment = ['.', '.'] then path.dropLast
  else path ++ [segment]

/-- `path.resolve(root, path)` -/
def resolve (root : List Name) (path : List Char) : List Name :=
  (path.splitOn '/').foldl pushSegment (if path.head? = some '/' then [] else root)

namespace LocalStorageDriver

variable (cfg : LocalConfig)

def resolveContained (key suffix : List Char) : Except DriverError (List Name) :=
  let resolved := resolve cfg.root (key ++ suffix)
  if cfg.root <+: resolved then .ok resolved else .error (.traversal key)

variable (key : Key)

def objectPath : Except DriverError (List Name) := resolveContained cfg key []

def metaPath : Except DriverError (List Name) := resolveContained cfg key metaSuffix

variable (d : LocalStorageDriver)

def readMeta : Except DriverError (Option StorageObjectMetadata) :=
  match metaPath cfg key with
  | .error e => .error e
  | .ok path =>
    match d.tree.readFile path with
    | .error .ENOENT => .ok none
    | .error e => .error (.errno e)
    | .ok (.json metadata) => .ok (some metadata)
    | .ok (.bytes bytes) =>
      match cfg.jsonParse bytes with
      | some metadata => .ok (some metadata)
      | none => .error .json

/-- What is written in the sidecar of `put` and `putStream`. -/
def objectMetadata (existing : Option StorageObjectMetadata) (key : Key) (bytes : Bytes) (metadata : WriteMetadata) : StorageObjectMetadata :=
  buildObjectMetadata key bytes.length (cfg.sha256Hex bytes) ((existing.map fun existing => existing.createdAt).getD d.now) d.now metadata

/-- The writes of `put`, and of `putStream` whose bytes are all that the stream brought before it ended or failed. -/
def write (bytes : Bytes) (fails : Bool) (metadata : WriteMetadata) : LocalStorageDriver × Answer :=
  match d.readMeta cfg key with
  | .error e => (d, .error e)
  | .ok existing =>
    match objectPath cfg key with
    | .error e => (d, .error e)
    | .ok objectPath =>
      match d.tree.mkdir objectPath.dropLast with
      | .error e => (d, .error (.errno e))
      | .ok tree =>
        match tree.writeFile (.bytes bytes) objectPath with
        | .error e => ({ d with tree := tree }, .error (.errno e))
        | .ok tree =>
          if fails then ({ d with tree := tree }, .error .stream)
          else
            match metaPath cfg key with
            | .error e => ({ d with tree := tree }, .error e)
            | .ok metaPath =>
              match tree.writeFile (.json (d.objectMetadata cfg existing key bytes metadata)) metaPath with
              | .error e => ({ d with tree := tree }, .error (.errno e))
              | .ok tree =>
                ({ d with tree := tree }, .ok (.metadata (d.objectMetadata cfg existing key bytes metadata)))

def get : Answer :=
  match d.readMeta cfg key with
  | .error e => .error e
  | .ok none => .ok (.object none)
  | .ok (some metadata) =>
    match objectPath cfg key with
    | .error e => .error e
    | .ok path =>
      match d.tree.readFile path with
      | .error .ENOENT => .ok (.object none)
      | .error e => .error (.errno e)
      | .ok (.bytes bytes) => .ok (.object (some ⟨bytes, metadata⟩))
      | .ok (.json other) => .ok (.object (some ⟨cfg.jsonText other, metadata⟩))

def exists_ : Bool :=
  match objectPath cfg key with
  | .error _ => false
  | .ok path => (d.tree.stat path).toOption.isSome

def unlinkIfExists (path : Except DriverError (List Name)) : LocalStorageDriver × Except DriverError Unit :=
  match path with
  | .error e => (d, .error e)
  | .ok path =>
    match d.tree.unlink path with
    | .ok tree => ({ d with tree := tree }, .ok ())
    | .error .ENOENT => (d, .ok ())
    | .error e => (d, .error (.errno e))

def delete : LocalStorageDriver × Answer :=
  match d.unlinkIfExists (objectPath cfg key) with
  | (d', .error e) => (d', .error e)
  | (d', .ok ()) =>
    match d'.unlinkIfExists (metaPath cfg key) with
    | (d'', .error e) => (d'', .error e)
    | (d'', .ok ()) => (d'', .ok .done)

/-- The files under the root that are not sidecars, with `/` between their names. -/
def collectKeys : Except DriverError (List Key) :=
  match d.tree.lookup cfg.root with
  | .error _ => .ok []
  | .ok (.file _) => .error (.errno .ENOTDIR)
  | .ok (.dir entries) =>
    .ok (((FileTree.dir entries).files.filter fun file => ¬ metaSuffix <:+ file.1.getLastD []).map fun file => ['/'].intercalate file.1)

def list (keyPrefix : Key) (options : ListOptions) : Answer :=
  match d.collectKeys cfg with
  | .error e => .error e
  | .ok allKeys =>
    (collect (d.readMeta cfg) keyPrefix options (matchedKeys allKeys keyPrefix options) [] []).map .items

def perform : DriverOperation → LocalStorageDriver × Answer
  | .put key bytes metadata => d.write cfg key bytes false metadata
  | .putStream key chunks fails metadata => d.write cfg key chunks.flatten fails metadata
  | .get key => (d, d.get cfg key)
  | .exists key => (d, .ok (.exists (d.exists_ cfg key)))
  | .delete key => d.delete cfg key
  | .stat key => (d, (d.readMeta cfg key).map .stat)
  | .list keyPrefix options => (d, d.list cfg keyPrefix options)
  | .clock now => ({ d with now := now }, .ok .done)

end LocalStorageDriver

end StreetJS.Storage
