/-
The driver contract as the in-memory driver keeps it: a map from keys to bytes with their metadata.
-/
import StreetJS.Lib.OrderedMap
import StreetJS.Lib.StableSort
import Mathlib.Data.List.Lex

namespace StreetJS.Storage

open StreetJS.Lib List

abbrev Key := List Char

abbrev Bytes := List UInt8

/-- The UTF-16 code units, by which texts are compared. -/
def units (key : Key) : List Nat :=
  key.flatMap fun c =>
    if c.toNat < 0x10000 then [c.toNat]
    else [0xD800 + (c.toNat - 0x10000) / 0x400, 0xDC00 + (c.toNat - 0x10000) % 0x400]

/-- A character is no surrogate, so its units tell where it ends. -/
theorem char_range (c : Char) : c.toNat < 0xD800 ∨ (0xDFFF < c.toNat ∧ c.toNat < 0x110000) := c.valid

theorem units_injective : ∀ {a b : Key}, units a = units b → a = b
  | [], [], _ => rfl
  | [], d :: b, h => by
    simp only [units, flatMap_nil, flatMap_cons] at h
    split at h <;> cases h
  | c :: a, [], h => by
    simp only [units, flatMap_nil, flatMap_cons] at h
    split at h <;> cases h
  | c :: a, d :: b, h => by
    have hc := char_range c
    have hd := char_range d
    simp only [units, flatMap_cons] at h
    have hhead : c.toNat = d.toNat ∧ units a = units b := by
      by_cases hc' : c.toNat < 0x10000
      · by_cases hd' : d.toNat < 0x10000
        · simp only [if_pos hc', if_pos hd', cons_append, nil_append, List.cons.injEq] at h
          exact h
        · simp only [if_pos hc', if_neg hd', cons_append, nil_append, List.cons.injEq] at h
          omega
      · by_cases hd' : d.toNat < 0x10000
        · simp only [if_neg hc', if_pos hd', cons_append, nil_append, List.cons.injEq] at h
          omega
        · simp only [if_neg hc', if_neg hd', cons_append, nil_append, List.cons.injEq] at h
          exact ⟨by omega, h.2.2⟩
    obtain rfl := Char.toNat_inj.1 hhead.1
    rw [units_injective hhead.2]

/-! ## Metadata -/

inductive AccessLevel
  | isPublic
  | isPrivate
  | signed
  | authenticated
  | roleBased
  | tenantAware
  deriving DecidableEq

inductive AccessOperation
  | read
  | write
  | delete
  deriving DecidableEq

/-- What the caller of a write gives, also called `PutOptions`. -/
structure WriteMetadata where
  contentType : Option String
  owner : Option String
  tenant : Option String
  accessLevel : Option AccessLevel
  custom : Option (OrderedMap String String)
  deriving DecidableEq

structure StorageObjectMetadata where
  key : Key
  size : Nat
  contentType : String
  etag : String
  checksum : String
  owner : Option String
  tenant : Option String
  accessLevel : AccessLevel
  createdAt : Int
  updatedAt : Int
  custom : OrderedMap String String
  deriving DecidableEq

structure StoredEntry where
  bytes : Bytes
  metadata : StorageObjectMetadata
  deriving DecidableEq

def defaultContentType : String := "application/octet-stream"

def defaultAccessLevel : AccessLevel := .isPrivate

def buildObjectMetadata (key : Key) (size : Nat) (checksum : String) (createdAt updatedAt : Int)
    (write : WriteMetadata) : StorageObjectMetadata where
  key := key
  size := size
  contentType := write.contentType.getD defaultContentType
  etag := checksum
  checksum := checksum
  owner := write.owner
  tenant := write.tenant
  accessLevel := write.accessLevel.getD defaultAccessLevel
  createdAt := createdAt
  updatedAt := updatedAt
  custom := write.custom.getD []

def toWriteMetadata (metadata : StorageObjectMetadata) : WriteMetadata :=
  ⟨some metadata.contentType, metadata.owner, metadata.tenant, some metadata.accessLevel, some metadata.custom⟩

/-! ## MemoryStorageDriver -/

abbrev Store := OrderedMap Key StoredEntry

namespace Store

variable (sha256Hex : Bytes → String)

/-- What `put` writes. Overwriting a key preserves the original `createdAt`. -/
def entry (store : Store) (now : Int) (key : Key) (bytes : Bytes) (metadata : WriteMetadata) : StoredEntry :=
  ⟨bytes, buildObjectMetadata key bytes.length (sha256Hex bytes)
    (((store.get key).map fun existing => existing.metadata.createdAt).getD now) now metadata⟩

def put (store : Store) (now : Int) (key : Key) (bytes : Bytes) (metadata : WriteMetadata) : Store :=
  store.set key (store.entry sha256Hex now key bytes metadata)

/-- The keys that begin with the prefix, sorted. -/
def keysWith (store : Store) (keyPrefix : Key) : List Key :=
  sortOn units ((store.map Prod.fst).filter fun key => keyPrefix.isPrefixOf key)

end Store

end StreetJS.Storage
