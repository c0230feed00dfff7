/-
The CBOR decoder (`core/src/auth/cbor.ts`), and the public key that `parseCredentialPublicKey` of
`core/src/auth/webauthn.ts` reads from authenticator data.
-/
import StreetJS.Lib.Base64
import StreetJS.Lib.BigEndian
import StreetJS.Lib.OrderedMap

namespace StreetJS.Auth

open StreetJS.Lib

abbrev Bytes := List UInt8

/-! ## Values -/

/-- What `decodeCbor` returns. A text is its bytes; a number that is missing is `undefined`, or `NaN` when it is computed
with. -/
inductive CborValue where
  | number (n : Int)
  | bigint (n : Nat)
  | missing
  | nan
  | bytes (content : Bytes)
  | text (content : Bytes)
  | array (items : List CborValue)
  | map (entries : List (Bytes × CborValue))
  | null

def ascii (s : List Char) : Bytes := s.map fun c => UInt8.ofNat c.toNat

def intText (n : Int) : Bytes := ascii (if n < 0 then '-' :: Nat.toDigits 10 n.natAbs else Nat.toDigits 10 n.natAbs)

/-- What `join` leaves out. -/
def CborValue.isNullish : CborValue → Bool
  | .missing | .null => true
  | _ => false

mutual

/-- `String`; an object has no other text. -/
def CborValue.toText : CborValue → Bytes
  | .number n => intText n
  | .bigint n => intText n
  | .missing => ascii ['u', 'n', 'd', 'e', 'f', 'i', 'n', 'e', 'd']
  | .nan => ascii ['N', 'a', 'N']
  | .bytes content | .text content => content
  | .array items => joinItems items
  | .map _ => ascii ['[', 'o', 'b', 'j', 'e', 'c', 't', ' ', 'O', 'b', 'j', 'e', 'c', 't', ']']
  | .null => ascii ['n', 'u', 'l', 'l']

/-- `join` -/
def joinItems : List CborValue → Bytes
  | [] => []
  | v :: vs =>
    let content := if v.isNullish then [] else v.toText
    if vs.isEmpty then content else content ++ ascii [','] ++ joinItems vs

end

/-! ## Decoding -/

/-- What follows the first byte of an item: the length or the value, and the offset behind it. An offset that is computed from
a missing length is `NaN`. -/
inductive CborHead where
  | value (n : Nat)
  | wide (n : Nat)
  | missing

def CborHead.number? : CborHead → Option Nat
  | .value n | .wide n => some n
  | .missing => none

/-- The error of Node for an offset behind the end. -/
def rangeError : String := "RangeError"

/-- `readUInt16BE` and the like. -/
def readUInt (buf : Bytes) (offset width : Nat) : Except String Nat :=
  if offset + width ≤ buf.length then .ok (BigEndian.decode ((buf.drop offset).take width)) else .error rangeError

/-- The additional information, behind the offset of the first byte. -/
def decodeHead (buf : Bytes) (info offset : Nat) : Except String (CborHead × Nat) :=
  if info ≤ 23 then .ok (.value info, offset)
  else if info = 24 then .ok ((buf[offset]?.map fun b => CborHead.value b.toNat).getD .missing, offset + 1)
  else if info = 25 then (readUInt buf offset 2).map fun n => (.value n, offset + 2)
  else if info = 26 then (readUInt buf offset 4).map fun n => (.value n, offset + 4)
  else if info = 27 then (readUInt buf offset 8).map fun n => (.wide n, offset + 8)
  else .ok (.value 0, offset)

/-- A number of items, one behind the other. -/
def decodeItems (item : Option Nat → Except String (CborValue × Option Nat)) : Nat → Option Nat → Except String (List CborValue × Option Nat)
  | 0, offset => .ok ([], offset)
  | n + 1, offset => do
    let (v, next) ← item offset
    let (vs, behind) ← decodeItems item n next
    .ok (v :: vs, behind)

def decodeEntries (item : Option Nat → Except String (CborValue × Option Nat)) :
    Nat → Option Nat → OrderedMap Bytes CborValue → Except String (OrderedMap Bytes CborValue × Option Nat)
  | 0, offset, entries => .ok (entries, offset)
  | n + 1, offset, entries => do
    let (k, next) ← item offset
    let (v, behind) ← item next
    decodeEntries item n behind (entries.set k.toText v)

/-- `_decodeCborItem`, nested no deeper than the fuel. At the offset `NaN` there is no byte, which reads as the number 0. -/
def decodeCborItem (buf : Bytes) : Nat → Option Nat → Except String (CborValue × Option Nat)
  | 0, _ => .error rangeError
  | _ + 1, none => .ok (.number 0, none)
  | fuel + 1, some offset =>
    if buf.length ≤ offset then .error "CBOR: unexpected end of buffer"
    else do
      let initial := (buf.getD offset 0).toNat
      let (head, offset) ← decodeHead buf (initial % 32) (offset + 1)
      let behind := head.number?.map (offset + ·)
      let content := (buf.drop offset).take (head.number?.getD 0)
      match initial / 32 with
      | 0 =>
        match head with
        | .value n => .ok (.number n, offset)
        | .wide n => .ok (.bigint n, offset)
        | .missing => .ok (.missing, offset)
      | 1 => .ok ((head.number?.map fun n => CborValue.number (-(n + 1 : Nat))).getD .nan, offset)
      | 2 => .ok (.bytes content, behind)
      | 3 => .ok (.text content, behind)
      | 4 => (decodeItems (decodeCborItem buf fuel) (head.number?.getD 0) offset).map fun (items, next) => (.array items, next)
      | 5 => (decodeEntries (decodeCborItem buf fuel) (head.number?.getD 0) offset []).map fun (entries, next) => (.map entries, next)
      | _ => .ok (.null, offset)

/-- `decodeCbor` -/
def decodeCbor (buf : Bytes) : Except String CborValue := (decodeCborItem buf (buf.length + 2) (some 0)).map Prod.fst

/-- A property of a decoded map; other values have none of the names that are read. -/
def CborValue.get (v : CborValue) (name : List Char) : Option CborValue :=
  match v with
  | .map entries => OrderedMap.get entries (ascii name)
  | _ => none

/-! ## Public keys -/

/-- A public key as it is stored, in the JWK format. -/
inductive Jwk where
  | ec (x y : Bytes)
  | rsa (n e : Bytes)
deriving DecidableEq

/-- `toString('base64url')` of bytes. -/
def base64url (content : Bytes) : Bytes :=
  ascii ((Base64.digits content).map fun d => if d = 62 then '-' else if d = 63 then '_' else Base64.charOf d)

/-- A coordinate: it is there and not falsy, and its text is not asked of a number. -/
def coordinate (missing : String) : Option CborValue → Except String Bytes
  | some (.bytes content) => .ok (base64url content)
  | some (.text content) => if content = [] then .error missing else .ok content
  | some (.array items) => .ok (joinItems items)
  | some (.map entries) => .ok (CborValue.map entries).toText
  | some (.number n) => if n = 0 then .error missing else .error rangeError
  | some (.bigint n) => if n = 0 then .error missing else .error rangeError
  | _ => .error missing

/-- `parseCredentialPublicKey` -/
def parseCredentialPublicKey (authData : Bytes) : Except String Jwk :=
  if authData.length < 37 then .error "authData too short"
  else if (authData.getD 32 0) &&& 0x40 = 0 then .error "No attested credential data in authData"
  else if authData.length < 55 then .error "authData truncated at credentialIdLength"
  else do
    let credIdLen ← readUInt authData 53 2
    let offset := 55 + credIdLen
    if authData.length ≤ offset then .error "No COSE key in authData"
    else
      let coseKey ← decodeCbor (authData.drop offset)
      match coseKey.get ['1'] with
      | some (.number 2) => do
        let x ← coordinate "Invalid EC2 COSE key: missing x or y" (coseKey.get ['-', '2'])
        let y ← coordinate "Invalid EC2 COSE key: missing x or y" (coseKey.get ['-', '3'])
        .ok (.ec x y)
      | some (.number 3) => do
        let n ← coordinate "Invalid RSA COSE key: missing n or e" (coseKey.get ['-', '1'])
        let e ← coordinate "Invalid RSA COSE key: missing n or e" (coseKey.get ['-', '2'])
        .ok (.rsa n e)
      | _ => .error "Unsupported COSE key type"

end StreetJS.Auth
