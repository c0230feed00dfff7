/-
Messages of the PostgreSQL wire protocol: the texts, numbers and fields that the client reads from
a backend message, and the messages it writes.
-/
import StreetJS.Lib.Base64
import StreetJS.Lib.OrderedMap

namespace StreetJS.Postgres

open StreetJS.Lib

abbrev Bytes := List UInt8

/-- A text, by its characters. -/
abbrev Text := List Char

/-- The one proof that every test for a text in a list goes by. -/
scoped instance : LawfulBEq Text := inferInstance

/-! ## Text of a buffer -/

/-- A UTF-8 sequence that has begun: the bits read, how many bytes are still due, and the range the
next one must lie in. -/
structure Utf8Sequence where
  codePoint : Nat
  needed : Nat
  lower : UInt8
  upper : UInt8

def replacement : Char := '\uFFFD'

/-- A byte where a sequence may begin. -/
def leadByte (b : UInt8) : Text × Option Utf8Sequence :=
  if b < 0x80 then ([Char.ofNat b.toNat], none)
  else if 0xC2 ≤ b ∧ b ≤ 0xDF then ([], some ⟨b.toNat - 0xC0, 1, 0x80, 0xBF⟩)
  else if 0xE0 ≤ b ∧ b ≤ 0xEF then
    ([], some ⟨b.toNat - 0xE0, 2, if b = 0xE0 then 0xA0 else 0x80, if b = 0xED then 0x9F else 0xBF⟩)
  else if 0xF0 ≤ b ∧ b ≤ 0xF4 then
    ([], some ⟨b.toNat - 0xF0, 3, if b = 0xF0 then 0x90 else 0x80, if b = 0xF4 then 0x8F else 0xBF⟩)
  else ([replacement], none)

/-- The next byte: a byte that does not continue the sequence ends it as malformed and is read anew. -/
def nextByte : Option Utf8Sequence → UInt8 → Text × Option Utf8Sequence
  | none, b => leadByte b
  | some q, b =>
    if q.lower ≤ b ∧ b ≤ q.upper then
      let codePoint := q.codePoint * 64 + (b.toNat - 0x80)
      if q.needed = 1 then ([Char.ofNat codePoint], none) else ([], some ⟨codePoint, q.needed - 1, 0x80, 0xBF⟩)
    else (replacement :: (leadByte b).1, (leadByte b).2)

def decodeUtf8 : Option Utf8Sequence → Bytes → Text
  | none, [] => []
  | some _, [] => [replacement]
  | q, b :: bs => (nextByte q b).1 ++ decodeUtf8 (nextByte q b).2 bs

variable (body : Bytes)

/-- `buffer.toString('utf8')`. -/
def toText : Text := decodeUtf8 none body

/-! ## Numbers and offsets -/

def readUInt16BE (offset : Nat) : Option Nat :=
  match body.drop offset with
  | a :: b :: _ => some (a.toNat * 256 + b.toNat)
  | _ => none

def readUInt32BE (offset : Nat) : Option Nat :=
  match body.drop offset with
  | a :: b :: c :: d :: _ => some (((a.toNat * 256 + b.toNat) * 256 + c.toNat) * 256 + d.toNat)
  | _ => none

def readInt32BE (offset : Nat) : Option Int :=
  (readUInt32BE body offset).map fun n => if n < 2 ^ 31 then (n : Int) else (n : Int) - 2 ^ 32

/-- `buffer.indexOf(0, offset)`. -/
def indexOfZero (offset : Nat) : Option Nat :=
  ((body.drop offset).findIdx? (· = 0)).map (· + offset)

def subarray (start stop : Nat) : Bytes := (body.take stop).drop start

/-- The characters that `\s` matches and `parseInt` skips. -/
def isSpace (c : Char) : Bool :=
  (9 ≤ c.toNat && c.toNat ≤ 13) || (0x2000 ≤ c.toNat && c.toNat ≤ 0x200A) ||
    [0x20, 0xA0, 0x1680, 0x2028, 0x2029, 0x202F, 0x205F, 0x3000, 0xFEFF].contains c.toNat

/-- The number that decimal digits write. -/
def digitsValue (digits : Text) : Nat := digits.foldl (fun n c => n * 10 + (c.toNat - 48)) 0

/-- `parseInt(text, 10)`: the sign and digits that a text begins with. -/
def parseInt (text : Text) : Option Int :=
  let text := text.dropWhile isSpace
  let (negative, text) := match text with
    | '-' :: rest => (true, rest)
    | '+' :: rest => (false, rest)
    | _ => (false, text)
  match text.takeWhile Char.isDigit with
  | [] => none
  | digits => some (if negative then -(digitsValue digits : Int) else digitsValue digits)

/-! ## Backend messages -/

/-- A message of the backend, by its type byte and body. -/
structure BackendMessage where
  type : UInt8
  body : Bytes
  deriving DecidableEq

namespace BackendMsg

def AuthRequest : UInt8 := 0x52
def BackendKeyData : UInt8 := 0x4b
def CommandComplete : UInt8 := 0x43
def DataRow : UInt8 := 0x44
def EmptyQuery : UInt8 := 0x49
def ErrorResponse : UInt8 := 0x45
def NoticeResponse : UInt8 := 0x4e
def ParameterStatus : UInt8 := 0x53
def ReadyForQuery : UInt8 := 0x5a
def RowDescription : UInt8 := 0x54

end BackendMsg

namespace AuthType

def Ok : Nat := 0
def CleartextPassword : Nat := 3
def MD5Password : Nat := 5
def SASL : Nat := 10
def SASLContinue : Nat := 11
def SASLFinal : Nat := 12

end AuthType

structure FieldDescriptor where
  name : Text
  typeOid : Nat
  deriving DecidableEq

/-- A row: the text of each column, `null` where the server sent none. -/
abbrev PgRow := OrderedMap Text (Option Text)

/-- The fields from `offset` on, at most `fieldCount` of them. -/
def fieldsFrom (body : Bytes) : Nat → Nat → List FieldDescriptor
  | 0, _ => []
  | fieldCount + 1, offset =>
    if body.length ≤ offset then []
    else match indexOfZero body offset with
      | none => []
      | some nameEnd =>
        if nameEnd + 1 + 18 > body.length then []
        else match readUInt32BE body (nameEnd + 1 + 6) with
          | none => []
          | some typeOid =>
            ⟨toText (subarray body offset nameEnd), typeOid⟩ :: fieldsFrom body fieldCount (nameEnd + 1 + 18)

def parseRowDescription : List FieldDescriptor :=
  match readUInt16BE body 0 with
  | none => []
  | some fieldCount => fieldsFrom body fieldCount 2

/-- The name of column `i`: its field's, or `col<i>` where the row has more columns than fields. -/
def fieldName (fields : List FieldDescriptor) (i : Nat) : Text :=
  match fields[i]? with
  | some field => field.name
  | none => "col".toList ++ (toString i).toList

/-- The columns from `offset` on, `left` of them, into `row`; a malformed length ends the row. -/
def columnsFrom (fields : List FieldDescriptor) (body : Bytes) : Nat → Nat → Nat → PgRow → PgRow
  | 0, _, _, row => row
  | left + 1, i, offset, row =>
    match readInt32BE body offset with
    | none => row
    | some len =>
      if len = -1 then columnsFrom fields body left (i + 1) (offset + 4) (row.set (fieldName fields i) none)
      else if len < 0 ∨ offset + 4 + len.toNat > body.length then row
      else
        columnsFrom fields body left (i + 1) (offset + 4 + len.toNat)
          (row.set (fieldName fields i) (some (toText (subarray body (offset + 4) (offset + 4 + len.toNat)))))

def parseDataRow (fields : List FieldDescriptor) (body : Bytes) : PgRow :=
  match readUInt16BE body 0 with
  | none => []
  | some colCount => columnsFrom fields body colCount 0 2 []

/-- The fields of an error from `offset` on, by their code; `fuel` bounds how many. -/
def errorFields (body : Bytes) : Nat → Nat → OrderedMap Char Text → OrderedMap Char Text
  | 0, _, fields => fields
  | fuel + 1, i, fields =>
    match body[i]? with
    | none => fields
    | some code =>
      if code = 0 then fields
      else match indexOfZero body (i + 1) with
        | none => fields
        | some stop =>
          errorFields body fuel (stop + 1) (fields.set (Char.ofNat code.toNat) (toText (subarray body (i + 1) stop)))

/-- The message of the error that an ErrorResponse is reported as. -/
def parseError : String :=
  let fields := errorFields body body.length 0 []
  let msg := (fields.get 'M').getD "Unknown PostgreSQL error".toList
  let detail := (fields.get 'D').getD []
  "PostgreSQL: " ++ String.ofList msg ++ (if detail = [] then "" else " — " ++ String.ofList detail)

/-- The tag of a CommandComplete: its text less one closing NUL. -/
def commandTag : Text :=
  let text := toText body
  if text.getLast? = some '\x00' then text.dropLast else text

/-- The number a tag ends in, before any white space. -/
def trailingNumber (cmd : Text) : Option Nat :=
  match (cmd.reverse.dropWhile isSpace).takeWhile Char.isDigit with
  | [] => none
  | digits => some (digitsValue digits.reverse)

structure PgResult where
  rows : List PgRow
  command : Text
  rowCount : Nat
  deriving DecidableEq

/-- The result of a buffered command: the row count is the number its tag ends in, when there is one. -/
def buildResult (rows : List PgRow) (command : Text) : PgResult :=
  { rows, command, rowCount := (trailingNumber command).getD rows.length }

/-! ## Messages the client writes -/

/-- A parameter as the caller passes it: a date or another object by its text, or by the error that
its conversion throws. -/
inductive Param where
  | null
  | boolean (b : Bool)
  | number (text : Text)
  | date (iso : Except String Text)
  | other (text : Except String Text)

/-- The value of a parameter in a Bind message, `none` for NULL. -/
def bindValue : Param → Except String (Option Text)
  | .null => .ok none
  | .boolean b => .ok (some [if b then 't' else 'f'])
  | .number text => .ok (some text)
  | .date iso => iso.map some
  | .other text => text.map some

/-- `buildBindMessage`: the values of a Bind message, or what building it throws, at a parameter
that has no text or at a count that does not fit 16 bits. -/
def buildBindMessage (params : List Param) : Except String (List (Option Text)) :=
  match params.mapM bindValue with
  | .error e => .error e
  | .ok values =>
    if params.length < 2 ^ 16 then .ok values
    else .error ("The value of \"value\" is out of range. It must be >= 0 and <= 65535. Received " ++ toString params.length)

inductive FrontendMessage where
  | startup (user database : Text)
  | password (password : Text)
  | saslInitialResponse (mechanism clientFirstMessage : Text)
  | saslResponse (clientFinalMessage : Text)
  | query (sql : Text)
  /-- Parse, Describe, Bind, Execute and Sync, written at once. -/
  | extendedQuery (sql : Text) (values : List (Option Text))
  | terminate
  deriving DecidableEq

end StreetJS.Postgres
