/-
The Parse and Bind messages (`buildParseMessage` and `buildBindMessage` of `postgres/src/wire.ts`): a first pass
over the parameters computes the size, a second one writes at offsets into a buffer of that size whose bytes
are arbitrary. What is written is read back by the grammar of the protocol.
-/
import StreetJS.Lib.BigEndian
import StreetJS.Lib.Utf8
import StreetJS.Postgres.Message

namespace StreetJS.Postgres.Encoding

open StreetJS.Lib List
open BigEndian (decode encode length_encode)

/-! ## Writing into a buffer -/

/-- What the messages may throw: a number that does not fit its field, a write past the buffer, and the
conversion of an invalid date. -/
inductive EncodeError where
  | valueOutOfRange
  | outsideBuffer
  | invalidDate
  deriving DecidableEq

/-- A buffer and the offset of the next write. -/
structure Writer where
  buf : Bytes
  offset : Nat

/-- `Buffer.allocUnsafe`. -/
def allocUnsafe (garbage : Nat → UInt8) (size : Nat) : Writer := { buf := (List.range size).map garbage, offset := 0 }

/-- `bytes.copy(buf, offset)`: what lies past the buffer is dropped. -/
def writeAt (buf bytes : Bytes) (offset : Nat) : Bytes :=
  buf.take offset ++ bytes.take (buf.length - offset) ++ buf.drop (offset + bytes.length)

/-- `writeUInt16BE` and its like, of so many bytes. -/
def writeUInt (width : Nat) (buf : Bytes) (value offset : Nat) : Except EncodeError Bytes :=
  if 256 ^ width ≤ value then .error .valueOutOfRange
  else if offset + width > buf.length then .error .outsideBuffer
  else .ok (writeAt buf (encode width value) offset)

namespace Writer

/-- Bytes are copied, and the offset moves behind them. -/
def put (w : Writer) (bytes : Bytes) : Writer :=
  { buf := writeAt w.buf bytes w.offset, offset := w.offset + bytes.length }

def skip (w : Writer) (n : Nat) : Writer := { w with offset := w.offset + n }

def putUInt (width : Nat) (w : Writer) (value : Nat) : Except EncodeError Writer := do
  let buf ← writeUInt width w.buf value w.offset
  pure { buf, offset := w.offset + width }

/-- `writeInt32BE` of a length. -/
def putLength (w : Writer) (length : Nat) : Except EncodeError Writer :=
  if 2 ^ 31 ≤ length then .error .valueOutOfRange else w.putUInt 4 length

end Writer

/-! ## The messages -/

variable (garbage : Nat → UInt8)

/-- `buildParseMessage`; a string is the list of its code units. -/
def buildParseMessage (query : List UInt16) : Except EncodeError Bytes := do
  let queryBuf := Utf8.encode (Utf8.ofUnits (query ++ [0]))
  let w := (allocUnsafe garbage (1 + 4 + 1 + queryBuf.length + 2)).put [0x50]
  let lenOffset := w.offset
  let w := ((w.skip 4).put [0]).put queryBuf
  let w ← w.putUInt 2 0
  let buf ← writeUInt 4 w.buf (w.offset - 1) lenOffset
  pure (subarray buf 0 w.offset)

/-- A parameter: a number by its text, and a date by its ISO text when it is valid. -/
inductive BindParam where
  | null
  | undefined
  | boolean (b : Bool)
  | number (text : Text)
  | date (iso : Option Text)
  | string (units : List UInt16)
  | buffer (bytes : Bytes)
  deriving DecidableEq

namespace BindParam

def isNull : BindParam → Bool
  | .null | .undefined => true
  | _ => false

/-- `valBuf`: the bytes of the text that a parameter is turned into. -/
def valBuf : BindParam → Except EncodeError Bytes
  | .null | .undefined => .ok []
  | .boolean b => .ok (Utf8.encode [if b then 't' else 'f'])
  | .number text => .ok (Utf8.encode text)
  | .date none => .error .invalidDate
  | .date (some iso) => .ok (Utf8.encode iso)
  | .string units => .ok (Utf8.encode (Utf8.ofUnits units))
  | .buffer bytes => .ok (Utf8.encode (toText bytes))

end BindParam

/-- The length that stands for NULL, `-1`. -/
def nullLength : Bytes := [0xFF, 0xFF, 0xFF, 0xFF]

/-- The first pass: the size so far, and the buffers of the parameters. -/
def measure : List BindParam → Nat → List Bytes → Except EncodeError (Nat × List Bytes)
  | [], totalLen, paramBuffers => .ok (totalLen, paramBuffers)
  | param :: params, totalLen, paramBuffers =>
    if param.isNull then measure params (totalLen + 4) (paramBuffers ++ [nullLength])
    else do
      let valBuf ← param.valBuf
      measure params (totalLen + (4 + valBuf.length)) (paramBuffers ++ [valBuf])

/-- The second pass: the parameters with their buffers. -/
def writeParams : List BindParam → List Bytes → Writer → Except EncodeError Writer
  | param :: params, buffer :: buffers, w =>
    if param.isNull then writeParams params buffers { w.put buffer with offset := w.offset + 4 }
    else do
      let w ← w.putLength buffer.length
      writeParams params buffers (w.put buffer)
  | _, _, w => .ok w

/-- `buildBindMessage`. -/
def buildBindMessage (params : List BindParam) : Except EncodeError Bytes := do
  let (totalLen, paramBuffers) ← measure params (1 + 4 + 1 + 1 + 2 + 2) []
  let totalLen := totalLen + 2
  let w := (allocUnsafe garbage totalLen).put [0x42]
  let w ← w.putUInt 4 (totalLen - 1)
  let w := (w.put [0]).put [0]
  let w ← w.putUInt 2 0
  let w ← w.putUInt 2 params.length
  let w ← writeParams params paramBuffers w
  let w ← w.putUInt 2 0
  pure (subarray w.buf 0 w.offset)

/-! ## The grammar of the protocol -/

def takeUInt (width : Nat) (bytes : Bytes) : Option (Nat × Bytes) :=
  if bytes.length < width then none else some (decode (bytes.take width), bytes.drop width)

/-- The bytes before a NUL. -/
def cString : Bytes → Option (Bytes × Bytes)
  | [] => none
  | b :: bytes => if b = 0 then some ([], bytes) else (cString bytes).map fun (s, rest) => (b :: s, rest)

/-- So many items. -/
def repeated {α : Type} (item : Bytes → Option (α × Bytes)) : Nat → Bytes → Option (List α × Bytes)
  | 0, bytes => some ([], bytes)
  | n + 1, bytes => do
    let (x, bytes) ← item bytes
    let (xs, bytes) ← repeated item n bytes
    some (x :: xs, bytes)

/-- A parameter value: its length, with `-1` for NULL, and so many bytes. -/
def value (bytes : Bytes) : Option (Option Bytes × Bytes) := do
  let (n, bytes) ← takeUInt 4 bytes
  if n = 2 ^ 32 - 1 then some (none, bytes)
  else if n < 2 ^ 31 ∧ n ≤ bytes.length then some (some (bytes.take n), bytes.drop n)
  else none

/-- The body of a message that is one frame: the length counts itself and the body. -/
def frameBody (type : UInt8) : Bytes → Option Bytes
  | [] => none
  | b :: bytes => do
    let (len, body) ← takeUInt 4 bytes
    if b = type ∧ len = 4 + body.length then some body else none

structure ParseMessage where
  statement : Bytes
  query : Bytes
  types : List Nat
  deriving DecidableEq

structure BindMessage where
  portal : Bytes
  statement : Bytes
  formats : List Nat
  values : List (Option Bytes)
  results : List Nat
  deriving DecidableEq

def decodeParse (bytes : Bytes) : Option ParseMessage := do
  let body ← frameBody 0x50 bytes
  let (statement, body) ← cString body
  let (query, body) ← cString body
  let (n, body) ← takeUInt 2 body
  let (types, body) ← repeated (takeUInt 4) n body
  if body = [] then some { statement, query, types } else none

def decodeBind (bytes : Bytes) : Option BindMessage := do
  let body ← frameBody 0x42 bytes
  let (portal, body) ← cString body
  let (statement, body) ← cString body
  let (n, body) ← takeUInt 2 body
  let (formats, body) ← repeated (takeUInt 2) n body
  let (n, body) ← takeUInt 2 body
  let (values, body) ← repeated value n body
  let (n, body) ← takeUInt 2 body
  let (results, body) ← repeated (takeUInt 2) n body
  if body = [] then some { portal, statement, formats, values, results } else none

/-- The bytes that a parameter denotes, none for NULL; an invalid date denotes nothing. -/
def BindParam.denoted : BindParam → Option (Option Bytes)
  | .null | .undefined => some none
  | .boolean b => some (some (Utf8.encode [if b then 't' else 'f']))
  | .number text => some (some (Utf8.encode text))
  | .date iso => iso.map fun iso => some (Utf8.encode iso)
  | .string units => some (some (Utf8.encode (Utf8.ofUnits units)))
  | .buffer bytes => some (some bytes)

/-- The messages are frames of the protocol, of the query and of the values that the parameters denote. -/
structure Encodes (query : List UInt16) (params : List BindParam) : Prop where
  parse : ∃ frame, buildParseMessage garbage query = .ok frame ∧
    decodeParse frame = some { statement := [], query := Utf8.encode (Utf8.ofUnits query), types := [] }
  bind : ∃ frame values, List.Forall₂ (fun p v => p.denoted = some v) params values ∧ buildBindMessage garbage params = .ok frame ∧
    decodeBind frame = some { portal := [], statement := [], formats := [], values, results := [] }

def parseSize (query : List UInt16) : Nat := 1 + 4 + 1 + ((Utf8.encode (Utf8.ofUnits query)).length + 1) + 2

/-- The size of a value with its length. -/
def valueSize : Option Bytes → Nat
  | none => 4
  | some bytes => 4 + bytes.length

def bindSize (values : List (Option Bytes)) : Nat := 1 + 4 + 1 + 1 + 2 + 2 + (values.map valueSize).sum + 2

/-- Every buffer is UTF-8, every date is valid, and the values and the messages fit their length fields. -/
structure Fits (query : List UInt16) (params : List BindParam) : Prop where
  buffers : ∀ bytes, .buffer bytes ∈ params → ∃ text, bytes = Utf8.encode text
  dates : .date none ∉ params
  values : ∀ p ∈ params, ∀ bytes, p.denoted = some (some bytes) → bytes.length < 2 ^ 31
  query : parseSize query ≤ 2 ^ 32
  params : ∀ values, List.Forall₂ (fun p v => p.denoted = some v) params values → bindSize values ≤ 2 ^ 32

/-! ## UTF-8 read back -/

theorem decodeUtf8_cons (q : Option Utf8Sequence) (b : UInt8) (bs : Bytes) :
    decodeUtf8 q (b :: bs) = (nextByte q b).1 ++ decodeUtf8 (nextByte q b).2 bs := by
  cases q with
  | none => rfl
  | some q => rfl

theorem ofNat_lt_iff {n : Nat} (h : n < 256) (b : UInt8) : UInt8.ofNat n < b ↔ n < b.toNat := by
  rw [UInt8.lt_iff_toNat_lt, Utf8.toNat_ofNat h]

theorem ofNat_le_iff {n : Nat} (h : n < 256) (b : UInt8) : UInt8.ofNat n ≤ b ↔ n ≤ b.toNat := by
  rw [UInt8.le_iff_toNat_le, Utf8.toNat_ofNat h]

theorem le_ofNat_iff {n : Nat} (h : n < 256) (b : UInt8) : b ≤ UInt8.ofNat n ↔ b.toNat ≤ n := by
  rw [UInt8.le_iff_toNat_le, Utf8.toNat_ofNat h]

/-- A leading byte, by the bounds of its kind. -/
theorem leadByte_ofNat {n : Nat} (h : n < 256) : leadByte (UInt8.ofNat n) = if n < 0x80 then ([Char.ofNat n], none)
    else if 0xC2 ≤ n ∧ n ≤ 0xDF then ([], some ⟨n - 0xC0, 1, 0x80, 0xBF⟩)
    else if 0xE0 ≤ n ∧ n ≤ 0xEF then
      ([], some ⟨n - 0xE0, 2, if UInt8.ofNat n = 0xE0 then 0xA0 else 0x80, if UInt8.ofNat n = 0xED then 0x9F else 0xBF⟩)
    else if 0xF0 ≤ n ∧ n ≤ 0xF4 then
      ([], some ⟨n - 0xF0, 3, if UInt8.ofNat n = 0xF0 then 0x90 else 0x80, if UInt8.ofNat n = 0xF4 then 0x8F else 0xBF⟩)
    else ([replacement], none) := by
  unfold leadByte
  simp only [ofNat_lt_iff h, ofNat_le_iff h, le_ofNat_iff h, Utf8.toNat_ofNat h]
  rfl

section

variable {codePoint n : Nat} {lower upper : UInt8}

/-- A byte that continues a sequence is in the bounds that the byte before it sets. -/
theorem nextByte_last (h : lower.toNat ≤ 0x80 + n) (h' : 0x80 + n ≤ upper.toNat) :
    nextByte (some ⟨codePoint, 1, lower, upper⟩) (UInt8.ofNat (0x80 + n)) = ([Char.ofNat (codePoint * 64 + n)], none) := by
  have hlt : 0x80 + n < 256 := lt_of_le_of_lt h' upper.toNat_lt
  simp only [nextByte, le_ofNat_iff hlt, ofNat_le_iff hlt, Utf8.toNat_ofNat hlt, Nat.add_sub_cancel_left]
  rw [if_pos ⟨h, h'⟩]
  rfl

theorem nextByte_more {needed : Nat} (h : lower.toNat ≤ 0x80 + n) (h' : 0x80 + n ≤ upper.toNat) :
    nextByte (some ⟨codePoint, needed + 2, lower, upper⟩) (UInt8.ofNat (0x80 + n)) =
      ([], some ⟨codePoint * 64 + n, needed + 1, 0x80, 0xBF⟩) := by
  have hlt : 0x80 + n < 256 := lt_of_le_of_lt h' upper.toNat_lt
  simp only [nextByte, le_ofNat_iff hlt, ofNat_le_iff hlt, Utf8.toNat_ofNat hlt, Nat.add_sub_cancel_left]
  rw [if_pos ⟨h, h'⟩]
  rfl

/-- The bounds of the second byte, which the first and the last of the leading bytes narrow. -/
theorem lower_le {m : Nat} (hn : n < 256) {first narrowed : UInt8} (h : n = first.toNat → narrowed.toNat ≤ m)
    (h' : 0x80 ≤ m) : (if UInt8.ofNat n = first then narrowed else 0x80).toNat ≤ m := by
  split
  · next heq => exact h (by rw [← heq, Utf8.toNat_ofNat hn])
  · exact h'

theorem le_upper {m : Nat} (hn : n < 256) {last narrowed : UInt8} (h : n = last.toNat → m ≤ narrowed.toNat)
    (h' : m ≤ 0xBF) : m ≤ (if UInt8.ofNat n = last then narrowed else 0xBF).toNat := by
  split
  · next heq => exact h (by rw [← heq, Utf8.toNat_ofNat hn])
  · exact h'

end

/-- **A character is read back from its bytes.** -/
theorem decodeUtf8_encodeChar (c : Char) (rest : Bytes) : decodeUtf8 none (Utf8.encodeChar c ++ rest) = c :: decodeUtf8 none rest := by
  have hlt := Utf8.toNat_lt c
  have hsurrogate := Utf8.not_surrogate c
  have hchar : ∀ n, n = c.toNat → Char.ofNat n :: decodeUtf8 none rest = c :: decodeUtf8 none rest := by
    rintro n rfl
    rw [Char.ofNat_toNat]
  unfold Utf8.encodeChar
  dsimp only
  split
  · rw [cons_append, decodeUtf8_cons, nextByte, leadByte_ofNat (by omega), if_pos ‹_›]
    exact hchar _ rfl
  split
  · simp only [cons_append, nil_append]
    rw [decodeUtf8_cons, nextByte, leadByte_ofNat (by omega), if_neg (by omega), if_pos (by omega), decodeUtf8_cons,
      nextByte_last (by show 0x80 ≤ _; omega) (by show _ ≤ 0xBF; omega)]
    exact hchar _ (by omega)
  split
  · simp only [cons_append, nil_append]
    rw [decodeUtf8_cons, nextByte, leadByte_ofNat (by omega), if_neg (by omega), if_neg (by omega), if_pos (by omega)]
    rw [decodeUtf8_cons, nextByte_more (lower_le (by omega) (fun h => by change _ = 0xE0 at h; show 0xA0 ≤ _; omega) (by omega))
      (le_upper (by omega) (fun h => by change _ = 0xED at h; show _ ≤ 0x9F; omega) (by omega)), decodeUtf8_cons,
      nextByte_last (by show 0x80 ≤ _; omega) (by show _ ≤ 0xBF; omega)]
    exact hchar _ (by omega)
  · simp only [cons_append, nil_append]
    rw [decodeUtf8_cons, nextByte, leadByte_ofNat (by omega), if_neg (by omega), if_neg (by omega), if_neg (by omega), if_pos (by omega)]
    rw [decodeUtf8_cons, nextByte_more (lower_le (by omega) (fun h => by change _ = 0xF0 at h; show 0x90 ≤ _; omega) (by omega))
      (le_upper (by omega) (fun h => by change _ = 0xF4 at h; show _ ≤ 0x8F; omega) (by omega)), decodeUtf8_cons,
      nextByte_more (by show 0x80 ≤ _; omega) (by show _ ≤ 0xBF; omega), decodeUtf8_cons,
      nextByte_last (by show 0x80 ≤ _; omega) (by show _ ≤ 0xBF; omega)]
    exact hchar _ (by omega)

/-- **A text is read back from its bytes.** -/
theorem toText_encode (text : Text) : toText (Utf8.encode text) = text := by
  unfold toText
  induction text with
  | nil => rfl
  | cons c text ih => rw [Utf8.encode_cons, decodeUtf8_encodeChar, ih]

theorem encode_toText (bytes : Bytes) : Utf8.encode (toText bytes) = bytes ↔ ∃ text, bytes = Utf8.encode text := by
  constructor
  · intro h
    exact ⟨toText bytes, h.symm⟩
  · rintro ⟨text, rfl⟩
    rw [toText_encode]

/-! ## Two passes -/

theorem writeAt_inside {buf bytes : Bytes} {offset : Nat} (h : offset + bytes.length ≤ buf.length) :
    writeAt buf bytes offset = buf.take offset ++ bytes ++ buf.drop (offset + bytes.length) := by
  have hall : bytes.take (buf.length - offset) = bytes := take_of_length_le (by omega)
  unfold writeAt
  rw [hall]

theorem length_writeAt {buf bytes : Bytes} {offset : Nat} (h : offset + bytes.length ≤ buf.length) :
    (writeAt buf bytes offset).length = buf.length := by
  rw [writeAt_inside h]
  simp only [length_append, length_take, length_drop]
  omega

/-- So far the buffer holds what was written, and there is room for the rest. -/
structure Filled (w : Writer) (total : Nat) (written : Bytes) : Prop where
  length : w.buf.length = total
  offset : w.offset = written.length
  written : w.buf.take written.length = written

theorem filled_allocUnsafe (garbage : Nat → UInt8) (total : Nat) : Filled (allocUnsafe garbage total) total [] where
  length := by simp [allocUnsafe]
  offset := rfl
  written := rfl

variable {w : Writer} {total : Nat} {written : Bytes}

theorem Filled.put (h : Filled w total written) (bytes : Bytes) (hroom : written.length + bytes.length ≤ total) :
    Filled (w.put bytes) total (written ++ bytes) := by
  have hfits : w.offset + bytes.length ≤ w.buf.length := by
    rw [h.offset, h.length]
    exact hroom
  refine ⟨(length_writeAt hfits).trans h.length, ?_, ?_⟩
  · show w.offset + bytes.length = _
    rw [h.offset, length_append]
  · show (writeAt w.buf bytes w.offset).take _ = _
    have htake : w.buf.take w.offset = written := h.offset ▸ h.written
    rw [writeAt_inside hfits, htake]
    exact take_left' rfl

theorem Filled.putUInt (h : Filled w total written) (width value : Nat) (hroom : written.length + width ≤ total)
    (hvalue : value < 256 ^ width) :
    ∃ w', w.putUInt width value = .ok w' ∧ Filled w' total (written ++ encode width value) := by
  have hput := h.put (encode width value) (by rw [length_encode]; exact hroom)
  refine ⟨w.put (encode width value), ?_, hput⟩
  have hlength : ¬w.offset + width > w.buf.length := by
    rw [h.offset, h.length]
    omega
  unfold Writer.putUInt writeUInt
  rw [if_neg (by omega), if_neg hlength]
  show Except.ok _ = Except.ok _
  rw [Writer.put, length_encode]

theorem Filled.result (h : Filled w total written) : subarray w.buf 0 w.offset = written := by
  unfold subarray
  rw [drop_zero, h.offset]
  exact h.written

/-- A number that is too large for its field. -/
theorem putUInt_ok {width value : Nat} {w w' : Writer} (h : w.putUInt width value = .ok w') : value < 256 ^ width := by
  unfold Writer.putUInt writeUInt at h
  by_contra hlarge
  rw [if_pos (by omega)] at h
  cases h

theorem putLength_ok {length : Nat} {w w' : Writer} (h : w.putLength length = .ok w') : length < 2 ^ 31 := by
  unfold Writer.putLength at h
  by_contra hlarge
  rw [if_pos (by omega)] at h
  cases h

/-- What is sent for a parameter. -/
inductive Sent : BindParam → Option Bytes → Prop
  | null {p : BindParam} (h : p.isNull = true) : Sent p none
  | text {p : BindParam} {bytes : Bytes} (h : p.isNull = false) (hb : p.valBuf = .ok bytes) : Sent p (some bytes)

/-- The buffer of a value, and its bytes in the message. -/
def bufferOf : Option Bytes → Bytes
  | none => nullLength
  | some bytes => bytes

def valueBytes : Option Bytes → Bytes
  | none => nullLength
  | some bytes => encode 4 bytes.length ++ bytes

theorem length_valueBytes (v : Option Bytes) : (valueBytes v).length = valueSize v := by
  cases v with
  | none => rfl
  | some bytes =>
    show (encode 4 bytes.length ++ bytes).length = 4 + bytes.length
    rw [length_append, length_encode]

theorem length_flatMap_valueBytes (values : List (Option Bytes)) : (values.flatMap valueBytes).length = (values.map valueSize).sum := by
  induction values with
  | nil => rfl
  | cons v values ih =>
    rw [flatMap_cons, length_append, ih, length_valueBytes, map_cons, sum_cons]

variable {params : List BindParam} {values : List (Option Bytes)}

theorem measure_of_sent (h : List.Forall₂ Sent params values) : ∀ (t : Nat) (bufs : List Bytes),
      measure params t bufs = .ok (t + (values.map valueSize).sum, bufs ++ values.map bufferOf) := by
  induction h with
  | nil =>
    intro t bufs
    simp [measure]
  | cons hv _ ih =>
    intro t bufs
    unfold measure
    cases hv with
    | null hnull =>
      rw [if_pos hnull, ih]
      simp only [map_cons, sum_cons, valueSize, bufferOf, append_assoc, singleton_append]
      rw [Nat.add_assoc]
    | text hnull hb =>
      rw [if_neg (by rw [hnull]; exact Bool.false_ne_true), hb]
      show measure _ _ _ = _
      rw [ih]
      simp only [map_cons, sum_cons, valueSize, bufferOf, append_assoc, singleton_append]
      rw [Nat.add_assoc]

/-- The first pass ends only when every parameter has a text. -/
theorem sent_of_measure : ∀ (params : List BindParam) (t : Nat) (bufs : List Bytes) {r : Nat × List Bytes},
    measure params t bufs = .ok r → ∃ values, List.Forall₂ Sent params values
  | [], _, _, _, _ => ⟨[], .nil⟩
  | p :: params, t, bufs, r, h => by
    unfold measure at h
    cases hnull : p.isNull with
    | true =>
      rw [if_pos hnull] at h
      obtain ⟨values, hvalues⟩ := sent_of_measure params _ _ h
      exact ⟨none :: values, .cons (.null hnull) hvalues⟩
    | false =>
      rw [if_neg (by rw [hnull]; exact Bool.false_ne_true)] at h
      cases hb : p.valBuf with
      | error e =>
        rw [hb] at h
        cases h
      | ok bytes =>
        rw [hb] at h
        obtain ⟨values, hvalues⟩ := sent_of_measure params _ _ h
        exact ⟨some bytes :: values, .cons (.text hnull hb) hvalues⟩

theorem writeParams_of_sent (h : List.Forall₂ Sent params values) :
    ∀ {w : Writer} {written : Bytes}, (∀ bytes, some bytes ∈ values → bytes.length < 2 ^ 31) → Filled w total written →
      written.length + (values.map valueSize).sum ≤ total →
      ∃ w', writeParams params (values.map bufferOf) w = .ok w' ∧ Filled w' total (written ++ values.flatMap valueBytes) := by
  induction h with
  | nil =>
    intro w written _ hfilled _
    refine ⟨w, rfl, ?_⟩
    rw [flatMap_nil, append_nil]
    exact hfilled
  | @cons p v params values hv _ ih =>
    intro w written hsmall hfilled hroom
    have hrest : ∀ bytes, some bytes ∈ values → bytes.length < 2 ^ 31 := fun bytes hb =>
      hsmall bytes (mem_cons_of_mem _ hb)
    rw [map_cons, sum_cons] at hroom
    cases hv with
    | null hnull =>
      have hput := hfilled.put nullLength (by change written.length + (4 + _) ≤ total at hroom; show _ + 4 ≤ _; omega)
      obtain ⟨w', hw', hfilled'⟩ := ih hrest hput (by
        rw [length_append]
        change written.length + (4 + _) ≤ total at hroom
        show written.length + 4 + _ ≤ total
        omega)
      refine ⟨w', ?_, ?_⟩
      · unfold writeParams
        rw [map_cons]
        dsimp only
        rw [if_pos hnull]
        exact hw'
      · rw [flatMap_cons, ← append_assoc]
        exact hfilled'
    | @text bytes hnull hb =>
      have hlt := hsmall bytes mem_cons_self
      change written.length + ((4 + bytes.length) + _) ≤ total at hroom
      obtain ⟨w₁, hw₁, hfilled₁⟩ := hfilled.putUInt 4 bytes.length (by omega) (by omega)
      have hlength : (written ++ encode 4 bytes.length).length = written.length + 4 := by
        rw [length_append, length_encode]
      have hput := hfilled₁.put bytes (by rw [hlength]; omega)
      obtain ⟨w', hw', hfilled'⟩ := ih hrest hput (by rw [length_append, hlength]; omega)
      refine ⟨w', ?_, ?_⟩
      · unfold writeParams
        rw [map_cons]
        dsimp only
        rw [if_neg (by rw [hnull]; exact Bool.false_ne_true)]
        have hputLength : w.putLength (bufferOf (some bytes)).length = .ok w₁ :=
          (if_neg (Nat.not_le_of_lt hlt)).trans hw₁
        rw [hputLength]
        exact hw'
      · rw [flatMap_cons, valueBytes, ← append_assoc, ← append_assoc]
        exact hfilled'

/-- And throws at a value that is too long. -/
theorem small_of_writeParams (h : List.Forall₂ Sent params values) :
    ∀ {w w' : Writer}, writeParams params (values.map bufferOf) w = .ok w' → ∀ bytes, some bytes ∈ values → bytes.length < 2 ^ 31 := by
  induction h with
  | nil =>
    intro w w' _ bytes hb
    cases hb
  | @cons p v params values hv _ ih =>
    intro w w' hw bytes hbytes
    unfold writeParams at hw
    rw [map_cons] at hw
    dsimp only at hw
    cases hv with
    | null hnull =>
      rw [if_pos hnull] at hw
      rcases mem_cons.1 hbytes with hb | hb
      · cases hb
      · exact ih hw bytes hb
    | @text first hnull hb =>
      rw [if_neg (by rw [hnull]; exact Bool.false_ne_true)] at hw
      cases hput : w.putLength (bufferOf (some first)).length with
      | error e =>
        rw [hput] at hw
        cases hw
      | ok w₁ =>
        rw [hput] at hw
        rcases mem_cons.1 hbytes with hb | hb
        · cases hb
          exact putLength_ok hput
        · exact ih hw bytes hb

/-! ## The messages as bytes -/

def parseFrame (query : List UInt16) : Bytes :=
  0x50 :: encode 4 (parseSize query - 1) ++ 0 :: (Utf8.encode (Utf8.ofUnits query) ++ [0]) ++ encode 2 0

def bindFrame (values : List (Option Bytes)) : Bytes :=
  0x42 :: encode 4 (bindSize values - 1) ++ [0, 0] ++ encode 2 0 ++ encode 2 values.length ++ values.flatMap valueBytes ++ encode 2 0

theorem buildBindMessage_of_sent (garbage : Nat → UInt8) (h : List.Forall₂ Sent params values) (hcount : params.length ≤ 65535)
    (hsmall : ∀ bytes, some bytes ∈ values → bytes.length < 2 ^ 31) (hsize : bindSize values ≤ 2 ^ 32) :
    buildBindMessage garbage params = .ok (bindFrame values) := by
  have hlength := h.length_eq
  have htotal : bindSize values = 13 + (values.map valueSize).sum := by
    unfold bindSize
    omega
  unfold buildBindMessage
  rw [measure_of_sent h]
  simp only [bind, Except.bind, pure, Except.pure]
  have hstart := (filled_allocUnsafe garbage (bindSize values)).put [0x42] (by simp; omega)
  obtain ⟨w₁, hw₁, hfilled₁⟩ := hstart.putUInt 4 (bindSize values - 1) (by simp; omega) (by omega)
  have hnames := (hfilled₁.put [0] (by simp; omega)).put [0] (by simp; omega)
  obtain ⟨w₂, hw₂, hfilled₂⟩ := hnames.putUInt 2 0 (by simp; omega) (by omega)
  obtain ⟨w₃, hw₃, hfilled₃⟩ := hfilled₂.putUInt 2 params.length (by simp; omega) (by omega)
  obtain ⟨w₄, hw₄, hfilled₄⟩ := writeParams_of_sent h hsmall hfilled₃ (by simp; omega)
  obtain ⟨w₅, hw₅, hfilled₅⟩ := hfilled₄.putUInt 2 0 (by rw [length_append, length_flatMap_valueBytes]; simp; omega) (by omega)
  rw [show 1 + 4 + 1 + 1 + 2 + 2 + (values.map valueSize).sum + 2 = bindSize values from rfl, hw₁]
  dsimp only
  rw [hw₂]
  dsimp only
  rw [hw₃]
  dsimp only
  rw [nil_append, hw₄]
  dsimp only
  rw [hw₅]
  dsimp only
  rw [hfilled₅.result, bindFrame, ← hlength]
  simp

theorem Filled.skip (h : Filled w total written) (n : Nat) (hroom : written.length + n ≤ total) :
    ∃ gap : Bytes, gap.length = n ∧ Filled (w.skip n) total (written ++ gap) := by
  have hgap : ((w.buf.drop written.length).take n).length = n := by
    rw [length_take, length_drop, h.length]
    omega
  refine ⟨(w.buf.drop written.length).take n, hgap, h.length, ?_, ?_⟩
  · show w.offset + n = _
    rw [length_append, hgap, h.offset]
  · show w.buf.take _ = _
    rw [length_append, hgap, take_add, h.written]

theorem Filled.full (h : Filled w total written) (hfull : written.length = total) : w.buf = written := by
  have hall := h.written
  rwa [take_of_length_le (by rw [h.length, hfull])] at hall

theorem ofUnits_nul : ∀ us : List UInt16, Utf8.ofUnits (us ++ [0]) = Utf8.ofUnits us ++ ['\x00']
  | [] => rfl
  | [u] => by
    show Utf8.ofUnits [u, 0] = _
    unfold Utf8.ofUnits
    cases hhigh : Utf8.isHigh u with
    | true => rfl
    | false =>
      rfl
  | u :: v :: us => by
    have hrest := ofUnits_nul (v :: us)
    have htail := ofUnits_nul us
    rw [cons_append] at hrest
    rw [cons_append, cons_append]
    unfold Utf8.ofUnits
    split
    · split
      · rw [htail]
        rfl
      · rw [hrest]
        rfl
    · rw [hrest]
      rfl

theorem encode_nul (query : List UInt16) : Utf8.encode (Utf8.ofUnits (query ++ [0])) = Utf8.encode (Utf8.ofUnits query) ++ [0] := by
  rw [ofUnits_nul, Utf8.encode_append]
  rfl

theorem buildParseMessage_steps (garbage : Nat → UInt8) (query : List UInt16) : ∃ buf gap : Bytes, gap.length = 4 ∧
    buf = 0x50 :: (gap ++ 0 :: (Utf8.encode (Utf8.ofUnits query) ++ 0 :: encode 2 0)) ∧
    buf.length = parseSize query ∧ buildParseMessage garbage query = (do
      let buf ← writeUInt 4 buf (parseSize query - 1) 1
      pure (subarray buf 0 (parseSize query))) := by
  have htotal : parseSize query = 9 + (Utf8.encode (Utf8.ofUnits query)).length := by
    unfold parseSize
    omega
  have hstart := (filled_allocUnsafe garbage (parseSize query)).put [0x50] (by simp; omega)
  obtain ⟨gap, hgap, hskip⟩ := hstart.skip 4 (by simp; omega)
  have hquery := (hskip.put [0] (by simp [hgap]; omega)).put (Utf8.encode (Utf8.ofUnits query) ++ [0]) (by simp [hgap]; omega)
  obtain ⟨w, hw, hfilled⟩ := hquery.putUInt 2 0 (by simp [hgap]; omega) (by omega)
  have hbuf := hfilled.full (by simp [hgap]; omega)
  have hoffset : w.offset = parseSize query := by
    rw [hfilled.offset, ← hfilled.length, hbuf]
  refine ⟨w.buf, gap, hgap, by rw [hbuf]; simp, hfilled.length, ?_⟩
  unfold buildParseMessage
  simp only [bind, Except.bind, pure, Except.pure]
  rw [encode_nul, length_append, length_singleton,
    show 1 + 4 + 1 + ((Utf8.encode (Utf8.ofUnits query)).length + 1) + 2 = parseSize query from rfl, hw]
  dsimp only
  rw [hoffset]
  rfl

variable {query : List UInt16}

theorem buildParseMessage_of_size (garbage : Nat → UInt8) (hsize : parseSize query ≤ 2 ^ 32) :
    buildParseMessage garbage query = .ok (parseFrame query) := by
  obtain ⟨buf, gap, hgap, hbuf, htotal, hsteps⟩ := buildParseMessage_steps garbage query
  have hlength : (encode 4 (parseSize query - 1)).length = 4 := length_encode 4 _
  have hlarge : 9 ≤ parseSize query := by
    unfold parseSize
    omega
  have hfits : 1 + (encode 4 (parseSize query - 1)).length ≤ buf.length := by omega
  -- the length is written over the gap
  have hwrite : writeAt buf (encode 4 (parseSize query - 1)) 1 = parseFrame query := by
    have hdrop : (gap ++ 0 :: (Utf8.encode (Utf8.ofUnits query) ++ 0 :: encode 2 0)).drop 4 =
        0 :: (Utf8.encode (Utf8.ofUnits query) ++ 0 :: encode 2 0) := drop_left' hgap
    rw [writeAt_inside hfits, hlength, hbuf, Nat.add_comm 1 4, drop_succ_cons, hdrop, parseFrame]
    simp
  rw [hsteps]
  unfold writeUInt
  rw [if_neg (by omega), if_neg (by omega), hwrite]
  show Except.ok (subarray (parseFrame query) 0 (parseSize query)) = _
  unfold subarray
  rw [drop_zero, take_of_length_le]
  rw [← hwrite, length_writeAt hfits, htotal]

theorem size_of_buildParseMessage {garbage : Nat → UInt8} {frame : Bytes}
    (h : buildParseMessage garbage query = .ok frame) : parseSize query ≤ 2 ^ 32 := by
  obtain ⟨buf, gap, -, -, -, hsteps⟩ := buildParseMessage_steps garbage query
  rw [hsteps] at h
  by_contra hlarge
  unfold writeUInt at h
  rw [if_pos (by omega)] at h
  cases h

theorem of_bind_ok {α β : Type} {x : Except EncodeError α} {f : α → Except EncodeError β} {b : β}
    (h : x >>= f = .ok b) : ∃ a, x = .ok a ∧ f a = .ok b := by
  cases x with
  | ok a => exact ⟨a, rfl, h⟩
  | error e => cases h

theorem sent_of_buildBindMessage {garbage : Nat → UInt8} {frame : Bytes}
    (h : buildBindMessage garbage params = .ok frame) : ∃ values, List.Forall₂ Sent params values ∧
      (∀ bytes, some bytes ∈ values → bytes.length < 2 ^ 31) ∧ bindSize values ≤ 2 ^ 32 := by
  obtain ⟨⟨totalLen, paramBuffers⟩, hmeasure, h⟩ := of_bind_ok h
  obtain ⟨values, hvalues⟩ := sent_of_measure params _ _ hmeasure
  rw [measure_of_sent hvalues] at hmeasure
  cases hmeasure
  obtain ⟨w₁, hw₁, h⟩ := of_bind_ok h
  obtain ⟨w₂, -, h⟩ := of_bind_ok h
  obtain ⟨w₃, -, h⟩ := of_bind_ok h
  obtain ⟨w₄, hw₄, -⟩ := of_bind_ok h
  refine ⟨values, hvalues, small_of_writeParams hvalues hw₄, ?_⟩
  have hsize : bindSize values - 1 < 256 ^ 4 := putUInt_ok hw₁
  omega

/-! ## The messages read back -/

theorem takeUInt_encode {width v : Nat} (h : v < 256 ^ width) (rest : Bytes) : takeUInt width (encode width v ++ rest) = some (v, rest) := by
  have hlength := length_encode width v
  unfold takeUInt
  rw [if_neg (by rw [length_append]; omega), take_left' hlength, drop_left' hlength, BigEndian.decode_encode h]

theorem cString_append : ∀ {s : Bytes} (rest : Bytes), 0 ∉ s → cString (s ++ 0 :: rest) = some (s, rest)
  | [], rest, _ => rfl
  | b :: s, rest, h => by
    have hb : b ≠ 0 := fun hb => h (hb ▸ mem_cons_self)
    have hs : 0 ∉ s := fun hs => h (mem_cons_of_mem _ hs)
    rw [cons_append]
    unfold cString
    rw [if_neg hb, cString_append rest hs]
    rfl

theorem cString_zero (bytes : Bytes) : cString (0 :: bytes) = some ([], bytes) := rfl

theorem repeated_none {α : Type} (item : Bytes → Option (α × Bytes)) (bytes : Bytes) : repeated item 0 bytes = some ([], bytes) := rfl

theorem takeUInt_last (width : Nat) : takeUInt width (encode width 0) = some (0, []) := by
  have hpos : 0 < 256 ^ width := Nat.pow_pos (by decide)
  have htake := takeUInt_encode hpos []
  rwa [append_nil] at htake

variable {v : Option Bytes}

theorem value_append (h : ∀ bytes, v = some bytes → bytes.length < 2 ^ 31) (rest : Bytes) :
    value (valueBytes v ++ rest) = some (v, rest) := by
  cases v with
  | none =>
    have hnull : valueBytes none = encode 4 (2 ^ 32 - 1) := by decide
    unfold value
    rw [hnull, takeUInt_encode (by decide)]
    rfl
  | some bytes =>
    have hlt := h bytes rfl
    unfold value valueBytes
    rw [append_assoc, takeUInt_encode (by omega)]
    simp only [bind, Option.bind]
    rw [if_neg (by omega), if_pos ⟨hlt, by rw [length_append]; omega⟩, take_left, drop_left]

theorem repeated_append (h : ∀ bytes, some bytes ∈ values → bytes.length < 2 ^ 31) (rest : Bytes) :
    repeated value values.length (values.flatMap valueBytes ++ rest) = some (values, rest) := by
  induction values with
  | nil => rfl
  | cons v values ih =>
    rw [length_cons, flatMap_cons, append_assoc]
    unfold repeated
    rw [value_append fun bytes hb => h bytes (hb ▸ mem_cons_self)]
    simp only [bind, Option.bind]
    rw [ih fun bytes hb => h bytes (mem_cons_of_mem _ hb)]

theorem frameBody_append {type : UInt8} {body : Bytes} (h : 4 + body.length < 256 ^ 4) :
    frameBody type (type :: (encode 4 (4 + body.length) ++ body)) = some body := by
  have htake := takeUInt_encode h body
  simp only [frameBody, bind, Option.bind, htake, and_self, if_true]

/-- **The Parse message is one frame, of the query.** -/
theorem decodeParse_parseFrame (hnul : 0 ∉ query) (hsize : parseSize query ≤ 2 ^ 32) : decodeParse (parseFrame query) =
      some { statement := [], query := Utf8.encode (Utf8.ofUnits query), types := [] } := by
  have hbytes : 0 ∉ Utf8.encode (Utf8.ofUnits query) := fun h =>
    Utf8.nul_not_mem_ofUnits query hnul (Utf8.zero_mem_encode h)
  have hframe : parseFrame query = 0x50 :: (encode 4 (4 + (0 :: (Utf8.encode (Utf8.ofUnits query) ++ 0 :: encode 2 0) : Bytes).length) ++
        0 :: (Utf8.encode (Utf8.ofUnits query) ++ 0 :: encode 2 0)) := by
    have hlength : parseSize query - 1 = 4 + (0 :: (Utf8.encode (Utf8.ofUnits query) ++ 0 :: encode 2 0) : Bytes).length := by
      simp only [parseSize, length_cons, length_append, length_encode]
      omega
    rw [parseFrame, hlength]
    simp
  have hbody : 4 + (0 :: (Utf8.encode (Utf8.ofUnits query) ++ 0 :: encode 2 0) : Bytes).length < 256 ^ 4 := by
    simp only [parseSize, length_cons, length_append, length_encode] at hsize ⊢
    omega
  rw [hframe]
  generalize Utf8.encode (Utf8.ofUnits query) = text at *
  simp only [decodeParse, frameBody_append hbody, bind, Option.bind, cString_zero, cString_append _ hbytes,
    takeUInt_last, repeated_none, if_true]

/-- **The Bind message is one frame, of the values.** -/
theorem decodeBind_bindFrame (hcount : values.length ≤ 65535)
    (hsmall : ∀ bytes, some bytes ∈ values → bytes.length < 2 ^ 31) (hsize : bindSize values ≤ 2 ^ 32) :
    decodeBind (bindFrame values) = some { portal := [], statement := [], formats := [], values, results := [] } := by
  have hframe : bindFrame values = 0x42 :: (encode 4 (4 + (0 :: 0 :: (encode 2 0 ++
      (encode 2 values.length ++ (values.flatMap valueBytes ++ encode 2 0))) : Bytes).length) ++ 0 :: 0 :: (encode 2 0 ++
          (encode 2 values.length ++ (values.flatMap valueBytes ++ encode 2 0)))) := by
    have hlength : bindSize values - 1 = 4 + (0 :: 0 :: (encode 2 0 ++
        (encode 2 values.length ++ (values.flatMap valueBytes ++ encode 2 0))) : Bytes).length := by
      simp only [bindSize, length_cons, length_append, length_encode, length_flatMap_valueBytes]
      omega
    rw [bindFrame, hlength]
    simp only [cons_append, append_assoc, nil_append]
  have hbody : 4 + (0 :: 0 :: (encode 2 0 ++ (encode 2 values.length ++
      (values.flatMap valueBytes ++ encode 2 0))) : Bytes).length < 256 ^ 4 := by
    simp only [bindSize] at hsize
    simp only [length_cons, length_append, length_encode, length_flatMap_valueBytes]
    omega
  have hcount' : values.length < 256 ^ 2 := by omega
  have hzero : 0 < 256 ^ 2 := by decide
  rw [hframe]
  simp only [decodeBind, frameBody_append hbody, bind, Option.bind, cString_zero, takeUInt_encode hzero, repeated_none,
    takeUInt_encode hcount', repeated_append hsmall, takeUInt_last, if_true]

/-! ## When the messages encode the parameters -/

theorem BindParam.denoted_of_isNull {p : BindParam} (h : p.isNull = true) : p.denoted = some none := by
  cases p with
  | null => rfl
  | undefined => rfl
  | _ => cases h

theorem BindParam.denoted_of_valBuf {p : BindParam} {bytes : Bytes} (hnull : p.isNull = false)
    (hb : p.valBuf = .ok bytes) (hutf8 : ∀ b, p = .buffer b → ∃ text, b = Utf8.encode text) :
    p.denoted = some (some bytes) := by
  cases p with
  | null => cases hnull
  | undefined => cases hnull
  | date iso =>
    cases iso with
    | none => cases hb
    | some iso =>
      cases hb
      rfl
  | buffer b =>
    cases hb
    exact congrArg (fun b => some (some b)) ((encode_toText b).2 (hutf8 b rfl)).symm
  | _ =>
    cases hb
    rfl

/-- A parameter is sent as it is: its value is what it denotes. -/
def Faithful (p : BindParam) (v : Option Bytes) : Prop := Sent p v ∧ p.denoted = some v

theorem Faithful.utf8 {b : Bytes} (h : Faithful (.buffer b) v) : ∃ text, b = Utf8.encode text := by
  obtain ⟨hsent, hv⟩ := h
  cases hsent with
  | null hnull => cases hnull
  | @text bytes _ hb =>
    have hbytes : b = bytes := Option.some.inj (Option.some.inj hv)
    have hencode : Utf8.encode (toText b) = bytes := Except.ok.inj hb
    exact (encode_toText b).1 (hencode.trans hbytes.symm)

theorem exists_faithful (p : BindParam) (hutf8 : ∀ b, p = .buffer b → ∃ text, b = Utf8.encode text)
    (hdate : p ≠ .date none) : ∃ v, Faithful p v := by
  cases hnull : p.isNull with
  | true => exact ⟨none, .null hnull, BindParam.denoted_of_isNull hnull⟩
  | false =>
    have hok : ∃ bytes, p.valBuf = .ok bytes := by
      cases p with
      | date iso =>
        cases iso with
        | none => exact absurd rfl hdate
        | some iso => exact ⟨_, rfl⟩
      | _ => exact ⟨_, rfl⟩
    obtain ⟨bytes, hb⟩ := hok
    exact ⟨some bytes, .text hnull hb, BindParam.denoted_of_valBuf hnull hb hutf8⟩

theorem exists_faithfuls : ∀ params : List BindParam,
    (∀ bytes, .buffer bytes ∈ params → ∃ text, bytes = Utf8.encode text) → .date none ∉ params → ∃ values, List.Forall₂ Faithful params values
  | [], _, _ => ⟨[], .nil⟩
  | p :: params, hutf8, hdate => by
    obtain ⟨v, hv⟩ := exists_faithful p (fun b hb => hutf8 b (hb ▸ mem_cons_self)) (fun hp => hdate (hp ▸ mem_cons_self))
    obtain ⟨values, hvalues⟩ := exists_faithfuls params (fun b hb => hutf8 b (mem_cons_of_mem _ hb)) (fun hp => hdate (mem_cons_of_mem _ hp))
    exact ⟨v :: values, .cons hv hvalues⟩

theorem exists_mem_of_faithful (h : List.Forall₂ Faithful params values) {p : BindParam} (hp : p ∈ params) : ∃ v ∈ values, Faithful p v := by
  induction h with
  | nil => cases hp
  | cons hv _ ih =>
    rcases mem_cons.1 hp with rfl | hp
    · exact ⟨_, mem_cons_self, hv⟩
    · obtain ⟨v, hmem, hv⟩ := ih hp
      exact ⟨v, mem_cons_of_mem _ hmem, hv⟩

/-- And a value its parameter. -/
theorem exists_mem_of_faithful' (h : List.Forall₂ Faithful params values) (hv : v ∈ values) : ∃ p ∈ params, Faithful p v := by
  induction h with
  | nil => cases hv
  | cons hfirst _ ih =>
    rcases mem_cons.1 hv with rfl | hv
    · exact ⟨_, mem_cons_self, hfirst⟩
    · obtain ⟨p, hmem, hp⟩ := ih hv
      exact ⟨p, mem_cons_of_mem _ hmem, hp⟩

theorem denoted_unique {values' : List (Option Bytes)} (h : List.Forall₂ (fun p v => p.denoted = some v) params values)
    (h' : List.Forall₂ (fun p v => p.denoted = some v) params values') : values = values' :=
  right_unique_forall₂' (fun _ _ _ hb hc => Option.some.inj (hb.symm.trans hc)) h h'

/-- **The messages are two frames that give back the query and the parameters exactly when every buffer is UTF-8,
no date
is invalid and all lengths fit.** -/
theorem encodes_iff_fits (garbage : Nat → UInt8) {query : List UInt16} {params : List BindParam} (hnul : 0 ∉ query)
    (hcount : params.length ≤ 65535) : Encodes garbage query params ↔ Fits query params := by
  constructor
  · rintro ⟨⟨parseBytes, hparse, -⟩, frame, values', hdenoted, hok, hdecode⟩
    obtain ⟨values, hsent, hsmall, hsize⟩ := sent_of_buildBindMessage hok
    -- the frame is the frame of what was sent, so this is what the parameters denote
    have hlength : values.length ≤ 65535 := hsent.length_eq ▸ hcount
    have hframe : frame = bindFrame values :=
      Except.ok.inj (hok.symm.trans (buildBindMessage_of_sent garbage hsent hcount hsmall hsize))
    have hvalues : values = values' := by
      have hread := decodeBind_bindFrame hlength hsmall hsize
      rw [hframe, hread] at hdecode
      exact congrArg BindMessage.values (Option.some.inj hdecode)
    subst hvalues
    have hfaithful : List.Forall₂ Faithful params values := hsent.mp (fun _ _ hs hd => ⟨hs, hd⟩) hdenoted
    refine ⟨?_, ?_, ?_, size_of_buildParseMessage hparse, ?_⟩
    · intro b hb
      obtain ⟨v, -, hv⟩ := exists_mem_of_faithful hfaithful hb
      exact hv.utf8
    · intro hdate
      obtain ⟨v, -, -, hv⟩ := exists_mem_of_faithful hfaithful hdate
      cases hv
    · intro p hp bytes hbytes
      obtain ⟨v, hmem, -, hv⟩ := exists_mem_of_faithful hfaithful hp
      have hsome : v = some bytes := Option.some.inj (hv.symm.trans hbytes)
      exact hsmall bytes (hsome ▸ hmem)
    · intro values' hvalues'
      rw [← denoted_unique hdenoted hvalues']
      exact hsize
  · intro h
    obtain ⟨values, hfaithful⟩ := exists_faithfuls params h.buffers h.dates
    have hdenoted := hfaithful.imp fun _ _ hv => hv.2
    have hsent := hfaithful.imp fun _ _ hv => hv.1
    have hsize := h.params values hdenoted
    have hsmall : ∀ bytes, some bytes ∈ values → bytes.length < 2 ^ 31 := by
      intro bytes hb
      obtain ⟨p, hp, hv⟩ := exists_mem_of_faithful' hfaithful hb
      exact h.values p hp bytes hv.2
    constructor
    · exact ⟨parseFrame query, buildParseMessage_of_size garbage h.query, decodeParse_parseFrame hnul h.query⟩
    · refine ⟨bindFrame values, values, hdenoted, buildBindMessage_of_sent garbage hsent hcount hsmall hsize, ?_⟩
      exact decodeBind_bindFrame (hsent.length_eq ▸ hcount) hsmall hsize

/-- A query without NUL, with a parameter of every kind. -/
theorem encodes_iff_fits_mixed : let query : List UInt16 := [0x24, 0x31, 0xD83D, 0xDE00]
    let params : List BindParam := [.null, .undefined, .boolean true, .number ['1', 'e', '3'],
      .date (some ['2', '0', '2', '4']), .string [0xE9, 0x4E2D], .buffer [0xC3, 0xA9]]
    Encodes (fun _ => 0xAA) query params ↔ Fits query params :=
  encodes_iff_fits (fun _ => 0xAA) (by decide) (by decide)

/-- The bytes of an image come out as replacement characters. -/
theorem encoding_counterexample : ¬∀ (garbage : Nat → UInt8) (query : List UInt16) (params : List BindParam),
    0 ∉ query → params.length ≤ 65535 → .date none ∉ params → Encodes garbage query params := by
  intro h
  obtain ⟨frame, values, hdenoted, hok, hdecode⟩ :=
    (h (fun _ => 0) [] [.buffer [0xFF, 0x41]] (by decide) (by decide) (by decide)).bind
  have hvalues : values = [some [0xFF, 0x41]] := denoted_unique hdenoted (.cons rfl .nil)
  -- the bytes of U+FFFD stand for the first byte
  have hsent : List.Forall₂ Sent [.buffer [0xFF, 0x41]] [some [0xEF, 0xBF, 0xBD, 0x41]] :=
    .cons (.text rfl (by decide)) .nil
  have hsmall : ∀ bytes, some bytes ∈ [some ([0xEF, 0xBF, 0xBD, 0x41] : Bytes)] → bytes.length < 2 ^ 31 := by
    intro bytes hb
    cases mem_singleton.1 hb
    decide
  have hframe := buildBindMessage_of_sent (fun _ => 0) hsent (by decide) hsmall (by decide)
  have hread := decodeBind_bindFrame (by decide) hsmall (by decide)
  rw [hframe] at hok
  cases hok
  rw [hread, hvalues] at hdecode
  exact absurd (congrArg BindMessage.values (Option.some.inj hdecode)) (by decide)

end StreetJS.Postgres.Encoding
