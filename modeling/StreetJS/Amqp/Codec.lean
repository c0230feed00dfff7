/-
The AMQP wire codec (`core/src/transports/rabbitmq/codec.ts`): the fields of a method, and frames with the decoder
that takes them from the bytes of the socket.
-/
import StreetJS.Lib.BigEndian

namespace StreetJS.Amqp

open StreetJS.Lib List
open BigEndian (decode decode_encode encode length_encode)

abbrev Bytes := List UInt8

/-! ## Fields -/

/-- `buf.readUIntBE`: it throws where bytes are missing. -/
def readUIntBE (width : Nat) (buf : Bytes) : Option (Nat × Bytes) :=
  if buf.length < width then none else some (decode (buf.take width), buf.drop width)

variable (buf : Bytes)

def octet : Option (Nat × Bytes) := readUIntBE 1 buf

def shortUint : Option (Nat × Bytes) := readUIntBE 2 buf

def longUint : Option (Nat × Bytes) := readUIntBE 4 buf

def longLong : Option (Nat × Bytes) := readUIntBE 8 buf

/-- A short string, as its bytes in UTF-8. -/
def shortStr : Option (Bytes × Bytes) :=
  (octet buf).map fun (len, rest) => (rest.take len, rest.drop len)

def bit : Option (Bool × Bytes) :=
  (octet buf).map fun (v, rest) => (v % 2 == 1, rest)

/-! ## Frames -/

def FRAME_METHOD : Nat := 1
def FRAME_HEADER : Nat := 2
def FRAME_BODY : Nat := 3
def FRAME_HEARTBEAT : Nat := 8
def FRAME_END : UInt8 := 0xce

structure RawFrame where
  type : Nat
  channel : Nat
  payload : Bytes

/-- `[type][channel][size][payload][0xCE]` -/
def buildFrame (frame : RawFrame) : Bytes :=
  encode 1 frame.type ++ encode 2 frame.channel ++ encode 4 frame.payload.length ++ frame.payload ++ [FRAME_END]

/-- What `FrameDecoder.next` gives for the bytes that have come. -/
inductive Next where
  | wait
  | mismatch (byte : UInt8)
  | frame (frame : RawFrame) (rest : Bytes)

/-- `FrameDecoder.next` -/
def next : Next :=
  if buf.length < 7 then .wait
  else
    let size := decode ((buf.drop 3).take 4)
    if buf.length < 7 + size + 1 then .wait
    else
      let last := buf[7 + size]?.getD 0
      if last ≠ FRAME_END then .mismatch last
      else
        .frame
          { type := decode (buf.take 1), channel := decode ((buf.drop 1).take 2)
            payload := (buf.drop 7).take size }
          (buf.drop (7 + size + 1))

/-- A method, by its class and its number in it. -/
structure MethodKey where
  classId : Nat
  methodId : Nat
deriving DecidableEq

/-- The class and the method that a METHOD frame begins with, and its arguments. -/
def readMethodHeader (payload : Bytes) : Option (MethodKey × Bytes) := do
  let (classId, rest) ← shortUint payload
  let (methodId, args) ← shortUint rest
  some (⟨classId, methodId⟩, args)

/-! ## What is written is read -/

theorem readUIntBE_encode {width v : Nat} (h : v < 256 ^ width) (rest : Bytes) :
    readUIntBE width (encode width v ++ rest) = some (v, rest) := by
  have hlen := length_encode width v
  unfold readUIntBE
  rw [if_neg (by rw [length_append]; omega), take_left' hlen, drop_left' hlen, decode_encode h]

/-- `writeShortStr`: the length and the bytes. -/
def writeShortStr (s : Bytes) : Bytes := encode 1 s.length ++ s

theorem shortStr_write {s : Bytes} (h : s.length < 256) (rest : Bytes) : shortStr (writeShortStr s ++ rest) = some (s, rest) := by
  unfold shortStr octet writeShortStr
  rw [append_assoc, readUIntBE_encode (by simpa using h)]
  simp

theorem bit_write (b : Bool) (rest : Bytes) : bit (encode 1 b.toNat ++ rest) = some (b, rest) := by
  unfold bit octet
  cases b <;> rfl

theorem readMethodHeader_write {key : MethodKey} (hclass : key.classId < 65536) (hmethod : key.methodId < 65536) (args : Bytes) :
    readMethodHeader (encode 2 key.classId ++ (encode 2 key.methodId ++ args)) = some (key, args) := by
  unfold readMethodHeader shortUint
  rw [readUIntBE_encode (by simpa using hclass)]
  simp only [Option.bind_eq_bind, Option.bind_some]
  rw [readUIntBE_encode (by simpa using hmethod)]
  rfl

/-! ## Frames in a stream -/

/-- The fields of a frame have their widths. -/
def RawFrame.Fits (frame : RawFrame) : Prop :=
  frame.type < 256 ∧ frame.channel < 65536 ∧ frame.payload.length < 256 ^ 4

instance (frame : RawFrame) : Decidable frame.Fits := inferInstanceAs (Decidable (_ ∧ _))

theorem length_buildFrame (frame : RawFrame) : (buildFrame frame).length = 7 + frame.payload.length + 1 := by
  simp only [buildFrame, length_append, length_encode, length_singleton]

theorem size_buildFrame {frame : RawFrame} (h : frame.Fits) (rest : Bytes) :
    decode (((buildFrame frame ++ rest).drop 3).take 4) = frame.payload.length := by
  have hhead : (encode 1 frame.type ++ encode 2 frame.channel).length = 3 := by simp
  have hsize := length_encode 4 frame.payload.length
  rw [buildFrame]
  simp only [append_assoc]
  rw [← append_assoc (encode 1 _), drop_left' hhead, take_left' hsize, decode_encode h.2.2]

theorem next_buildFrame {frame : RawFrame} (h : frame.Fits) (rest : Bytes) : next (buildFrame frame ++ rest) = .frame frame rest := by
  have hlen := length_buildFrame frame
  have hparts : buildFrame frame ++ rest = encode 1 frame.type ++ (encode 2 frame.channel ++
      (encode 4 frame.payload.length ++ (frame.payload ++ ([FRAME_END] ++ rest)))) := by
    rw [buildFrame]
    simp only [append_assoc]
  have hhead : (encode 1 frame.type ++ (encode 2 frame.channel ++ encode 4 frame.payload.length)).length = 7 := by simp
  have htype : (buildFrame frame ++ rest).take 1 = encode 1 frame.type := by
    rw [hparts, take_left' (length_encode 1 _)]
  have hchannel : ((buildFrame frame ++ rest).drop 1).take 2 = encode 2 frame.channel := by
    rw [hparts, drop_left' (length_encode 1 _), take_left' (length_encode 2 _)]
  have hpayload : (buildFrame frame ++ rest).drop 7 = frame.payload ++ ([FRAME_END] ++ rest) := by
    rw [hparts, ← append_assoc (encode 2 _), ← append_assoc (encode 1 _), drop_left' hhead]
  have hlast : (buildFrame frame ++ rest)[7 + frame.payload.length]? = some FRAME_END := by
    rw [← getElem?_drop, hpayload, getElem?_append_right (Nat.le_refl _), Nat.sub_self]
    rfl
  have hrest : (buildFrame frame ++ rest).drop (7 + frame.payload.length + 1) = rest := drop_left' hlen
  unfold next
  rw [if_neg (by rw [length_append]; omega), size_buildFrame h, if_neg (by rw [length_append]; omega), hlast,
    htype, hchannel, hpayload, hrest, decode_encode (by simpa using h.1), decode_encode (by simpa using h.2.1),
    take_left' rfl]
  simp

theorem next_wait {frame : RawFrame} (h : frame.Fits) {buf rest : Bytes} (hbuf : buf ++ rest = buildFrame frame)
    (hlt : buf.length < (buildFrame frame).length) : next buf = .wait := by
  have hlen := length_buildFrame frame
  unfold next
  by_cases hshort : buf.length < 7
  · rw [if_pos hshort]
  · have hsize : decode ((buf.drop 3).take 4) = frame.payload.length := by
      have hwhole := size_buildFrame h []
      rw [append_nil, ← hbuf, drop_append_of_le_length (by omega), take_append_of_le_length (by rw [length_drop]; omega)] at hwhole
      exact hwhole
    rw [if_neg hshort, hsize, if_pos (by omega)]

theorem next_nil : next [] = .wait := rfl

end StreetJS.Amqp
