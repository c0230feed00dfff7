/-
The replies of RESP2 on the wire, and how `RedisDriver.cmd` (`queue/src/drivers/redis.ts`) and `RedisClient.get`
(`core/src/transports/resp.ts`) tell errors from data: by a prefix of the text, which data may have too, or not at all.
-/
import StreetJS.Postgres.Encoding
import StreetJS.Redis.ClusterClient
import StreetJS.Redis.RespParser

namespace StreetJS.Redis.RespParser

open StreetJS.Lib List
open StreetJS.Postgres (Bytes toText)

/-! ## Replies -/

/-- The bytes of a line, without its end. -/
abbrev Line := { l : Bytes // 13 ∉ l ∧ 10 ∉ l }

inductive Reply where
  | simple (line : Line)
  | error (line : Line)
  | integer (n : ℤ)
  | bulk (content : Bytes)
  | nullBulk
  | nullArray
  | array (rs : List Reply)

def crlfBytes : Bytes := [13, 10]

mutual

/-- What a server writes. -/
def Reply.wire : Reply → Bytes
  | .simple l => 43 :: (l.1 ++ crlfBytes)
  | .error l => 45 :: (l.1 ++ crlfBytes)
  | .integer n => 58 :: (Utf8.encode (integerText n) ++ crlfBytes)
  | .bulk content => 36 :: (Utf8.encode (integerText content.length) ++ crlfBytes) ++ (content ++ crlfBytes)
  | .nullBulk => 36 :: (Utf8.encode (integerText (-1)) ++ crlfBytes)
  | .nullArray => 42 :: (Utf8.encode (integerText (-1)) ++ crlfBytes)
  | .array rs => 42 :: (Utf8.encode (integerText rs.length) ++ crlfBytes) ++ wires rs

def wires : List Reply → Bytes
  | [] => []
  | r :: rs => r.wire ++ wires rs

end

mutual

/-- What the parser makes of it. -/
def Reply.value : Reply → RespValue
  | .simple l => .text (toText l.1)
  | .error l => .text ('E' :: 'R' :: 'R' :: ':' :: toText l.1)
  | .integer n => .number (.finite n)
  | .bulk content => .text (toText content)
  | .nullBulk | .nullArray => .null
  | .array rs => .array (values rs)

def values : List Reply → List RespValue
  | [] => []
  | r :: rs => r.value :: values rs

end

mutual

/-- The calls that are nested at most. -/
def Reply.depth : Reply → ℕ
  | .array rs => depths rs + 1
  | _ => 1

def depths : List Reply → ℕ
  | [] => 1
  | r :: rs => r.depth + depths rs + 1

end

/-! ## Reading the wire -/

variable {pre rest : Bytes} {fuel : ℕ}

theorem findCrlf_line {l : Bytes} (h : 13 ∉ l) (rest : Bytes) : findCrlf (l ++ (crlfBytes ++ rest)) = some l.length := by
  induction l with
  | nil => rfl
  | cons b l ih =>
    rw [mem_cons, not_or] at h
    rw [cons_append, findCrlf.eq_2 b _ fun _ hb _ => h.1 hb.symm, ih h.2]
    rfl

theorem cr_not_mem_encode (n : ℤ) : 13 ∉ Utf8.encode (integerText n) := by
  intro h
  obtain ⟨c, hc, hb⟩ := mem_flatMap.1 h
  have hdigit : c = '-' ∨ c.isDigit := by
    unfold integerText at hc
    split at hc
    · exact (mem_cons.1 hc).imp_right isDigit_toDigits
    · exact .inr (isDigit_toDigits hc)
  have hrange : 14 ≤ c.toNat ∧ c.toNat < 0x80 := by
    rcases hdigit with rfl | hd
    · decide
    · simp only [Char.isDigit, Bool.and_eq_true, decide_eq_true_eq] at hd
      have hd' : 48 ≤ c.toNat ∧ c.toNat ≤ 57 := hd
      omega
  rw [Utf8.encodeChar, if_pos hrange.2, mem_singleton] at hb
  have hnat := congrArg UInt8.toNat hb
  rw [Utf8.toNat_ofNat (by omega)] at hnat
  change 13 = _ at hnat
  omega

theorem toNumber_integerText (n : ℤ) : toNumber (toText (Utf8.encode (integerText n))) = .finite n := by
  rw [Postgres.Encoding.toText_encode, toNumber, number_integerText]

/-- What is read of an item whose first line is known. -/
theorem header_spec {type : UInt8} {l : Bytes} (h : 13 ∉ l) {buf : Bytes} (hbuf : buf = pre ++ (type :: (l ++ (crlfBytes ++ rest)))) :
    (JsNumber.finite pre.length).ge buf.length = false ∧ lineEnd buf ((JsNumber.finite pre.length).add 1) = some (pre.length + 1 + l.length) ∧
      slice buf ((JsNumber.finite pre.length).add 1) (.finite ((pre.length + 1 + l.length : ℕ) : ℚ)) = toText l ∧
      typeAt buf (.finite pre.length) = type := by
  have hadd : (JsNumber.finite pre.length).add 1 = .finite ((pre.length + 1 : ℕ) : ℚ) := by
    simp [JsNumber.add]
  have hlen : buf.length = pre.length + (l.length + rest.length + 3) := by
    simp [hbuf, crlfBytes]
    omega
  have hdrop : buf.drop (pre.length + 1) = l ++ (crlfBytes ++ rest) := by
    rw [hbuf, drop_append, drop_eq_nil_of_le (by omega)]
    simp
  rw [hadd]
  refine ⟨?_, ?_, ?_, ?_⟩
  · simp only [JsNumber.ge, hlen, decide_eq_false_iff_not, not_le]
    push_cast
    linarith [(Nat.cast_nonneg l.length : (0 : ℚ) ≤ _), (Nat.cast_nonneg rest.length : (0 : ℚ) ≤ _)]
  · have hmin : (JsNumber.finite ((pre.length + 1 : ℕ) : ℚ)).offset buf.length = pre.length + 1 := by
      rw [offset_finite (Nat.cast_nonneg _), Int.floor_natCast, Int.toNat_natCast]
      omega
    rw [lineEnd, hmin, hdrop, findCrlf_line h]
    rfl
  · simp only [slice, JsNumber.clamp, Int.floor_natCast, Int.toNat_natCast]
    rw [Nat.min_eq_left (by omega), Nat.min_eq_left (by omega), drop_take, hdrop, Nat.add_sub_cancel_left, take_left]
  · have hget : buf.getD pre.length 0 = type := by simp [hbuf]
    simpa [typeAt] using hget

theorem after_line (pre l : Bytes) (type : UInt8) :
    ((pre.length + 1 + l.length : ℕ) : ℚ) + 2 = ((pre.length + (type :: (l ++ crlfBytes)).length : ℕ) : ℚ) := by
  simp only [length_cons, length_append, crlfBytes, length_nil]
  push_cast
  ring

theorem natCast_ne_null (n : ℕ) : JsNumber.finite ((n : ℤ) : ℚ) ≠ .finite (-1) := by
  rw [Ne, JsNumber.finite.injEq]
  have hn : (0 : ℚ) ≤ ((n : ℤ) : ℚ) := by exact_mod_cast Nat.zero_le n
  linarith

theorem bulk_wire {buf pre content : Bytes} (hbuf : buf = pre ++ (content ++ (crlfBytes ++ rest))) {stop : ℕ}
    (hstop : stop + 2 = pre.length) :
    bulk buf stop (.finite ((content.length : ℤ) : ℚ)) =
      .ok (.text (toText content), .finite ((pre.length + (content ++ crlfBytes).length : ℕ) : ℚ)) := by
  have hlen : buf.length = pre.length + (content.length + (rest.length + 2)) := by
    simp [hbuf, crlfBytes]
  have hend : JsNumber.add (.finite ((content.length : ℤ) : ℚ)) (stop + 4) =
      .finite ((pre.length + (content ++ crlfBytes).length : ℕ) : ℚ) := by
    rw [JsNumber.add, ← hstop, length_append]
    simp only [crlfBytes, length_cons, length_nil]
    push_cast
    ring_nf
  have hlast : JsNumber.add (.finite ((content.length : ℤ) : ℚ)) (stop + 2) = .finite ((pre.length + content.length : ℕ) : ℚ) := by
    rw [JsNumber.add, ← hstop]
    push_cast
    ring_nf
  have hfirst : ((stop : ℚ) + 2) = (pre.length : ℕ) := by exact_mod_cast hstop
  have hgt : (JsNumber.finite ((pre.length + (content ++ crlfBytes).length : ℕ) : ℚ)).gt buf.length = false := by
    simp only [JsNumber.gt, decide_eq_false_iff_not, not_lt, Nat.cast_le, hlen, length_append, crlfBytes, length_cons, length_nil]
    omega
  rw [bulk, hend, hgt, hlast, hfirst]
  simp only [Bool.false_eq_true, if_false, slice, JsNumber.clamp, Int.floor_natCast, Int.toNat_natCast]
  rw [Nat.min_eq_left (by omega), Nat.min_eq_left (by omega), drop_take, hbuf, drop_left, Nat.add_sub_cancel_left, take_left]

mutual

theorem parseAt_wire (r : Reply) (pre rest : Bytes) (fuel : ℕ) (h : r.depth ≤ fuel) :
    parseAt (pre ++ (r.wire ++ rest)) fuel (.finite pre.length) = .ok (r.value, .finite ((pre.length + r.wire.length : ℕ) : ℚ)) := by
  obtain ⟨fuel, rfl⟩ : ∃ n, fuel = n + 1 := ⟨fuel - 1, by cases r <;> simp only [Reply.depth] at h <;> omega⟩
  match r, h with
  | .simple l, _ =>
    obtain ⟨hge, hstop, hline, htype⟩ := header_spec l.2.1
      (show pre ++ ((Reply.simple l).wire ++ rest) = pre ++ (43 :: (l.1 ++ (crlfBytes ++ rest))) by simp [Reply.wire])
    simp only [parseAt, hge, hstop, hline, htype, after_line pre l.1 43]
    rfl
  | .error l, _ =>
    obtain ⟨hge, hstop, hline, htype⟩ := header_spec l.2.1
      (show pre ++ ((Reply.error l).wire ++ rest) = pre ++ (45 :: (l.1 ++ (crlfBytes ++ rest))) by simp [Reply.wire])
    simp only [parseAt, hge, hstop, hline, htype, after_line pre l.1 45]
    rfl
  | .integer n, _ =>
    obtain ⟨hge, hstop, hline, htype⟩ := header_spec (cr_not_mem_encode n)
      (show pre ++ ((Reply.integer n).wire ++ rest) = pre ++ (58 :: (_ ++ (crlfBytes ++ rest))) by simp [Reply.wire])
    simp only [parseAt, hge, hstop, hline, htype, after_line pre _ 58, toNumber_integerText]
    rfl
  | .nullBulk, _ =>
    obtain ⟨hge, hstop, hline, htype⟩ := header_spec (cr_not_mem_encode (-1))
      (show pre ++ (Reply.nullBulk.wire ++ rest) = pre ++ (36 :: (_ ++ (crlfBytes ++ rest))) by simp [Reply.wire])
    simp only [parseAt, hge, hstop, hline, htype, after_line pre _ 36, toNumber_integerText]
    rfl
  | .nullArray, _ =>
    obtain ⟨hge, hstop, hline, htype⟩ := header_spec (cr_not_mem_encode (-1))
      (show pre ++ (Reply.nullArray.wire ++ rest) = pre ++ (42 :: (_ ++ (crlfBytes ++ rest))) by simp [Reply.wire])
    simp only [parseAt, hge, hstop, hline, htype, after_line pre _ 42, toNumber_integerText]
    rfl
  | .bulk content, _ =>
    obtain ⟨hge, hstop, hline, htype⟩ := header_spec (cr_not_mem_encode content.length)
      (show pre ++ ((Reply.bulk content).wire ++ rest) = pre ++ (36 :: (_ ++ (crlfBytes ++ (content ++ (crlfBytes ++ rest)))))
        by simp [Reply.wire])
    have hread : bulk (pre ++ ((Reply.bulk content).wire ++ rest))
        (pre.length + 1 + (Utf8.encode (integerText content.length)).length) (.finite ((content.length : ℤ) : ℚ)) =
        .ok (.text (toText content), .finite ((pre.length + (Reply.bulk content).wire.length : ℕ) : ℚ)) := by
      have hbulk := @bulk_wire rest _ (pre ++ (36 :: (Utf8.encode (integerText content.length) ++ crlfBytes))) content rfl
        (pre.length + 1 + (Utf8.encode (integerText content.length)).length) (by simp [crlfBytes]; omega)
      have hlen : (pre ++ (36 :: (Utf8.encode (integerText content.length) ++ crlfBytes))).length +
          (content ++ crlfBytes).length = pre.length + (Reply.bulk content).wire.length := by
        simp [Reply.wire]
        omega
      rw [hlen] at hbulk
      simpa only [Reply.wire, append_assoc, cons_append] using hbulk
    simp only [parseAt, hge, hstop, hline, htype, toNumber_integerText, natCast_ne_null, hread]
    rfl
  | .array rs, h =>
    obtain ⟨hge, hstop, hline, htype⟩ := header_spec (cr_not_mem_encode rs.length)
      (show pre ++ ((Reply.array rs).wire ++ rest) = pre ++ (42 :: (_ ++ (crlfBytes ++ (wires rs ++ rest)))) by simp [Reply.wire])
    simp only [Reply.depth] at h
    have hmany : parseMany (pre ++ ((Reply.array rs).wire ++ rest)) fuel (.finite ((rs.length : ℤ) : ℚ))
          (.finite ((pre.length + (42 :: (Utf8.encode (integerText rs.length) ++ crlfBytes)).length : ℕ) : ℚ)) =
        .ok (values rs, .finite ((pre.length + (Reply.array rs).wire.length : ℕ) : ℚ)) := by
      have hwires := parseMany_wires rs (pre ++ (42 :: (Utf8.encode (integerText rs.length) ++ crlfBytes))) rest fuel (by omega)
      have hlen : (pre ++ (42 :: (Utf8.encode (integerText rs.length) ++ crlfBytes))).length + (wires rs).length =
          pre.length + (Reply.array rs).wire.length := by
        simp [Reply.wire]
        omega
      rw [hlen, length_append] at hwires
      simpa only [Reply.wire, append_assoc, cons_append, Int.cast_natCast] using hwires
    simp only [parseAt, hge, hstop, hline, htype, toNumber_integerText, natCast_ne_null, after_line pre _ 42, hmany]
    rfl

theorem parseMany_wires (rs : List Reply) (pre rest : Bytes) (fuel : ℕ) (h : depths rs ≤ fuel) :
    parseMany (pre ++ (wires rs ++ rest)) fuel (.finite (rs.length : ℚ)) (.finite pre.length) =
      .ok (values rs, .finite ((pre.length + (wires rs).length : ℕ) : ℚ)) := by
  match rs with
  | [] =>
    obtain ⟨fuel, rfl⟩ : ∃ n, fuel = n + 1 := ⟨fuel - 1, by simp only [depths] at h; omega⟩
    simp [parseMany, JsNumber.gt, wires, values]
  | r :: rs =>
    obtain ⟨fuel, rfl⟩ : ∃ n, fuel = n + 1 := ⟨fuel - 1, by simp only [depths] at h; omega⟩
    simp only [depths] at h
    have hgt : (JsNumber.finite ((r :: rs).length : ℚ)).gt 0 = true := by
      simp only [JsNumber.gt, length_cons, decide_eq_true_eq]
      exact_mod_cast Nat.succ_pos _
    have hleft : (JsNumber.finite ((r :: rs).length : ℚ)).add (-1) = .finite (rs.length : ℚ) := by
      simp [JsNumber.add]
    have hfirst := parseAt_wire r pre (wires rs ++ rest) fuel (by omega)
    have hrest := parseMany_wires rs (pre ++ r.wire) rest fuel (by omega)
    rw [append_assoc, length_append] at hrest
    simp only [parseMany, hgt, hleft, wires, append_assoc, hfirst, hrest, Bool.not_true, Bool.false_eq_true, if_false,
      values, length_append, Nat.add_assoc]

end

theorem parse_wire (r : Reply) (rest : Bytes) (h : r.depth ≤ fuel) : parse fuel (r.wire ++ rest) = .ok (r.value, rest) := by
  have hread := parseAt_wire r [] rest fuel h
  simp only [nil_append, length_nil, Nat.cast_zero, Nat.zero_add] at hread
  rw [parse, hread]
  dsimp only
  rw [offset_finite (Nat.cast_nonneg _), Int.floor_natCast, Int.toNat_natCast, Nat.min_eq_left (by simp), drop_left]

/-- The line that says the text, if one line can. -/
def lineOf (s : Text) : Option Line := if h : 13 ∉ Utf8.encode s ∧ 10 ∉ Utf8.encode s then some ⟨Utf8.encode s, h⟩ else none

def ofNode (r : Redis.Reply) : Option Reply :=
  match r with
  | .simple s => (lineOf s).map .simple
  | .integer n => some (.integer n)
  | .bulk s => some (.bulk (Utf8.encode s))
  | .null => some .nullBulk
  | .moved _ _ _ | .ask _ _ _ | .error _ => (lineOf (r.message.getD [])).map .error

def Agrees : Redis.RespValue → RespValue → Prop
  | .text s, .text t => s = t
  | .number n, .number m => m = .finite n
  | .null, .null => True
  | _, _ => False

theorem toText_lineOf {s : Text} {l : Line} (h : lineOf s = some l) : toText l.1 = s := by
  unfold lineOf at h
  split at h
  · cases h
    exact Postgres.Encoding.toText_encode s
  · cases h

theorem agrees_ofNode {r : Redis.Reply} {r' : Reply} (h : ofNode r = some r') : Agrees r.value r'.value := by
  have herror : ∀ {s l}, lineOf s = some l →
      Agrees (.text ('E' :: 'R' :: 'R' :: ':' :: s)) (.text ('E' :: 'R' :: 'R' :: ':' :: toText l.1)) :=
    fun hl => by rw [toText_lineOf hl]; rfl
  cases r with
  | simple s =>
    obtain ⟨l, hl, rfl⟩ := Option.map_eq_some_iff.1 h
    exact (toText_lineOf hl).symm
  | integer n =>
    cases h
    rfl
  | bulk s =>
    cases h
    exact (Postgres.Encoding.toText_encode s).symm
  | null =>
    cases h
    trivial
  | _ =>
    obtain ⟨l, hl, rfl⟩ := Option.map_eq_some_iff.1 h
    exact herror hl

/-! ## Errors and data -/

/-- `RedisDriver.cmd`, on a reply that came. -/
def cmd : RespValue → Except Text RespValue
  | .text ('E' :: 'R' :: 'R' :: ':' :: message) => .error ("Redis command failed: ".toList ++ message)
  | reply => .ok reply

/-- `RedisClient.get`, on a reply that came. -/
def get : RespValue → Option Text
  | .text s => some s
  | _ => none

def Reply.isError : Reply → Bool
  | .error _ => true
  | _ => false

/-- The text of a string. -/
def Reply.string : Reply → Text
  | .simple l => toText l.1
  | .bulk content => toText content
  | _ => []

/-- With enough calls. -/
def Decodes (r : Reply) (v : RespValue) : Prop := ∃ n, ∀ fuel ≥ n, parse fuel r.wire = .ok (v, [])

theorem decodes_iff {r : Reply} {v : RespValue} : Decodes r v ↔ v = r.value := by
  have hvalue : ∀ fuel ≥ r.depth, parse fuel r.wire = .ok (r.value, []) := fun fuel h => by simpa using parse_wire r [] h
  constructor
  · rintro ⟨n, hn⟩
    have h := (hn _ (le_max_left n r.depth)).symm.trans (hvalue _ (le_max_right n r.depth))
    exact (Prod.mk.inj (Except.ok.inj h)).1
  · rintro rfl
    exact ⟨r.depth, hvalue⟩

theorem cmd_error_iff {v : RespValue} : (∃ message, cmd v = .error message) ↔ ∃ message, v = .text ('E' :: 'R' :: 'R' :: ':' :: message) := by
  constructor
  · rintro ⟨message, h⟩
    unfold cmd at h
    split at h
    · exact ⟨_, rfl⟩
    · cases h
  · rintro ⟨message, rfl⟩
    exact ⟨_, rfl⟩

/-- An error is known from its value, and both clients know it. -/
def ToldApart (r : Reply) : Prop :=
  ∃ v, Decodes r v ∧ (∀ r', Decodes r' v → r'.isError = r.isError) ∧
    ((∃ message, cmd v = .error message) ↔ r.isError = true) ∧ (r.isError = true → get v = none)

end StreetJS.Redis.RespParser
