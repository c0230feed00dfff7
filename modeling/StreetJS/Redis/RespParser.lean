/-
`RespParser` (`core/src/transports/resp.ts`) on bytes that need not be well formed, and the loop that takes the replies
from it. A length may be any number; where no item ends before it has begun, the replies do not depend on the chunks.
-/
import StreetJS.Postgres.Message
import StreetJS.Redis.Wire
import Mathlib.Data.Rat.Floor
import Mathlib.Tactic.Linarith

namespace StreetJS.Redis.RespParser

open List

open StreetJS.Postgres (Bytes toText)

/-! ## Numbers -/

/-- A number, without the rounding of a double. -/
inductive JsNumber where
  | nan
  | infinite (negative : Bool)
  | finite (q : ℚ)
  deriving DecidableEq

/-- A decimal literal whose value is no integer. -/
def fraction (s : Text) : Option ℚ :=
  let whole := s.takeWhile Char.isDigit
  let rest := s.dropWhile Char.isDigit
  let digits := if rest.head? = some '.' then (rest.drop 1).takeWhile Char.isDigit else []
  let rest := if rest.head? = some '.' then (rest.drop 1).dropWhile Char.isDigit else rest
  if whole ++ digits = [] then none
  else (exponent rest).map fun e => Nat.ofDigitChars 10 (whole ++ digits) 0 * (10 : ℚ) ^ (e - digits.length : ℤ)

/-- `Number` -/
def toNumber (s : Text) : JsNumber :=
  match number s with
  | some n => .finite n
  | none =>
    let negative := (trim s).head? = some '-'
    let s := if negative ∨ (trim s).head? = some '+' then (trim s).drop 1 else trim s
    if s = ['I', 'n', 'f', 'i', 'n', 'i', 't', 'y'] then .infinite negative
    else ((fraction s).map fun q => JsNumber.finite (if negative then -q else q)).getD .nan

namespace JsNumber

def add : JsNumber → ℚ → JsNumber
  | finite q, n => finite (q + n)
  | x, _ => x

def ge : JsNumber → ℚ → Bool
  | finite q, r => r ≤ q
  | infinite negative, _ => !negative
  | nan, _ => false

def gt : JsNumber → ℚ → Bool
  | finite q, r => r < q
  | infinite negative, _ => !negative
  | nan, _ => false

/-- An offset as `subarray` and `indexOf` take it: a negative one counts from the end. -/
def offset (length : ℕ) : JsNumber → ℕ
  | finite q =>
    let n := if 0 ≤ q then ⌊q⌋ else ⌈q⌉
    if n < 0 then (length + n).toNat else min n.toNat length
  | infinite false => length
  | _ => 0

/-- An offset as `toString` takes it. -/
def clamp (length : ℕ) : JsNumber → ℕ
  | finite q => min ⌊q⌋.toNat length
  | infinite false => length
  | _ => 0

end JsNumber

/-! ## The parser -/

inductive RespValue where
  | text (s : Text)
  | number (n : JsNumber)
  | null
  | array (vs : List RespValue)

/-- Why there is no value: more bytes are needed, or the calls do not return. -/
inductive Stop where
  | incomplete
  | endless
  deriving DecidableEq

def findCrlf : Bytes → Option ℕ
  | 13 :: 10 :: _ => some 0
  | _ :: s => (findCrlf s).map (· + 1)
  | [] => none

/-- `_lineEnd` -/
def lineEnd (buf : Bytes) (start : JsNumber) : Option ℕ :=
  (findCrlf (buf.drop (start.offset buf.length))).map (start.offset buf.length + ·)

/-- `buf.toString('utf8', start, stop)` -/
def slice (buf : Bytes) (start stop : JsNumber) : Text :=
  toText ((buf.take (stop.clamp buf.length)).drop (start.clamp buf.length))

/-- The first byte of an item; the code of `undefined` is 0. -/
def typeAt (buf : Bytes) : JsNumber → UInt8
  | .finite q => if q.den = 1 ∧ 0 ≤ q then buf.getD q.num.toNat 0 else 0
  | _ => 0

/-- A bulk string, behind the end of its line. -/
def bulk (buf : Bytes) (stop : ℕ) (len : JsNumber) : Except Stop (RespValue × JsNumber) :=
  if (len.add (stop + 4)).gt buf.length then .error .incomplete
  else .ok (.text (slice buf (.finite (stop + 2)) (len.add (stop + 2))), len.add (stop + 4))

mutual

/-- `_parseAt`: the value and the offset behind it, when no more than `fuel` calls are nested. -/
def parseAt (buf : Bytes) : ℕ → JsNumber → Except Stop (RespValue × JsNumber)
  | 0, _ => .error .endless
  | fuel + 1, pos =>
    if pos.ge buf.length then .error .incomplete
    else
      match lineEnd buf (pos.add 1) with
      | none => .error .incomplete
      | some stop =>
        let line := slice buf (pos.add 1) (.finite stop)
        let after : JsNumber := .finite (stop + 2)
        let type := typeAt buf pos
        if type = 45 then .ok (.text ('E' :: 'R' :: 'R' :: ':' :: line), after)
        else if type = 58 then .ok (.number (toNumber line), after)
        else if type = 36 then
          let len := toNumber line
          if len = .finite (-1) then .ok (.null, after) else bulk buf stop len
        else if type = 42 then
          let count := toNumber line
          if count = .finite (-1) then .ok (.null, after)
          else
            match parseMany buf fuel count after with
            | .ok (vs, cursor) => .ok (.array vs, cursor)
            | .error e => .error e
        else .ok (.text line, after)

/-- The elements of an array that are still to come. -/
def parseMany (buf : Bytes) : ℕ → JsNumber → JsNumber → Except Stop (List RespValue × JsNumber)
  | 0, _, _ => .error .endless
  | fuel + 1, left, cursor =>
    if !left.gt 0 then .ok ([], cursor)
    else
      match parseAt buf fuel cursor with
      | .error e => .error e
      | .ok (v, next) =>
        match parseMany buf fuel (left.add (-1)) next with
        | .ok (vs, behind) => .ok (v :: vs, behind)
        | .error e => .error e

end

/-- `parse`, with the bytes that are left. -/
def parse (fuel : ℕ) (buf : Bytes) : Except Stop (RespValue × Bytes) :=
  match parseAt buf fuel (.finite 0) with
  | .ok (v, next) => .ok (v, buf.drop (next.offset buf.length))
  | .error e => .error e

/-- The replies that a chunk completes, each with the number of bytes that it takes, in no more than so many turns of
the loop. -/
def drain (fuel : ℕ) : ℕ → Bytes → Option (List (RespValue × ℕ) × Bytes)
  | 0, _ => none
  | turns + 1, buf =>
    match parse fuel buf with
    | .ok (v, rest) => (drain fuel turns rest).map fun (vs, left) => ((v, buf.length - rest.length) :: vs, left)
    | .error .incomplete => some ([], buf)
    | .error .endless => none

/-- The `data` events of a connection: `push`, and the loop. -/
def receive (fuel : ℕ) : List Bytes → Bytes → Option (List (RespValue × ℕ) × Bytes)
  | [], buf => some ([], buf)
  | chunk :: chunks, buf => do
    let (vs, buf) ← drain fuel fuel (buf ++ chunk)
    let (ws, buf) ← receive fuel chunks buf
    some (vs ++ ws, buf)

/-! ## Items that end behind their first byte -/

/-- An offset at least one byte further. -/
def JsNumber.Passes : JsNumber → JsNumber → Prop
  | .finite p, .finite q => p + 1 ≤ q
  | _, .infinite false => True
  | _, _ => False

mutual

/-- The length of each bulk string that is read from the offset on, in arrays too, is -1 or takes its end behind its
first byte. -/
def Forward (buf : Bytes) : ℕ → JsNumber → Prop
  | 0, _ => True
  | fuel + 1, pos => ∀ stop, pos.ge buf.length = false → lineEnd buf (pos.add 1) = some stop →
    let n := toNumber (slice buf (pos.add 1) (.finite stop))
    n = .finite (-1) ∨ (typeAt buf pos = 36 → pos.Passes (n.add (stop + 4))) ∧
      (typeAt buf pos = 42 → ForwardMany buf fuel n (.finite (stop + 2)))

def ForwardMany (buf : Bytes) : ℕ → JsNumber → JsNumber → Prop
  | 0, _, _ => True
  | fuel + 1, left, cursor => left.gt 0 = true → Forward buf fuel cursor ∧
    ∀ v next, parseAt buf fuel cursor = .ok (v, next) → ForwardMany buf fuel (left.add (-1)) next

end

/-- What the buffer holds while the replies are taken from it. -/
inductive Reached (fuel : ℕ) (s : Bytes) : Bytes → Prop
  | start : Reached fuel s s
  | parsed {buf v rest} : Reached fuel s buf → parse fuel buf = .ok (v, rest) → Reached fuel s rest

/-! ## One reading -/

variable {buf more : Bytes}

theorem offset_finite {q : ℚ} (hq : 0 ≤ q) (length : ℕ) : (JsNumber.finite q).offset length = min ⌊q⌋.toNat length := by
  have hfloor : 0 ≤ ⌊q⌋ := Int.floor_nonneg.2 hq
  simp only [JsNumber.offset, if_pos hq]
  rw [if_neg (by omega)]

theorem toNat_floor_le {q : ℚ} {n : ℕ} (h : q < n + 1) : ⌊q⌋.toNat ≤ n := by
  have hfloor : ⌊q⌋ < (n : ℤ) + 1 := Int.floor_lt.2 (by push_cast; exact h)
  omega

theorem findCrlf_append {s : Bytes} {n : ℕ} (h : findCrlf s = some n) (more : Bytes) : findCrlf (s ++ more) = some n ∧ n + 2 ≤ s.length := by
  fun_induction findCrlf s generalizing n with
  | case1 s =>
    cases h
    exact ⟨rfl, by simp⟩
  | case2 b s hne ih =>
    obtain ⟨k, hk, rfl⟩ := Option.map_eq_some_iff.1 h
    have hrest := ih hk
    refine ⟨?_, by simp only [length_cons]; omega⟩
    rw [cons_append, findCrlf.eq_2, hrest.1, Option.map_some]
    intro t hb ht
    cases s with
    | nil => simp [findCrlf] at hk
    | cons c s =>
      rw [cons_append, List.cons.injEq] at ht
      exact hne s hb (by rw [ht.1])
  | case3 => cases h

/-- What is read of an item before its length does not depend on the bytes behind its line. -/
theorem lineEnd_append {p : ℚ} (hp : 0 ≤ p) (hlt : p < buf.length) {stop : ℕ} (h : lineEnd buf (.finite (p + 1)) = some stop) (more : Bytes) :
    lineEnd (buf ++ more) (.finite (p + 1)) = some stop ∧ p < stop ∧ stop + 2 ≤ buf.length := by
  have hone : (0 : ℚ) ≤ p + 1 := by linarith
  have hfloor : ⌊p + 1⌋.toNat ≤ buf.length := toNat_floor_le (by linarith)
  simp only [lineEnd, offset_finite hone, Nat.min_eq_left hfloor] at h ⊢
  rw [length_append, Nat.min_eq_left (by omega), drop_append_of_le_length hfloor]
  obtain ⟨n, hn, rfl⟩ := Option.map_eq_some_iff.1 h
  have hcrlf := findCrlf_append hn more
  rw [length_drop] at hcrlf
  refine ⟨by rw [hcrlf.1]; rfl, ?_, by omega⟩
  have hlt : p + 1 < ⌊p + 1⌋ + 1 := Int.lt_floor_add_one _
  have hle : (⌊p + 1⌋ : ℚ) ≤ (⌊p + 1⌋.toNat : ℚ) := by exact_mod_cast Int.self_le_toNat _
  push_cast
  linarith [(Nat.cast_nonneg n : (0 : ℚ) ≤ n)]

theorem slice_append {start stop : ℚ} (hstart : start < buf.length + 1) (hstop : stop < buf.length + 1) (more : Bytes) :
    slice (buf ++ more) (.finite start) (.finite stop) = slice buf (.finite start) (.finite stop) := by
  have h₁ := toNat_floor_le hstart
  have h₂ := toNat_floor_le hstop
  simp only [slice, JsNumber.clamp, length_append, Nat.min_eq_left h₁, Nat.min_eq_left h₂]
  rw [Nat.min_eq_left (by omega), Nat.min_eq_left (by omega), take_append_of_le_length h₂]

theorem typeAt_append {p : ℚ} (hlt : p < buf.length) (more : Bytes) : typeAt (buf ++ more) (.finite p) = typeAt buf (.finite p) := by
  simp only [typeAt]
  split
  · next h =>
    have hp : (p.num.toNat : ℚ) = p := by
      conv_rhs => rw [← Rat.num_div_den p, h.1]
      rw [Nat.cast_one, div_one]
      exact_mod_cast Int.toNat_of_nonneg (Rat.num_nonneg.2 h.2)
    have hnum : p.num.toNat < buf.length := by exact_mod_cast hp ▸ hlt
    rw [getD_eq_getElem?_getD, getD_eq_getElem?_getD, getElem?_append_left hnum]
  · rfl

/-- A reading that ends inside the buffer, and is the same with more bytes behind, or else needs more. -/
def Advances {V : Type} (length : ℕ) (p : ℚ) (r r' : Except Stop (V × JsNumber)) : Prop :=
  r = .error .incomplete ∨ ∃ v q, r = .ok (v, .finite q) ∧ r' = .ok (v, .finite q) ∧ p ≤ q ∧ q ≤ length

theorem parseMany_advances {fuel : ℕ} (hparse : ∀ p : ℚ, 0 ≤ p → p ≤ buf.length → 2 * (buf.length - p) + 2 ≤ fuel →
      Forward (buf ++ more) fuel (.finite p) →
      Advances buf.length (p + 1) (parseAt buf fuel (.finite p)) (parseAt (buf ++ more) fuel (.finite p)))
    (hmany : ∀ (left : JsNumber) (p : ℚ), 0 ≤ p → p ≤ buf.length → 2 * (buf.length - p) + 3 ≤ fuel →
      ForwardMany (buf ++ more) fuel left (.finite p) →
      Advances buf.length p (parseMany buf fuel left (.finite p)) (parseMany (buf ++ more) fuel left (.finite p)))
    (left : JsNumber) (p : ℚ) (hp : 0 ≤ p) (hle : p ≤ buf.length) (hfuel : 2 * (buf.length - p) + 3 ≤ (fuel + 1 : ℕ))
    (h : ForwardMany (buf ++ more) (fuel + 1) left (.finite p)) :
    Advances buf.length p (parseMany buf (fuel + 1) left (.finite p)) (parseMany (buf ++ more) (fuel + 1) left (.finite p)) := by
  push_cast at hfuel
  simp only [parseMany]
  cases hleft : left.gt 0 with
  | false => exact .inr ⟨[], p, rfl, rfl, le_rfl, hle⟩
  | true =>
    obtain ⟨hfirst, hrest⟩ := h hleft
    rcases hparse p hp hle (by linarith) hfirst with hv | ⟨v, q, hv, hv', hq, hq'⟩
    · rw [hv]
      exact .inl rfl
    · rw [hv, hv']
      rcases hmany (left.add (-1)) q (by linarith) hq' (by linarith) (hrest v _ hv') with hvs | ⟨vs, q', hvs, hvs', hq₂, hq₃⟩
      · simp only [hvs]
        exact .inl rfl
      · simp only [hvs, hvs']
        exact .inr ⟨v :: vs, q', rfl, rfl, by linarith, hq₃⟩

theorem bulk_advances {p : ℚ} {stop : ℕ} (hend : (stop : ℚ) + 2 ≤ buf.length) {len : JsNumber}
    (h : (JsNumber.finite p).Passes (len.add (stop + 4))) :
    Advances buf.length (p + 1) (bulk buf stop len) (bulk (buf ++ more) stop len) := by
  unfold bulk
  cases len with
  | nan => exact h.elim
  | infinite negative =>
    cases negative
    · exact .inl rfl
    · exact h.elim
  | finite q =>
    have hpass : p + 1 ≤ q + (stop + 4) := h
    simp only [JsNumber.add, JsNumber.gt, decide_eq_true_eq]
    by_cases hlong : (buf.length : ℚ) < q + (stop + 4)
    · exact .inl (if_pos hlong)
    · have hmore : ¬ ((buf ++ more).length : ℚ) < q + (stop + 4) := by
        rw [length_append]
        push_cast
        linarith [(Nat.cast_nonneg more.length : (0 : ℚ) ≤ more.length)]
      rw [if_neg hlong, if_neg hmore, slice_append (by linarith) (by linarith)]
      exact .inr ⟨_, _, rfl, rfl, hpass, by linarith⟩

theorem parseAt_advances {fuel : ℕ} (hmany : ∀ (left : JsNumber) (p : ℚ), 0 ≤ p → p ≤ buf.length → 2 * (buf.length - p) + 3 ≤ fuel →
      ForwardMany (buf ++ more) fuel left (.finite p) →
      Advances buf.length p (parseMany buf fuel left (.finite p)) (parseMany (buf ++ more) fuel left (.finite p)))
    (p : ℚ) (hp : 0 ≤ p) (hfuel : 2 * (buf.length - p) + 2 ≤ (fuel + 1 : ℕ))
    (h : Forward (buf ++ more) (fuel + 1) (.finite p)) :
    Advances buf.length (p + 1) (parseAt buf (fuel + 1) (.finite p)) (parseAt (buf ++ more) (fuel + 1) (.finite p)) := by
  unfold Forward at h
  push_cast at hfuel
  simp only [parseAt]
  cases hge : (JsNumber.finite p).ge buf.length with
  | true => exact .inl (by simp)
  | false =>
    have hlt : p < buf.length := by simpa [JsNumber.ge] using hge
    have hge' : (JsNumber.finite p).ge ((buf ++ more).length) = false := by
      simp only [JsNumber.ge, decide_eq_false_iff_not, not_le, length_append]
      push_cast
      linarith [(Nat.cast_nonneg more.length : (0 : ℚ) ≤ more.length)]
    have hadd : (JsNumber.finite p).add 1 = .finite (p + 1) := rfl
    simp only [hadd] at h ⊢
    cases hstop : lineEnd buf (.finite (p + 1)) with
    | none => exact .inl (by simp)
    | some stop =>
      obtain ⟨hstop', hpos, hend⟩ := lineEnd_append hp hlt hstop more
      have hend' : (stop : ℚ) + 2 ≤ buf.length := by exact_mod_cast hend
      have hline : slice (buf ++ more) (.finite (p + 1)) (.finite stop) = slice buf (.finite (p + 1)) (.finite stop) :=
        slice_append (by linarith) (by linarith) more
      specialize h stop hge' hstop'
      simp only [hge', hstop', hline, typeAt_append hlt, Bool.false_eq_true, if_false] at h ⊢
      generalize typeAt buf (.finite p) = type at h ⊢
      generalize toNumber (slice buf (.finite (p + 1)) (.finite stop)) = n at h ⊢
      have hread : ∀ v : RespValue, Advances buf.length (p + 1) (.ok (v, .finite (stop + 2))) (.ok (v, .finite (stop + 2))) :=
        fun v => .inr ⟨v, _, rfl, rfl, by linarith, hend'⟩
      by_cases h₁ : type = 45
      · simpa only [if_pos h₁] using hread _
      by_cases h₂ : type = 58
      · simpa only [if_neg h₁, if_pos h₂] using hread _
      simp only [if_neg h₁, if_neg h₂]
      by_cases h₃ : type = 36
      · simp only [if_pos h₃]
        by_cases hnull : n = .finite (-1)
        · simpa only [if_pos hnull] using hread _
        · simpa only [if_neg hnull] using bulk_advances hend' ((h.resolve_left hnull).1 h₃)
      by_cases h₄ : type = 42
      · simp only [if_neg h₃, if_pos h₄]
        by_cases hnull : n = .finite (-1)
        · simpa only [if_pos hnull] using hread _
        · simp only [if_neg hnull]
          rcases hmany n (stop + 2) (by linarith) hend' (by linarith) ((h.resolve_left hnull).2 h₄) with hvs | ⟨vs, q, hvs, hvs', hq, hq'⟩
          · rw [hvs]
            exact .inl rfl
          · rw [hvs, hvs']
            exact .inr ⟨_, q, rfl, rfl, by linarith, hq'⟩
      · simpa only [if_neg h₃, if_neg h₄] using hread _

theorem parse_advances (fuel : ℕ) : (∀ p : ℚ, 0 ≤ p → 2 * (buf.length - p) + 2 ≤ fuel → 1 ≤ fuel → Forward (buf ++ more) fuel (.finite p) →
      Advances buf.length (p + 1) (parseAt buf fuel (.finite p)) (parseAt (buf ++ more) fuel (.finite p))) ∧
    ∀ (left : JsNumber) (p : ℚ), 0 ≤ p → p ≤ buf.length → 2 * (buf.length - p) + 3 ≤ fuel → ForwardMany (buf ++ more) fuel left (.finite p) →
      Advances buf.length p (parseMany buf fuel left (.finite p)) (parseMany (buf ++ more) fuel left (.finite p)) := by
  induction fuel with
  | zero =>
    refine ⟨fun _ _ _ h => absurd h (by decide), fun _ p _ hle h => absurd h ?_⟩
    push_cast
    linarith
  | succ fuel ih =>
    refine ⟨fun p hp hfuel _ => parseAt_advances ih.2 p hp hfuel, fun left p hp hle hfuel => ?_⟩
    refine parseMany_advances (fun p hp hle hfuel => ih.1 p hp hfuel ?_) ih.2 left p hp hle hfuel
    have hone : (2 : ℚ) ≤ fuel := by linarith
    have : 2 ≤ fuel := by exact_mod_cast hone
    omega

/-! ## The loop -/

variable {fuel : ℕ}

/-- Every reading of the replies from the buffer goes forward. -/
def Orderly (fuel : ℕ) (s : Bytes) : Prop := ∀ buf, Reached fuel s buf → Forward buf fuel (.finite 0)

theorem Orderly.rest {s rest : Bytes} {v : RespValue} (h : Orderly fuel s) (hparse : parse fuel s = .ok (v, rest)) : Orderly fuel rest := by
  intro buf hbuf
  refine h buf ?_
  induction hbuf with
  | start => exact .parsed .start hparse
  | parsed _ hp ih => exact .parsed ih hp

/-- A value takes at least one byte, and more bytes behind do not matter to it. -/
theorem parse_spec (hfuel : 2 * buf.length + 2 ≤ fuel) (h : Orderly fuel (buf ++ more)) :
    parse fuel buf = .error .incomplete ∨ ∃ v rest, parse fuel buf = .ok (v, rest) ∧
      parse fuel (buf ++ more) = .ok (v, rest ++ more) ∧ rest.length < buf.length := by
  have hcast : 2 * ((buf.length : ℚ) - 0) + 2 ≤ (fuel : ℚ) := by
    rw [sub_zero]
    exact_mod_cast hfuel
  unfold parse
  rcases (parse_advances fuel).1 0 le_rfl hcast (by omega) (h _ .start) with hp | ⟨v, q, hp, hp', hq, hq'⟩
  · rw [hp]
    exact .inl rfl
  · have hfloor : ⌊q⌋.toNat ≤ buf.length := toNat_floor_le (by linarith)
    have hone : 1 ≤ ⌊q⌋ := Int.le_floor.2 (by push_cast; linarith)
    have hoffset : ∀ length, buf.length ≤ length → (JsNumber.finite q).offset length = ⌊q⌋.toNat := fun length hle => by
      rw [offset_finite (by linarith), Nat.min_eq_left (hfloor.trans hle)]
    refine .inr ⟨v, buf.drop ⌊q⌋.toNat, ?_, ?_, ?_⟩
    · simp only [hp, hoffset _ le_rfl]
    · simp only [hp', hoffset (buf ++ more).length (by simp), drop_append_of_le_length hfloor]
    · rw [length_drop]
      omega

theorem drain_unique {m n : ℕ} {x y : List (RespValue × ℕ) × Bytes} (hx : drain fuel m buf = some x)
    (hy : drain fuel n buf = some y) : x = y := by
  induction m generalizing n buf x y with
  | zero => cases hx
  | succ m ih =>
    cases n with
    | zero => cases hy
    | succ n =>
      unfold drain at hx hy
      split at hx
      · next hp =>
        rw [hp] at hy
        obtain ⟨a, ha, rfl⟩ := Option.map_eq_some_iff.1 hx
        obtain ⟨b, hb, rfl⟩ := Option.map_eq_some_iff.1 hy
        rw [ih ha hb]
      · next hp =>
        rw [hp] at hy
        exact Option.some.inj (hx.symm.trans hy)
      · cases hx

/-- The replies of a chunk come first, and those of what is left with the rest of the stream behind them. -/
theorem drain_append {n : ℕ} (hn : buf.length < n) (hfuel : 2 * buf.length + 2 ≤ fuel) (h : Orderly fuel (buf ++ more)) :
    ∃ vs rest, drain fuel n buf = some (vs, rest) ∧ (∀ r ∈ vs, 1 ≤ r.2) ∧ parse fuel rest = .error .incomplete ∧
      Orderly fuel (rest ++ more) ∧ rest.length ≤ buf.length ∧
      ∀ m ws left, drain fuel m (rest ++ more) = some (ws, left) → ∃ m', drain fuel m' (buf ++ more) = some (vs ++ ws, left) := by
  induction n generalizing buf with
  | zero => omega
  | succ n ih =>
    rcases parse_spec hfuel h with hp | ⟨v, rest, hp, hp', hlt⟩
    · exact ⟨[], buf, by simp only [drain, hp], nofun, hp, h, le_rfl, fun m ws left hm => ⟨m, hm⟩⟩
    · obtain ⟨vs, rest', hdrain, hpos, hidle, hord, hle, hmore⟩ := ih (by omega) (by omega) (h.rest hp')
      refine ⟨(v, buf.length - rest.length) :: vs, rest', by simp only [drain, hp, hdrain, Option.map_some], ?_, hidle, hord,
        by omega, fun m ws left hm => ?_⟩
      · rintro r (_ | ⟨_, hr⟩)
        · exact Nat.sub_pos_of_lt hlt
        · exact hpos r hr
      · obtain ⟨m', hm'⟩ := hmore m ws left hm
        refine ⟨m' + 1, ?_⟩
        simp only [drain, hp', hm', Option.map_some, length_append, Nat.add_sub_add_right, cons_append]

theorem receive_spec (chunks : List Bytes) : ∀ buf : Bytes, parse fuel buf = .error .incomplete →
    2 * (buf ++ chunks.flatten).length + 2 ≤ fuel → Orderly fuel (buf ++ chunks.flatten) →
    ∃ vs rest, receive fuel chunks buf = some (vs, rest) ∧ ∃ m left, drain fuel m (buf ++ chunks.flatten) = some (vs, left) := by
  induction chunks with
  | nil =>
    intro buf hp _ _
    exact ⟨[], buf, rfl, 1, buf, by simp only [flatten_nil, append_nil, drain, hp]⟩
  | cons chunk chunks ih =>
    intro buf _ hfuel h
    rw [flatten_cons, ← append_assoc] at hfuel h ⊢
    have hlen : (buf ++ chunk).length ≤ (buf ++ chunk ++ chunks.flatten).length := by simp
    obtain ⟨vs, rest, hdrain, -, hidle, hord, hle, hmore⟩ := drain_append (n := fuel) (by omega) (by omega) h
    have hrest : 2 * (rest ++ chunks.flatten).length + 2 ≤ fuel := by
      simp only [length_append] at *
      omega
    obtain ⟨ws, rest', hreceive, m, left, hm⟩ := ih rest hidle hrest hord
    obtain ⟨m', hm'⟩ := hmore m ws left hm
    exact ⟨vs ++ ws, rest', by simp only [receive, hdrain, hreceive, Option.bind_eq_bind, Option.bind_some], m', left, hm'⟩

/-- The loop ends on every split of the stream into chunks, with the same replies, each of which takes a byte. -/
def Independent (s : Bytes) : Prop :=
  ∃ replies : List (RespValue × ℕ), (∀ r ∈ replies, 1 ≤ r.2) ∧
    ∀ chunks : List Bytes, chunks.flatten = s → ∃ fuel rest, receive fuel chunks [] = some (replies, rest)

end StreetJS.Redis.RespParser
