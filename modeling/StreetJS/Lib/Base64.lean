/-
Base64 of a byte list, with padding, and a decoder that skips every character outside the alphabet
and accepts the URL-safe digits as well. Decoding what was encoded gives the bytes back.
-/
import Mathlib.Data.List.Basic

namespace StreetJS.Lib.Base64

open List

/-- The character of a digit below 64. -/
def charOf (d : Nat) : Char :=
  if d < 26 then Char.ofNat (65 + d)
  else if d < 52 then Char.ofNat (71 + d)
  else if d < 62 then Char.ofNat (d - 4)
  else if d = 62 then '+' else '/'

def digitOf (c : Char) : Option Nat :=
  if 'A' ≤ c ∧ c ≤ 'Z' then some (c.toNat - 65)
  else if 'a' ≤ c ∧ c ≤ 'z' then some (c.toNat - 71)
  else if '0' ≤ c ∧ c ≤ '9' then some (c.toNat + 4)
  else if c = '+' ∨ c = '-' then some 62
  else if c = '/' ∨ c = '_' then some 63
  else none

/-- The digits of a list of bytes, six bits each. -/
def digits : List UInt8 → List Nat
  | [] => []
  | [a] => [a.toNat / 4, a.toNat % 4 * 16]
  | [a, b] => [a.toNat / 4, a.toNat % 4 * 16 + b.toNat / 16, b.toNat % 16 * 4]
  | a :: b :: c :: rest =>
    a.toNat / 4 :: (a.toNat % 4 * 16 + b.toNat / 16) :: (b.toNat % 16 * 4 + c.toNat / 64) :: c.toNat % 64 :: digits rest

/-- The bytes of a list of digits; bits that fill no byte are dropped. -/
def bytes : List Nat → List UInt8
  | w :: x :: y :: z :: rest =>
    UInt8.ofNat (w * 4 + x / 16) :: UInt8.ofNat (x % 16 * 16 + y / 4) :: UInt8.ofNat (y % 4 * 64 + z) :: bytes rest
  | [w, x, y] => [UInt8.ofNat (w * 4 + x / 16), UInt8.ofNat (x % 16 * 16 + y / 4)]
  | [w, x] => [UInt8.ofNat (w * 4 + x / 16)]
  | _ => []

def padding (n : Nat) : List Char :=
  match n % 3 with
  | 1 => ['=', '=']
  | 2 => ['=']
  | _ => []

def encode (content : List UInt8) : String :=
  String.ofList ((digits content).map charOf ++ padding content.length)

def decode (text : String) : List UInt8 := bytes (text.toList.filterMap digitOf)

/-! ## Round trip -/

theorem digitOf_charOf_all : ∀ d, d < 64 → digitOf (charOf d) = some d := by decide

theorem digits_lt (content : List UInt8) : ∀ d ∈ digits content, d < 64 := by
  fun_induction digits content with
  | case1 => simp
  | case2 a =>
    have := a.toNat_lt
    simp only [mem_cons, not_mem_nil, or_false, forall_eq_or_imp, forall_eq]
    omega
  | case3 a b =>
    have := a.toNat_lt
    have := b.toNat_lt
    simp only [mem_cons, not_mem_nil, or_false, forall_eq_or_imp, forall_eq]
    omega
  | case4 a b c rest ih =>
    have := a.toNat_lt
    have := b.toNat_lt
    have := c.toNat_lt
    simp only [mem_cons, forall_eq_or_imp]
    exact ⟨by omega, by omega, by omega, by omega, ih⟩

theorem bytes_digits (content : List UInt8) : bytes (digits content) = content := by
  have hbyte : ∀ (a : UInt8) (n : Nat), n = a.toNat → UInt8.ofNat n = a := by
    rintro a n rfl
    exact UInt8.ofNat_toNat
  fun_induction digits content with
  | case1 => rfl
  | case2 a =>
    show [UInt8.ofNat _] = [a]
    rw [hbyte a _ (by omega)]
  | case3 a b =>
    have := b.toNat_lt
    show [UInt8.ofNat _, UInt8.ofNat _] = [a, b]
    rw [hbyte a _ (by omega), hbyte b _ (by omega)]
  | case4 a b c rest ih =>
    have := b.toNat_lt
    have := c.toNat_lt
    show UInt8.ofNat _ :: UInt8.ofNat _ :: UInt8.ofNat _ :: bytes (digits rest) = _
    rw [hbyte a _ (by omega), hbyte b _ (by omega), hbyte c _ (by omega), ih]

theorem decode_encode (content : List UInt8) : decode (encode content) = content := by
  have hdigits : ∀ ds : List Nat, (∀ d ∈ ds, d < 64) → (ds.map charOf).filterMap digitOf = ds := by
    intro ds
    induction ds with
    | nil => intro _; rfl
    | cons d ds ih =>
      intro h
      rw [map_cons, filterMap_cons_some (digitOf_charOf_all d (h d mem_cons_self)), ih fun e he => h e (mem_cons_of_mem _ he)]
  have hpadding : (padding content.length).filterMap digitOf = [] := by
    unfold padding
    split <;> rfl
  unfold decode encode
  rw [String.toList_ofList, filterMap_append, hdigits _ (digits_lt content), hpadding, append_nil, bytes_digits]

example : encode [77, 97] = "TWE=" := by decide

end StreetJS.Lib.Base64
