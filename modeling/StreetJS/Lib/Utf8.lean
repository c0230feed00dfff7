/-
Text in UTF-8 and in UTF-16: the bytes of a text, and the text that the code units of a string write, in which
a surrogate without its other half stands for the replacement character.
-/
import Mathlib.Data.List.Basic
import Mathlib.Data.UInt

namespace StreetJS.Lib.Utf8

open List

/-! ## Bytes of a text -/

/-- The bytes of a character. -/
def encodeChar (c : Char) : List UInt8 :=
  let n := c.toNat
  if n < 0x80 then [UInt8.ofNat n]
  else if n < 0x800 then [UInt8.ofNat (0xC0 + n / 64), UInt8.ofNat (0x80 + n % 64)]
  else if n < 0x10000 then
    [UInt8.ofNat (0xE0 + n / 4096), UInt8.ofNat (0x80 + n / 64 % 64), UInt8.ofNat (0x80 + n % 64)]
  else
    [UInt8.ofNat (0xF0 + n / 262144), UInt8.ofNat (0x80 + n / 4096 % 64), UInt8.ofNat (0x80 + n / 64 % 64), UInt8.ofNat (0x80 + n % 64)]

def encode (text : List Char) : List UInt8 := text.flatMap encodeChar

@[simp] theorem encode_cons (c : Char) (text : List Char) : encode (c :: text) = encodeChar c ++ encode text := rfl

theorem encode_append (s t : List Char) : encode (s ++ t) = encode s ++ encode t := flatMap_append

theorem toNat_ofNat {n : Nat} (h : n < 256) : (UInt8.ofNat n).toNat = n := UInt8.toNat_ofNat_of_lt' h

/-- A character is no more than the last one. -/
theorem toNat_lt (c : Char) : c.toNat < 0x110000 := by
  rcases c.valid with h | ⟨-, h⟩
  · have hlt : c.toNat < 0xD800 := h
    omega
  · exact h

theorem not_surrogate (c : Char) : c.toNat < 0xD800 ∨ 0xDFFF < c.toNat := by
  rcases c.valid with h | ⟨h, -⟩
  · exact .inl h
  · exact .inr h

/-- Only the NUL has a NUL among its bytes. -/
theorem zero_mem_encodeChar {c : Char} (h : 0 ∈ encodeChar c) : c.toNat = 0 := by
  have hlt := toNat_lt c
  have hzero : ∀ n : Nat, n < 256 → (0 : UInt8) = UInt8.ofNat n → n = 0 := by
    intro n hn heq
    have htoNat := congrArg UInt8.toNat heq
    rw [toNat_ofNat hn] at htoNat
    exact htoNat.symm
  unfold encodeChar at h
  dsimp only at h
  split at h
  · exact hzero _ (by omega) (mem_singleton.1 h)
  · -- every byte of a longer sequence has its first bit set
    have hlong : ∀ bytes : List Nat, (∀ n ∈ bytes, 0 < n ∧ n < 256) → (0 : UInt8) ∉ bytes.map UInt8.ofNat := by
      intro bytes hbytes hmem
      obtain ⟨n, hn, heq⟩ := mem_map.1 hmem
      have := hzero n (hbytes n hn).2 heq.symm
      have := (hbytes n hn).1
      omega
    split at h
    · exact absurd h (hlong [_, _] (by simp; omega))
    · split at h
      · exact absurd h (hlong [_, _, _] (by simp; omega))
      · exact absurd h (hlong [_, _, _, _] (by simp; omega))

theorem zero_mem_encode {text : List Char} (h : 0 ∈ encode text) : '\x00' ∈ text := by
  obtain ⟨c, hc, hzero⟩ := mem_flatMap.1 h
  have hnul : c = '\x00' := Char.toNat_inj.1 (zero_mem_encodeChar hzero)
  exact hnul ▸ hc

/-! ## Text of code units -/

def replacement : Char := '\uFFFD'

def isHigh (u : UInt16) : Bool := 0xD800 ≤ u && u ≤ 0xDBFF

def isLow (u : UInt16) : Bool := 0xDC00 ≤ u && u ≤ 0xDFFF

/-- The text of a string, by its code units. -/
def ofUnits : List UInt16 → List Char
  | [] => []
  | [u] => [if isHigh u || isLow u then replacement else Char.ofNat u.toNat]
  | u :: v :: us =>
    if isHigh u then
      if isLow v then
        Char.ofNat (0x10000 + (u.toNat - 0xD800) * 0x400 + (v.toNat - 0xDC00)) :: ofUnits us
      else replacement :: ofUnits (v :: us)
    else (if isLow u then replacement else Char.ofNat u.toNat) :: ofUnits (v :: us)

theorem isHigh_iff {u : UInt16} : isHigh u = true ↔ 0xD800 ≤ u.toNat ∧ u.toNat ≤ 0xDBFF := by
  simp only [isHigh, Bool.and_eq_true, decide_eq_true_eq, UInt16.le_iff_toNat_le]
  rfl

theorem isLow_iff {u : UInt16} : isLow u = true ↔ 0xDC00 ≤ u.toNat ∧ u.toNat ≤ 0xDFFF := by
  simp only [isLow, Bool.and_eq_true, decide_eq_true_eq, UInt16.le_iff_toNat_le]
  rfl

theorem toNat_ofNat_of_valid {n : Nat} (h : n.isValidChar) : (Char.ofNat n).toNat = n := by
  rw [Char.ofNat, dif_pos h]
  rfl

theorem unit_ne_nul {u : UInt16} (h : u ≠ 0) : (if isHigh u || isLow u then replacement else Char.ofNat u.toNat) ≠ '\x00' := by
  have hlt := u.toNat_lt
  split
  · decide
  · rename_i hlone
    rw [Bool.or_eq_true, isHigh_iff, isLow_iff, not_or] at hlone
    have hvalid : u.toNat.isValidChar := by
      omega
    intro heq
    have hzero := congrArg Char.toNat heq
    rw [toNat_ofNat_of_valid hvalid] at hzero
    exact h (UInt16.toNat_inj.1 hzero)

theorem pair_ne_nul {u v : UInt16} (hu : isHigh u = true) (hv : isLow v = true) :
    Char.ofNat (0x10000 + (u.toNat - 0xD800) * 0x400 + (v.toNat - 0xDC00)) ≠ '\x00' := by
  rw [isHigh_iff] at hu
  rw [isLow_iff] at hv
  have hvalid : (0x10000 + (u.toNat - 0xD800) * 0x400 + (v.toNat - 0xDC00)).isValidChar := by
    omega
  intro heq
  have hzero := congrArg Char.toNat heq
  rw [toNat_ofNat_of_valid hvalid] at hzero
  change _ = 0 at hzero
  omega

theorem nul_not_mem_ofUnits : ∀ (us : List UInt16), 0 ∉ us → '\x00' ∉ ofUnits us
  | [], _ => not_mem_nil
  | [u], h => by
    intro hmem
    exact unit_ne_nul (fun hu => h (hu ▸ mem_cons_self)) (mem_singleton.1 hmem).symm
  | u :: v :: us, h => by
    have hu : u ≠ 0 := fun hu => h (hu ▸ mem_cons_self)
    have hrest : 0 ∉ v :: us := fun hmem => h (mem_cons_of_mem _ hmem)
    have hlone := unit_ne_nul hu
    unfold ofUnits
    split
    · rename_i hhigh
      split
      · rename_i hlow
        rw [mem_cons, not_or]
        exact ⟨(pair_ne_nul hhigh hlow).symm, nul_not_mem_ofUnits us fun hmem => hrest (mem_cons_of_mem _ hmem)⟩
      · rw [mem_cons, not_or]
        exact ⟨by decide, nul_not_mem_ofUnits (v :: us) hrest⟩
    · rename_i hhigh
      rw [Bool.not_eq_true] at hhigh
      rw [hhigh, Bool.false_or] at hlone
      rw [mem_cons, not_or]
      exact ⟨hlone.symm, nul_not_mem_ofUnits (v :: us) hrest⟩

end StreetJS.Lib.Utf8
