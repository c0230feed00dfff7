/-
Numbers as bytes, the most significant first.
-/
import Mathlib.Data.List.Basic
import Mathlib.Tactic.Ring

namespace StreetJS.Lib.BigEndian

/-- The last bytes of a number. -/
def encode : Nat → Nat → List UInt8
  | 0, _ => []
  | width + 1, v => encode width (v / 256) ++ [UInt8.ofNat v]

def decode (bs : List UInt8) : Nat := bs.foldl (fun v b => v * 256 + b.toNat) 0

@[simp] theorem length_encode (width v : Nat) : (encode width v).length = width := by
  induction width generalizing v with
  | zero => rfl
  | succ width ih => simp [encode, ih]

theorem decode_concat (bs : List UInt8) (b : UInt8) : decode (bs ++ [b]) = decode bs * 256 + b.toNat := by
  simp [decode]

/-- A number that fits is read back. -/
theorem decode_encode {width v : Nat} (h : v < 256 ^ width) : decode (encode width v) = v := by
  induction width generalizing v with
  | zero =>
    simp only [Nat.pow_zero, Nat.lt_one_iff] at h
    rw [h]
    rfl
  | succ width ih =>
    have hdiv : v / 256 < 256 ^ width := by
      apply Nat.div_lt_of_lt_mul
      rwa [Nat.pow_succ, Nat.mul_comm] at h
    have hmod : (UInt8.ofNat v).toNat = v % 256 := UInt8.toNat_ofNat'
    rw [encode, decode_concat, ih hdiv, hmod]
    omega

end StreetJS.Lib.BigEndian
