import Mathlib

/- Machine words as the numbers that they stand for. -/
namespace Words

theorem toNat_pos {n : UInt64} (nonzero : n ≠ 0) : 0 < n.toNat :=
  Nat.pos_of_ne_zero fun zero => nonzero (UInt64.toNat_inj.mp zero)

theorem toNat_min (a b : UInt64) : (min a b).toNat = min a.toNat b.toNat := by
  show (if a ≤ b then a else b).toNat = if a.toNat ≤ b.toNat then a.toNat else b.toNat
  by_cases le : a ≤ b
  · rw [if_pos le, if_pos (UInt64.le_iff_toNat_le.mp le)]
  · rw [if_neg le, if_neg (fun less => le (UInt64.le_iff_toNat_le.mpr less))]

theorem toNat_ofInt (n : Int) : (UInt64.ofInt n).toNat = (n % 2 ^ 64).toNat := by
  unfold UInt64.ofInt
  rw [UInt64.toNat_ofNat']
  omega

theorem toNat_ofInt_nat {n : Nat} (small : n < 2 ^ 64) : (UInt64.ofInt n).toNat = n := by
  rw [toNat_ofInt]
  omega

theorem toNat_toUInt32 {n : Int32} (natural : 0 ≤ n.toInt) : n.toUInt32.toNat = n.toInt.toNat := by
  have value : n.toInt = (n.toUInt32.toNat : Int).bmod (2 ^ 32) := BitVec.toInt_eq_toNat_bmod _
  have small := n.toUInt32.toNat_lt
  rw [Int.bmod] at value
  split at value <;> omega

theorem toNat_lt_two_pow {n : Int32} {bits : Nat} (natural : 0 ≤ n.toInt) (small : n.toInt < 2 ^ bits) :
    n.toInt.toNat < 2 ^ bits := (Int.toNat_lt natural).mpr (by simpa using small)

end Words
