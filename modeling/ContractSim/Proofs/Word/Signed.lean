import ContractSim.Machine.Arithmetic
import ContractSim.Proofs.Word
import Mathlib.Algebra.Group.Int.Defs

namespace ContractSim.Word

-- Two's complement: words from 2^63 on stand for negative numbers.
theorem signed_eq (word : Word) :
    word.signed = if word.toNat < 2 ^ 63 then (word.toNat : Int) else word.toNat - 2 ^ 64 := by
  rw [signed, BitVec.toInt_eq_toNat_cond, UInt64.toNat_toBitVec]
  by_cases hsmall : word.toNat < 2 ^ 63
  · rw [if_pos hsmall, if_pos (by omega)]
  · rw [if_neg hsmall, if_neg (by omega)]
    rfl

theorem signed_bounds (word : Word) : -2 ^ 63 ≤ word.signed ∧ word.signed < 2 ^ 63 := by
  have hlt : word.toNat < 2 ^ 64 := word.toNat_lt_modulus
  rw [signed_eq]
  split <;> omega

-- The two readings of a word differ by a multiple of 2^64.
theorem signed_emod (word : Word) : word.signed % 2 ^ 64 = word.toNat := by
  have hlt : word.toNat < 2 ^ 64 := word.toNat_lt_modulus
  rw [signed_eq]
  split <;> omega

theorem signed_eq_zero_iff {word : Word} : word.signed = 0 ↔ word = 0 := by
  have hlt : word.toNat < 2 ^ 64 := word.toNat_lt_modulus
  have hzero : (0 : Word).toNat = 0 := rfl
  rw [signed_eq, ← UInt64.toNat_inj]
  split <;> omega

theorem toNat_ofInt (value : Int) : ((ofInt value).toNat : Int) = value % 2 ^ 64 := by
  have hnonneg : 0 ≤ value % 2 ^ 64 := Int.emod_nonneg _ (by decide)
  have hlt : value % 2 ^ 64 < 2 ^ 64 := Int.emod_lt_of_pos _ (by decide)
  have hword : (value % 2 ^ 64).toNat < modulus := by
    rw [modulus]
    omega
  rw [ofInt, UInt64.ofInt, toNat_ofNat hword, Int.toNat_of_nonneg hnonneg]

-- A number in the range of the signed reading is read back.
theorem signed_ofInt {value : Int} (hlow : -2 ^ 63 ≤ value) (hhigh : value < 2 ^ 63) :
    (ofInt value).signed = value := by
  have hvalue := toNat_ofInt value
  rw [signed_eq]
  split <;> omega

-- Once the count passes the width, the power of two is a multiple of 2^64.
theorem toNat_shiftLeft (word count : Word) :
    (word.shiftLeft count).toNat = word.toNat * 2 ^ count.toNat % 2 ^ 64 := by
  have hwidth : (64 : Word).toNat = 64 := rfl
  unfold shiftLeft
  by_cases hcount : count < 64
  · rw [UInt64.lt_iff_toNat_lt, hwidth] at hcount
    rw [if_pos (by rwa [UInt64.lt_iff_toNat_lt]), UInt64.toNat_shiftLeft,
      Nat.mod_eq_of_lt hcount, Nat.shiftLeft_eq]
  · rw [if_neg hcount]
    rw [UInt64.lt_iff_toNat_lt, hwidth] at hcount
    have hdvd : 2 ^ 64 ∣ word.toNat * 2 ^ count.toNat :=
      Nat.dvd_mul_left_of_dvd (Nat.pow_dvd_pow 2 (Nat.le_of_not_lt hcount)) _
    exact (Nat.mod_eq_zero_of_dvd hdvd).symm

-- Once the count passes the width, the power of two exceeds every word.
theorem toNat_shiftRight (word count : Word) :
    (word.shiftRight count).toNat = word.toNat / 2 ^ count.toNat := by
  have hwidth : (64 : Word).toNat = 64 := rfl
  unfold shiftRight
  by_cases hcount : count < 64
  · rw [UInt64.lt_iff_toNat_lt, hwidth] at hcount
    rw [if_pos (by rwa [UInt64.lt_iff_toNat_lt]), UInt64.toNat_shiftRight,
      Nat.mod_eq_of_lt hcount, Nat.shiftRight_eq_div_pow]
  · rw [if_neg hcount]
    rw [UInt64.lt_iff_toNat_lt, hwidth] at hcount
    have hlt : word.toNat < 2 ^ 64 := word.toNat_lt_modulus
    have hpower : 2 ^ 64 ≤ 2 ^ count.toNat :=
      Nat.pow_le_pow_right (by decide) (Nat.le_of_not_lt hcount)
    exact (Nat.div_eq_of_lt (Nat.lt_of_lt_of_le hlt hpower)).symm

end ContractSim.Word
