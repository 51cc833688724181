import ContractSim.Word
import Mathlib.Algebra.GroupWithZero.Nat

namespace ContractSim.Word

theorem toNat_lt_modulus (word : Word) : word.toNat < modulus := UInt64.toNat_lt word

theorem toNat_ofNat {value : Nat} (hvalue : value < modulus) :
    (UInt64.ofNat value).toNat = value :=
  UInt64.toNat_ofNat_of_lt' hvalue

theorem toNat_pos {word : Word} (hword : word ≠ 0) : 0 < word.toNat :=
  Nat.pos_of_ne_zero fun hzero => hword (UInt64.toNat_inj.mp hzero)

theorem min_le_right (left right : Word) : min left right ≤ right := by
  change (if left ≤ right then left else right) ≤ right
  split
  · assumption
  · exact UInt64.le_refl right

theorem toNat_clamp (value : Nat) : (clamp value).toNat = min value (modulus - 1) := by
  unfold clamp
  split
  · rename_i hvalue
    rw [toNat_ofNat hvalue]
    omega
  · have htop : top.toNat = modulus - 1 := rfl
    omega

theorem clamp_toNat (word : Word) : clamp word.toNat = word := by
  rw [clamp, if_pos word.toNat_lt_modulus, UInt64.ofNat_toNat]

-- A sum that has once been too large stays at the largest word.
theorem clamp_toNat_clamp_add (left right : Nat) :
    clamp ((clamp left).toNat + right) = clamp (left + right) := by
  apply UInt64.toNat_inj.mp
  rw [toNat_clamp, toNat_clamp, toNat_clamp]
  omega

theorem saturatingAdd_clamp (total : Nat) (word : Word) :
    saturatingAdd (clamp total) word = clamp (total + word.toNat) :=
  clamp_toNat_clamp_add total word.toNat

-- A sum that is cut off at every step is the exact sum, cut off once.
theorem saturatingSum_eq (words : List Word) : saturatingSum words = clamp (total words) := by
  have hfold (start : Nat) :
      words.foldl saturatingAdd (clamp start) = clamp (start + total words) := by
    induction words generalizing start with
    | nil => rfl
    | cons word rest ih => rw [List.foldl_cons, saturatingAdd_clamp, ih, total, Nat.add_assoc]
  have hzero := hfold 0
  rw [Nat.zero_add] at hzero
  exact hzero

theorem toNat_max (left right : Word) : (max left right).toNat = max left.toNat right.toNat := by
  have hmax : max left right = if left ≤ right then right else left := rfl
  rw [hmax]
  split
  · rename_i hle
    exact (Nat.max_eq_right (UInt64.le_iff_toNat_le.mp hle)).symm
  · rename_i hle
    rw [UInt64.le_iff_toNat_le] at hle
    omega

theorem toNat_lt_of_ne_top {word : Word} (hword : word ≠ top) : word.toNat < modulus - 1 := by
  have hlt := toNat_lt_modulus word
  have htop : top.toNat = modulus - 1 := rfl
  have hne : word.toNat ≠ top.toNat := fun heq => hword (UInt64.toNat_inj.mp heq)
  omega

-- A sum that is a word is not cut off.
theorem toNat_saturatingAdd {left right : Word} (hsum : left.toNat + right.toNat < modulus) :
    (saturatingAdd left right).toNat = left.toNat + right.toNat := by
  rw [saturatingAdd, toNat_clamp]
  omega

theorem lt_saturatingAdd {left right : Word} (hleft : left ≠ top) (hright : right ≠ 0) :
    left < saturatingAdd left right := by
  have hlt := toNat_lt_of_ne_top hleft
  have hpos := toNat_pos hright
  rw [UInt64.lt_iff_toNat_lt, saturatingAdd, toNat_clamp]
  omega

-- A product of numbers other than zero is cut off, but never to zero.
theorem saturatingMul_pos {left right : Word} (hleft : left ≠ 0) (hright : right ≠ 0) :
    0 < (saturatingMul left right).toNat := by
  have hl : 0 < left.toNat := toNat_pos hleft
  have hr : 0 < right.toNat := toNat_pos hright
  have hproduct : 0 < left.toNat * right.toNat := Nat.mul_pos hl hr
  have hmodulus : 1 < modulus := by decide
  rw [saturatingMul, toNat_clamp]
  omega

theorem toNat_add_of_lt {left right : Word} (hsum : left.toNat + right.toNat < modulus) :
    (left + right).toNat = left.toNat + right.toNat := by
  rw [UInt64.toNat_add]
  exact Nat.mod_eq_of_lt hsum

-- The next word is the first that is above.
theorem le_add_one_iff {left right : Word} (hlt : left < right) :
    right ≤ left + 1 ↔ left + 1 = right := by
  rw [UInt64.lt_iff_toNat_lt] at hlt
  have hright := toNat_lt_modulus right
  have hone : (1 : Word).toNat = 1 := rfl
  have hnext : (left + 1).toNat = left.toNat + 1 := toNat_add_of_lt (by omega)
  rw [UInt64.le_iff_toNat_le, ← UInt64.toNat_inj]
  omega

theorem le_add_one {left right : Word} (hle : right ≤ left) (hleft : left ≠ top) :
    right ≤ left + 1 := by
  rw [UInt64.le_iff_toNat_le] at hle ⊢
  have hlt := toNat_lt_of_ne_top hleft
  have hone : (1 : Word).toNat = 1 := rfl
  have hnext : (left + 1).toNat = left.toNat + 1 := toNat_add_of_lt (by omega)
  omega

theorem add_ofNat_succ (word : Word) (index : Nat) :
    word + UInt64.ofNat (index + 1) = word + 1 + UInt64.ofNat index := by
  rw [UInt64.ofNat_add, UInt64.add_comm (UInt64.ofNat index), ← UInt64.add_assoc]
  rfl

theorem checkedAdd_eq_some_iff {left right sum : Word} :
    checkedAdd left right = some sum ↔ left.toNat + right.toNat = sum.toNat := by
  unfold checkedAdd
  split
  · rename_i hsum
    have hadd := toNat_add_of_lt hsum
    rw [Option.some.injEq, ← UInt64.toNat_inj]
    omega
  · have hlt := toNat_lt_modulus sum
    constructor
    · intro hnone
      simp at hnone
    · intro heq
      omega

theorem checkedAdd_eq_none_iff {left right : Word} :
    checkedAdd left right = none ↔ modulus ≤ left.toNat + right.toNat := by
  unfold checkedAdd
  split <;> simp <;> omega

theorem total_eq_sum (words : List Word) : total words = (words.map UInt64.toNat).sum := by
  induction words with
  | nil => rfl
  | cons word rest ih => simp only [total, ih, List.map_cons, List.sum_cons]

theorem total_append (left right : List Word) :
    total (left ++ right) = total left + total right := by
  rw [total_eq_sum, total_eq_sum, total_eq_sum, List.map_append, List.sum_append]

end ContractSim.Word
