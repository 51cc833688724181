import ContractSim.Api.Call
import ContractSim.Proofs.Word
import Mathlib.Algebra.Order.BigOperators.Group.List
import Mathlib.Algebra.Order.Group.Nat

namespace ContractSim

-- The exact share of a quantity, rounded down.
def floorShare (amount : Word) (total : Nat) (quantity : Word) : Nat :=
  amount.toNat * quantity.toNat / total

section Floors

variable {amount quantity : Word} {total : Nat} {quantities : List Word}

theorem toNat_le_total (hmem : quantity ∈ quantities) :
    quantity.toNat ≤ Word.total quantities := by
  rw [Word.total_eq_sum]
  exact List.le_sum_of_mem (List.mem_map_of_mem hmem)

theorem floorShare_le_amount (hquantity : quantity.toNat ≤ total) :
    floorShare amount total quantity ≤ amount.toNat := by
  refine Nat.div_le_of_le_mul ?_
  rw [Nat.mul_comm total]
  exact Nat.mul_le_mul_left _ hquantity

theorem toNat_ofNat_floorShare (hquantity : quantity.toNat ≤ total) :
    (UInt64.ofNat (floorShare amount total quantity)).toNat = floorShare amount total quantity :=
  Word.toNat_ofNat (Nat.lt_of_le_of_lt (floorShare_le_amount hquantity) amount.toNat_lt_modulus)

-- Shares that are rounded down are words, so their sum is exact.
theorem total_map_floorShare (hquantities : ∀ quantity ∈ quantities, quantity.toNat ≤ total) :
    Word.total (quantities.map fun quantity => UInt64.ofNat (floorShare amount total quantity)) =
      (quantities.map (floorShare amount total)).sum := by
  rw [Word.total_eq_sum, List.map_map]
  congr 1
  refine List.map_congr_left ?_
  intro quantity hmem
  exact toNat_ofNat_floorShare (hquantities quantity hmem)

-- Rounding down never gives away more than the exact shares.
theorem sum_floorShare_mul_le (amount : Word) (total : Nat) (quantities : List Word) :
    (quantities.map (floorShare amount total)).sum * total ≤
      amount.toNat * Word.total quantities := by
  induction quantities with
  | nil => simp
  | cons quantity rest ih =>
      have hhead : floorShare amount total quantity * total ≤ amount.toNat * quantity.toNat :=
        Nat.div_mul_le_self _ _
      rw [Word.total, Nat.mul_add, List.map_cons, List.sum_cons, Nat.add_mul]
      omega

end Floors

section Split

variable {last : Word} {initial quantities : List Word}

theorem partialShares_concat (amount : Word) (total : Nat) (initial : List Word) (last : Word) :
    partialShares amount total (initial ++ [last]) =
      initial.map fun quantity => UInt64.ofNat (floorShare amount total quantity) := by
  induction initial with
  | nil => rfl
  | cons quantity rest ih =>
      cases rest with
      | nil => rfl
      | cons next more =>
          simp only [List.cons_append, partialShares, List.map_cons] at ih ⊢
          rw [ih]
          rfl

-- The shares but for the last come to the amount at most, even with the floor of the last.
theorem sum_floorShare_le (amount : Word)
    (hpositive : Word.total (initial ++ [last]) ≠ 0) :
    (initial.map (floorShare amount (Word.total (initial ++ [last])))).sum +
        floorShare amount (Word.total (initial ++ [last])) last ≤ amount.toNat := by
  have hall := sum_floorShare_mul_le amount (Word.total (initial ++ [last])) (initial ++ [last])
  rw [List.map_append, List.sum_append, List.map_singleton, List.sum_singleton] at hall
  exact Nat.le_of_mul_le_mul_right hall (Nat.pos_of_ne_zero hpositive)

theorem exists_concat_of_total (hpositive : Word.total quantities ≠ 0) :
    ∃ initial last, quantities = initial ++ [last] := by
  refine List.eq_nil_or_concat' quantities |>.resolve_left ?_
  rintro rfl
  exact hpositive rfl

-- The last share takes what rounding has left.
theorem proRataShares_concat (amount : Word)
    (hpositive : Word.total (initial ++ [last]) ≠ 0) :
    ∃ rest : Word,
      proRataShares amount (initial ++ [last]) =
        (initial.map fun quantity =>
          UInt64.ofNat (floorShare amount (Word.total (initial ++ [last])) quantity)) ++ [rest] ∧
      (initial.map (floorShare amount (Word.total (initial ++ [last])))).sum + rest.toNat =
        amount.toNat := by
  have hfloors := sum_floorShare_le amount hpositive
  have hsum : Word.total (initial.map fun quantity =>
      UInt64.ofNat (floorShare amount (Word.total (initial ++ [last])) quantity)) =
      (initial.map (floorShare amount (Word.total (initial ++ [last])))).sum :=
    total_map_floorShare fun quantity hmem => toNat_le_total (List.mem_append_left _ hmem)
  refine ⟨_, by rw [proRataShares, if_neg hpositive, partialShares_concat], ?_⟩
  have hword := Word.toNat_lt_modulus amount
  have hofNat : (UInt64.ofNat
      (initial.map (floorShare amount (Word.total (initial ++ [last])))).sum).toNat =
      (initial.map (floorShare amount (Word.total (initial ++ [last])))).sum :=
    Word.toNat_ofNat (by omega)
  rw [hsum, UInt64.toNat_sub_of_le, hofNat]
  · omega
  · rw [UInt64.le_iff_toNat_le, hofNat]
    omega

theorem length_proRataShares (amount : Word) (quantities : List Word) :
    (proRataShares amount quantities).length = quantities.length := by
  by_cases hpositive : Word.total quantities = 0
  · rw [proRataShares, if_pos hpositive, List.length_map]
  · obtain ⟨initial, last, rfl⟩ := exists_concat_of_total hpositive
    obtain ⟨rest, hshares, -⟩ := proRataShares_concat amount hpositive
    rw [hshares, List.length_append, List.length_append, List.length_map, List.length_singleton,
      List.length_singleton]

-- Nothing is lost.
theorem total_proRataShares (amount : Word) (quantities : List Word)
    (hpositive : Word.total quantities ≠ 0) :
    Word.total (proRataShares amount quantities) = amount.toNat := by
  obtain ⟨initial, last, rfl⟩ := exists_concat_of_total hpositive
  obtain ⟨rest, hshares, hsum⟩ := proRataShares_concat amount hpositive
  rw [hshares, Word.total_append, Word.total, Word.total, Nat.add_zero, total_map_floorShare, hsum]
  exact fun quantity hmem => toNat_le_total (List.mem_append_left _ hmem)

end Split

end ContractSim
