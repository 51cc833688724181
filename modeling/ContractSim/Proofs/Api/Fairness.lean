import ContractSim.Proofs.Api.Shares
import Mathlib.Data.List.Forall2

namespace ContractSim

theorem Word.total_le_length_mul (words : List Word) :
    total words ≤ words.length * (modulus - 1) := by
  induction words with
  | nil => exact Nat.zero_le _
  | cons word rest ih =>
      have hword := toNat_lt_modulus word
      rw [total, List.length_cons, Nat.succ_mul]
      omega

-- A number that has to stay below a bound.
def fitting (bound value : Nat) : Option Nat := if value < bound then some value else none

theorem fitting_of_lt {bound value : Nat} (hlt : value < bound) :
    fitting bound value = some value := if_pos hlt

-- Adds words to a sum one after another. No sum on the way may reach the bound.
def sumWithin (bound : Nat) : Nat → List Word → Option Nat
  | sum, [] => some sum
  | sum, word :: rest => do
      let next ← fitting bound (sum + word.toNat)
      sumWithin bound next rest

theorem sumWithin_eq {bound sum : Nat} {words : List Word}
    (hfits : sum + Word.total words < bound) :
    sumWithin bound sum words = some (sum + Word.total words) := by
  induction words generalizing sum with
  | nil => rfl
  | cons word rest ih =>
      rw [Word.total, ← Nat.add_assoc] at hfits ⊢
      rw [sumWithin, fitting_of_lt (by omega)]
      exact ih hfits

-- Hands shares out one after another. Products have 128 bits. Shares and the sum of what has been
-- handed out have 64, and the last share is what that sum leaves of the amount.
def handOut (amount : Word) (total : Nat) : Nat → List Word → Option (List Word)
  | _, [] => some []
  | assigned, [_] =>
      if assigned ≤ amount.toNat then some [UInt64.ofNat (amount.toNat - assigned)] else none
  | assigned, quantity :: rest => do
      let product ← fitting (2 ^ 128) (amount.toNat * quantity.toNat)
      let share ← fitting (2 ^ 64) (product / total)
      let next ← fitting (2 ^ 64) (assigned + share)
      let shares ← handOut amount total next rest
      return UInt64.ofNat share :: shares

-- A split in numbers of fixed size, with a result only if every number on the way fits.
def splitWithin (amount : Word) (quantities : List Word) : Option (List Word) := do
  let total ← sumWithin (2 ^ 128) 0 quantities
  if total = 0 then return quantities.map fun _ => 0
  handOut amount total 0 quantities

section Fits

variable {amount : Word} {total assigned : Nat}

theorem mul_lt_of_words (left right : Word) : left.toNat * right.toNat < 2 ^ 128 := by
  have hleft : left.toNat < 2 ^ 64 := left.toNat_lt_modulus
  have hright : right.toNat < 2 ^ 64 := right.toNat_lt_modulus
  calc left.toNat * right.toNat < 2 ^ 64 * 2 ^ 64 := Nat.mul_lt_mul'' hleft hright
    _ = 2 ^ 128 := by decide

-- What has been handed out never passes the amount, so all numbers fit up to the last share.
theorem handOut_concat {initial : List Word} (last : Word)
    (hquantities : ∀ quantity ∈ initial, quantity.toNat ≤ total)
    (hassigned : assigned + (initial.map (floorShare amount total)).sum ≤ amount.toNat) :
    handOut amount total assigned (initial ++ [last]) =
      some ((initial.map fun quantity => UInt64.ofNat (floorShare amount total quantity)) ++
        [UInt64.ofNat
          (amount.toNat - (assigned + (initial.map (floorShare amount total)).sum))]) := by
  induction initial generalizing assigned with
  | nil => exact if_pos hassigned
  | cons quantity rest ih =>
      simp only [List.map_cons, List.sum_cons, ← Nat.add_assoc] at hassigned ⊢
      have hword : amount.toNat < 2 ^ 64 := amount.toNat_lt_modulus
      have hproduct := fitting_of_lt (mul_lt_of_words amount quantity)
      have hshare : fitting (2 ^ 64) (amount.toNat * quantity.toNat / total) =
          some (floorShare amount total quantity) :=
        fitting_of_lt (Nat.lt_of_le_of_lt
          (floorShare_le_amount (hquantities quantity List.mem_cons_self)) hword)
      have hnext : fitting (2 ^ 64) (assigned + floorShare amount total quantity) =
          some (assigned + floorShare amount total quantity) := fitting_of_lt (by omega)
      have hrest := ih (fun other hmem => hquantities other (List.mem_cons_of_mem _ hmem))
        hassigned
      -- A quantity with others behind it takes the third branch of the recursion.
      cases hmore : rest ++ [last] with
      | nil => simp at hmore
      | cons next more =>
          rw [hmore] at hrest
          simp only [List.cons_append, hmore, handOut, hproduct, hshare, hnext, hrest,
            Option.bind_eq_bind, Option.bind_some]
          rfl

-- So many words of 64 bits have a sum of 128 bits.
theorem total_lt_of_length {quantities : List Word} (hlength : quantities.length < 2 ^ 64) :
    Word.total quantities < 2 ^ 128 := by
  have htotal := Word.total_le_length_mul quantities
  have hlargest : Word.modulus - 1 < 2 ^ 64 := by decide
  calc Word.total quantities ≤ quantities.length * (Word.modulus - 1) := htotal
    _ < 2 ^ 64 * 2 ^ 64 := Nat.mul_lt_mul'' hlength hlargest
    _ = 2 ^ 128 := by decide

theorem splitWithin_eq (amount : Word) {quantities : List Word}
    (hlength : quantities.length < 2 ^ 64) :
    splitWithin amount quantities = some (proRataShares amount quantities) := by
  have hsum : sumWithin (2 ^ 128) 0 quantities = some (Word.total quantities) := by
    have hfits := total_lt_of_length hlength
    rw [sumWithin_eq (by omega), Nat.zero_add]
  rw [splitWithin, hsum, Option.bind_eq_bind, Option.bind_some]
  split_ifs with hzero
  · rw [proRataShares, if_pos hzero]
    rfl
  · obtain ⟨initial, last, rfl⟩ := exists_concat_of_total hzero
    obtain ⟨rest, hshares, hrest⟩ := proRataShares_concat amount hzero
    have hlast : amount.toNat -
        (0 + (initial.map (floorShare amount (Word.total (initial ++ [last])))).sum) =
        rest.toNat := by
      omega
    rw [hshares, handOut_concat last ?_ (by omega), hlast, UInt64.ofNat_toNat]
    exact fun quantity hmem => toNat_le_total (List.mem_append_left _ hmem)

end Fits

-- A split of an amount in proportion to quantities.
structure FairSplit (amount : Word) (quantities shares : List Word) : Prop where
  length : shares.length = quantities.length
  nothing : Word.total quantities = 0 → ∀ share ∈ shares, share = 0
  total : Word.total quantities ≠ 0 → Word.total shares = amount.toNat
  -- Every share but the last is the exact one rounded down.
  floor : Word.total quantities ≠ 0 →
    List.Forall₂
      (fun quantity share =>
        share.toNat = amount.toNat * quantity.toNat / Word.total quantities)
      quantities.dropLast shares.dropLast
  -- The last one may have what rounding has left on top, less than one for each of the others.
  last : Word.total quantities ≠ 0 →
    ∀ quantity ∈ quantities.getLast?, ∀ share ∈ shares.getLast?,
      amount.toNat * quantity.toNat / Word.total quantities ≤ share.toNat ∧
      share.toNat ≤ amount.toNat * quantity.toNat / Word.total quantities +
        (quantities.length - 1)
  ordered : quantities.Pairwise (· ≤ ·) → shares.Pairwise (· ≤ ·)

section Fairness

theorem floorShare_mono (amount : Word) (total : Nat) {smaller larger : Word}
    (hle : smaller ≤ larger) :
    floorShare amount total smaller ≤ floorShare amount total larger :=
  Nat.div_le_div_right (Nat.mul_le_mul_left _ (UInt64.le_iff_toNat_le.mp hle))

-- Each share that is rounded down loses less than one.
theorem mul_total_le_sum_floorShare (amount : Word) {total : Nat} (hpositive : 0 < total)
    (quantities : List Word) :
    amount.toNat * Word.total quantities ≤
      ((quantities.map (floorShare amount total)).sum + quantities.length) * total := by
  induction quantities with
  | nil => simp [Word.total]
  | cons quantity rest ih =>
      have hlost : amount.toNat * quantity.toNat <
          floorShare amount total quantity * total + total := Nat.lt_div_mul_add hpositive
      rw [Word.total, Nat.mul_add, List.map_cons, List.sum_cons, List.length_cons]
      simp only [Nat.add_mul] at ih ⊢
      omega

-- So the shares but for the last leave little more than the floor of the last.
theorem amount_le_sum_floorShare (amount : Word) {initial : List Word} {last : Word}
    (hpositive : Word.total (initial ++ [last]) ≠ 0) :
    amount.toNat ≤ (initial.map (floorShare amount (Word.total (initial ++ [last])))).sum +
      floorShare amount (Word.total (initial ++ [last])) last + initial.length := by
  have htotal : Word.total (initial ++ [last]) = Word.total initial + last.toNat := by
    rw [Word.total_append, Word.total, Word.total, Nat.add_zero]
  generalize Word.total (initial ++ [last]) = total at hpositive htotal ⊢
  have hothers := mul_total_le_sum_floorShare amount (Nat.pos_of_ne_zero hpositive) initial
  have hlast : amount.toNat * last.toNat < floorShare amount total last * total + total :=
    Nat.lt_div_mul_add (Nat.pos_of_ne_zero hpositive)
  have hall : amount.toNat * total <
      ((initial.map (floorShare amount total)).sum + floorShare amount total last +
        initial.length + 1) * total := by
    rw [htotal, Nat.mul_add, ← htotal]
    simp only [Nat.add_mul] at hothers ⊢
    omega
  exact Nat.lt_succ_iff.mp (Nat.lt_of_mul_lt_mul_right hall)

theorem fairSplit_proRataShares (amount : Word) (quantities : List Word) :
    FairSplit amount quantities (proRataShares amount quantities) := by
  by_cases hzero : Word.total quantities = 0
  · have hshares : proRataShares amount quantities = quantities.map fun _ => 0 := if_pos hzero
    rw [hshares]
    refine ⟨List.length_map _, ?_, fun hpositive => absurd hzero hpositive,
      fun hpositive => absurd hzero hpositive, fun hpositive => absurd hzero hpositive, ?_⟩
    · intro _ share hmem
      obtain ⟨_, -, rfl⟩ := List.mem_map.mp hmem
      rfl
    · intro _
      exact List.pairwise_map.mpr (List.pairwise_of_forall fun _ _ => UInt64.le_refl 0)
  · obtain ⟨initial, last, rfl⟩ := exists_concat_of_total hzero
    obtain ⟨rest, hshares, hrest⟩ := proRataShares_concat amount hzero
    have hle := sum_floorShare_le amount hzero
    have hge := amount_le_sum_floorShare amount hzero
    have hfloor : ∀ quantity ∈ initial,
        (UInt64.ofNat (floorShare amount (Word.total (initial ++ [last])) quantity)).toNat =
          floorShare amount (Word.total (initial ++ [last])) quantity :=
      fun quantity hmem => toNat_ofNat_floorShare (toNat_le_total (List.mem_append_left _ hmem))
    refine ⟨length_proRataShares _ _, fun hnothing => absurd hnothing hzero,
      fun _ => total_proRataShares amount _ hzero, ?_, ?_, ?_⟩
    · intro _
      rw [hshares, List.dropLast_concat, List.dropLast_concat, List.forall₂_map_right_iff,
        List.forall₂_same]
      exact hfloor
    · intro _ quantity hquantity share hshare
      rw [List.getLast?_concat, Option.mem_some_iff] at hquantity
      rw [hshares, List.getLast?_concat, Option.mem_some_iff] at hshare
      subst hquantity hshare
      rw [List.length_append, List.length_singleton, Nat.add_sub_cancel]
      unfold floorShare at hle hge hrest
      omega
    · intro hordered
      obtain ⟨hinitial, -, hlast⟩ := List.pairwise_append.mp hordered
      rw [hshares, List.pairwise_append, List.pairwise_map]
      refine ⟨?_, List.pairwise_singleton _ _, ?_⟩
      · refine hinitial.imp_of_mem ?_
        intro smaller larger hsmaller hlarger hsmall
        rw [UInt64.le_iff_toNat_le, hfloor smaller hsmaller, hfloor larger hlarger]
        exact floorShare_mono amount _ hsmall
      · intro share hmem final hfinal
        obtain ⟨quantity, hquantity, rfl⟩ := List.mem_map.mp hmem
        have hmono := floorShare_mono amount (Word.total (initial ++ [last]))
          (hlast quantity hquantity last List.mem_cons_self)
        rw [List.mem_singleton.mp hfinal, UInt64.le_iff_toNat_le, hfloor quantity hquantity]
        omega

end Fairness

-- Splitting an amount is exact and fair, and needs no more room than its numbers have.
theorem shares_are_exact_and_fair (amount : Word) {quantities : List Word}
    (hlength : quantities.length < 2 ^ 64) :
    FairSplit amount quantities (proRataShares amount quantities) ∧
      splitWithin amount quantities = some (proRataShares amount quantities) :=
  ⟨fairSplit_proRataShares amount quantities, splitWithin_eq amount hlength⟩

-- The largest amount over the largest quantities, where the last share takes what is left.
theorem shares_are_exact_and_fair_largest :
    [Word.top, Word.top, Word.top].length < 2 ^ 64 ∧
      FairSplit (Word.top - 1) [Word.top, Word.top, Word.top]
        [6148914691236517204, 6148914691236517204, 6148914691236517206] ∧
      splitWithin (Word.top - 1) [Word.top, Word.top, Word.top] =
        some [6148914691236517204, 6148914691236517204, 6148914691236517206] := by
  have hlength : [Word.top, Word.top, Word.top].length < 2 ^ 64 := by decide
  have hshares : proRataShares (Word.top - 1) [Word.top, Word.top, Word.top] =
      [6148914691236517204, 6148914691236517204, 6148914691236517206] := by
    decide +kernel
  have hfair := shares_are_exact_and_fair (Word.top - 1) hlength
  rw [hshares] at hfair
  exact ⟨hlength, hfair⟩

end ContractSim
