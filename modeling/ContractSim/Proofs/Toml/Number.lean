import ContractSim.Proofs.Text.Numeral
import ContractSim.Toml.Number
import Mathlib.Data.List.Basic

namespace ContractSim.Decimal

theorem ofDigits_digitsOf (value : Nat) : ofDigits (digitsOf value) = value := by
  have hread := @Nat.ofDigitChars_ten_toDigits value
  rw [Nat.ofDigitChars_eq_foldl] at hread
  rw [ofDigits, digitsOf, List.foldl_map]
  simpa only [Nat.mul_comm] using hread

theorem isDigit_of_mem_digits {value : Nat} {c : Char} (hc : c ∈ Nat.toDigits 10 value) :
    c.isDigit = true :=
  Nat.isDigit_of_mem_toDigits (by decide) (by decide) hc

-- A number is written without zeros in front.
theorem head?_digitsOf {value : Nat} (hpositive : value ≠ 0) :
    (digitsOf value).head? ≠ some 0 := by
  unfold digitsOf
  induction value using Nat.strongRecOn with
  | ind value ih =>
      rw [Nat.toDigits_eq_if (by decide)]
      split_ifs with hsmall
      · have hdigits : ∀ digit < 10, digit ≠ 0 →
            [Nat.digitChar digit].map (fun c => c.toNat - '0'.toNat) ≠ [0] := by
          decide
        simpa using hdigits value hsmall hpositive
      · have hfront := ih (value / 10) (by omega) (by omega)
        cases hdigits : Nat.toDigits 10 (value / 10) with
        | nil => exact absurd hdigits Nat.toDigits_ne_nil
        | cons c rest =>
            rw [hdigits] at hfront
            exact hfront

end ContractSim.Decimal

namespace ContractSim.Toml

open ContractSim.Decimal ContractSim.Text

section Digits

variable {digits rest : List Char}

theorem digit?_of_isDigit {c : Char} (hdigit : c.isDigit = true) :
    digit? 10 c = some (c.toNat - '0'.toNat) := by
  rw [digit?_ten, if_pos hdigit]

theorem isDigitRun_of_digits (hsome : digits ≠ []) (hdigits : ∀ c ∈ digits, c.isDigit = true) :
    isDigitRun (fun c => (digit? 10 c).isSome) digits = true := by
  induction digits with
  | nil => exact absurd rfl hsome
  | cons c digits ih =>
      obtain ⟨hc, hrest⟩ := List.forall_mem_cons.mp hdigits
      have hread : (digit? 10 c).isSome = true := by rw [digit?_of_isDigit hc]; rfl
      cases digits with
      | nil => exact hread
      | cons d digits =>
          have hd : d ≠ '_' := by
            rintro rfl
            exact absurd (hrest '_' List.mem_cons_self) (by decide)
          rw [isDigitRun.eq_def]
          simp [hd, hread, ih (List.cons_ne_nil d digits) hrest]

theorem run?_toDigits (value : Nat) : run? 10 (Nat.toDigits 10 value) = some (digitsOf value) := by
  have hdigits : ∀ c ∈ Nat.toDigits 10 value, c.isDigit = true := fun c => isDigit_of_mem_digits
  have hvalues : (Nat.toDigits 10 value).filterMap (digit? 10) = digitsOf value := by
    exact List.filterMap_eq_map_iff_forall_eq_some.mpr fun c hc => digit?_of_isDigit (hdigits c hc)
  rw [run?, if_pos (isDigitRun_of_digits Nat.toDigits_ne_nil hdigits), hvalues]

theorem hasLeadingZero_digitsOf (value : Nat) : hasLeadingZero (digitsOf value) = false := by
  by_cases hzero : value = 0
  · subst hzero
    rfl
  · have hhead := head?_digitsOf hzero
    rw [hasLeadingZero.eq_def]
    split
    case h_1 h => exact absurd (by rw [h]; rfl) hhead
    case h_2 => rfl

theorem decimal?_toDigits (value : Nat) :
    decimal? (Nat.toDigits 10 value) = some (.ofNat value) := by
  have hsign : sign (Nat.toDigits 10 value) = (false, Nat.toDigits 10 value) := by
    rw [sign.eq_def]
    split
    case h_1 rest h =>
      have hmem : '-' ∈ Nat.toDigits 10 value := h ▸ List.mem_cons_self
      exact absurd (isDigit_of_mem_digits hmem) (by decide)
    case h_2 rest h =>
      have hmem : '+' ∈ Nat.toDigits 10 value := h ▸ List.mem_cons_self
      exact absurd (isDigit_of_mem_digits hmem) (by decide)
    case h_3 => rfl
  rw [decimal?, hsign]
  simp [run?_toDigits, hasLeadingZero_digitsOf, ofDigits_digitsOf]

-- A signed word is read back from its digits.
theorem integer?_toDigits {value : Nat} (hvalue : value < integerBound) :
    integer? (Nat.toDigits 10 value) = some (.ofNat value) := by
  have hmark : ∀ mark rest, Nat.toDigits 10 value = '0' :: mark :: rest → mark.isDigit = true :=
    fun mark rest h =>
      isDigit_of_mem_digits (h ▸ List.mem_cons_of_mem _ List.mem_cons_self)
  have hrange : -(integerBound : Int) ≤ .ofNat value ∧ .ofNat value < (integerBound : Int) := by
    generalize integerBound = bound at hvalue ⊢
    rw [Int.ofNat_eq_natCast]
    omega
  rw [integer?.eq_4]
  · rw [decimal?_toDigits, Option.bind_eq_bind, Option.bind_some]
    exact if_pos hrange
  · exact fun rest h => absurd (hmark _ _ h) (by decide)
  · exact fun rest h => absurd (hmark _ _ h) (by decide)
  · exact fun rest h => absurd (hmark _ _ h) (by decide)

end Digits

end ContractSim.Toml
