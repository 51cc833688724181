import ContractSim.Proofs.Text.Numeral
import Mathlib.Data.Nat.Digits.Lemmas

namespace ContractSim.Text

-- The value of a digit. Characters that are no digits count as nothing.
def digitValue (c : Char) : Nat := (hexDigit? c).getD 0

-- The number that digits stand for in a base, with the units last.
def number (base : Nat) (digits : List Char) : Nat :=
  Nat.ofDigits base (digits.map digitValue).reverse

-- All characters are digits of a base.
def DigitsOf (base : Nat) (digits : List Char) : Prop := ∀ c ∈ digits, (digit? base c).isSome

instance (base : Nat) (digits : List Char) : Decidable (DigitsOf base digits) :=
  List.decidableBAll _ digits

-- At least one digit behind at most one plus sign, and the number that the digits stand for.
inductive Numeral (base : Nat) : List Char → Nat → Prop
  | plain {digits : List Char} (hsome : digits ≠ []) (hdigits : DigitsOf base digits) :
      Numeral base digits (number base digits)
  | signed {digits : List Char} (hsome : digits ≠ []) (hdigits : DigitsOf base digits) :
      Numeral base ('+' :: digits) (number base digits)

section Number

variable {base bound : Nat} {c : Char} {digits : List Char}

theorem digit?_eq_some_iff {digit : Nat} :
    digit? base c = some digit ↔ hexDigit? c = some digit ∧ digit < base := by
  rw [digit?, Option.filter_eq_some_iff, decide_eq_true_eq]

theorem digitValue_eq {digit : Nat} (hdigit : digit? base c = some digit) :
    digitValue c = digit ∧ digit < base := by
  obtain ⟨hhex, hlt⟩ := digit?_eq_some_iff.mp hdigit
  rw [digitValue, hhex]
  exact ⟨rfl, hlt⟩

theorem number_cons (base : Nat) (c : Char) (digits : List Char) :
    number base (c :: digits) = digitValue c * base ^ digits.length + number base digits := by
  rw [number, List.map_cons, List.reverse_cons, Nat.ofDigits_append, Nat.ofDigits_singleton,
    List.length_reverse, List.length_map, ← number]
  ring

theorem number_lt (hdigits : DigitsOf base digits) : number base digits < base ^ digits.length := by
  induction digits with
  | nil => simp [number]
  | cons c rest ih =>
      obtain ⟨hc, hrest⟩ := List.forall_mem_cons.mp hdigits
      obtain ⟨digit, hdigit⟩ := Option.isSome_iff_exists.mp hc
      obtain ⟨hvalue, hlt⟩ := digitValue_eq hdigit
      have hnumber := ih hrest
      rw [number_cons, hvalue, List.length_cons, Nat.pow_succ']
      calc digit * base ^ rest.length + number base rest
          < digit * base ^ rest.length + base ^ rest.length := by omega
        _ = (digit + 1) * base ^ rest.length := by ring
        _ ≤ base * base ^ rest.length := Nat.mul_le_mul_right _ hlt

-- Zeros at the end shift a number to the left.
theorem number_append_zeros (base : Nat) (digits : List Char) (count : Nat) :
    number base (digits ++ List.replicate count '0') = number base digits * base ^ count := by
  have hzero : digitValue '0' = 0 := rfl
  rw [number, List.map_append, List.reverse_append, List.map_replicate, List.reverse_replicate,
    Nat.ofDigits_append, List.length_replicate, hzero, ← number]
  have hzeros : Nat.ofDigits base (List.replicate count 0) = 0 := by
    induction count with
    | zero => rfl
    | succ count ih => simp [List.replicate_succ, Nat.ofDigits_cons, ih]
  rw [hzeros]
  ring

end Number

section Reading

variable {base bound value : Nat} {digits text : List Char}

-- Digits behind a number that has been read stand for one number together with it, which is what
-- reading gives, as long as it is below the bound.
theorem readDigits_of_digits {read : Nat} (hdigits : DigitsOf base digits) (hread : read < bound) :
    readDigits base bound read digits =
      if read * base ^ digits.length + number base digits < bound then
        .ok (read * base ^ digits.length + number base digits)
      else .error .overflow := by
  induction digits generalizing read with
  | nil => simp [readDigits, number, hread]
  | cons c rest ih =>
      obtain ⟨hc, hrest⟩ := List.forall_mem_cons.mp hdigits
      obtain ⟨digit, hdigit⟩ := Option.isSome_iff_exists.mp hc
      obtain ⟨hvalue, hlt⟩ := digitValue_eq hdigit
      have hwhole : read * base ^ (c :: rest).length + number base (c :: rest) =
          (read * base + digit) * base ^ rest.length + number base rest := by
        rw [number_cons, hvalue, List.length_cons]
        ring
      have hnext : readDigits base bound read (c :: rest) =
          if read * base + digit < bound then readDigits base bound (read * base + digit) rest
          else .error .overflow := by
        rw [readDigits, hdigit]
      rw [hwhole, hnext]
      by_cases hfits : read * base + digit < bound
      · rw [if_pos hfits, ih hrest hfits]
      · have hpower : 0 < base ^ rest.length := Nat.pow_pos (by omega)
        have hgrows := Nat.le_mul_of_pos_right (read * base + digit) hpower
        rw [if_neg hfits, if_neg (by omega)]

theorem digitsOf_of_readDigits {read : Nat}
    (hok : readDigits base bound read digits = .ok value) : DigitsOf base digits := by
  induction digits generalizing read with
  | nil => exact List.forall_mem_nil _
  | cons c rest ih =>
      rw [readDigits] at hok
      cases hdigit : digit? base c with
      | none => simp [hdigit] at hok
      | some digit =>
          simp only [hdigit] at hok
          split_ifs at hok with hfits
          exact List.forall_mem_cons.mpr ⟨by simp [hdigit], ih hok⟩

theorem not_mem_of_digitsOf {c : Char} (hdigits : DigitsOf base digits) (hc : hexDigit? c = none) :
    c ∉ digits := by
  intro hmem
  have hsome := hdigits c hmem
  simp [digit?, hc] at hsome

-- A plus sign is no digit, so only a sign is dropped.
theorem dropPlus_of_digitsOf (hdigits : DigitsOf base digits) : dropPlus digits = digits := by
  have hplus := not_mem_of_digitsOf hdigits (by decide : hexDigit? '+' = none)
  unfold dropPlus
  split
  · exact absurd List.mem_cons_self hplus
  · rfl

theorem readNumeral_of_dropPlus (hbound : 0 < bound) (hsome : digits ≠ [])
    (hdigits : DigitsOf base digits) (hdrop : dropPlus text = digits) :
    readNumeral base bound text =
      if number base digits < bound then .ok (number base digits) else .error .overflow := by
  have hread : readNumeral base bound text = readDigits base bound 0 digits := by
    rw [readNumeral, hdrop]
    cases digits with
    | nil => exact absurd rfl hsome
    | cons c rest => rfl
  rw [hread, readDigits_of_digits hdigits hbound, Nat.zero_mul, Nat.zero_add]

theorem readNumeral_of_numeral (hbound : 0 < bound) (hnumeral : Numeral base text value) :
    readNumeral base bound text = if value < bound then .ok value else .error .overflow := by
  cases hnumeral with
  | plain hsome hdigits =>
      exact readNumeral_of_dropPlus hbound hsome hdigits (dropPlus_of_digitsOf hdigits)
  | signed hsome hdigits => exact readNumeral_of_dropPlus hbound hsome hdigits rfl

theorem exists_numeral_of_readNumeral (hok : readNumeral base bound text = .ok value) :
    ∃ number, Numeral base text number := by
  have hsome : dropPlus text ≠ [] := by
    intro hnil
    rw [readNumeral, hnil] at hok
    cases hok
  have hdigits : DigitsOf base (dropPlus text) := by
    apply @digitsOf_of_readDigits base bound value _ 0
    rw [readNumeral] at hok
    cases hdrop : dropPlus text with
    | nil => exact absurd hdrop hsome
    | cons c rest => simpa [hdrop] using hok
  revert hsome hdigits
  unfold dropPlus
  split
  · exact fun hsome hdigits => ⟨_, .signed hsome hdigits⟩
  · exact fun hsome hdigits => ⟨_, .plain hsome hdigits⟩

theorem Numeral.ne_nil (hnumeral : Numeral base text value) : text ≠ [] := by
  cases hnumeral with
  | plain hsome _ => exact hsome
  | signed _ _ => exact List.cons_ne_nil _ _

-- A numeral is made of digits and plus signs.
theorem not_mem_of_numeral {c : Char} (hnumeral : Numeral base text value)
    (hc : hexDigit? c = none) (hplus : c ≠ '+') : c ∉ text := by
  cases hnumeral with
  | plain _ hdigits => exact not_mem_of_digitsOf hdigits hc
  | signed _ hdigits =>
      rw [List.mem_cons, not_or]
      exact ⟨hplus, not_mem_of_digitsOf hdigits hc⟩

end Reading

end ContractSim.Text
