import ContractSim.Text.Numeral
import Mathlib.Algebra.Group.Nat.Defs
import Mathlib.Tactic.SplitIfs

namespace ContractSim.Text

-- Letters beyond the hexadecimal ones come behind both cases of them.
theorem toNat_lt_of_hexDigit? {c : Char} {digit : Nat} (hdigit : hexDigit? c = some digit) :
    c.toNat < 103 := by
  have hle : ∀ bound : Char, c ≤ bound → c.toNat ≤ bound.toNat := fun _ hbound => hbound
  unfold hexDigit? at hdigit
  split_ifs at hdigit with hdecimal hlower hupper
  · exact Nat.lt_of_le_of_lt (hle '9' hdecimal.2) (by decide)
  · exact Nat.lt_of_le_of_lt (hle 'f' hlower.2) (by decide)
  · exact Nat.lt_of_le_of_lt (hle 'F' hupper.2) (by decide)

theorem toNat_le_toLower (c : Char) : c.toNat ≤ c.toLower.toNat := by
  unfold Char.toLower
  split_ifs with hletter
  · have hupper : c.val.toNat ≤ 90 := hletter.2
    have hstep : ('a'.val - 'A'.val).toNat = 32 := rfl
    change c.val.toNat ≤ (c.val + ('a'.val - 'A'.val)).toNat
    rw [UInt32.toNat_add, hstep]
    omega
  · exact Nat.le_refl _

-- A character is a digit when the lower case of it is the way to write the digit.
theorem hexDigit?_eq_some_iff {c : Char} {digit : Nat} :
    hexDigit? c = some digit ↔ digit < 16 ∧ c.toLower = hexDigit digit := by
  have hsmall : ∀ code < 103, ∀ digit < 16,
      (hexDigit? (Char.ofNat code) = some digit ↔
        (Char.ofNat code).toLower = hexDigit digit) := by
    decide +kernel
  have hvalue : ∀ code < 103, ∀ digit ∈ hexDigit? (Char.ofNat code), digit < 16 := by
    decide +kernel
  have hwritten : ∀ digit < 16, (hexDigit digit).toNat < 103 := by decide
  constructor
  · intro hdigit
    have hcode := toNat_lt_of_hexDigit? hdigit
    rw [← Char.ofNat_toNat c] at hdigit
    have hlt := hvalue c.toNat hcode digit hdigit
    rw [hsmall c.toNat hcode digit hlt, Char.ofNat_toNat] at hdigit
    exact ⟨hlt, hdigit⟩
  · rintro ⟨hlt, hlower⟩
    have hcode : c.toNat < 103 := by
      have hle := toNat_le_toLower c
      rw [hlower] at hle
      exact Nat.lt_of_le_of_lt hle (hwritten digit hlt)
    rw [← Char.ofNat_toNat c] at hlower ⊢
    exact (hsmall c.toNat hcode digit hlt).mpr hlower

theorem digit?_sixteen (c : Char) : digit? 16 c = hexDigit? c := by
  unfold digit?
  cases hdigit : hexDigit? c with
  | none => rfl
  | some digit =>
      have hlt := (hexDigit?_eq_some_iff.mp hdigit).1
      rw [Option.filter_some, if_pos (decide_eq_true hlt)]

@[simp]
theorem length_hexDigits (width value : Nat) : (hexDigits width value).length = width := by
  induction width generalizing value with
  | zero => rfl
  | succ width ih => rw [hexDigits, List.length_append, ih, List.length_singleton]

-- The digit of highest value comes first.
theorem hexDigits_succ (width value : Nat) :
    hexDigits (width + 1) value =
      hexDigit (value / 16 ^ width % 16) :: hexDigits width value := by
  induction width generalizing value with
  | zero => simp [hexDigits]
  | succ width ih =>
      rw [hexDigits, ih, hexDigits, List.cons_append, Nat.div_div_eq_div_mul, Nat.pow_succ']

theorem exists_of_mem_hexDigits {width value : Nat} {c : Char}
    (hmem : c ∈ hexDigits width value) : ∃ digit < 16, c = hexDigit digit := by
  induction width generalizing value with
  | zero => cases hmem
  | succ width ih =>
      rw [hexDigits_succ] at hmem
      rcases List.mem_cons.mp hmem with rfl | hrest
      · exact ⟨_, Nat.mod_lt _ (by decide), rfl⟩
      · exact ih hrest

-- Digits of either case are read as the number whose last digits they are, behind what has been
-- read of it before.
theorem readDigits_eq_ok_iff {bound read value : Nat} {digits : List Char}
    (hroom : (read + 1) * 16 ^ digits.length ≤ bound) :
    readDigits 16 bound read digits = .ok value ↔
      digits.map Char.toLower = hexDigits digits.length value ∧
        value / 16 ^ digits.length = read := by
  induction digits generalizing read with
  | nil =>
      simp only [readDigits, Except.ok.injEq, List.map_nil, List.length_nil, hexDigits, true_and,
        Nat.pow_zero, Nat.div_one]
      exact eq_comm
  | cons c rest ih =>
      rw [List.length_cons, Nat.pow_succ, Nat.mul_comm _ 16, ← Nat.mul_assoc] at hroom
      have hpositive : 0 < 16 ^ rest.length := Nat.pow_pos (by decide)
      have htop : value / 16 ^ (rest.length + 1) = value / 16 ^ rest.length / 16 := by
        rw [Nat.pow_succ, Nat.div_div_eq_div_mul]
      rw [List.length_cons, List.map_cons, hexDigits_succ, List.cons.injEq, htop]
      cases hdigit : hexDigit? c with
      | none =>
          have hnone : readDigits 16 bound read (c :: rest) = .error .invalid := by
            rw [readDigits, digit?_sixteen, hdigit]
          rw [hnone]
          constructor
          · intro hok
            cases hok
          · rintro ⟨⟨hlower, -⟩, -⟩
            have hsome := hexDigit?_eq_some_iff.mpr ⟨Nat.mod_lt _ (by decide), hlower⟩
            rw [hdigit] at hsome
            cases hsome
      | some digit =>
          obtain ⟨hlt, hlower⟩ := hexDigit?_eq_some_iff.mp hdigit
          have hnext : (read * 16 + digit + 1) * 16 ^ rest.length ≤ bound :=
            Nat.le_trans (Nat.mul_le_mul_right _ (by omega)) hroom
          have hfits : read * 16 + digit < bound := by
            have hone := Nat.le_mul_of_pos_right (read * 16 + digit + 1) hpositive
            omega
          have hsome : readDigits 16 bound read (c :: rest) =
              readDigits 16 bound (read * 16 + digit) rest := by
            rw [readDigits, digit?_sixteen, hdigit]
            exact if_pos hfits
          rw [hsome, ih hnext]
          generalize value / 16 ^ rest.length = high
          constructor
          · rintro ⟨hrest, rfl⟩
            have hmod : (read * 16 + digit) % 16 = digit := by omega
            rw [hmod]
            exact ⟨⟨hlower, hrest⟩, by omega⟩
          · rintro ⟨⟨hfirst, hrest⟩, hread⟩
            have hsame := hexDigit?_eq_some_iff.mpr ⟨Nat.mod_lt high (by decide : 0 < 16), hfirst⟩
            rw [hdigit, Option.some.injEq] at hsame
            exact ⟨hrest, by omega⟩

section Decimal

-- Reads one more decimal digit behind a number.
def appendDigit (value : Nat) (c : Char) : Nat := value * 10 + (c.toNat - '0'.toNat)

-- The number that decimal digits stand for.
def decimal (digits : List Char) : Nat := digits.foldl appendDigit 0

theorem le_foldl_appendDigit (value : Nat) (digits : List Char) :
    value ≤ digits.foldl appendDigit value := by
  induction digits generalizing value with
  | nil => exact Nat.le_refl _
  | cons c rest ih =>
      have hrest := ih (appendDigit value c)
      rw [List.foldl_cons]
      unfold appendDigit at hrest ⊢
      omega

theorem digit?_ten (c : Char) :
    digit? 10 c = if c.isDigit then some (c.toNat - '0'.toNat) else none := by
  have hisDigit : c.isDigit = true ↔ '0' ≤ c ∧ c ≤ '9' := by
    rw [Char.isDigit, Bool.and_eq_true, decide_eq_true_eq, decide_eq_true_eq]
    rfl
  have hle : ∀ bound : Char, c ≤ bound → c.toNat ≤ bound.toNat := fun _ hbound => hbound
  unfold digit? hexDigit?
  simp only [hisDigit]
  split_ifs with hdecimal hlower hupper
  · have hsmall := hle '9' hdecimal.2
    have hnine : '9'.toNat = 57 := rfl
    have hzero : '0'.toNat = 48 := rfl
    rw [Option.filter_some, if_pos (by rw [decide_eq_true_eq]; omega)]
  · rw [Option.filter_some, if_neg (by rw [decide_eq_true_eq]; omega)]
  · rw [Option.filter_some, if_neg (by rw [decide_eq_true_eq]; omega)]
  · rfl

-- Digits are read as the number that they stand for, if it is below the bound.
theorem readDigits_ten_eq_ok_iff {bound read value : Nat} {digits : List Char}
    (hread : read < bound) :
    readDigits 10 bound read digits = .ok value ↔
      (∀ c ∈ digits, c.isDigit = true) ∧ digits.foldl appendDigit read = value ∧
        value < bound := by
  induction digits generalizing read with
  | nil =>
      rw [readDigits, Except.ok.injEq, List.foldl_nil]
      constructor
      · rintro rfl
        exact ⟨List.forall_mem_nil _, rfl, hread⟩
      · rintro ⟨-, rfl, -⟩
        rfl
  | cons c rest ih =>
      rw [readDigits, digit?_ten, List.forall_mem_cons, List.foldl_cons]
      by_cases hdigit : c.isDigit = true
      · simp only [hdigit, ite_true, true_and]
        change (if appendDigit read c < bound then readDigits 10 bound (appendDigit read c) rest
          else .error .overflow) = .ok value ↔ _
        split_ifs with hfits
        · exact ih hfits
        · constructor
          · intro hok
            cases hok
          · rintro ⟨-, rfl, hvalue⟩
            exact absurd (Nat.lt_of_le_of_lt (le_foldl_appendDigit _ rest) hvalue) hfits
      · simp only [hdigit, Bool.false_eq_true, ite_false, false_and, reduceCtorEq]

-- A decimal numeral has digits, behind at most one plus sign.
theorem readNumeral_ten_eq_ok_iff {bound value : Nat} {text : List Char} (hbound : 0 < bound) :
    readNumeral 10 bound text = .ok value ↔
      dropPlus text ≠ [] ∧ (∀ c ∈ dropPlus text, c.isDigit = true) ∧
        decimal (dropPlus text) = value ∧ value < bound := by
  rw [decimal, ← readDigits_ten_eq_ok_iff hbound, readNumeral]
  cases dropPlus text with
  | nil => simp
  | cons c rest => simp

end Decimal

end ContractSim.Text
