import ContractSim.Hex
import ContractSim.Proofs.Text.Numeral

namespace ContractSim.Hex

open ContractSim.Text

-- The digits of both cases.
def alphabet : List Char := "0123456789abcdefABCDEF".toList

theorem isSome_hexDigit?_iff {c : Char} : (hexDigit? c).isSome ↔ c ∈ alphabet := by
  have hsmall : ∀ code < 103,
      (hexDigit? (Char.ofNat code)).isSome → Char.ofNat code ∈ alphabet := by
    decide +kernel
  have hread : ∀ c ∈ alphabet, (hexDigit? c).isSome := List.all_eq_true.mp (by decide)
  constructor
  · intro hsome
    obtain ⟨digit, hdigit⟩ := Option.isSome_iff_exists.mp hsome
    have hlt := toNat_lt_of_hexDigit? hdigit
    rw [← Char.ofNat_toNat c] at hsome ⊢
    exact hsmall c.toNat hlt hsome
  · exact hread c

-- The digit that is written for a number is read as the number.
theorem hexDigit?_hexDigit {digit : Nat} (hlt : digit < 16) :
    hexDigit? (hexDigit digit) = some digit := by
  have hlower : ∀ digit < 16, (hexDigit digit).toLower = hexDigit digit := by decide
  exact hexDigit?_eq_some_iff.mpr ⟨hlt, hlower digit hlt⟩

theorem encode_cons (byte : UInt8) (bytes : List UInt8) :
    encode (byte :: bytes) =
      hexDigit (byte.toNat / 16) :: hexDigit (byte.toNat % 16) :: encode bytes :=
  rfl

theorem encode_append (front back : List UInt8) :
    encode (front ++ back) = encode front ++ encode back :=
  List.flatMap_append

theorem encode_replicate_zero (count : Nat) :
    encode (List.replicate count 0) = List.replicate (2 * count) '0' := by
  induction count with
  | zero => rfl
  | succ count ih =>
      rw [List.replicate_succ, encode_cons, ih, Nat.mul_succ]
      rfl

@[simp]
theorem length_encode (bytes : List UInt8) : (encode bytes).length = 2 * bytes.length := by
  induction bytes with
  | nil => rfl
  | cons byte rest ih =>
      rw [encode_cons, List.length_cons, List.length_cons, ih, List.length_cons, Nat.mul_succ]

theorem exists_of_mem_encode {c : Char} {bytes : List UInt8} (hmem : c ∈ encode bytes) :
    ∃ digit < 16, c = hexDigit digit := by
  obtain ⟨byte, -, hbyte⟩ := List.mem_flatMap.mp hmem
  have hlt : byte.toNat < 256 := byte.toNat_lt
  rw [encodeByte, List.mem_cons, List.mem_singleton] at hbyte
  rcases hbyte with rfl | rfl
  · exact ⟨_, by omega, rfl⟩
  · exact ⟨_, by omega, rfl⟩

theorem mem_alphabet_of_mem_encode {c : Char} {bytes : List UInt8} (hmem : c ∈ encode bytes) :
    c ∈ alphabet := by
  obtain ⟨digit, hlt, rfl⟩ := exists_of_mem_encode hmem
  rw [← isSome_hexDigit?_iff, hexDigit?_hexDigit hlt]
  rfl

theorem decode?_pair_eq_some_iff {high low : Char} {rest : List Char} {bytes : List UInt8} :
    decode? (high :: low :: rest) = some bytes ↔
      ∃ h l tail, hexDigit? high = some h ∧ hexDigit? low = some l ∧
        decode? rest = some tail ∧ bytes = UInt8.ofNat (16 * h + l) :: tail := by
  rw [decode?]
  cases hexDigit? high <;> cases hexDigit? low <;> cases decode? rest <;> simp [eq_comm]

theorem decode?_encode (bytes : List UInt8) : decode? (encode bytes) = some bytes := by
  induction bytes with
  | nil => rfl
  | cons byte rest ih =>
      have hlt : byte.toNat < 256 := byte.toNat_lt
      have hhigh := hexDigit?_hexDigit (show byte.toNat / 16 < 16 by omega)
      have hlow := hexDigit?_hexDigit (show byte.toNat % 16 < 16 by omega)
      rw [encode_cons, decode?_pair_eq_some_iff]
      refine ⟨_, _, rest, hhigh, hlow, ih, ?_⟩
      rw [Nat.div_add_mod, UInt8.ofNat_toNat]

-- Bytes that were read from digits are written as these digits in lower case.
theorem encode_of_decode? {digits : List Char} {bytes : List UInt8}
    (hdecode : decode? digits = some bytes) : encode bytes = digits.map Char.toLower := by
  match digits with
  | [] =>
      cases hdecode
      rfl
  | [_] => cases hdecode
  | high :: low :: rest =>
      obtain ⟨h, l, tail, hhigh, hlow, htail, rfl⟩ := decode?_pair_eq_some_iff.mp hdecode
      obtain ⟨hh, hhigh⟩ := hexDigit?_eq_some_iff.mp hhigh
      obtain ⟨hl, hlow⟩ := hexDigit?_eq_some_iff.mp hlow
      have hbyte : (UInt8.ofNat (16 * h + l)).toNat = 16 * h + l := by
        rw [UInt8.toNat_ofNat']
        omega
      have hdiv : (16 * h + l) / 16 = h := by omega
      have hmod : (16 * h + l) % 16 = l := by omega
      rw [encode_cons, hbyte, hdiv, hmod, encode_of_decode? htail, ← hhigh, ← hlow]
      rfl

theorem exists_decode?_of_even {digits : List Char} (heven : digits.length % 2 = 0)
    (hdigits : ∀ c ∈ digits, c ∈ alphabet) : ∃ bytes, decode? digits = some bytes := by
  match digits with
  | [] => exact ⟨[], rfl⟩
  | [_] => cases heven
  | high :: low :: rest =>
      obtain ⟨hhigh, hdigits⟩ := List.forall_mem_cons.mp hdigits
      obtain ⟨hlow, hrest⟩ := List.forall_mem_cons.mp hdigits
      rw [← isSome_hexDigit?_iff, Option.isSome_iff_exists] at hhigh hlow
      obtain ⟨h, hhigh⟩ := hhigh
      obtain ⟨l, hlow⟩ := hlow
      have heven : rest.length % 2 = 0 := by
        simp only [List.length_cons] at heven
        omega
      obtain ⟨tail, htail⟩ := exists_decode?_of_even heven hrest
      exact ⟨_, decode?_pair_eq_some_iff.mpr ⟨h, l, tail, hhigh, hlow, htail, rfl⟩⟩

-- Digits are read when they come in pairs.
theorem exists_decode?_iff {digits : List Char} :
    (∃ bytes, decode? digits = some bytes) ↔
      digits.length % 2 = 0 ∧ ∀ c ∈ digits, c ∈ alphabet := by
  constructor
  · rintro ⟨bytes, hdecode⟩
    have hencode := encode_of_decode? hdecode
    constructor
    · rw [← digits.length_map Char.toLower, ← hencode, length_encode, Nat.mul_mod_right]
    · intro c hmem
      have hlower : c.toLower ∈ encode bytes := hencode ▸ List.mem_map_of_mem hmem
      obtain ⟨digit, hlt, hdigit⟩ := exists_of_mem_encode hlower
      rw [← isSome_hexDigit?_iff, hexDigit?_eq_some_iff.mpr ⟨hlt, hdigit⟩]
      rfl
  · rintro ⟨heven, hdigits⟩
    exact exists_decode?_of_even heven hdigits

end ContractSim.Hex
