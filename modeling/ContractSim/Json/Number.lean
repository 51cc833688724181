import ContractSim.Decimal.Range
import ContractSim.Json.Basic

namespace ContractSim.Json

-- The parts of a number in the text. The lists hold digits.
structure NumberText where
  negative : Bool
  whole : List Nat
  fraction : List Nat
  -- A sign and digits; absent without an exponent mark.
  exponent : Option (Bool × List Nat)

-- Appends digits to a significand as long as it stays a word, and tells how many are left over.
def absorb : Nat → List Nat → Nat × Nat
  | significand, [] => (significand, 0)
  | significand, digit :: rest =>
      if significand * 10 + digit < Word.modulus then absorb (significand * 10 + digit) rest
      else (significand, rest.length + 1)

-- Powers of ten up to this one are doubles.
def largestPower : Nat := 308

def powerOfTen (power : Nat) : Float := Float.ofScientific 1 false power

-- The double next to a positive number times a power of ten, by one multiplication or division,
-- and for very small numbers several. Too large numbers have none.
def scaleDouble : Nat → Float → Int → Option Float
  | 0, value, _ => some value
  | bound + 1, value, power =>
      if power.natAbs ≤ largestPower then
        if 0 ≤ power then
          let scaled := value * powerOfTen power.natAbs
          if scaled.isInf then none else some scaled
        else some (value / powerOfTen power.natAbs)
      else if value == 0 then some value
      else if 0 ≤ power then none
      else scaleDouble bound (value / powerOfTen largestPower) (power + largestPower)

-- Exponents past this one are not counted.
def largestExponent : Nat := 2147483647

-- A double with a significand and a power of ten, to which an exponent is added.
def realOf (negative : Bool) (significand : Nat) (power : Int)
    (exponent : Option (Bool × List Nat)) : Json :=
  let signed (value : Float) : Json := .real (if negative then -value else value)
  let finish (power : Int) : Json :=
    let rounds := power.natAbs / largestPower + 1
    match scaleDouble rounds (UInt64.ofNat significand).toFloat power with
    | some value => signed value
    | none => .unreadable
  match exponent with
  | none => finish power
  | some (below, digits) =>
      let amount := Decimal.ofDigits digits
      if largestExponent < amount then
        if significand = 0 ∨ below then signed 0 else .unreadable
      else finish (if below then power - amount else power + amount)

-- An integer that is a word or a negative signed word stays an integer; all else is a double.
def NumberText.value (number : NumberText) : Json :=
  let (significand, dropped) := absorb 0 number.whole
  if dropped = 0 ∧ number.fraction.isEmpty ∧ number.exponent.isNone then
    if !number.negative then .integer significand
    else if 0 < significand ∧ 2 * significand ≤ Word.modulus then .integer (-significand)
    else realOf true significand 0 none
  else
    let (significand, unused) := absorb significand number.fraction
    let used := number.fraction.length - unused
    realOf number.negative significand ((dropped : Int) - used) number.exponent

end ContractSim.Json
