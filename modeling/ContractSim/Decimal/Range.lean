import ContractSim.Decimal.Shortest

namespace ContractSim.Decimal

-- The number with the given decimal digits.
def ofDigits (digits : List Nat) : Nat := digits.foldl (fun value digit => value * 10 + digit) 0

-- Numbers from this one on round past the largest double. It lies halfway between that double and
-- 2^1024.
def roundingLimit : Nat := Nat.pow 2 1024 - Nat.pow 2 970

-- Every number with more places in front of the point than this is past the largest double.
def mostPlaces : Nat := 400

-- Digits times a power of ten round past the largest double. Numbers below one and those with too
-- many places are told by the place of their first digit, so powers stay small.
def exceedsDoubles (digits : List Nat) (power : Int) : Bool :=
  let digits := digits.dropWhile (· == 0)
  let places : Int := digits.length + power
  if digits.isEmpty || places ≤ 0 then false
  else if mostPlaces < places then true
  else
    let value := (Fraction.mk (ofDigits digits) 1).scale power
    roundingLimit * value.denominator ≤ value.numerator

end ContractSim.Decimal
