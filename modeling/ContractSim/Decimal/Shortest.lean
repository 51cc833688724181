namespace ContractSim.Decimal

-- A decimal number: its digits, the first one not zero, and the power of ten of the first digit.
structure Scientific where
  digits : List Nat
  exponent : Int
deriving DecidableEq, Repr

-- A positive fraction with a denominator that is not zero.
structure Fraction where
  numerator : Nat
  denominator : Nat
deriving DecidableEq, Repr

-- The fraction times a power of ten.
def Fraction.scale (fraction : Fraction) (power : Int) : Fraction :=
  match power with
  | .ofNat n => { fraction with numerator := fraction.numerator * Nat.pow 10 n }
  | .negSucc n => { fraction with denominator := fraction.denominator * Nat.pow 10 (n + 1) }

-- The number of decimal digits of a number.
def digitCount (value : Nat) : Nat := (Nat.toDigits 10 value).length

-- The power of ten of the first digit of a fraction.
def Fraction.exponent (fraction : Fraction) : Int :=
  let guess : Int := (digitCount fraction.numerator : Int) - digitCount fraction.denominator
  let scaled := fraction.scale (-guess)
  if scaled.denominator ≤ scaled.numerator then guess else guess - 1

-- The numbers that round to a value: a range around it with or without its ends. All three
-- numerators belong to one denominator.
structure Rounding where
  low : Nat
  value : Nat
  high : Nat
  denominator : Nat
  closed : Bool

-- A scaled number lies in the range.
def Rounding.holds (range : Rounding) (power : Int) (candidate : Nat) : Bool :=
  let low := (Fraction.mk range.low range.denominator).scale power
  let high := (Fraction.mk range.high range.denominator).scale power
  if range.closed then
    low.numerator ≤ candidate * low.denominator && candidate * high.denominator ≤ high.numerator
  else
    low.numerator < candidate * low.denominator && candidate * high.denominator < high.numerator

-- The neighbour of the value on a decimal grid that lies in the range; of two the nearer one, and
-- the even one where both are equally near.
def Rounding.candidate? (range : Rounding) (power : Int) : Option Nat :=
  let scaled := (Fraction.mk range.value range.denominator).scale power
  let below := scaled.numerator / scaled.denominator
  let rest := scaled.numerator % scaled.denominator
  match range.holds power below, range.holds power (below + 1) with
  | true, true =>
      if 2 * rest < scaled.denominator then some below
      else if scaled.denominator < 2 * rest then some (below + 1)
      else if below % 2 = 0 then some below else some (below + 1)
  | true, false => some below
  | false, true => some (below + 1)
  | false, false => none

-- Digits without the zeros at the end.
def dropZeros (digits : List Nat) : List Nat := (digits.reverse.dropWhile (· == 0)).reverse

-- The decimal digits of a number.
def digitsOf (value : Nat) : List Nat :=
  (Nat.toDigits 10 value).map fun c => c.toNat - '0'.toNat

-- The first grid with a hit, from coarse to fine.
def Rounding.search (range : Rounding) (exponent : Int) : Nat → Nat → Scientific
  | _, 0 => ⟨[0], 0⟩
  | count, limit + 1 =>
      match range.candidate? (count - 1 - exponent) with
      | some found =>
          let digits := digitsOf found
          ⟨dropZeros digits, exponent + (digits.length - count : Int)⟩
      | none => search range exponent (count + 1) limit

-- The range of reals that round to a positive double.
def Rounding.ofBits (bits : UInt64) : Rounding :=
  let fraction := (bits &&& 0xfffffffffffff).toNat
  let biased := ((bits >>> 52) &&& 0x7ff).toNat
  let mantissa := if biased = 0 then fraction else fraction + 0x10000000000000
  let power : Int := (max biased 1 : Int) - 1077
  let gap := if fraction = 0 ∧ 1 < biased then 1 else 2
  let unit := Nat.pow 2 power.toNat
  { low := (4 * mantissa - gap) * unit, value := 4 * mantissa * unit,
    high := (4 * mantissa + 2) * unit, denominator := Nat.pow 2 (-power).toNat,
    closed := mantissa % 2 = 0 }

-- The fewest digits that read back as a positive finite double. Seventeen always do.
def shortest (value : Float) : Scientific :=
  let range := Rounding.ofBits value.toBits
  range.search (Fraction.mk range.value range.denominator).exponent 1 17

end ContractSim.Decimal
