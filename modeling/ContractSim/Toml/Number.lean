import ContractSim.Decimal.Range
import ContractSim.Text.Numeral
import ContractSim.Toml.Basic

namespace ContractSim.Toml

open ContractSim.Text

-- Digits with single underscores between them.
def isDigitRun (isDigit : Char → Bool) : List Char → Bool
  | [] => false
  | [c] => isDigit c
  | c :: '_' :: rest => isDigit c && isDigitRun isDigit rest
  | c :: rest => isDigit c && isDigitRun isDigit rest

-- The values of the digits in a run that makes up the whole text.
def run? (base : Nat) (text : List Char) : Option (List Nat) :=
  if isDigitRun (fun c => (digit? base c).isSome) text then some (text.filterMap (digit? base))
  else none

def runValue? (base : Nat) (text : List Char) : Option Nat :=
  (run? base text).map fun digits => digits.foldl (fun value digit => base * value + digit) 0

-- The decimal run at the start of a text, and what follows.
def decimalRun? (text : List Char) : Option (List Nat × List Char) :=
  let isPart (c : Char) : Bool := c.isDigit || c == '_'
  (run? 10 (text.takeWhile isPart)).map (·, text.dropWhile isPart)

-- A decimal number has no zero in front.
def hasLeadingZero : List Nat → Bool
  | 0 :: _ :: _ => true
  | _ => false

-- Drops a sign, and tells whether it was a minus.
def sign : List Char → Bool × List Char
  | '-' :: rest => (true, rest)
  | '+' :: rest => (false, rest)
  | rest => (false, rest)

-- A decimal integer with an optional sign.
def decimal? (text : List Char) : Option Int := do
  let (negative, number) := sign text
  let digits ← run? 10 number
  if hasLeadingZero digits then none
  else
    let value : Int := Decimal.ofDigits digits
    some (if negative then -value else value)

-- An integer, which has to be a signed word. Other bases have a mark and no sign.
def integer? (text : List Char) : Option Int := do
  let value ← match text with
    | '0' :: 'x' :: digits => (runValue? 16 digits).map Int.ofNat
    | '0' :: 'o' :: digits => (runValue? 8 digits).map Int.ofNat
    | '0' :: 'b' :: digits => (runValue? 2 digits).map Int.ofNat
    | _ => decimal? text
  if -integerBound ≤ value ∧ value < integerBound then some value else none

-- The exponent that ends a number: a mark, a sign and digits. Without a mark it is zero.
def exponent? : List Char → Option Int
  | [] => some 0
  | c :: rest =>
      if c = 'e' ∨ c = 'E' then do
        let (negative, digits) := sign rest
        let value : Int := Decimal.ofDigits (← run? 10 digits)
        return if negative then -value else value
      else none

-- A finite number, unless it is positive and past the largest double.
def finite? (negative : Bool) (whole fraction : List Nat) (exponent : Int) : Option Value :=
  if !negative && Decimal.exceedsDoubles (whole ++ fraction) (exponent - fraction.length) then none
  else some .real

-- A number with a fraction or an exponent, or one of the special ones.
def real? (text : List Char) : Option Value := do
  let (negative, number) := sign text
  if number = ['i', 'n', 'f'] ∨ number = ['n', 'a', 'n'] then return .real
  let (whole, rest) ← decimalRun? number
  if hasLeadingZero whole then none
  match rest with
  | [] => none
  | '.' :: rest => do
      let (fraction, rest) ← decimalRun? rest
      finite? negative whole fraction (← exponent? rest)
  | rest => do finite? negative whole [] (← exponent? rest)

def isNumberChar (c : Char) : Bool :=
  c.isAlphanum || c == '_' || c == '+' || c == '-' || c == '.'

-- A number or a truth value.
def bare? : List Char → Option Value
  | ['t', 'r', 'u', 'e'] => some (.bool true)
  | ['f', 'a', 'l', 's', 'e'] => some (.bool false)
  | text => ((integer? text).map .integer) <|> real? text

end ContractSim.Toml
