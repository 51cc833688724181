import ContractSim.Text.Basic
import ContractSim.Text.Numeral
import ContractSim.Word

namespace ContractSim

-- Why a text is no number of a scenario.
inductive LiteralError where
  | invalid
  | outOfRange
deriving DecidableEq, Repr

namespace Literal

open ContractSim.Text

-- Decimal places of a coin.
def coinDecimals : Nat := 8

-- The smallest amounts in a coin.
def coinUnits : Nat := 100000000

-- Whole coins are counted below 2^128.
def coinBound : Nat := Word.modulus * Word.modulus

-- The text without blanks at its ends and without underscores, in lower case.
def normalize (text : String) : List Char :=
  ((trim text.toList).filter (· != '_')).map Char.toLower

-- The text in front of an expected ending.
def before? (ending text : List Char) : Option (List Char) :=
  if ending.isSuffixOf text then some (text.take (text.length - ending.length)) else none

def ofNumeral : Except NumeralError Nat → Except LiteralError Nat
  | .ok value => .ok value
  | .error .invalid => .error .invalid
  | .error .overflow => .error .outOfRange

-- A number that has to be a word.
def word (value : Nat) : Except LiteralError Word :=
  if value < Word.modulus then .ok (UInt64.ofNat value) else .error .outOfRange

-- The whole coins in front of a point; none count as zero.
def wholeCoins (text : List Char) : Except LiteralError Nat :=
  if text.isEmpty then .ok 0 else ofNumeral (readNumeral 10 coinBound text)

-- An amount in coins, with at most eight decimal places. It has digits on one side of the point at
-- least.
def coins (text : List Char) : Except LiteralError Word := do
  let whole := text.takeWhile (· != '.')
  let fraction := (text.dropWhile (· != '.')).drop 1
  if whole.isEmpty ∧ fraction.isEmpty then throw .invalid
  if coinDecimals < fraction.length ∨ !fraction.all Char.isDigit then throw .invalid
  let whole ← wholeCoins whole
  let places := fraction ++ List.replicate (coinDecimals - fraction.length) '0'
  let fraction ← ofNumeral (readNumeral 10 coinBound places)
  word (whole * coinUnits + fraction)

-- A plain number: decimal digits, or hexadecimal ones behind a mark.
def plain : List Char → Except LiteralError Word
  | '0' :: 'x' :: digits => do word (← ofNumeral (readNumeral 16 Word.modulus digits))
  | digits => do word (← ofNumeral (readNumeral 10 Word.modulus digits))

-- Drops the mark of a big number.
def dropMark (text : List Char) : List Char := (before? ['n'] text).getD text

-- Reads a number of a scenario: plain, or an amount in coins behind which stands their name.
def parse (text : String) : Except LiteralError Word :=
  let text := normalize text
  match before? ['s', 'i', 'g', 'n', 'a'] text with
  | some amount => coins (trim amount)
  | none => plain (dropMark text)

end Literal

end ContractSim
