namespace ContractSim.Text

-- Why a text is no number below a bound.
inductive NumeralError where
  | invalid
  | overflow
deriving DecidableEq, Repr

-- The value of a hexadecimal digit of either case.
def hexDigit? (c : Char) : Option Nat :=
  if '0' ≤ c ∧ c ≤ '9' then some (c.toNat - '0'.toNat)
  else if 'a' ≤ c ∧ c ≤ 'f' then some (c.toNat - 'a'.toNat + 10)
  else if 'A' ≤ c ∧ c ≤ 'F' then some (c.toNat - 'A'.toNat + 10)
  else none

-- The value of a digit in a base of at most sixteen.
def digit? (base : Nat) (c : Char) : Option Nat := (hexDigit? c).filter (· < base)

-- Reads digits from left to right behind a number already read. The first fault wins.
def readDigits (base bound : Nat) : Nat → List Char → Except NumeralError Nat
  | value, [] => .ok value
  | value, c :: rest =>
      match digit? base c with
      | none => .error .invalid
      | some digit =>
          if value * base + digit < bound then readDigits base bound (value * base + digit) rest
          else .error .overflow

-- Drops one plus sign.
def dropPlus : List Char → List Char
  | '+' :: digits => digits
  | digits => digits

-- A number below a bound: at least one digit, behind at most one plus sign.
def readNumeral (base bound : Nat) (text : List Char) : Except NumeralError Nat :=
  match dropPlus text with
  | [] => .error .invalid
  | digits => readDigits base bound 0 digits

-- The lower case hexadecimal digit of a number below sixteen.
def hexDigit (value : Nat) : Char :=
  if value < 10 then Char.ofNat ('0'.toNat + value) else Char.ofNat ('a'.toNat + (value - 10))

-- The last digits of a number in base sixteen, as many as asked for.
def hexDigits : Nat → Nat → List Char
  | 0, _ => []
  | width + 1, value => hexDigits width (value / 16) ++ [hexDigit (value % 16)]

-- A text set flush right in a column.
def padLeft (width : Nat) (text : String) : String :=
  String.ofList (List.replicate (width - text.length) ' ') ++ text

end ContractSim.Text
