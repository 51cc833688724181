import ContractSim.Decimal.Shortest

namespace ContractSim.Decimal

-- Decisions on how a decimal number is written.
structure Layout where
  -- The exponents from `fixedFrom` to `fixedTo` are written without an exponent.
  fixedFrom : Int
  fixedTo : Int
  -- What stands behind a whole number.
  wholeMark : String
  -- The signs in front of an exponent.
  positiveSign : String
  negativeSign : String

def digitChars (digits : List Nat) : String :=
  String.ofList (digits.map fun digit => Char.ofNat ('0'.toNat + digit))

def zeros (count : Nat) : String := String.ofList (List.replicate count '0')

-- The number without an exponent.
def fixed (layout : Layout) (number : Scientific) : String :=
  match number.exponent with
  | .ofNat exponent =>
      let whole := number.digits.take (exponent + 1)
      let rest := number.digits.drop (exponent + 1)
      let front := digitChars whole ++ zeros (exponent + 1 - whole.length)
      if rest.isEmpty then front ++ layout.wholeMark else front ++ "." ++ digitChars rest
  | .negSucc below => "0." ++ zeros below ++ digitChars number.digits

-- The number with one digit in front of the point, and an exponent.
def withExponent (layout : Layout) (number : Scientific) : String :=
  let mantissa := match number.digits with
    | [] => "0"
    | [digit] => digitChars [digit]
    | digit :: rest => digitChars [digit] ++ "." ++ digitChars rest
  let sign := if number.exponent < 0 then layout.negativeSign else layout.positiveSign
  mantissa ++ "e" ++ sign ++ toString number.exponent.natAbs

def write (layout : Layout) (number : Scientific) : String :=
  if layout.fixedFrom ≤ number.exponent ∧ number.exponent ≤ layout.fixedTo then
    fixed layout number
  else withExponent layout number

-- The shortest text of a finite double.
def writeDouble (layout : Layout) (value : Float) : String :=
  let sign := if value.toBits >>> 63 == 1 then "-" else ""
  if value == 0 then sign ++ "0" ++ layout.wholeMark
  else sign ++ write layout (shortest value.abs)

end ContractSim.Decimal
