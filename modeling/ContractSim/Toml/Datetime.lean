import ContractSim.Text.Numeral

-- Dates and times. Only their extent in a text matters here, so the functions give what follows.
namespace ContractSim.Toml

open ContractSim.Text

-- The number with exactly the given count of digits, and what follows.
def fixedDigits? (count : Nat) (text : List Char) : Option (Nat × List Char) :=
  let digits := (text.take count).filterMap (digit? 10)
  if digits.length = count then
    some (digits.foldl (fun value digit => 10 * value + digit) 0, text.drop count)
  else none

-- A number of two digits within bounds, and what follows.
def twoDigits? (least most : Nat) (text : List Char) : Option (Nat × List Char) :=
  (fixedDigits? 2 text).filter fun (value, _) => least ≤ value && value ≤ most

-- The text behind an expected character.
def behind? (expected : Char) : List Char → Option (List Char)
  | [] => none
  | c :: rest => if c = expected then some rest else none

def isLeapYear (year : Nat) : Bool :=
  year % 4 == 0 && (year % 100 != 0 || year % 400 == 0)

def daysOf (year month : Nat) : Nat :=
  if month = 2 then if isLeapYear year then 29 else 28
  else if month = 4 ∨ month = 6 ∨ month = 9 ∨ month = 11 then 30
  else 31

-- A date: year, month and day of the month.
def date? (text : List Char) : Option (List Char) := do
  let (year, rest) ← fixedDigits? 4 text
  let (month, rest) ← twoDigits? 1 12 (← behind? '-' rest)
  let (_, rest) ← twoDigits? 1 (daysOf year month) (← behind? '-' rest)
  return rest

-- The text behind a fraction of a second, if there is one.
def skipSecondFraction : List Char → List Char
  | '.' :: c :: rest => if c.isDigit then rest.dropWhile Char.isDigit else '.' :: c :: rest
  | rest => rest

-- A time of the day, in which a leap second may stand.
def time? (text : List Char) : Option (List Char) := do
  let (_, rest) ← twoDigits? 0 23 text
  let (_, rest) ← twoDigits? 0 59 (← behind? ':' rest)
  let (_, rest) ← twoDigits? 0 60 (← behind? ':' rest)
  return skipSecondFraction rest

-- The text behind the offset of a time, if there is one.
def skipOffset (text : List Char) : List Char :=
  match text with
  | [] => []
  | c :: rest =>
      if c = 'Z' ∨ c = 'z' then rest
      else if c = '+' ∨ c = '-' then
        (do
          let (_, rest) ← twoDigits? 0 23 rest
          let (_, rest) ← twoDigits? 0 59 (← behind? ':' rest)
          return rest).getD text
      else text

-- The text behind a time that follows a date, if there is one.
def skipTimeOfDate (text : List Char) : List Char :=
  match text with
  | [] => []
  | c :: rest =>
      if c = 'T' ∨ c = 't' ∨ c = ' ' then ((time? rest).map skipOffset).getD text else text

-- A date with or without a time, or a time alone.
def datetime? (text : List Char) : Option (List Char) :=
  ((date? text).map skipTimeOfDate) <|> time? text

end ContractSim.Toml
