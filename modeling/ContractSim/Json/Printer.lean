import ContractSim.Decimal.Layout
import ContractSim.Json.Basic
import ContractSim.Text.Numeral

namespace ContractSim.Json

-- Doubles keep a fraction. Exponents outside of -5 to 15 are written out, with their sign.
def numbers : Decimal.Layout :=
  { fixedFrom := -5, fixedTo := 15, wholeMark := ".0", positiveSign := "+", negativeSign := "-" }

-- Quotes, backslashes and control characters are escaped.
def escapeChar (c : Char) : List Char :=
  match c with
  | '"' => ['\\', '"']
  | '\\' => ['\\', '\\']
  | '\n' => ['\\', 'n']
  | '\r' => ['\\', 'r']
  | '\t' => ['\\', 't']
  | c =>
      if c.toNat = 8 then ['\\', 'b']
      else if c.toNat = 12 then ['\\', 'f']
      else if c.toNat < 32 then '\\' :: 'u' :: Text.hexDigits 4 c.toNat
      else [c]

def quote (text : String) : String :=
  "\"" ++ String.ofList (text.toList.flatMap escapeChar) ++ "\""

-- The text of a value that is no list and no object.
def scalar : Json → String
  | .bool true => "true"
  | .bool false => "false"
  | .integer value => toString value
  | .real value => Decimal.writeDouble numbers value
  | .string value => quote value
  | .null | .list _ | .object _ | .unreadable => "null"

mutual

-- A value on one line without spaces.
def compact : Json → String
  | .list elements => "[" ++ ",".intercalate (compactList elements) ++ "]"
  | .object members => "\x7b" ++ ",".intercalate (compactMembers members) ++ "\x7d"
  | .bool value => scalar (.bool value)
  | .integer value => scalar (.integer value)
  | .real value => scalar (.real value)
  | .string value => scalar (.string value)
  | .null | .unreadable => scalar .null

def compactList : List Json → List String
  | [] => []
  | value :: rest => compact value :: compactList rest

def compactMembers : List (String × Json) → List String
  | [] => []
  | (key, value) :: rest => (quote key ++ ":" ++ compact value) :: compactMembers rest

end

-- Two spaces for each level.
def indentation (level : Nat) : String := String.ofList (List.replicate (2 * level) ' ')

-- Items between brackets, each on a line of its own, one level further in.
def block (opening closing : String) (level : Nat) (items : List String) : String :=
  if items.isEmpty then opening ++ closing
  else
    let lines := items.map (indentation (level + 1) ++ ·)
    opening ++ "\n" ++ ",\n".intercalate lines ++ "\n" ++ indentation level ++ closing

mutual

-- A value over several lines, at a level of indentation.
def prettyAt (level : Nat) : Json → String
  | .list elements => block "[" "]" level (prettyList (level + 1) elements)
  | .object members => block "\x7b" "\x7d" level (prettyMembers (level + 1) members)
  | .bool value => scalar (.bool value)
  | .integer value => scalar (.integer value)
  | .real value => scalar (.real value)
  | .string value => scalar (.string value)
  | .null | .unreadable => scalar .null

def prettyList (level : Nat) : List Json → List String
  | [] => []
  | value :: rest => prettyAt level value :: prettyList level rest

def prettyMembers (level : Nat) : List (String × Json) → List String
  | [] => []
  | (key, value) :: rest =>
      (quote key ++ ": " ++ prettyAt level value) :: prettyMembers level rest

end

-- A value over several lines.
def pretty (value : Json) : String := prettyAt 0 value

end ContractSim.Json
