import ContractSim.Json.Number
import ContractSim.Text.Numeral

namespace ContractSim.Json

open ContractSim.Text

def isSpace (c : Char) : Bool := c == ' ' || c == '\n' || c == '\t' || c == '\r'

def skipSpaces (text : List Char) : List Char := text.dropWhile isSpace

-- The text behind an expected one.
def after? : List Char → List Char → Option (List Char)
  | [], text => some text
  | c :: expected, d :: text => if c = d then after? expected text else none
  | _ :: _, [] => none

-- The character of a short escape.
def shortEscape? : Char → Option Char
  | '"' => some '"'
  | '\\' => some '\\'
  | '/' => some '/'
  | 'b' => some (Char.ofNat 8)
  | 'f' => some (Char.ofNat 12)
  | 'n' => some '\n'
  | 'r' => some '\r'
  | 't' => some '\t'
  | _ => none

-- The number written with four hexadecimal digits.
def unit? (a b c d : Char) : Option Nat := do
  let a ← hexDigit? a
  let b ← hexDigit? b
  let c ← hexDigit? c
  let d ← hexDigit? d
  return ((a * 16 + b) * 16 + c) * 16 + d

-- A string in parts: characters, and halves of surrogate pairs.
inductive Piece where
  | char (c : Char)
  | leading (unit : Nat)
  | trailing (unit : Nat)

def Piece.ofUnit (unit : Nat) : Piece :=
  if 0xd800 ≤ unit ∧ unit < 0xdc00 then .leading unit
  else if 0xdc00 ≤ unit ∧ unit < 0xe000 then .trailing unit
  else .char (Char.ofNat unit)

-- Reads the inside of a string up to its closing quote. Control characters have to be escaped.
def pieces : List Char → Option (List Piece × List Char)
  | [] => none
  | '"' :: rest => some ([], rest)
  | '\\' :: 'u' :: a :: b :: c :: d :: rest => do
      let unit ← unit? a b c d
      let (more, rest) ← pieces rest
      return (Piece.ofUnit unit :: more, rest)
  | '\\' :: e :: rest => do
      let c ← shortEscape? e
      let (more, rest) ← pieces rest
      return (.char c :: more, rest)
  | c :: rest =>
      if c.toNat < 32 ∨ c = '\\' then none
      else do
        let (more, rest) ← pieces rest
        return (.char c :: more, rest)

-- The characters of a string. Surrogates have to come in pairs.
def join? : List Piece → Option (List Char)
  | [] => some []
  | .char c :: rest => (join? rest).map (c :: ·)
  | .leading high :: .trailing low :: rest =>
      (join? rest).map (Char.ofNat (0x10000 + (high - 0xd800) * 0x400 + (low - 0xdc00)) :: ·)
  | .leading _ :: _ => none
  | .trailing _ :: _ => none

-- Reads a string behind its opening quote. A string that cannot be read is `none`.
def string? (text : List Char) : Option (Option String × List Char) := do
  let (parts, rest) ← pieces text
  return ((join? parts).map String.ofList, rest)

-- The digits at the start of a text, and what follows.
def digits (text : List Char) : List Nat × List Char :=
  ((text.takeWhile Char.isDigit).map fun c => c.toNat - '0'.toNat, text.dropWhile Char.isDigit)

-- The fraction behind a point; a point needs a digit.
def fraction? : List Char → Option (List Nat × List Char)
  | '.' :: rest =>
      match digits rest with
      | ([], _) => none
      | (found, rest) => some (found, rest)
  | rest => some ([], rest)

-- The digits of an exponent; one at least.
def exponentDigits? (below : Bool) (text : List Char) :
    Option (Option (Bool × List Nat) × List Char) :=
  match digits text with
  | ([], _) => none
  | (found, rest) => some (some (below, found), rest)

-- The exponent behind its mark and an optional sign.
def exponent? : List Char → Option (Option (Bool × List Nat) × List Char)
  | [] => some (none, [])
  | c :: rest =>
      if c = 'e' ∨ c = 'E' then
        match rest with
        | '-' :: rest => exponentDigits? true rest
        | '+' :: rest => exponentDigits? false rest
        | rest => exponentDigits? false rest
      else some (none, c :: rest)

-- Reads a number behind its sign. A zero in front stands alone.
def number? (negative : Bool) (text : List Char) : Option (Json × List Char) :=
  match digits text with
  | ([], _) => none
  | (0 :: _ :: _, _) => none
  | (whole, rest) => do
      let (fraction, rest) ← fraction? rest
      let (exponent, rest) ← exponent? rest
      return (NumberText.value ⟨negative, whole, fraction, exponent⟩, rest)

-- Reads a value that is no list and no object.
def scalar? : List Char → Option (Json × List Char)
  | '"' :: rest => do
      let (text, rest) ← string? rest
      return ((text.map Json.string).getD .unreadable, rest)
  | '-' :: rest => number? true rest
  | 't' :: rest => (after? ['r', 'u', 'e'] rest).map (.bool true, ·)
  | 'f' :: rest => (after? ['a', 'l', 's', 'e'] rest).map (.bool false, ·)
  | 'n' :: rest => (after? ['u', 'l', 'l'] rest).map (.null, ·)
  | text => number? false text

-- A key and the text behind the colon.
def key? (text : List Char) : Option (Option String × List Char) :=
  match skipSpaces text with
  | '"' :: rest => do
      let (key, rest) ← string? rest
      match skipSpaces rest with
      | ':' :: rest => some (key, rest)
      | _ => none
  | _ => none

-- Members whose keys can all be read make an object.
def ofMembers (members : List (Option String × Json)) : Json :=
  match members.mapM fun (key, value) => key.map (·, value) with
  | some members => .object members
  | none => .unreadable

mutual

-- Reads a value. The bound counts values and has to cover the text.
def value? : Nat → List Char → Option (Json × List Char)
  | 0, _ => none
  | bound + 1, text =>
      match skipSpaces text with
      | '[' :: rest =>
          match skipSpaces rest with
          | ']' :: rest => some (.list [], rest)
          | rest => do
              let (elements, rest) ← elements? bound rest
              return (.list elements, rest)
      | '\x7b' :: rest =>
          match skipSpaces rest with
          | '\x7d' :: rest => some (.object [], rest)
          | rest => do
              let (members, rest) ← members? bound rest
              return (ofMembers members, rest)
      | rest => scalar? rest

-- Reads the elements of a list up to the closing bracket.
def elements? : Nat → List Char → Option (List Json × List Char)
  | 0, _ => none
  | bound + 1, text => do
      let (value, rest) ← value? bound text
      match skipSpaces rest with
      | ',' :: rest => do
          let (more, rest) ← elements? bound rest
          return (value :: more, rest)
      | ']' :: rest => return ([value], rest)
      | _ => none

-- Reads the members of an object up to the closing brace.
def members? : Nat → List Char → Option (List (Option String × Json) × List Char)
  | 0, _ => none
  | bound + 1, text => do
      let (key, rest) ← key? text
      let (value, rest) ← value? bound rest
      match skipSpaces rest with
      | ',' :: rest => do
          let (more, rest) ← members? bound rest
          return ((key, value) :: more, rest)
      | '\x7d' :: rest => return ([(key, value)], rest)
      | _ => none

end

-- Reads a text that holds one value.
def parse? (text : String) : Option Json := do
  let (value, rest) ← value? (2 * text.length + 2) text.toList
  if (skipSpaces rest).isEmpty then some value else none

end ContractSim.Json
