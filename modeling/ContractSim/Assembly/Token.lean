import ContractSim.Text.Basic
import ContractSim.Text.Numeral
import ContractSim.Word

namespace ContractSim

-- The parts of a code line.
inductive Token where
  | word (text : String)
  | cell (name : String)
  | value (name : String)
  | cellPointer (base : String) (offset : Option String)
  | valuePointer (base : String) (offset : Option String)
  | label (name : String)
  | literal (value : Word)
deriving DecidableEq, Repr

namespace Token

open ContractSim.Text

def isNameStart (c : Char) : Bool := c.isAlpha || c == '_'

def isNameRest (c : Char) : Bool := c.isAlphanum || c == '_'

-- A name is an ASCII letter or an underscore, then any number of these and of digits.
def isName : List Char → Bool
  | [] => false
  | c :: rest => isNameStart c && rest.all isNameRest

-- The name spelled by the characters.
def name? (text : List Char) : Option String :=
  if isName text then some (String.ofList text) else none

-- Closes the word that is being read, in reverse, in front of the words that follow.
def closeWord (current : List Char) (following : List (List Char)) : List (List Char) :=
  if current.isEmpty then following else current.reverse :: following

-- Splits at blanks outside parentheses and drops the blanks inside them. The depth counts open
-- parentheses; a text that does not balance has no words.
def splitFrom : Nat → List Char → List Char → Option (List (List Char))
  | 0, current, [] => some (closeWord current [])
  | _ + 1, _, [] => none
  | depth, current, c :: rest =>
      if c = '(' then splitFrom (depth + 1) (c :: current) rest
      else if c = ')' then
        match depth with
        | 0 => none
        | outer + 1 => splitFrom outer (c :: current) rest
      else if isBlank c then
        match depth with
        | 0 => (splitFrom 0 [] rest).map (closeWord current)
        | inner + 1 => splitFrom (inner + 1) current rest
      else splitFrom depth (c :: current) rest

-- The words of a code line; a group in parentheses stays in one word.
def splitWords (text : List Char) : Option (List (List Char)) := splitFrom 0 [] text

-- The characters between an opening parenthesis at the start and a closing one at the end.
def inParentheses? : List Char → Option (List Char)
  | '(' :: rest => if rest.getLast? = some ')' then some rest.dropLast else none
  | _ => none

-- The name behind a dollar sign.
def valueName? : List Char → Option String
  | '$' :: rest => name? rest
  | _ => none

-- The base and the offset of an address, parted by the first plus sign.
def address? (text : List Char) : Option (String × Option String) :=
  match text.dropWhile (· != '+') with
  | [] => (valueName? text).map (·, none)
  | _ :: offset => do
      let base ← valueName? (text.takeWhile (· != '+'))
      let offset ← valueName? offset
      some (base, some offset)

-- A literal is written with exactly sixteen hexadecimal digits.
def literal? (text : List Char) : Option Word :=
  if text.length = 16 then
    match readDigits 16 Word.modulus 0 text with
    | .ok number => some (UInt64.ofNat number)
    | .error _ => none
  else none

-- Reads one word of a code line. The first character tells what the word has to be.
def ofWord? : List Char → Option Token
  | '@' :: rest =>
      match inParentheses? rest with
      | some inner => (address? inner).map fun (base, offset) => .cellPointer base offset
      | none => (name? rest).map .cell
  | '$' :: rest =>
      match inParentheses? rest with
      | some inner => (address? inner).map fun (base, offset) => .valuePointer base offset
      | none => (name? rest).map .value
  | ':' :: rest => (name? rest).map .label
  | '#' :: rest => (literal? rest).map .literal
  | text => some (.word (String.ofList text))

-- The tokens of a code line.
def scan (text : List Char) : Option (List Token) := do
  let words ← splitWords text
  words.mapM ofWord?

end Token

end ContractSim
