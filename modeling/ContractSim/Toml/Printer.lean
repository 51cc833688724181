import ContractSim.Text.Numeral
import ContractSim.Toml.Basic

namespace ContractSim.Toml

open ContractSim.Text

-- How a string is set off.
inductive StringStyle where
  -- Between double quotes, with escapes.
  | basic
  -- Between single quotes, as it is.
  | literal
  -- Between three double quotes, with escapes.
  | longBasic
  -- Between three single quotes, as it is.
  | longLiteral
deriving DecidableEq, Repr

namespace StringStyle

def isLong : StringStyle → Bool
  | .basic | .literal => false
  | .longBasic | .longLiteral => true

def hasEscapes : StringStyle → Bool
  | .basic | .longBasic => true
  | .literal | .longLiteral => false

-- What stands on both sides.
def quotes : StringStyle → List Char
  | .basic => ['"']
  | .literal => ['\'']
  | .longBasic => ['"', '"', '"']
  | .longLiteral => ['\'', '\'', '\'']

end StringStyle

-- A control character that has to be escaped.
def isControl (c : Char) : Bool := (c.toNat < 32 && c != '\t' && c != '\n') || c.toNat = 127

-- The length of the longest run of a character, when a run of it has just been read.
def longestRunFrom (mark : Char) : Nat → List Char → Nat
  | current, [] => current
  | current, c :: rest =>
      if c = mark then longestRunFrom mark (current + 1) rest
      else max current (longestRunFrom mark 0 rest)

def longestRun (mark : Char) (text : List Char) : Nat := longestRunFrom mark 0 text

-- The first style in this order that needs no escapes but that of the tab: basic, literal, long
-- basic, long literal. A text that needs escapes in each of them is basic, and long if it has
-- several lines.
def styleOf (text : List Char) : StringStyle :=
  let lines := text.contains '\n'
  let control := text.any isControl
  let escape := control || text.contains '\\'
  let double := longestRun '"' text
  let single := longestRun '\'' text
  if !escape && double = 0 && !lines then .basic
  else if !control && single = 0 && !lines then .literal
  else if !escape && double ≤ 2 then .longBasic
  else if !control && single ≤ 2 then .longLiteral
  else if lines then .longBasic
  else .basic

-- A character other than a double quote where escapes have a meaning. Line ends stay in long
-- strings.
def escapeChar (long : Bool) (c : Char) : List Char :=
  match c with
  | '\t' => ['\\', 't']
  | '\n' => if long then ['\n'] else ['\\', 'n']
  | '\r' => ['\\', 'r']
  | '\\' => ['\\', '\\']
  | c =>
      if c.toNat = 8 then ['\\', 'b']
      else if c.toNat = 12 then ['\\', 'f']
      else if c.toNat < 32 ∨ c.toNat = 127 then
        '\\' :: 'u' :: (hexDigits 4 c.toNat).map Char.toUpper
      else [c]

-- Double quotes that may stand side by side without escapes.
def freeQuotes (long : Bool) : Nat := if long then 2 else 0

-- Escapes a text, of which a number of plain double quotes has just been written.
def escapeFrom (long : Bool) : Nat → List Char → List Char
  | _, [] => []
  | run, c :: rest =>
      if c = '"' then
        if run < freeQuotes long then '"' :: escapeFrom long (run + 1) rest
        else '\\' :: '"' :: escapeFrom long 0 rest
      else escapeChar long c ++ escapeFrom long 0 rest

-- A string in quotes. A text of several lines starts on a line of its own.
def quote (text : String) : String :=
  let style := styleOf text.toList
  let start := if style.isLong && text.toList.contains '\n' then ['\n'] else []
  let content :=
    if style.hasEscapes then escapeFrom style.isLong 0 text.toList else text.toList
  String.ofList (style.quotes ++ start ++ content ++ style.quotes)

-- An integer, which has to be a signed word.
def integerText? (value : Nat) : Option String :=
  if value < integerBound then some (toString value) else none

def boolText (value : Bool) : String := if value then "true" else "false"

-- A table under its header.
def table (name : String) (entries : List (String × String)) : String :=
  "[" ++ name ++ "]\n" ++
    String.join (entries.map fun (key, value) => key ++ " = " ++ value ++ "\n")

end ContractSim.Toml
