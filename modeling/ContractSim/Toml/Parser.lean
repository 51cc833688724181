import ContractSim.Toml.Datetime
import ContractSim.Toml.Number

namespace ContractSim.Toml

open ContractSim.Text

def isSpace (c : Char) : Bool := c == ' ' || c == '\t'

def skipSpaces (text : List Char) : List Char := text.dropWhile isSpace

-- Characters that may stand in comments and strings: all but control characters other than tabs.
def isPlain (c : Char) : Bool := c == '\t' || (32 ≤ c.toNat && c.toNat != 127)

-- The text behind a line end.
def newline? : List Char → Option (List Char)
  | '\n' :: rest => some rest
  | '\r' :: '\n' :: rest => some rest
  | _ => none

-- The text behind a comment, if there is one.
def skipComment : List Char → List Char
  | '#' :: rest => rest.dropWhile isPlain
  | text => text

-- The text of the next line. Only spaces and a comment may be left on this one.
def endLine? (text : List Char) : Option (List Char) :=
  match skipComment (skipSpaces text) with
  | [] => some []
  | rest => newline? rest

-- Spaces, comments and line ends between the elements of a list.
def skipLines : Nat → List Char → List Char
  | 0, text => text
  | bound + 1, text =>
      match newline? (skipComment (skipSpaces text)) with
      | some rest => skipLines bound rest
      | none => skipSpaces text

-- The value of hexadecimal digits.
def hexValue? (digits : List Char) : Option Nat :=
  digits.foldlM (fun value c => (hexDigit? c).map (16 * value + ·)) 0

-- The character with a code point.
def scalarChar? (code : Nat) : Option Char :=
  if code < 0xd800 ∨ (0xdfff < code ∧ code < 0x110000) then some (Char.ofNat code) else none

-- The character of an escape behind the backslash, and what follows.
def escape? : List Char → Option (Char × List Char)
  | 'b' :: rest => some (Char.ofNat 8, rest)
  | 't' :: rest => some ('\t', rest)
  | 'n' :: rest => some ('\n', rest)
  | 'f' :: rest => some (Char.ofNat 12, rest)
  | 'r' :: rest => some ('\r', rest)
  | '"' :: rest => some ('"', rest)
  | '\\' :: rest => some ('\\', rest)
  | 'u' :: rest => do
      if rest.length < 4 then none
      let c ← scalarChar? (← hexValue? (rest.take 4))
      return (c, rest.drop 4)
  | 'U' :: rest => do
      if rest.length < 8 then none
      let c ← scalarChar? (← hexValue? (rest.take 8))
      return (c, rest.drop 8)
  | _ => none

-- Reads a string between double quotes behind the first one. The bound has to cover the text.
def basic? : Nat → List Char → Option (List Char × List Char)
  | 0, _ => none
  | _, [] => none
  | _, '"' :: rest => some ([], rest)
  | bound + 1, '\\' :: rest => do
      let (c, rest) ← escape? rest
      let (more, rest) ← basic? bound rest
      return (c :: more, rest)
  | bound + 1, c :: rest =>
      if isPlain c then do
        let (more, rest) ← basic? bound rest
        return (c :: more, rest)
      else none

-- Reads a string between single quotes behind the first one.
def literal? (text : List Char) : Option (List Char × List Char) :=
  match text.dropWhile fun c => isPlain c && c != '\'' with
  | '\'' :: rest => some (text.takeWhile (fun c => isPlain c && c != '\''), rest)
  | _ => none

-- The text behind line ends and spaces in any order.
def skipLineEnds : Nat → List Char → List Char
  | 0, text => text
  | bound + 1, text =>
      match newline? (skipSpaces text) with
      | some rest => skipLineEnds bound rest
      | none => skipSpaces text

-- A line end directly behind three opening quotes does not count.
def skipFirstLine (text : List Char) : List Char := (newline? text).getD text

-- Reads a string between triples of a quote behind the first triple. Up to two more quotes in
-- front of the closing triple belong to the string. A backslash at the end of a line, where it
-- has a meaning, takes away the blanks up to the next character.
def long? (quote : Char) (escapes : Bool) : Nat → List Char → Option (List Char × List Char)
  | 0, _ => none
  | _, [] => none
  | bound + 1, c :: rest =>
      if c = quote ∧ rest.take 2 = [quote, quote] then
        let more := ((rest.drop 2).take 2).takeWhile (· == quote)
        some (more, rest.drop (2 + more.length))
      else if c = '\\' ∧ escapes then
        if (newline? (skipSpaces rest)).isSome then
          long? quote escapes bound (skipLineEnds rest.length rest)
        else do
          let (c, rest) ← escape? rest
          let (more, rest) ← long? quote escapes bound rest
          return (c :: more, rest)
      else
        match newline? (c :: rest) with
        | some rest => do
            let (more, rest) ← long? quote escapes bound rest
            return ('\n' :: more, rest)
        | none =>
            if isPlain c then do
              let (more, rest) ← long? quote escapes bound rest
              return (c :: more, rest)
            else none

-- Reads a string of any kind.
def string? : List Char → Option (List Char × List Char)
  | '"' :: '"' :: '"' :: rest => long? '"' true (rest.length + 1) (skipFirstLine rest)
  | '\'' :: '\'' :: '\'' :: rest => long? '\'' false (rest.length + 1) (skipFirstLine rest)
  | '"' :: rest => basic? (rest.length + 1) rest
  | '\'' :: rest => literal? rest
  | _ => none

def isKeyChar (c : Char) : Bool := c.isAlphanum || c == '_' || c == '-'

-- A key: a bare one, or a string on one line.
def key? : List Char → Option (String × List Char)
  | '"' :: rest => (basic? (rest.length + 1) rest).map fun (key, rest) => (String.ofList key, rest)
  | '\'' :: rest => (literal? rest).map fun (key, rest) => (String.ofList key, rest)
  | text =>
      match text.takeWhile isKeyChar with
      | [] => none
      | key => some (String.ofList key, text.dropWhile isKeyChar)

-- Keys with points between them, and spaces around these.
def keys? : Nat → List Char → Option (List String × List Char)
  | 0, _ => none
  | bound + 1, text => do
      let (key, rest) ← key? (skipSpaces text)
      match skipSpaces rest with
      | '.' :: rest => do
          let (more, rest) ← keys? bound rest
          return (key :: more, rest)
      | rest => return ([key], rest)

-- Paths have fewer keys than this, and values are nested less deep.
def depthLimit : Nat := 80

-- The path to a value or a table.
def path? (bound : Nat) (text : List Char) : Option (List String × List Char) :=
  (keys? bound text).filter fun (path, _) => path.length < depthLimit

mutual

-- Reads a value. The bound counts values and has to cover the text; the levels are those of lists
-- and tables that may still be opened.
def value? : Nat → Nat → List Char → Option (Value × List Char)
  | 0, _, _ => none
  | bound + 1, levels, text =>
      match text with
      | '[' :: rest =>
          match levels with
          | 0 => none
          | levels + 1 => do
              let (elements, rest) ← elements? bound levels rest
              return (.list elements, rest)
      | '\x7b' :: rest =>
          match levels, skipSpaces rest with
          | 0, _ => none
          | _ + 1, '\x7d' :: rest => some (.table .inline [], rest)
          | levels + 1, rest => do
              let (entries, rest) ← entries? bound levels [] rest
              return (.table .inline entries, rest)
      | '"' :: _ | '\'' :: _ => do
          let (value, rest) ← string? text
          return (.string (String.ofList value), rest)
      | _ =>
          match datetime? text with
          | some rest => some (.datetime, rest)
          | none => do
              let value ← bare? (text.takeWhile isNumberChar)
              return (value, text.dropWhile isNumberChar)

-- Reads the elements of a list up to the closing bracket. A comma may follow the last one.
def elements? : Nat → Nat → List Char → Option (List Value × List Char)
  | 0, _, _ => none
  | bound + 1, levels, text =>
      match skipLines bound text with
      | ']' :: rest => some ([], rest)
      | rest => do
          let (value, rest) ← value? bound levels rest
          match skipLines bound rest with
          | ',' :: rest => do
              let (more, rest) ← elements? bound levels rest
              return (value :: more, rest)
          | ']' :: rest => return ([value], rest)
          | _ => none

-- Reads the entries of a table between braces.
def entries? : Nat → Nat → Entries → List Char → Option (Entries × List Char)
  | 0, _, _, _ => none
  | bound + 1, levels, done, text => do
      let (path, rest) ← path? bound text
      match skipSpaces rest with
      | '=' :: rest => do
          let (value, rest) ← value? bound levels (skipSpaces rest)
          let done ← assign? value path done
          match skipSpaces rest with
          | ',' :: rest => entries? bound levels done rest
          | '\x7d' :: rest => some (done, rest)
          | _ => none
      | _ => none

end

-- Reads the statement at the start of a line, and the lines behind it.
def statement? (bound : Nat) : List Char → Option (Statement × List Char)
  | '[' :: '[' :: rest => do
      let (path, rest) ← path? bound rest
      match rest with
      | ']' :: ']' :: rest => return (.element path, ← endLine? rest)
      | _ => none
  | '[' :: rest => do
      let (path, rest) ← path? bound rest
      match rest with
      | ']' :: rest => return (.header path, ← endLine? rest)
      | _ => none
  | text => do
      let (path, rest) ← path? bound text
      match rest with
      | '=' :: rest => do
          let (value, rest) ← value? bound (depthLimit - 1) (skipSpaces rest)
          return (.assign path value, ← endLine? rest)
      | _ => none

-- Reads the statements of a document, line by line.
def statements? : Nat → List Char → Option (List Statement)
  | 0, _ => none
  | bound + 1, text =>
      match skipSpaces text with
      | [] => some []
      | rest =>
          match endLine? rest with
          | some rest => statements? bound rest
          | none => do
              let (statement, rest) ← statement? (2 * rest.length + 2) rest
              return statement :: (← statements? bound rest)

-- Drops a byte order mark.
def dropMark : List Char → List Char
  | '\ufeff' :: rest => rest
  | text => text

-- Reads a document.
def parse? (text : String) : Option Entries := do
  ofStatements? (← statements? (text.length + 1) (dropMark text.toList))

end ContractSim.Toml
