namespace ContractSim.Text

-- The characters with the Unicode property White_Space.
def isBlank (c : Char) : Bool :=
  let n := c.toNat
  (9 ≤ n && n ≤ 13) || n == 0x20 || n == 0x85 || n == 0xa0 || n == 0x1680 ||
    (0x2000 ≤ n && n ≤ 0x200a) || n == 0x2028 || n == 0x2029 || n == 0x202f || n == 0x205f ||
    n == 0x3000

def dropBlanks (text : List Char) : List Char := text.dropWhile isBlank

-- The text without the blanks at its two ends.
def trim (text : List Char) : List Char := (dropBlanks (dropBlanks text).reverse).reverse

-- Collects the word that is being read, in reverse, in front of the words of the rest.
def wordsFrom (current : List Char) : List Char → List (List Char)
  | [] => if current.isEmpty then [] else [current.reverse]
  | c :: rest =>
      if isBlank c then
        if current.isEmpty then wordsFrom [] rest else current.reverse :: wordsFrom [] rest
      else
        wordsFrom (c :: current) rest

-- The maximal runs of characters that are not blank.
def words (text : List Char) : List (List Char) := wordsFrom [] text

-- Words put together with one space between neighbours.
def unwords : List (List Char) → List Char
  | [] => []
  | [word] => word
  | word :: rest => word ++ ' ' :: unwords rest

-- The text without the blanks at its two ends.
def trimmed (text : String) : String := String.ofList (trim text.toList)

-- A line in reverse, without the carriage return that closes it.
def dropReturn : List Char → List Char
  | '\r' :: line => line
  | line => line

-- Collects the line that is being read, in reverse, in front of the lines of the rest.
def linesFrom (current : List Char) : List Char → List (List Char)
  | [] => if current.isEmpty then [] else [current.reverse]
  | c :: rest =>
      if c = '\n' then (dropReturn current).reverse :: linesFrom [] rest
      else linesFrom (c :: current) rest

-- Lines end at a line feed, alone or behind a carriage return. What follows the last line feed is
-- a line when it is not empty, and keeps a carriage return at its end.
def lines (text : String) : List String := (linesFrom [] text.toList).map String.ofList

end ContractSim.Text
