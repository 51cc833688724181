import ContractSim.Hex
import ContractSim.Text.Basic
import ContractSim.Word

namespace ContractSim.Message

open ContractSim.Text

-- Why a text is no message. The refused text is kept as it was given.
inductive CodecError where
  | invalidHex (text : String)
  | invalidUtf8
deriving DecidableEq, Repr

def CodecError.message : CodecError → String
  | .invalidHex text => "Invalid hex string: " ++ text
  | .invalidUtf8 => "Invalid UTF-8 sequence in decoded message"

-- Words in one page of a message.
def pageWords : Nat := 4

-- Hexadecimal digits in one word.
def wordDigits : Nat := 16

-- Fills a list up to a multiple of a positive length.
def padTo {α : Type} (unit : Nat) (filler : α) (values : List α) : List α :=
  values ++ List.replicate ((unit - values.length % unit) % unit) filler

-- Fills a message up with zero words to whole pages, one page at least.
def fillPages (words : List Word) : List Word :=
  if words.isEmpty then List.replicate pageWords 0 else padTo pageWords 0 words

-- Drops the mark in front of hexadecimal digits.
def dropHexMark : List Char → List Char
  | '0' :: 'x' :: digits => digits
  | '0' :: 'X' :: digits => digits
  | digits => digits

-- The words written as hexadecimal digits, each word by its bytes, least significant first. The
-- digits may stand between blanks and behind a mark; zeros fill up the last word.
def wordsOfHex (text : String) : Except CodecError (List Word) :=
  match Hex.decode? (padTo wordDigits '0' (dropHexMark (trim text.toList))) with
  | some bytes => .ok (Word.ofChunks bytes)
  | none => .error (.invalidHex text)

-- The message written as hexadecimal digits, in whole pages.
def ofHex (text : String) : Except CodecError (List Word) := (wordsOfHex text).map fillPages

-- Sixteen digits for each word.
def toHex (words : List Word) : String := String.ofList (Hex.encode (Word.listBytes words))

def utf8Bytes (text : String) : List UInt8 := text.toUTF8.data.toList

-- The text with the given UTF-8 bytes.
def ofUtf8 (bytes : List UInt8) : Except CodecError String :=
  match String.fromUTF8? (ByteArray.mk bytes.toArray) with
  | some text => .ok text
  | none => .error .invalidUtf8

-- Two digits for each byte of a text.
def hexOfText (text : String) : String := String.ofList (Hex.encode (utf8Bytes text))

-- The text whose bytes are written as digits, which may stand between blanks.
def textOfHex (text : String) : Except CodecError String :=
  match Hex.decode? (trim text.toList) with
  | some bytes => ofUtf8 bytes
  | none => .error (.invalidHex text)

-- The message that carries a text, in whole pages.
def ofText (text : String) : List Word := fillPages (Word.ofByteList (utf8Bytes text))

-- Drops the zeros at the end of a list of bytes.
def dropTrailingZeros (bytes : List UInt8) : List UInt8 :=
  (bytes.reverse.dropWhile (· == 0)).reverse

-- The text that a message carries, without the zero bytes at its end.
def toText (words : List Word) : Except CodecError String :=
  ofUtf8 (dropTrailingZeros (Word.listBytes words))

end ContractSim.Message
