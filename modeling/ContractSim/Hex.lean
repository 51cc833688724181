import ContractSim.Text.Numeral

namespace ContractSim.Hex

open ContractSim.Text

def encodeByte (byte : UInt8) : List Char :=
  [hexDigit (byte.toNat / 16), hexDigit (byte.toNat % 16)]

-- Two lower case digits for each byte, the high half first.
def encode (bytes : List UInt8) : List Char := bytes.flatMap encodeByte

-- Reads pairs of digits of either case; a digit without a partner is refused.
def decode? : List Char → Option (List UInt8)
  | [] => some []
  | [_] => none
  | high :: low :: rest =>
      match hexDigit? high, hexDigit? low with
      | some h, some l => (decode? rest).map (UInt8.ofNat (16 * h + l) :: ·)
      | _, _ => none

end ContractSim.Hex
