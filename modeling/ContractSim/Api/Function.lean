import ContractSim.Digest

namespace ContractSim

-- The two wide registers of a contract.
inductive RegisterName where
  | a
  | b
deriving DecidableEq, Repr

-- Bitwise operations on wide registers.
inductive BitOp where
  | or
  | and
  | xor
deriving DecidableEq, Repr

-- Arithmetic operations on wide registers.
inductive WideOp where
  | add
  | sub
  | mul
  | div
deriving DecidableEq, Repr

-- The operands that a call has in the source: a cell for the result or none, and arguments.
structure CallShape where
  hasResult : Bool
  arguments : Nat
deriving DecidableEq, Repr

-- The built-in functions. Where a register is named, it is the one written to or read from.
inductive ApiFunction where
  | getLane (register : RegisterName) (lane : Lane)
  | setLane (register : RegisterName) (lane : Lane)
  | setLowLanes (register : RegisterName)
  | setHighLanes (register : RegisterName)
  | clear (register : RegisterName)
  | clearBoth
  | copyTo (register : RegisterName)
  | swap
  | isZero (register : RegisterName)
  | areEqual
  | bitwise (op : BitOp) (target : RegisterName)
  | wide (op : WideOp) (target : RegisterName)
  | hash (algorithm : HashAlgorithm)
  | checkHash (algorithm : HashAlgorithm)
  | checkSignature
  | blockTimestamp
  | creationTimestamp
  | lastBlockTimestamp
  | lastBlockHash
  | lastBlockSignature
  | nextTransaction
  | transactionKind
  | transactionAmount
  | transactionTimestamp
  | transactionTicket
  | transactionMessage
  | transactionSender
  | creator
  | transactionAssets
  | currentBalance
  | previousBalance
  | send
  | sendAll
  | sendPrevious
  | sendMessage
  | addMinutes
  | issueAsset
  | mintAsset
  | distribute
  | holderCount
  | circulating
  | activationFee
  | codeHash
  | mapValue
  | setMapValue
deriving DecidableEq, Repr

namespace ApiFunction

-- The name of a function in the source.
def name : ApiFunction → String
  | .getLane .a .first => "get_A1"
  | .getLane .a .second => "get_A2"
  | .getLane .a .third => "get_A3"
  | .getLane .a .fourth => "get_A4"
  | .getLane .b .first => "get_B1"
  | .getLane .b .second => "get_B2"
  | .getLane .b .third => "get_B3"
  | .getLane .b .fourth => "get_B4"
  | .setLane .a .first => "set_A1"
  | .setLane .a .second => "set_A2"
  | .setLane .a .third => "set_A3"
  | .setLane .a .fourth => "set_A4"
  | .setLane .b .first => "set_B1"
  | .setLane .b .second => "set_B2"
  | .setLane .b .third => "set_B3"
  | .setLane .b .fourth => "set_B4"
  | .setLowLanes .a => "set_A1_A2"
  | .setLowLanes .b => "set_B1_B2"
  | .setHighLanes .a => "set_A3_A4"
  | .setHighLanes .b => "set_B3_B4"
  | .clear .a => "clear_A"
  | .clear .b => "clear_B"
  | .clearBoth => "clear_A_And_B"
  | .copyTo .a => "copy_A_From_B"
  | .copyTo .b => "copy_B_From_A"
  | .swap => "swap_A_and_B"
  | .isZero .a => "check_A_Is_Zero"
  | .isZero .b => "check_B_Is_Zero"
  | .areEqual => "check_A_equals_B"
  | .bitwise .or .a => "OR_A_with_B"
  | .bitwise .or .b => "OR_B_with_A"
  | .bitwise .and .a => "AND_A_with_B"
  | .bitwise .and .b => "AND_B_with_A"
  | .bitwise .xor .a => "XOR_A_with_B"
  | .bitwise .xor .b => "XOR_B_with_A"
  | .wide .add .a => "add_B_to_A"
  | .wide .add .b => "add_A_to_B"
  | .wide .sub .a => "sub_B_from_A"
  | .wide .sub .b => "sub_A_from_B"
  | .wide .mul .a => "mul_B_by_A"
  | .wide .mul .b => "mul_A_by_B"
  | .wide .div .a => "div_B_by_A"
  | .wide .div .b => "div_A_by_B"
  | .hash .md5 => "MD5_A_to_B"
  | .hash .ripemd160 => "HASH160_A_to_B"
  | .hash .sha256 => "SHA256_A_to_B"
  | .checkHash .md5 => "check_MD5_A_with_B"
  | .checkHash .ripemd160 => "check_HASH160_A_with_B"
  | .checkHash .sha256 => "check_SHA256_A_with_B"
  | .checkSignature => "Check_Sig_B_With_A"
  | .blockTimestamp => "get_Block_Timestamp"
  | .creationTimestamp => "get_Creation_Timestamp"
  | .lastBlockTimestamp => "get_Last_Block_Timestamp"
  | .lastBlockHash => "put_Last_Block_Hash_In_A"
  | .lastBlockSignature => "put_Last_Block_GSig_In_A"
  | .nextTransaction => "A_to_Tx_after_Timestamp"
  | .transactionKind => "get_Type_for_Tx_in_A"
  | .transactionAmount => "get_Amount_for_Tx_in_A"
  | .transactionTimestamp => "get_Timestamp_for_Tx_in_A"
  | .transactionTicket => "get_Ticket_Id_for_Tx_in_A"
  | .transactionMessage => "message_from_Tx_in_A_to_B"
  | .transactionSender => "B_to_Address_of_Tx_in_A"
  | .creator => "B_to_Address_of_Creator"
  | .transactionAssets => "B_To_Assets_Of_Tx_In_A"
  | .currentBalance => "get_Current_Balance"
  | .previousBalance => "get_Previous_Balance"
  | .send => "send_to_Address_in_B"
  | .sendAll => "send_All_to_Address_in_B"
  | .sendPrevious => "send_Old_to_Address_in_B"
  | .sendMessage => "send_A_to_Address_in_B"
  | .addMinutes => "add_Minutes_to_Timestamp"
  | .issueAsset => "issue_Asset"
  | .mintAsset => "mint_Asset"
  | .distribute => "distribute_To_Asset_Holders"
  | .holderCount => "get_Asset_Holders_Count"
  | .circulating => "get_Asset_Circulating"
  | .activationFee => "get_Activation_Fee"
  | .codeHash => "get_Code_Hash_Id"
  | .mapValue => "get_Map_Value_Keys_In_A"
  | .setMapValue => "set_Map_Value_Keys_In_A"

-- The operands of a function in the source.
def shape : ApiFunction → CallShape
  | .setLane _ _ | .nextTransaction | .send => ⟨false, 1⟩
  | .setLowLanes _ | .setHighLanes _ => ⟨false, 2⟩
  | .addMinutes => ⟨true, 2⟩
  | .getLane _ _ | .isZero _ | .areEqual | .checkHash _ | .checkSignature | .blockTimestamp
  | .creationTimestamp | .lastBlockTimestamp | .transactionKind | .transactionAmount
  | .transactionTimestamp | .transactionTicket | .currentBalance | .previousBalance | .issueAsset
  | .holderCount | .circulating | .activationFee | .codeHash | .mapValue => ⟨true, 0⟩
  | .clear _ | .clearBoth | .copyTo _ | .swap | .bitwise _ _ | .wide _ _ | .hash _
  | .lastBlockHash | .lastBlockSignature | .transactionMessage | .transactionSender | .creator
  | .transactionAssets | .sendAll | .sendPrevious | .sendMessage | .mintAsset | .distribute
  | .setMapValue => ⟨false, 0⟩

-- Every function, in the order in which they are listed.
def all : List ApiFunction :=
  [.getLane .a .first, .getLane .a .second, .getLane .a .third, .getLane .a .fourth,
    .getLane .b .first, .getLane .b .second, .getLane .b .third, .getLane .b .fourth,
    .setLane .a .first, .setLane .a .second, .setLane .a .third, .setLane .a .fourth,
    .setLowLanes .a, .setHighLanes .a,
    .setLane .b .first, .setLane .b .second, .setLane .b .third, .setLane .b .fourth,
    .setLowLanes .b, .setHighLanes .b,
    .clear .a, .clear .b, .clearBoth, .copyTo .a, .copyTo .b, .swap, .isZero .a, .isZero .b,
    .areEqual,
    .bitwise .or .a, .bitwise .or .b, .bitwise .and .a, .bitwise .and .b, .bitwise .xor .a,
    .bitwise .xor .b,
    .wide .add .b, .wide .add .a, .wide .sub .b, .wide .sub .a, .wide .mul .b, .wide .mul .a,
    .wide .div .b, .wide .div .a,
    .hash .md5, .checkHash .md5, .hash .ripemd160, .checkHash .ripemd160, .hash .sha256,
    .checkHash .sha256, .checkSignature,
    .blockTimestamp, .creationTimestamp, .lastBlockTimestamp, .lastBlockHash, .lastBlockSignature,
    .nextTransaction, .transactionKind, .transactionAmount, .transactionTimestamp,
    .transactionTicket, .transactionMessage, .transactionSender, .creator, .transactionAssets,
    .currentBalance, .previousBalance, .send, .sendAll, .sendPrevious, .sendMessage, .addMinutes,
    .issueAsset, .mintAsset, .distribute, .holderCount, .circulating, .activationFee, .codeHash,
    .mapValue, .setMapValue]

-- The function with a given name.
def ofName? (name : String) : Option ApiFunction := all.find? (·.name == name)

end ApiFunction

end ContractSim
