import ContractSim.Api.Function
import ContractSim.Text.Numeral

namespace ContractSim

-- Operators that combine a cell with a value and store the result in the cell.
inductive ArithOp where
  | add
  | sub
  | mul
  | div
  | or
  | and
  | xor
  | mod
  | shl
  | shr
deriving DecidableEq, Repr

-- Conditions on two values, compared as signed numbers.
inductive Comparison where
  | gt
  | lt
  | ge
  | le
  | eq
  | ne
deriving DecidableEq, Repr

-- The instructions. Cells, values and labels are given by name.
inductive Instruction where
  | setValue (target : String) (value : Word)
  | copy (target source : String)
  | clear (target : String)
  | increment (target : String)
  | decrement (target : String)
  | complement (target : String)
  | arith (op : ArithOp) (target source : String)
  | load (target pointer : String)
  | loadIndexed (target base offset : String)
  | store (pointer source : String)
  | storeIndexed (base offset source : String)
  | push (source : String)
  | pop (target : String)
  | jumpSub (label : String)
  | ret
  | jump (label : String)
  | setHandler (label : String)
  | setRestart
  | nop
  | branchZero (source label : String)
  | branchNotZero (source label : String)
  | branch (condition : Comparison) (left right label : String)
  | mulDiv (target multiplier divisor : String)
  | sleep (blocks : Option String)
  | finishIfZero (source : String)
  | stopIfZero (source : String)
  | finish
  | stop
  | call (function : ApiFunction) (result : Option String) (arguments : List String)
deriving DecidableEq, Repr

namespace ArithOp

def mnemonic : ArithOp → String
  | .add => "ADD"
  | .sub => "SUB"
  | .mul => "MUL"
  | .div => "DIV"
  | .or => "BOR"
  | .and => "AND"
  | .xor => "XOR"
  | .mod => "MOD"
  | .shl => "SHL"
  | .shr => "SHR"

def all : List ArithOp := [.add, .sub, .mul, .div, .or, .and, .xor, .mod, .shl, .shr]

def ofMnemonic? (text : String) : Option ArithOp := all.find? (·.mnemonic == text)

end ArithOp

namespace Comparison

def mnemonic : Comparison → String
  | .gt => "BGT"
  | .lt => "BLT"
  | .ge => "BGE"
  | .le => "BLE"
  | .eq => "BEQ"
  | .ne => "BNE"

def all : List Comparison := [.gt, .lt, .ge, .le, .eq, .ne]

def ofMnemonic? (text : String) : Option Comparison := all.find? (·.mnemonic == text)

def holds : Comparison → Int → Int → Bool
  | .gt, left, right => left > right
  | .lt, left, right => left < right
  | .ge, left, right => left ≥ right
  | .le, left, right => left ≤ right
  | .eq, left, right => left == right
  | .ne, left, right => left != right

end Comparison

namespace Instruction

-- The names of cells and values in an instruction, in order.
def cellNames : Instruction → List String
  | .setValue target _ => [target]
  | .copy target source => [target, source]
  | .clear target => [target]
  | .increment target => [target]
  | .decrement target => [target]
  | .complement target => [target]
  | .arith _ target source => [target, source]
  | .load target pointer => [target, pointer]
  | .loadIndexed target base offset => [target, base, offset]
  | .store pointer source => [pointer, source]
  | .storeIndexed base offset source => [base, offset, source]
  | .push source => [source]
  | .pop target => [target]
  | .branchZero source _ => [source]
  | .branchNotZero source _ => [source]
  | .branch _ left right _ => [left, right]
  | .mulDiv target multiplier divisor => [target, multiplier, divisor]
  | .sleep blocks => blocks.toList
  | .finishIfZero source => [source]
  | .stopIfZero source => [source]
  | .call _ result arguments => result.toList ++ arguments
  | .jumpSub _ | .ret | .jump _ | .setHandler _ | .setRestart | .nop | .finish | .stop => []

-- A literal has sixteen hexadecimal digits.
def literal (value : Word) : String := "#" ++ String.ofList (Text.hexDigits 16 value.toNat)

-- The words of a call behind its mnemonic.
def callWords (function : ApiFunction) (result : Option String) (arguments : List String) :
    List String :=
  (result.toList.map ("@" ++ ·)) ++ function.name :: arguments.map ("$" ++ ·)

-- The source text of an instruction.
def text : Instruction → String
  | .setValue target value => "SET @" ++ target ++ " " ++ literal value
  | .copy target source => "SET @" ++ target ++ " $" ++ source
  | .clear target => "CLR @" ++ target
  | .increment target => "INC @" ++ target
  | .decrement target => "DEC @" ++ target
  | .complement target => "NOT @" ++ target
  | .arith op target source => op.mnemonic ++ " @" ++ target ++ " $" ++ source
  | .load target pointer => "SET @" ++ target ++ " $($" ++ pointer ++ ")"
  | .loadIndexed target base offset =>
      "SET @" ++ target ++ " $($" ++ base ++ " + $" ++ offset ++ ")"
  | .store pointer source => "SET @($" ++ pointer ++ ") $" ++ source
  | .storeIndexed base offset source =>
      "SET @($" ++ base ++ " + $" ++ offset ++ ") $" ++ source
  | .push source => "PSH $" ++ source
  | .pop target => "POP @" ++ target
  | .jumpSub label => "JSR :" ++ label
  | .ret => "RET"
  | .jump label => "JMP :" ++ label
  | .setHandler label => "ERR :" ++ label
  | .setRestart => "PCS"
  | .nop => "NOP"
  | .branchZero source label => "BZR $" ++ source ++ " :" ++ label
  | .branchNotZero source label => "BNZ $" ++ source ++ " :" ++ label
  | .branch condition left right label =>
      condition.mnemonic ++ " $" ++ left ++ " $" ++ right ++ " :" ++ label
  | .mulDiv target multiplier divisor =>
      "MDV @" ++ target ++ " $" ++ multiplier ++ " $" ++ divisor
  | .sleep none => "SLP"
  | .sleep (some blocks) => "SLP $" ++ blocks
  | .finishIfZero source => "FIZ $" ++ source
  | .stopIfZero source => "STZ $" ++ source
  | .finish => "FIN"
  | .stop => "STP"
  | .call function result arguments =>
      " ".intercalate ("FUN" :: callWords function result arguments)

end Instruction

end ContractSim
