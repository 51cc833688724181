import ContractSim.Assembly.Instruction
import ContractSim.Assembly.Token

namespace ContractSim

-- Lines that act when a contract is loaded.
inductive Directive where
  | comment
  | declare (name : String)
  | const (target : String) (value : Word)
  | setting (key value : String)
  -- A known directive with the wrong operands.
  | malformed
  | unknown
deriving DecidableEq, Repr

-- What a line of the source is.
inductive Line where
  | blank
  | label (name : String)
  | directive (directive : Directive)
  | code (instruction : Instruction)
  | invalid
deriving DecidableEq, Repr

namespace Instruction

-- Instructions without operands.
def ofBare? : String → Option Instruction
  | "RET" => some .ret
  | "PCS" => some .setRestart
  | "NOP" => some .nop
  | "SLP" => some (.sleep none)
  | "FIN" => some .finish
  | "STP" => some .stop
  | _ => none

-- Instructions on one cell.
def ofCell? : String → String → Option Instruction
  | "CLR", target => some (.clear target)
  | "INC", target => some (.increment target)
  | "DEC", target => some (.decrement target)
  | "NOT", target => some (.complement target)
  | "POP", target => some (.pop target)
  | _, _ => none

-- Instructions on one value.
def ofValue? : String → String → Option Instruction
  | "PSH", source => some (.push source)
  | "SLP", source => some (.sleep (some source))
  | "FIZ", source => some (.finishIfZero source)
  | "STZ", source => some (.stopIfZero source)
  | _, _ => none

-- Instructions on one label.
def ofLabel? : String → String → Option Instruction
  | "JSR", label => some (.jumpSub label)
  | "JMP", label => some (.jump label)
  | "ERR", label => some (.setHandler label)
  | _, _ => none

-- Branches on one value.
def ofValueLabel? : String → String → String → Option Instruction
  | "BZR", source, label => some (.branchZero source label)
  | "BNZ", source, label => some (.branchNotZero source label)
  | _, _, _ => none

-- Instructions on a cell and a value.
def ofCellValue? (mnemonic target source : String) : Option Instruction :=
  if mnemonic = "SET" then some (.copy target source)
  else (ArithOp.ofMnemonic? mnemonic).map (.arith · target source)

-- The names of tokens that all have to be values.
def valueNames? (tokens : List Token) : Option (List String) :=
  tokens.mapM fun
    | .value name => some name
    | _ => none

-- A call whose operands fit the function.
def ofCall? (result : Option String) (name : String) (arguments : List Token) :
    Option Instruction := do
  let arguments ← valueNames? arguments
  let function ← ApiFunction.ofName? name
  if function.shape = ⟨result.isSome, arguments.length⟩ then some (.call function result arguments)
  else none

-- Reads the operands of a mnemonic.
def ofOperands? (mnemonic : String) : List Token → Option Instruction
  | [] => ofBare? mnemonic
  | [.cell target] => ofCell? mnemonic target
  | [.value source] => ofValue? mnemonic source
  | [.label label] => ofLabel? mnemonic label
  | [.cell target, .literal value] =>
      if mnemonic = "SET" then some (.setValue target value) else none
  | [.cell target, .value source] => ofCellValue? mnemonic target source
  | [.cell target, .valuePointer base none] =>
      if mnemonic = "SET" then some (.load target base) else none
  | [.cell target, .valuePointer base (some offset)] =>
      if mnemonic = "SET" then some (.loadIndexed target base offset) else none
  | [.cellPointer base none, .value source] =>
      if mnemonic = "SET" then some (.store base source) else none
  | [.cellPointer base (some offset), .value source] =>
      if mnemonic = "SET" then some (.storeIndexed base offset source) else none
  | [.value source, .label label] => ofValueLabel? mnemonic source label
  | [.cell target, .value multiplier, .value divisor] =>
      if mnemonic = "MDV" then some (.mulDiv target multiplier divisor) else none
  | [.value left, .value right, .label label] =>
      (Comparison.ofMnemonic? mnemonic).map (.branch · left right label)
  | _ => none

-- Reads an instruction: a mnemonic and its operands.
def ofTokens? : List Token → Option Instruction
  | .word "FUN" :: .cell result :: .word name :: arguments => ofCall? (some result) name arguments
  | .word "FUN" :: .word name :: arguments => ofCall? none name arguments
  | .word mnemonic :: operands => ofOperands? mnemonic operands
  | _ => none

end Instruction

namespace Directive

open ContractSim.Text

-- Reads what follows the mark of a directive.
def ofText (text : List Char) : Directive :=
  match (words text).map String.ofList with
  | "comment" :: _ => .comment
  | ["declare", name] => if Token.isName name.toList then .declare name else .malformed
  | "declare" :: _ => .malformed
  | "const" :: rest =>
      match Token.scan (unwords (rest.map String.toList)) with
      | some [.word "SET", .cell target, .literal value] => .const target value
      | _ => .malformed
  | "program" :: key :: first :: rest => .setting key (" ".intercalate (first :: rest))
  | "program" :: _ => .malformed
  | _ => .unknown

end Directive

namespace Line

open ContractSim.Text

-- Reads a line that has no blanks at its ends.
def ofTrimmed : List Char → Line
  | [] => .blank
  | '^' :: rest => .directive (Directive.ofText rest)
  | text =>
      if text.getLast? = some ':' then
        match Token.name? text.dropLast with
        | some name => .label name
        | none => .invalid
      else
        match (Token.scan text).bind Instruction.ofTokens? with
        | some instruction => .code instruction
        | none => .invalid

-- Reads one line of the source.
def parse (text : String) : Line := ofTrimmed (trim text.toList)

-- Lines at which a contract can stand. Reaching an invalid line is a fault.
def isExecutable : Line → Bool
  | .code _ | .invalid => true
  | .blank | .label _ | .directive _ => false

end Line

end ContractSim
