import ContractSim.Assembly.Line
import ContractSim.Text.Basic

namespace ContractSim

-- A line of the source and what it is.
structure SourceLine where
  text : String
  content : Line
deriving DecidableEq, Repr

def SourceLine.isExecutable (line : SourceLine) : Bool := line.content.isExecutable

-- The source of a contract, line by line, and the lines that its labels lead to. Lines are
-- numbered from zero.
structure Program where
  lines : List SourceLine
  labels : List (String × Nat)
deriving DecidableEq, Repr

namespace Program

-- Takes in the label that a line defines. Of several lines for one label the first counts.
def addLabel (labels : List (String × Nat)) (numbered : SourceLine × Nat) : List (String × Nat) :=
  match numbered.1.content with
  | .label name =>
      if (labels.lookup name).isSome then labels else labels ++ [(name, numbered.2)]
  | .blank | .directive _ | .code _ | .invalid => labels

-- The program of some lines. Its labels are collected once, from top to bottom.
def ofLines (lines : List SourceLine) : Program := ⟨lines, lines.zipIdx.foldl addLabel []⟩

def parse (source : String) : Program :=
  ofLines ((Text.lines source).map fun text => ⟨text, Line.parse text⟩)

def length (program : Program) : Nat := program.lines.length

def line? (program : Program) (index : Nat) : Option Line :=
  program.lines[index]?.map SourceLine.content

def sourceLine? (program : Program) (index : Nat) : Option String :=
  program.lines[index]?.map SourceLine.text

-- The text of a line without blanks at its ends; empty past the end.
def trimmedLine (program : Program) (index : Nat) : String :=
  Text.trimmed ((program.sourceLine? index).getD "")

-- The line that a label leads to.
def label? (program : Program) (name : String) : Option Nat := program.labels.lookup name

-- The first executable line at or after an index.
def nextExecutable? (program : Program) (start : Nat) : Option Nat :=
  ((program.lines.drop start).findIdx? SourceLine.isExecutable).map (start + ·)

-- Where control goes from an index: the next executable line or the end of the program.
def landing (program : Program) (start : Nat) : Nat :=
  (program.nextExecutable? start).getD program.length

def firstExecutable? (program : Program) : Option Nat := program.nextExecutable? 0

-- The indices of the executable lines.
def executableLines (program : Program) : List Nat :=
  (List.range program.length).filter fun index =>
    ((program.line? index).map Line.isExecutable).getD false

end Program

end ContractSim
