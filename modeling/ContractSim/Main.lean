import ContractSim.Arguments

open ContractSim

-- The content of a file; none when it cannot be read as text.
def readText (name : String) : IO (Option String) := do
  try
    return some (← IO.FS.readFile name)
  catch _ =>
    return none

def main (arguments : List String) : IO UInt32 := do
  match Arguments.parse? arguments with
  | none =>
      IO.eprintln Arguments.usage
      return 2
  | some invocation =>
      let contents ← (Arguments.fileNames invocation).mapM fun name => do
        return (name, ← readText name)
      let files : CommandLine.Files := fun name => (contents.lookup name).getD none
      let printout := CommandLine.perform files invocation
      IO.print printout.output
      match printout.failure with
      | none => return 0
      | some failure =>
          IO.eprintln ("Error: " ++ failure)
          return 1
