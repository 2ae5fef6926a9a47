import Calculator.CommandLine

namespace Calculator.CommandLine

def readFile? (file : String) : IO (Option ByteArray) := do
  try
    return some (← IO.FS.readBinFile file)
  catch _ =>
    return none

def Command.perform (command : Command) : IO UInt32 := do
  let bytes ← match command.file? with
    | some file => readFile? file
    | none => pure none
  let outcome := command.run bytes
  IO.print outcome.output
  IO.eprint outcome.errors
  return outcome.status.toUInt32

end Calculator.CommandLine

def main (arguments : List String) : IO UInt32 :=
  (Calculator.CommandLine.Command.ofArguments arguments).perform
