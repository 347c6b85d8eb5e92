import HostScript.CommandLine

/-! # The program -/
namespace HostScript

/-- Steps that a script run from the command line may take. -/
def stepLimit : Nat := 1000000000000

def readText (path : String) : IO (Option String) := do
  try
    return some (← IO.FS.readFile path)
  catch _ =>
    return none

def runProgram (arguments : List String) : IO UInt32 := do
  let text ← match CommandLine.readArguments arguments with
    | .ok request => if request.file then readText request.contents else pure none
    | .error _ => pure none
  let outcome := CommandLine.run stepLimit arguments fun _ => text
  (← IO.getStdout).putStr outcome.stdout
  (← IO.getStderr).putStr (if outcome.code = 2 then outcome.stderr ++ "\n" else outcome.stderr)
  return outcome.code.toUInt32

end HostScript

def main (arguments : List String) : IO UInt32 := HostScript.runProgram arguments
