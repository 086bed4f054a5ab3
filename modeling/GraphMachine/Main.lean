import GraphMachine.Command.Execution

/-!
# The program

Reads the file, writes the output of the run as it comes, and tells how the run ended.
-/

namespace GraphMachine
namespace Command

/-- Why reading a file failed. -/
def readFault : IO.Error → ReadFault
  | .noFileOrDirectory .. => .notFound
  | .inappropriateType .. => .isDirectory
  | err => .other (toString err)

def readSource (path : String) : IO (Except ReadFault String) := do
  try
    return decode (← IO.FS.readBinFile path)
  catch err =>
    return .error (readFault err)

/-- Writes what is left behind, and gives the exit code. -/
def emit (o : Outcome) : IO UInt32 := do
  (← IO.getStdout).putStr o.stdout
  (← IO.getStderr).putStr o.stderr
  return o.exitCode.toUInt32

/-- How many steps are taken before output is written. -/
def stride : Nat :=
  256

/-- Follows a run to its end, and writes output as it comes. -/
partial def follow (g : Graph) (o : Run.Options) (m : Run.Machine) :
    IO (Run.Machine × Except Run.RunError String) := do
  let stdout ← IO.getStdout
  match m.advance g o stride with
  | .running next =>
      stdout.putStr next.out.text
      stdout.flush
      follow g o { next with out := .unlimited }
  | .ended final result =>
      stdout.putStr final.out.text
      stdout.flush
      return (final, result)

def runFile (path source : String) (o : Run.Options) : IO UInt32 := do
  let g := Program.parse source
  (← IO.getStdout).putStr (preamble o g)
  let (final, result) ← follow g o (.initial .unlimited .off)
  let failure : Option Run.RunError := match result with
    | .ok _ => none
    | .error err => some err
  emit ⟨exitCode failure, "", notices path source g final.diagnostics failure⟩

end Command
end GraphMachine

open GraphMachine in
def main (args : List String) : IO UInt32 := do
  match Command.plan args with
  | .finish o => Command.emit o
  | .run path o =>
      match ← Command.readSource path with
      | .error fault => Command.emit (Command.unreadable path fault)
      | .ok source => Command.runFile path source o
