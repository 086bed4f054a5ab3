import GraphMachine.Command.Arguments
import GraphMachine.Notice.Layout
import GraphMachine.Run.Session

/-!
# The command

The command reads a program from a file and runs it.  Output goes to the standard output, notices
go to the standard error stream, and the exit code tells whether the run failed.
-/

namespace GraphMachine
namespace Command

/-- What the command leaves behind. -/
structure Outcome where
  exitCode : Nat
  stdout : String
  stderr : String
deriving DecidableEq, Repr

/-- Why a file cannot be read as a program. -/
inductive ReadFault where
  | notFound
  | isDirectory
  | notText
  | other (reason : String)
deriving DecidableEq, Repr

namespace ReadFault

def message : ReadFault → String
  | notFound => "No such file or directory (os error 2)"
  | isDirectory => "Is a directory (os error 21)"
  | notText => "stream did not contain valid UTF-8"
  | other reason => reason

end ReadFault

/-- The bytes of a file as a text. -/
def decode (bytes : ByteArray) : Except ReadFault String :=
  match String.fromUTF8? bytes with
  | some text => .ok text
  | none => .error .notText

def helpText : String :=
  "Run grd graph programs\n" ++
  "\n" ++
  Usage.general.text ++ "\n" ++
  "\n" ++
  "Arguments:\n" ++
  "  [PATH]  Program file (usually with a `.grd` extension)\n" ++
  "\n" ++
  "Options:\n" ++
  "      --debug          Dump the parsed graph and trace every step\n" ++
  "      --named          Let identifiers in expressions address named memory cells\n" ++
  "      --max-steps <N>  Stop the run after this many node executions\n" ++
  "      --unlimited      Run without a step limit\n" ++
  "  -h, --help           Print help\n"

/-- What the arguments lead to before any file is read. -/
inductive Plan where
  | finish (o : Outcome)
  | run (path : String) (options : Run.Options)

/-- What to do for the given arguments. -/
def plan (args : List String) : Plan :=
  match Arguments.parse args with
  | .error .help => .finish ⟨0, helpText, ""⟩
  | .error (.error e) => .finish ⟨2, "", e.text⟩
  | .ok a =>
      match a.path with
      | none => .finish ⟨0, helpText ++ "\n", ""⟩
      | some path => .run path a.options

/-- What is left behind if the file cannot be read. -/
def unreadable (path : String) (fault : ReadFault) : Outcome :=
  ⟨1, "", "Error: grd::read\n\n  × could not read `" ++ path ++ "`\n  ╰─▶ " ++ fault.message ++
    "\n\n"⟩

/-- What is written before the run. -/
def preamble (o : Run.Options) (g : Graph) : String :=
  if o.debug then "=== Graph ===\n" ++ g.listing ++ "\n" else ""

/-- The notices about a run: skipped operations and then the error. -/
def notices (path source : String) (g : Graph) (diagnostics : Array Run.Diagnostic)
    (failure : Option Run.RunError) : String :=
  String.join (diagnostics.toList.map (Notice.renderDiagnostic false path source)) ++
    (failure.map (Notice.renderRunError false path source g)).getD ""

def exitCode (failure : Option Run.RunError) : Nat :=
  if failure.isSome then 1 else 0

/-- Runs a program that was read from a file. -/
def runSource (path source : String) (o : Run.Options) : Option Outcome :=
  let g := Program.parse source
  match (Run.Session.new g o .unlimited .off).run with
  | none => none
  | some (result, s) =>
      let (diagnostics, failure) := match result with
        | .ok report => (report.diagnostics, none)
        | .error err => (s.recovered, some err)
      some ⟨exitCode failure, preamble o g ++ s.out.text,
        notices path source g diagnostics failure⟩

/-- The whole command, for a way to read files. -/
def execute (args : List String) (read : String → Except ReadFault String) : Option Outcome :=
  match plan args with
  | .finish o => some o
  | .run path o =>
      match read path with
      | .error fault => some (unreadable path fault)
      | .ok source => runSource path source o

end Command
end GraphMachine
