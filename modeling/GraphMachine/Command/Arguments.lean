import GraphMachine.Run.Basic
import GraphMachine.Text.Similarity

/-!
# Command line arguments

The command takes switches, a step limit and the path of a program, in any order.  After `--` every
argument is a path.

The value of an option and the path are checked when the next argument has been recognised, so a
fault of a later argument that cannot be recognised is told first.
-/

namespace GraphMachine
namespace Command

/-- Parameters of the command. -/
inductive Parameter where
  | debug
  | named
  | maxSteps
  | unlimited
  | help
  | path
deriving DecidableEq, Repr

namespace Parameter

def longName : Parameter → String
  | debug => "debug"
  | named => "named"
  | maxSteps => "max-steps"
  | unlimited => "unlimited"
  | help => "help"
  | path => "PATH"

/-- The parameters that are given by name. -/
def options : List Parameter :=
  [debug, named, maxSteps, unlimited, help]

/-- The parameters that a run has. -/
def ofRun : List Parameter :=
  [debug, named, maxSteps, unlimited, path]

/-- The option with a name. -/
def ofLongName? (name : String) : Option Parameter :=
  options.find? fun p => p.longName == name

def text : Parameter → String
  | maxSteps => "--max-steps <N>"
  | path => "[PATH]"
  | p => "--" ++ p.longName

end Parameter

/-- Why a text is no step limit. -/
inductive NumberFault where
  | noDigits
  | invalidDigit
  | tooLarge
deriving DecidableEq, Repr

namespace NumberFault

def message : NumberFault → String
  | noDigits => "cannot parse integer from empty string"
  | invalidDigit => "invalid digit found in string"
  | tooLarge => "number too large to fit in target type"

end NumberFault

/-- Advice on an argument that is not known. -/
inductive Tip where
  | passAsValue
  | similar (name : String)
deriving DecidableEq, Repr

/-- A way to use the command, as it is shown with a fault. -/
inductive Usage where
  /-- Any options and a path. -/
  | general
  /-- The given parameters, and a path in any case. -/
  | exactly (parameters : List Parameter)
  /-- One of the parameters that a run has, after the request for help if there was one. -/
  | oneOf (help : Bool)
deriving DecidableEq, Repr

namespace Usage

/-- The parameters that a run has, as alternatives. -/
def alternatives : String :=
  let name (p : Parameter) : String := if p = .path then p.longName else p.text
  "<" ++ "|".intercalate (Parameter.ofRun.map name) ++ ">"

def form : Usage → String
  | general => "[OPTIONS] [PATH]"
  | exactly parameters =>
      let options := parameters.filter fun p => p != .path
      let path := if .path ∈ parameters then "<PATH>" else "[PATH]"
      String.join (options.map fun p => p.text ++ " ") ++ path
  | oneOf help => (if help then Parameter.help.text ++ " " else "") ++ alternatives

def text (u : Usage) : String :=
  "Usage: grd " ++ u.form

end Usage

/-- What is wrong with the arguments.  Some faults are told together with a usage that depends on
the parameters given so far. -/
inductive UsageError where
  | unexpectedArgument (argument : String) (tip : Option Tip) (usage : Usage)
  | missingValue (parameter : Parameter)
  | invalidSteps (value : String) (fault : NumberFault)
  | conflict (first second : Parameter) (usage : Usage)
  | repeated (parameter : Parameter)
  | unexpectedValue (value : String) (parameter : Parameter) (usage : Usage)
deriving DecidableEq, Repr

namespace UsageError

def message : UsageError → String
  | unexpectedArgument argument _ _ => "unexpected argument '" ++ argument ++ "' found"
  | missingValue p => "a value is required for '" ++ p.text ++ "' but none was supplied"
  | invalidSteps value fault =>
      "invalid value '" ++ value ++ "' for '" ++ Parameter.maxSteps.text ++ "': " ++ fault.message
  | conflict first second _ =>
      "the argument '" ++ first.text ++ "' cannot be used with '" ++ second.text ++ "'"
  | repeated p => "the argument '" ++ p.text ++ "' cannot be used multiple times"
  | unexpectedValue value p _ =>
      "unexpected value '" ++ value ++ "' for '" ++ p.text ++ "' found; no more were expected"

def tip? : UsageError → Option String
  | unexpectedArgument argument (some .passAsValue) _ =>
      some ("  tip: to pass '" ++ argument ++ "' as a value, use '-- " ++ argument ++ "'")
  | unexpectedArgument _ (some (.similar name)) _ =>
      some ("  tip: a similar argument exists: '--" ++ name ++ "'")
  | _ => none

/-- The usage that is shown with a fault. -/
def usage? : UsageError → Option Usage
  | unexpectedArgument _ _ usage => some usage
  | conflict _ _ usage => some usage
  | repeated _ => some .general
  | unexpectedValue _ _ usage => some usage
  | missingValue _ => none
  | invalidSteps _ _ => none

/-- All that is said about a fault. -/
def text (e : UsageError) : String :=
  let paragraph (line : Option String) : String := (line.map (· ++ "\n\n")).getD ""
  "error: " ++ e.message ++ "\n\n" ++ paragraph e.tip? ++ paragraph (e.usage?.map Usage.text) ++
    "For more information, try '--help'.\n"

end UsageError

/-- The arguments of the command. -/
structure Arguments where
  debug : Bool
  named : Bool
  unlimited : Bool
  maxSteps : Option Nat
  path : Option String
deriving DecidableEq, Repr

namespace Arguments

def empty : Arguments :=
  ⟨false, false, false, none, none⟩

/-- The options of the run that the arguments ask for. -/
def options (a : Arguments) : Run.Options :=
  let standard := Run.Options.standard
  { standard with
    mode := if a.named then .named else .tape
    maxSteps := if a.unlimited then none else a.maxSteps.or standard.maxSteps
    debug := a.debug }

end Arguments

/-- What the arguments ask for if they ask for no run, or why they cannot be understood. -/
inductive Refusal where
  | help
  | error (e : UsageError)
deriving DecidableEq, Repr

/-- A parameter that was recognised and whose value is not checked yet. -/
inductive Pending where
  | nothing
  | steps (value : Option String)
  | path (value : String)
deriving DecidableEq, Repr

/-- Arguments while they are read. -/
structure Reader where
  arguments : Arguments
  /-- The parameters used so far, in order. -/
  used : List Parameter
  pending : Pending
  /-- Whether there was a path. -/
  pathGiven : Bool
deriving DecidableEq, Repr

namespace Reader

def initial : Reader :=
  ⟨.empty, [], .nothing, false⟩

/-- Digits as a 64-bit step limit; the first fault from the left counts. -/
def limitOfDigits (value : Nat) : List Char → Except NumberFault Nat
  | [] => .ok value
  | c :: cs =>
      if c.isDigit then
        let next := 10 * value + Decimal.digit c
        if next < Decimal.countBound then limitOfDigits next cs else .error .tooLarge
      else
        .error .invalidDigit

/-- A text as a step limit. -/
def limitOfText : List Char → Except NumberFault Nat
  | [] => .error .noDigits
  | ['+'] => .error .invalidDigit
  | '+' :: digits => limitOfDigits 0 digits
  | digits => limitOfDigits 0 digits

def use (r : Reader) (p : Parameter) : Reader :=
  { r with used := r.used ++ [p] }

/-- Takes a step limit. -/
def takeSteps (r : Reader) (value : String) : Except UsageError Reader :=
  if .maxSteps ∈ r.used then
    .error (.repeated .maxSteps)
  else
    match limitOfText value.toList with
    | .ok limit =>
        .ok { r.use .maxSteps with arguments := { r.arguments with maxSteps := some limit } }
    | .error fault => .error (.invalidSteps value fault)

def takePath (r : Reader) (value : String) : Except UsageError Reader :=
  if value = "" then
    .error (.missingValue .path)
  else
    .ok { r.use .path with arguments := { r.arguments with path := some value } }

def takeSwitch (r : Reader) (p : Parameter) : Except UsageError Reader :=
  if p ∈ r.used then
    .error (.repeated p)
  else
    let a := r.arguments
    let set := match p with
      | .debug => { a with debug := true }
      | .named => { a with named := true }
      | .unlimited => { a with unlimited := true }
      | _ => a
    .ok { r.use p with arguments := set }

/-- Checks the value of the parameter that is pending. -/
def settle (r : Reader) : Except UsageError Reader :=
  let rest := { r with pending := .nothing }
  match r.pending with
  | .nothing => .ok rest
  | .steps none => .error (.missingValue .maxSteps)
  | .steps (some value) => rest.takeSteps value
  | .path value => rest.takePath value

/-- Whether some parameter was given together with its value, checked or not. -/
def anyGiven (r : Reader) : Bool :=
  match r.pending with
  | .steps (some _) => true
  | .path _ => true
  | _ => !r.used.isEmpty

/-- The fault of an option that is not known.  A similar one counts as given. -/
def unknownOption (r : Reader) (name : String) : UsageError :=
  let similar? : Option Parameter :=
    (Similarity.closest? name (Parameter.options.map Parameter.longName)).bind
      Parameter.ofLongName?
  match similar? with
  | none =>
      .unexpectedArgument ("--" ++ name) (some .passAsValue)
        (if r.anyGiven then .oneOf false else .general)
  | some .help =>
      .unexpectedArgument ("--" ++ name) (some (.similar Parameter.help.longName))
        (if r.anyGiven then .oneOf true else .exactly [.help])
  | some p =>
      .unexpectedArgument ("--" ++ name) (some (.similar p.longName)) (.oneOf false)

/-- The fault of a value that is attached to a switch. -/
def unexpectedValue (r : Reader) (value : String) (p : Parameter) : UsageError :=
  .unexpectedValue value p (if r.used.isEmpty then .exactly [p] else .oneOf (p == .help))

/-- Lifts the check of a value into the reading of arguments. -/
def orRefuse {α : Type} : Except UsageError α → Except Refusal α
  | .ok a => .ok a
  | .error e => .error (.error e)

/-- Reads an option, with the value that is attached to it. -/
def readOption (r : Reader) (name : String) (value : Option String) : Except Refusal Reader :=
  match Parameter.ofLongName? name with
  | none => .error (.error (r.unknownOption name))
  | some .maxSteps => do
      let settled ← orRefuse r.settle
      match value with
      | some v => orRefuse (settled.takeSteps v)
      | none => .ok { settled with pending := .steps none }
  | some p =>
      match value with
      | some v => .error (.error (r.unexpectedValue v p))
      | none => do
          let settled ← orRefuse r.settle
          if p = .help then .error .help else orRefuse (settled.takeSwitch p)

def readLetter (r : Reader) (c : Char) : Except Refusal Reader :=
  if c = 'h' then do
    let _ ← orRefuse r.settle
    .error .help
  else
    .error (.error (.unexpectedArgument ("-" ++ String.singleton c) (some .passAsValue) .general))

def readPath (r : Reader) (argument : String) : Except Refusal Reader :=
  if r.pathGiven then
    .error (.error (.unexpectedArgument argument none .general))
  else do
    let settled ← orRefuse r.settle
    .ok { settled with pending := .path argument, pathGiven := true }

/-- The name of an option and the value after the equals sign. -/
def splitOption (text : List Char) : String × Option String :=
  match text.dropWhile (· != '=') with
  | [] => (String.ofList text, none)
  | _ :: value => (String.ofList (text.takeWhile (· != '=')), some (String.ofList value))

def readArgument (r : Reader) (argument : String) : Except Refusal Reader :=
  match argument.toList with
  | '-' :: '-' :: option =>
      let (name, value) := splitOption option
      r.readOption name value
  | '-' :: c :: _ => r.readLetter c
  | _ =>
      match r.pending with
      | .steps none => .ok { r with pending := .steps (some argument) }
      | _ => r.readPath argument

def readAll : Reader → Bool → List String → Except Refusal Reader
  | r, _, [] => .ok r
  | r, true, argument :: rest => do
      let next ← r.readPath argument
      readAll next true rest
  | r, false, argument :: rest =>
      if argument = "--" then
        readAll r true rest
      else do
        let next ← r.readArgument argument
        readAll next false rest

/-- Checks that the step limit is not given twice over. -/
def checkConflict (r : Reader) : Except UsageError Arguments :=
  let without (p : Parameter) : Usage := .exactly (r.used.filter fun q => q != p)
  match r.used.find? fun p => p == .maxSteps || p == .unlimited with
  | some .maxSteps =>
      if .unlimited ∈ r.used then
        .error (.conflict .maxSteps .unlimited (without .unlimited))
      else
        .ok r.arguments
  | some .unlimited =>
      if .maxSteps ∈ r.used then
        .error (.conflict .unlimited .maxSteps (without .maxSteps))
      else
        .ok r.arguments
  | _ => .ok r.arguments

end Reader

/-- Reads the arguments of the command. -/
def Arguments.parse (args : List String) : Except Refusal Arguments := do
  let r ← Reader.initial.readAll false args
  let settled ← Reader.orRefuse r.settle
  Reader.orRefuse settled.checkConflict

end Command
end GraphMachine
