import LearningStore.CommandLine.Flag
import LearningStore.Text.Terminal

/-!
# Usage

What the program says about its command line: the help, the version, and what is
wrong with arguments that it cannot read.  Of an argument it shows what a terminal
would show.
-/

namespace LearningStore.CommandLine

open LearningStore.Text

def programName : String := "store-schema-compiler"

def versionText : String := programName ++ " 0.1.0\n"

def inputName : String := "INPUT"

/-- How the input is shown where it may be left out. -/
def inputLabel : String := "[" ++ inputName ++ "]"

/-- How the input is shown where it was given. -/
def givenInputLabel : String := "<" ++ inputName ++ ">"

/-- The line that shows what a command line is made of. -/
def usageLine (parts : List String) : String :=
  "Usage: " ++ " ".intercalate (programName :: parts) ++ "\n"

/-- The usage of the program as a whole. -/
def generalUsage : String := usageLine ["[OPTIONS]", inputLabel]

/-- The usage that goes with what was given. -/
def usageOf (parameters : List Parameter) (hasInput : Bool) : String :=
  if parameters.isEmpty && !hasInput then generalUsage
  else usageLine (parameters.map Parameter.label ++
    [if hasInput then givenInputLabel else inputLabel])

/-- All that sets an option, the input among it. -/
def alternatives : String :=
  "<" ++ "|".intercalate
    (inputName :: (Parameter.all.filter Parameter.setsOption).map Parameter.label) ++ ">"

/-- The usage of a switch behind something that sets an option.  It shows what could
have been given there, and the switch itself where it is none of that. -/
def usageBehindOption (switch : Switch) : String :=
  usageLine (if switch.setsOption then [alternatives] else [switch.label, alternatives])

/-- What is wrong with some arguments. -/
inductive UsageError where
  /-- An argument has no meaning where it stands.  Some could be given as the input,
  behind two dashes. -/
  | unexpectedArgument (argument : String) (couldBeInput : Bool)
  /-- No parameter has a name, though there may be one with a similar name.  Other
  parameters, and an input or none, are given beside it. -/
  | unknownName (name : String) (similar : Option Parameter) (given : List Parameter)
      (hasInput : Bool)
  /-- A switch has a value.  It may stand behind something that sets an option. -/
  | unexpectedValue (value : String) (switch : Switch) (behindOption : Bool)
  | repeated (label : String)
  | valueMissing (label : String)
deriving DecidableEq, Repr

namespace UsageError

def pointer : String := "\nFor more information, try '--help'.\n"

/-- An argument that was not expected, and a tip if there is one. -/
def unexpected (argument : String) (tip : Option String) : String :=
  "error: unexpected argument '" ++ shown argument ++ "' found\n\n" ++
    match tip with
    | none => ""
    | some tip => "  tip: " ++ tip ++ "\n\n"

/-- How to give an argument as the input. -/
def inputTip (argument : String) : String :=
  "to pass '" ++ shown argument ++ "' as a value, use '-- " ++ shown argument ++ "'"

def similarTip (p : Parameter) : String :=
  "a similar argument exists: '" ++ dashed p.name ++ "'"

/-- The parameters that the usage shows beside an unknown name: those given, and the
one with the similar name, each of them once. -/
def shownParameters (similar : Option Parameter) (given : List Parameter) :
    List Parameter :=
  given ++ similar.toList.filter (· ∉ given)

def message : UsageError → String
  | unexpectedArgument argument couldBeInput =>
      unexpected argument (if couldBeInput then some (inputTip argument) else none) ++
        generalUsage ++ pointer
  | unknownName name similar given hasInput =>
      unexpected (dashed name) ((similar.map similarTip).getD (inputTip (dashed name))) ++
        usageOf (shownParameters similar given) hasInput ++ pointer
  | unexpectedValue value switch behindOption =>
      "error: unexpected value '" ++ shown value ++ "' for '" ++ switch.label ++
        "' found; no more were expected\n\n" ++
        (if behindOption then usageBehindOption switch else usageOf [.switch switch] false) ++
        pointer
  | repeated label =>
      "error: the argument '" ++ label ++ "' cannot be used multiple times\n\n" ++
        generalUsage ++ pointer
  | valueMissing label =>
      "error: a value is required for '" ++ label ++ "' but none was supplied\n" ++ pointer

end UsageError

/-- The entry of a flag in the help. -/
def Flag.help (f : Flag) : String :=
  "      " ++ f.label ++ "\n          " ++ f.descriptor.purpose ++ "\n"

/-- The entry of a switch in the help. -/
def Switch.entry (s : Switch) : String :=
  "  -" ++ s.letter.toString ++ ", " ++ s.label ++ "\n          " ++ s.purpose ++ "\n"

def helpText : String :=
  "Compile LearningStore XML schemas into C# helper files and T-SQL scripts\n\n" ++
    generalUsage ++ "\nArguments:\n  " ++ inputLabel ++ "  Derived schema file\n\nOptions:\n" ++
    String.join (Flag.all.map Flag.help) ++ String.join (Switch.all.map Switch.entry) ++
    "\nOptions may also be written in the /OutputInit form, in any case.\n"

end LearningStore.CommandLine
