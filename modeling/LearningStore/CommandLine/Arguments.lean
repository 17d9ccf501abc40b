import LearningStore.CommandLine.Usage

/-!
# Reading arguments

Arguments are read from left to right.  A flag takes the next argument as its value
unless that one starts with a dash; the value is looked at when the next flag, the
input or the end is reached.  An argument without a meaning is reported before that.
Behind two dashes every argument is the input.
-/

namespace LearningStore.CommandLine

open LearningStore.Compile

/-- The form of an argument. -/
inductive Argument where
  /-- Two dashes alone. -/
  | divider
  /-- Two dashes, a name, and a value behind an equals sign. -/
  | long (name : String) (value : Option String)
  /-- A dash and letters, each for a switch. -/
  | letters (letters : List Char)
  | plain (text : String)
deriving DecidableEq, Repr

namespace Argument

/-- The form of the text behind two dashes. -/
def ofLong (chars : List Char) : Argument :=
  let name := String.ofList (chars.takeWhile (· ≠ '='))
  match chars.dropWhile (· ≠ '=') with
  | [] => long name none
  | _ :: value => long name (some (String.ofList value))

/-- The form of a text.  A dash alone is plain. -/
def ofText (text : String) : Argument :=
  match text.toList with
  | ['-', '-'] => divider
  | '-' :: '-' :: rest => ofLong rest
  | '-' :: c :: rest => letters (c :: rest)
  | _ => plain text

end Argument

/-- What takes a value: the input or a flag. -/
inductive Target where
  | input
  | flag (f : Flag)
deriving DecidableEq, Repr

namespace Target

def label : Target → String
  | input => inputLabel
  | flag f => f.label

/-- Whether the value has to be a path, which is never empty. -/
def isPath : Target → Bool
  | input => true
  | flag f => f.descriptor.isPath

/-- The flag as a parameter.  The input is none. -/
def parameter? : Target → Option Parameter
  | input => none
  | flag f => some (.flag f)

def get (t : Target) (o : Options) : Option String :=
  match t with
  | input => o.input
  | flag f => f.get o

def set (t : Target) (value : String) (o : Options) : Options :=
  match t with
  | input => { o with input := some value }
  | flag f => f.set value o

end Target

/-- Why the arguments do not lead to a compilation. -/
inductive Stop where
  | help
  | version
  | failure (error : UsageError)
deriving DecidableEq, Repr

/-- A target that has been named, and its value if one has been read. -/
structure Pending where
  target : Target
  value : Option String
deriving DecidableEq, Repr

/-- What has been read so far: the options, the parameters that gave them in the order
in which they did, and the target whose value is still to be looked at. -/
structure Progress where
  options : Options := {}
  given : List Parameter := []
  pending : Option Pending := none
deriving DecidableEq, Repr

namespace Progress

/-- Take the value of a target. -/
def take (s : Progress) (p : Pending) : Except Stop Progress :=
  match p.value with
  | none => .error (.failure (.valueMissing p.target.label))
  | some value =>
      if (p.target.get s.options).isSome then .error (.failure (.repeated p.target.label))
      else if p.target.isPath && value.isEmpty then
        .error (.failure (.valueMissing p.target.label))
      else .ok ⟨p.target.set value s.options, s.given ++ p.target.parameter?.toList, none⟩

/-- Take the value that is still to be looked at. -/
def settled (s : Progress) : Except Stop Progress :=
  match s.pending with
  | none => .ok s
  | some p => s.take p

/-- Whether an input has been read. -/
def hasInput (s : Progress) : Bool :=
  s.options.input.isSome ||
    match s.pending with
    | some ⟨.input, _⟩ => true
    | _ => false

/-- Whether an option has been set. -/
def hasOption (s : Progress) : Bool :=
  s.options.input.isSome || !s.given.isEmpty

/-- The parameters read so far.  The one whose value is still to be looked at is among
them even if the value is empty, but a parameter that it repeats is not. -/
def parameters (s : Progress) : List Parameter :=
  match s.pending with
  | some ⟨.flag f, some _⟩ =>
      if (f.get s.options).isSome then s.given.erase (.flag f) else s.given ++ [.flag f]
  | _ => s.given

/-- Go on with a target, once the value before it is taken. -/
def await (s : Progress) (target : Target) (value : Option String) :
    Except Stop Progress :=
  s.settled.map fun s => { s with pending := some ⟨target, value⟩ }

/-- Read an argument as the input, of which there is at most one. -/
def readInput (s : Progress) (text : String) : Except Stop Progress :=
  if s.hasInput then .error (.failure (.unexpectedArgument text false))
  else s.await .input (some text)

/-- Read a switch. -/
def readSwitch (s : Progress) (switch : Switch) : Except Stop Progress := do
  let s ← s.settled
  match switch with
  | .help => throw .help
  | .version => throw .version
  | .verbose =>
      if s.options.verbose then throw (.failure (.repeated switch.label))
      else pure ⟨{ s.options with verbose := true }, s.given ++ [.switch switch], none⟩

/-- Read the letters behind a dash. -/
def readLetters (s : Progress) : List Char → Except Stop Progress
  | [] => .ok s
  | c :: rest =>
      match Switch.ofLetter? c with
      | none => .error (.failure (.unexpectedArgument (String.ofList ['-', c]) true))
      | some switch => do (← s.readSwitch switch).readLetters rest

/-- Read a name behind two dashes. -/
def readLong (s : Progress) (name : String) (value : Option String) :
    Except Stop Progress :=
  match Parameter.ofName? name, value with
  | some (.flag f), none => s.await (.flag f) none
  | some (.flag f), some value => do (← s.settled).take ⟨.flag f, some value⟩
  | some (.switch switch), none => s.readSwitch switch
  | some (.switch switch), some value =>
      .error (.failure (.unexpectedValue value switch s.hasOption))
  | none, _ =>
      .error (.failure
        (.unknownName name (Parameter.similarTo? name) s.parameters s.hasInput))

/-- Read a text that may be the value of a flag. -/
def readPlain (s : Progress) (text : String) : Except Stop Progress :=
  match s.pending with
  | some ⟨target, none⟩ => .ok { s with pending := some ⟨target, some text⟩ }
  | _ => s.readInput text

/-- Read arguments up to the end. -/
def read (s : Progress) : List String → Except Stop Progress
  | [] => .ok s
  | text :: rest =>
      match Argument.ofText text with
      | .divider => rest.foldlM readInput s
      | .long name value => do (← s.readLong name value).read rest
      | .letters letters => do (← s.readLetters letters).read rest
      | .plain text => do (← s.readPlain text).read rest

end Progress

/-- The options that arguments give, or why they give none. -/
def parse (arguments : List String) : Except Stop Options := do
  let s ← (← ({} : Progress).read (arguments.map normalized)).settled
  pure s.options

end LearningStore.CommandLine
