import LearningStore.Compile.Options
import LearningStore.Text.Letters
import LearningStore.Text.Similarity

/-!
# Flags

What can be given on the command line beside the input.  Nine flags take a value and
set one of the options of a compilation; each of them has a second spelling that
starts with a slash and may be written in any case.  Switches take no value.
-/

namespace LearningStore.CommandLine

open LearningStore.Compile
open LearningStore.Text

/-- A name behind two dashes. -/
def dashed (name : String) : String :=
  "--" ++ name

/-- The flags that take a value. -/
inductive Flag where
  | baseSchema
  | outputInit
  | outputUpgrade
  | outputHelper
  | enumNamespace
  | schemaNamespace
  | outputComponentsHelper
  | outputStorageHelper
  | outputBaseInit
deriving DecidableEq, Repr

/-- The spellings of a flag, what its value is called, whether the value is a path,
and what the flag is for. -/
structure FlagDescriptor where
  name : String
  slashName : String
  valueName : String
  isPath : Bool
  purpose : String

namespace Flag

/-- The flags in the order in which help lists them. -/
def all : List Flag :=
  [baseSchema, outputInit, outputUpgrade, outputHelper, enumNamespace, schemaNamespace,
    outputComponentsHelper, outputStorageHelper, outputBaseInit]

def descriptor : Flag → FlagDescriptor
  | baseSchema =>
      ⟨"base-schema", "/BaseSchema", "PATH", true,
        "Base schema file (defaults to the embedded base schema)"⟩
  | outputInit =>
      ⟨"output-init", "/OutputInit", "PATH", true,
        "Write the init script for the base and derived schema"⟩
  | outputUpgrade =>
      ⟨"output-upgrade", "/OutputUpgrade", "PATH", true,
        "Write the upgrade script for the base and derived schema"⟩
  | outputHelper =>
      ⟨"output-helper", "/OutputHelper", "PATH", true,
        "Write the helper file for the derived schema"⟩
  | enumNamespace =>
      ⟨"namespace", "/Namespace", "NAMESPACE", false,
        "Namespace of the derived enums and identifier classes"⟩
  | schemaNamespace =>
      ⟨"schema-namespace", "/SchemaNamespace", "SCHEMA_NAMESPACE", false,
        "Namespace of the derived item type, view and right classes"⟩
  | outputComponentsHelper =>
      ⟨"output-components-helper", "/OutputComponentsHelper", "PATH", true,
        "Write the components helper for the base schema"⟩
  | outputStorageHelper =>
      ⟨"output-storage-helper", "/OutputStorageHelper", "PATH", true,
        "Write the storage helper for the base schema"⟩
  | outputBaseInit =>
      ⟨"output-base-init", "/OutputBaseInit", "PATH", true,
        "Write the init script for the base schema alone"⟩

/-- The spelling with two dashes. -/
def long (f : Flag) : String :=
  dashed f.descriptor.name

/-- The flag as messages show it, with its value. -/
def label (f : Flag) : String :=
  f.long ++ " <" ++ f.descriptor.valueName ++ ">"

/-- The flag with a spelling that starts with a slash. -/
def ofSlash? (text : String) : Option Flag :=
  all.find? fun f => sameLetters f.descriptor.slashName text

/-- The value that some options have for a flag. -/
def get (f : Flag) (o : Options) : Option String :=
  match f with
  | baseSchema => o.baseSchema
  | outputInit => o.outputInit
  | outputUpgrade => o.outputUpgrade
  | outputHelper => o.outputHelper
  | enumNamespace => o.enumNamespace
  | schemaNamespace => o.schemaNamespace
  | outputComponentsHelper => o.outputComponentsHelper
  | outputStorageHelper => o.outputStorageHelper
  | outputBaseInit => o.outputBaseInit

/-- The options with a value for a flag. -/
def set (f : Flag) (value : String) (o : Options) : Options :=
  match f with
  | baseSchema => { o with baseSchema := some value }
  | outputInit => { o with outputInit := some value }
  | outputUpgrade => { o with outputUpgrade := some value }
  | outputHelper => { o with outputHelper := some value }
  | enumNamespace => { o with enumNamespace := some value }
  | schemaNamespace => { o with schemaNamespace := some value }
  | outputComponentsHelper => { o with outputComponentsHelper := some value }
  | outputStorageHelper => { o with outputStorageHelper := some value }
  | outputBaseInit => { o with outputBaseInit := some value }

end Flag

/-- The flags without a value. -/
inductive Switch where
  | verbose
  | help
  | version
deriving DecidableEq, Repr

namespace Switch

def all : List Switch := [verbose, help, version]

def letter : Switch → Char
  | verbose => 'v'
  | help => 'h'
  | version => 'V'

def name : Switch → String
  | verbose => "verbose"
  | help => "help"
  | version => "version"

def purpose : Switch → String
  | verbose => "Enable verbose output"
  | help => "Print help"
  | version => "Print version"

/-- The switch as messages show it. -/
def label (s : Switch) : String :=
  dashed s.name

def ofLetter? (letter : Char) : Option Switch :=
  all.find? fun s => s.letter == letter

/-- Whether the switch sets an option of a compilation.  The others ask for a text in
its place. -/
def setsOption : Switch → Bool
  | verbose => true
  | help => false
  | version => false

end Switch

/-- What is given by a name behind two dashes. -/
inductive Parameter where
  | flag (f : Flag)
  | switch (s : Switch)
deriving DecidableEq, Repr

namespace Parameter

def all : List Parameter := Flag.all.map flag ++ Switch.all.map switch

def name : Parameter → String
  | flag f => f.descriptor.name
  | switch s => s.name

/-- The parameter as messages show it. -/
def label : Parameter → String
  | flag f => f.label
  | switch s => s.label

def ofName? (name : String) : Option Parameter :=
  all.find? fun p => p.name == name

/-- The parameter whose name is most like a name that none has. -/
def similarTo? (name : String) : Option Parameter :=
  mostSimilar? name Parameter.name all

def setsOption : Parameter → Bool
  | flag _ => true
  | switch s => s.setsOption

end Parameter

/-- An argument with the slash spelling of a flag replaced by the one with two
dashes.  All else stays, paths from the root among it. -/
def normalized (argument : String) : String :=
  match Flag.ofSlash? argument with
  | some f => f.long
  | none => argument

end LearningStore.CommandLine
