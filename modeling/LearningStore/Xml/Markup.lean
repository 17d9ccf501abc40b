import LearningStore.Text.Quoted

/-!
# Written tags

A tag by its name and attributes, and its three written forms.  Names are written
as they are; attribute values are escaped.
-/

namespace LearningStore.Xml

/-- The name and the attributes of a tag to write. -/
structure Markup where
  name : String
  attributes : List (String × String)
deriving DecidableEq, Repr

namespace Markup

/-- The name and the attributes between the angle brackets. -/
def inside (m : Markup) : String :=
  m.name ++ String.join (m.attributes.map fun (key, value) =>
    " " ++ key ++ "=\"" ++ Text.xmlEscaped value ++ "\"")

/-- The tag that opens an element. -/
def start (m : Markup) : String :=
  "<" ++ m.inside ++ ">"

/-- The tag of an element without content. -/
def empty (m : Markup) : String :=
  "<" ++ m.inside ++ "/>"

/-- The tag that closes an element. -/
def stop (m : Markup) : String :=
  "</" ++ m.name ++ ">"

end Markup

/-- The spelling of a truth value. -/
def booleanText (b : Bool) : String :=
  if b then "true" else "false"

end LearningStore.Xml
