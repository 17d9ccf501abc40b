import LearningStore.Schema.Checked
import LearningStore.Schema.Element
import LearningStore.Schema.Rule
import LearningStore.Text.Blank

/-!
# Checking elements against the grammar

A source is the document of a schema file under the name by which problems refer
to it.  `Source.check` finds everything about one element that its rule forbids:
attributes, children and text.  What stands inside its children is theirs to check.
-/

namespace LearningStore.Schema

open LearningStore.Text
open LearningStore.Xml

/-- The document of a schema file. -/
structure Source where
  fileName : String
  inBase : Bool
  document : Document

namespace Source

def locationOf (s : Source) (span : Span) : Location :=
  let p := s.document.position span
  ⟨s.fileName, p.line, p.column⟩

def location (s : Source) (e : Element) : Location :=
  s.locationOf e.tag.span

/-- A problem at an element. -/
def problem (s : Source) (e : Element) (cause : Cause) : Problem :=
  ⟨some (s.location e), cause⟩

/-- The attributes that a rule does not allow.  Those in a namespace are free. -/
def strayAttributes (s : Source) (e : Element) (rule : ElementRule) : List Problem :=
  let stray := e.tag.attributes.filter fun a =>
    a.name.uri.isNone && !rule.allowsAttribute a.name.localName
  stray.map fun a => s.problem e (.attributeNotAllowed a.name.localName rule.name)

/-- The attributes that a rule requires and the element lacks. -/
def missingAttributes (s : Source) (e : Element) (rule : ElementRule) : List Problem :=
  let missing := rule.required.filter fun name => (e.attribute? name).isNone
  missing.map fun name => s.problem e (.attributeMissing rule.name name)

/-- The children that a rule does not allow, after those whose names are in
`seen`: wrong elements, elements that may stand once only, and text. -/
def strayChildren (s : Source) (rule : ElementRule) (seen : List String) :
    List Node → List Problem
  | [] => []
  | .element tag _ :: rest =>
      let name := tag.name.localName
      if !rule.allowsChild name (tag.name.uri == some schemaNamespace) then
        ⟨some (s.locationOf tag.span), .elementNotAllowed name rule.name⟩ ::
          strayChildren s rule seen rest
      else if !rule.single.contains name then strayChildren s rule seen rest
      else if seen.contains name then
        ⟨some (s.locationOf tag.span), .elementRepeated rule.name name⟩ ::
          strayChildren s rule seen rest
      else strayChildren s rule (name :: seen) rest
  | .text span content :: rest =>
      if !rule.text && !content.all isBlank then
        ⟨some (s.locationOf span), .textNotAllowed rule.name⟩ ::
          strayChildren s rule seen rest
      else strayChildren s rule seen rest
  | .comment _ :: rest => strayChildren s rule seen rest
  | .instruction _ :: rest => strayChildren s rule seen rest

/-- Everything about an element that its rule forbids. -/
def violations (s : Source) (e : Element) (rule : ElementRule) : List Problem :=
  s.strayAttributes e rule ++ s.missingAttributes e rule ++
    s.strayChildren rule [] e.children

/-- Report what the rule of an element forbids. -/
def check (s : Source) (e : Element) (rule : ElementRule) : Checked Unit :=
  .report (s.violations e rule)

/-- The text of an element that must not be blank. -/
def statement (s : Source) (e : Element) (rule : ElementRule) : Checked (Option String) := do
  s.check e rule
  if isBlankText e.text then
    .report [s.problem e (.statementEmpty rule.name)]
    pure none
  else pure (some e.text)

/-- The statements of the child elements with a name. -/
def statements (s : Source) (e : Element) (rule : ElementRule) : Checked (List String) :=
  .eachSome (fun child => s.statement child rule) (e.named rule.name)

/-- The documentation of an element. -/
def documentation (s : Source) (e : Element) : Checked Documentation := do
  match e.first? "Documentation" with
  | none => pure {}
  | some d =>
      s.check d .documentation
      pure ⟨(d.first? "Summary").map s.document.inner, (d.first? "Remarks").map s.document.inner⟩

/-- The grant expressions inside the child elements with a name. -/
def expressions (s : Source) (e : Element) (grant : String) : Checked (List String) := do
  let lists ← Checked.each (fun g => do
    s.check g (.grant grant)
    s.statements g .expression) (e.named grant)
  pure lists.flatten

end Source

end LearningStore.Schema
