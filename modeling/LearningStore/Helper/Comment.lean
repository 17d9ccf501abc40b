import LearningStore.Text.Layout

/-!
# Documentation comments

The comment above a declaration: a summary and, where there is something more to
say, remarks.  Boilerplate sentences come first, the markup of the schema file
follows, and the remarks of a schema file end in a paragraph mark.
-/

namespace LearningStore.Helper

open LearningStore.Text

/-- The lines of a comment, without the slashes in front of them. -/
structure DocComment where
  summary : List String := []
  remarks : Option (List String) := none
deriving DecidableEq, Repr

namespace DocComment

/-- A comment with a summary of one line. -/
def ofSummary (text : String) : DocComment :=
  ⟨[text], none⟩

/-- The comment with markup at the end of its summary. -/
def withSummary (c : DocComment) (markup : Option String) : DocComment :=
  { c with summary := c.summary ++ markup.toList.flatMap trimmedLines }

/-- The comment with more lines of remarks. -/
def withRemarkLines (c : DocComment) (ls : List String) : DocComment :=
  { c with remarks := some (c.remarks.getD [] ++ ls) }

/-- The comment with one more line of remarks. -/
def withRemark (c : DocComment) (text : String) : DocComment :=
  c.withRemarkLines [text]

/-- The lines with a paragraph mark after the last. -/
def asParagraph : List String → List String
  | [] => []
  | [last] => [last ++ "<p/>"]
  | first :: rest => first :: asParagraph rest

/-- The comment with markup at the end of its remarks.  Blank markup adds
nothing. -/
def withRemarks (c : DocComment) (markup : Option String) : DocComment :=
  match markup.toList.flatMap trimmedLines with
  | [] => c
  | ls => c.withRemarkLines (asParagraph ls)

/-- The comment with a sorted list of names at the end of its remarks. -/
def withFieldList (c : DocComment) (names : List String) : DocComment :=
  let sorted := names.mergeSort fun a b => decide (a ≤ b)
  c.withRemarkLines
    (["<ul>"] ++ sorted.map (fun name => "<li><Fld>" ++ name ++ "</Fld></li>") ++ ["</ul>"])

/-- A line behind the slashes of a documentation comment. -/
def commentLine (text : String) : Line :=
  if text.isEmpty then line "///" else line ("/// " ++ text)

/-- Lines of a comment between the tags of an element. -/
def element (name : String) (ls : List String) : List Line :=
  [line ("/// <" ++ name ++ ">")] ++ ls.map commentLine ++ [line ("/// </" ++ name ++ ">")]

/-- The comment as it stands above a declaration. -/
def lines (c : DocComment) : List Line :=
  element "summary" c.summary ++ c.remarks.toList.flatMap (element "remarks")

end DocComment

end LearningStore.Helper
