import LearningStore.Text.Blank

/-!
# Lines

A line ends at a line feed, with one carriage return before it counted to the
line end.  Snippets in a schema file are indented to fit the markup around them;
`trimmedLines` gives their lines without that indentation and without the blank
lines at either end.
-/

namespace LearningStore.Text

/-- Put a character in front of the first line, making one if there is none. -/
def consFirst (c : Char) : List (List Char) → List (List Char)
  | [] => [[c]]
  | line :: rest => (c :: line) :: rest

/-- The lines of a text.  A line feed at the very end starts no further line. -/
def lines : List Char → List (List Char)
  | [] => []
  | '\n' :: rest => [] :: lines rest
  | '\r' :: '\n' :: rest => [] :: lines rest
  | c :: rest => consFirst c (lines rest)

/-- Drop the empty lines at the start and at the end. -/
def dropOuterEmpty (ls : List (List Char)) : List (List Char) :=
  ((ls.dropWhile List.isEmpty).reverse.dropWhile List.isEmpty).reverse

/-- Every line trimmed, without the blank lines at the start and at the end. -/
def trimmedLines (text : String) : List String :=
  (dropOuterEmpty ((lines text.toList).map trim)).map String.ofList

end LearningStore.Text
