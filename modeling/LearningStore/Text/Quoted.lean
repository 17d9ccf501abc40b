/-!
# Quoted text

The two ways in which generated files quote a text: the string literal of T-SQL,
which doubles an apostrophe, and the string literal of C#, which puts a backslash
before what it escapes.
-/

namespace LearningStore.Text

/-- Every apostrophe written twice. -/
def doubleApostrophes : List Char → List Char
  | [] => []
  | c :: rest => if c = '\'' then '\'' :: '\'' :: doubleApostrophes rest
      else c :: doubleApostrophes rest

/-- A text as a T-SQL string literal. -/
def sqlString (text : String) : String :=
  String.ofList ('\'' :: doubleApostrophes text.toList ++ ['\''])

/-- What stands for a character inside a C# string literal. -/
def csharpEscape (c : Char) : List Char :=
  match c with
  | '"' => ['\\', '"']
  | '\\' => ['\\', '\\']
  | '\n' => ['\\', 'n']
  | '\r' => ['\\', 'r']
  | '\t' => ['\\', 't']
  | c => [c]

/-- A text as a C# string literal. -/
def csharpString (text : String) : String :=
  String.ofList ('"' :: text.toList.flatMap csharpEscape ++ ['"'])

/-- What stands for a character in XML text and in attribute values: the five
characters with a predefined entity are referred to by it. -/
def xmlEscape (c : Char) : List Char :=
  match c with
  | '<' => "&lt;".toList
  | '>' => "&gt;".toList
  | '&' => "&amp;".toList
  | '\'' => "&apos;".toList
  | '"' => "&quot;".toList
  | c => [c]

/-- A text with its markup characters escaped. -/
def xmlEscaped (text : String) : String :=
  String.ofList (text.toList.flatMap xmlEscape)

end LearningStore.Text
