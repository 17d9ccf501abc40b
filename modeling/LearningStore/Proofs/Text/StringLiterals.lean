import LearningStore.Proofs.Text.SourceLines
import LearningStore.Proofs.Text.Utf16
import LearningStore.Text.Letters

/-!
# String literals of C#

A regular string literal stands between quotes on one line.  A backslash in it starts an escape, and
every other character denotes its own UTF-16 units.  A text is quoted as a literal that denotes it
if, and only if, it has no next line, line separator or paragraph separator in it: these end a line
and are not escaped, so that what is written is no literal at all.  Different texts are written
differently in any case.
-/

namespace LearningStore.Text

open Utf16

/-! ## Reading literals -/

/-- The unit that a backslash and one character denote. -/
def simpleEscape? : Char → Option Nat
  | '\'' => some 0x27
  | '"' => some 0x22
  | '\\' => some 0x5C
  | '0' => some 0
  | 'a' => some 7
  | 'b' => some 8
  | 'f' => some 0xC
  | 'n' => some 0xA
  | 'r' => some 0xD
  | 't' => some 9
  | 'v' => some 0xB
  | _ => none

/-- The hexadecimal digits that a text starts with, up to a number of them. -/
def leadingHex (most : Nat) (t : List Char) : List Char :=
  (t.take most).takeWhile fun c => (hexValue? c).isSome

def numberOfHex (digits : List Char) : Nat :=
  digits.foldl (fun n c => 16 * n + (hexValue? c).getD 0) 0

/-- The units of a code point. -/
def numberUnits (n : Nat) : List Nat :=
  if n < 0x10000 then [n] else [0xD800 + (n - 0x10000) / 0x400, 0xDC00 + (n - 0x10000) % 0x400]

/-- What the escape behind a backslash denotes, and how many characters it has.  One to four digits
follow an x, as many as there are; four follow a small u and eight a capital one. -/
def escape? : List Char → Option (List Nat × Nat)
  | [] => none
  | 'x' :: t =>
      let digits := leadingHex 4 t
      if digits.isEmpty then none else some ([numberOfHex digits], digits.length + 1)
  | 'u' :: t =>
      let digits := leadingHex 4 t
      if digits.length = 4 then some ([numberOfHex digits], 5) else none
  | 'U' :: t =>
      let digits := leadingHex 8 t
      if digits.length = 8 ∧ numberOfHex digits < 0x110000 then
        some (numberUnits (numberOfHex digits), 9)
      else none
  | c :: _ => (simpleEscape? c).map fun u => ([u], 1)

/-- The units that characters denote up to a quote at the end of the text.  The first ones are
passed over, as those of an escape that has been read are. -/
def unitsToQuote : Nat → List Char → Option (List Nat)
  | _, [] => none
  | passed + 1, _ :: t => unitsToQuote passed t
  | 0, c :: t =>
      if c = '"' then (if t.isEmpty then some [] else none)
      else if c = '\\' then
        match escape? t with
        | none => none
        | some (us, used) => (unitsToQuote used t).map (us ++ ·)
      else if isTerminator c then none
      else (unitsToQuote 0 t).map (charUnits c ++ ·)

/-- The units that a text denotes as a regular string literal, if it is one. -/
def literalUnits? (text : String) : Option (List Nat) :=
  match text.toList with
  | '"' :: t => unitsToQuote 0 t
  | _ => none

example : literalUnits? "\"\\x41b\\u00E9\\U0001F600\\\\\"" =
    some [0x41B, 0xE9, 0xD83D, 0xDE00, 0x5C] := by decide

/-! ## Writing literals -/

/-- The characters that end a line and are written as they are. -/
def bareTerminators : List Char := ['\u0085', '\u2028', '\u2029']

/-- A text without line ends, but for those that are escaped. -/
def Escapable (t : List Char) : Prop :=
  ∀ c ∈ t, c ∉ bareTerminators

instance (t : List Char) : Decidable (Escapable t) :=
  List.decidableBAll _ _

/-- How a character is written: as the escape that denotes its unit, or as it is. -/
inductive Writes (c : Char) : Prop
  | escaped {k : Char} {u : Nat} (written : csharpEscape c = ['\\', k])
      (denoted : ∀ t, escape? (k :: t) = some ([u], 1)) (unit : charUnits c = [u])
      (unbroken : isTerminator k = false) (escapable : c ∉ bareTerminators)
  | bare (written : csharpEscape c = [c]) (noQuote : c ≠ '"') (noBackslash : c ≠ '\\')
      (ends : isTerminator c = true ↔ c ∈ bareTerminators)

theorem writes (c : Char) : Writes c := by
  by_cases special : c ∈ ['"', '\\', '\n', '\r', '\t']
  · simp only [List.mem_cons, List.not_mem_nil, or_false] at special
    rcases special with rfl | rfl | rfl | rfl | rfl
    · exact .escaped rfl (fun _ => rfl) rfl (by decide) (by decide)
    · exact .escaped rfl (fun _ => rfl) rfl (by decide) (by decide)
    · exact .escaped rfl (fun _ => rfl) rfl (by decide) (by decide)
    · exact .escaped rfl (fun _ => rfl) rfl (by decide) (by decide)
    · exact .escaped rfl (fun _ => rfl) rfl (by decide) (by decide)
  · simp only [List.mem_cons, List.not_mem_nil, or_false, not_or] at special
    obtain ⟨noQuote, noBackslash, noFeed, noReturn, noTab⟩ := special
    refine .bare ?_ noQuote noBackslash ?_
    · unfold csharpEscape
      split
      next => exact absurd rfl noQuote
      next => exact absurd rfl noBackslash
      next => exact absurd rfl noFeed
      next => exact absurd rfl noReturn
      next => exact absurd rfl noTab
      next => rfl
    · simp only [isTerminator, terminators, bareTerminators, List.contains_iff_mem, List.mem_cons,
        noFeed, noReturn, false_or]

section Written

variable {c : Char} {s t : List Char}

/-- A character that is written denotes its units, unless it ends the line. -/
theorem unitsToQuote_csharpEscape (c : Char) (t : List Char) :
    unitsToQuote 0 (csharpEscape c ++ t) =
      if c ∈ bareTerminators then none else (unitsToQuote 0 t).map (charUnits c ++ ·) := by
  cases writes c with
  | escaped written denoted unit unbroken escapable =>
      rw [written, if_neg escapable, unit]
      simp [unitsToQuote, denoted]
  | bare written noQuote noBackslash ends =>
      rw [written, List.singleton_append]
      simp only [unitsToQuote, if_neg noQuote, if_neg noBackslash, ends]

theorem unitsToQuote_flatMap (s : List Char) :
    unitsToQuote 0 (s.flatMap csharpEscape ++ ['"']) =
      if Escapable s then some (units s) else none := by
  induction s with
  | nil => rfl
  | cons c s ih =>
      rw [List.flatMap_cons, List.append_assoc, unitsToQuote_csharpEscape, ih]
      by_cases here : c ∈ bareTerminators
      · have broken : ¬Escapable (c :: s) := fun all => all c List.mem_cons_self here
        rw [if_pos here, if_neg broken]
      · have rest : Escapable (c :: s) ↔ Escapable s := by
          simp [Escapable, here]
        rw [if_neg here]
        by_cases later : Escapable s
        · rw [if_pos later, if_pos (rest.mpr later)]
          rfl
        · rw [if_neg later, if_neg (mt rest.mp later)]
          rfl

theorem literalUnits?_csharpString (text : String) :
    literalUnits? (csharpString text) =
      if Escapable text.toList then some (units text.toList) else none := by
  rw [literalUnits?, csharpString, String.toList_ofList]
  exact unitsToQuote_flatMap text.toList

/-- What is written for a character stands on one line unless the character ends it. -/
theorem oneLine_csharpEscape (c : Char) : OneLine (csharpEscape c) ↔ c ∉ bareTerminators := by
  cases writes c with
  | @escaped k u written denoted unit unbroken escapable =>
      have whole : OneLine ['\\', k] := by
        rw [oneLine_cons, oneLine_cons]
        exact ⟨by decide, unbroken, OneLine.nil⟩
      rw [written]
      exact iff_of_true whole escapable
  | bare written noQuote noBackslash ends =>
      rw [written, oneLine_cons, and_iff_left OneLine.nil, ← ends, Bool.not_eq_true]

theorem oneLine_csharpString (text : String) :
    OneLine (csharpString text).toList ↔ Escapable text.toList := by
  have quote : OneLine ['"'] := by decide
  rw [csharpString, String.toList_ofList, List.cons_append, oneLine_cons, oneLine_append,
    and_iff_left quote, and_iff_right (by decide : isTerminator '"' = false)]
  calc OneLine (text.toList.flatMap csharpEscape)
      ↔ ∀ c ∈ text.toList, OneLine (csharpEscape c) := List.forall_mem_flatMap
    _ ↔ Escapable text.toList := forall₂_congr fun c _ => oneLine_csharpEscape c

theorem charUnits_injective : Function.Injective charUnits := by
  intro c d same
  have decoded := decodeUnits_charUnits c []
  rw [same, decodeUnits_charUnits d []] at decoded
  exact (List.cons.inj (Option.some.inj decoded)).1.symm

/-- Behind what is written for one character it is clear where the next one starts. -/
theorem csharpEscape_append_inj {d : Char}
    (same : csharpEscape c ++ s = csharpEscape d ++ t) : c = d ∧ s = t := by
  cases writes c with
  | @escaped k u written denoted unit =>
      cases writes d with
      | @escaped k' u' written' denoted' unit' =>
          rw [written, written'] at same
          obtain ⟨rfl, rfl⟩ : k = k' ∧ s = t := by simpa using same
          have units := (denoted []).symm.trans (denoted' [])
          have unit_eq : u = u' := by simpa using units
          exact ⟨charUnits_injective (by rw [unit, unit', unit_eq]), rfl⟩
      | bare written' _ noBackslash =>
          rw [written, written'] at same
          exact absurd (List.cons.inj same).1.symm noBackslash
  | bare written _ noBackslash =>
      cases writes d with
      | escaped written' =>
          rw [written, written'] at same
          exact absurd (List.cons.inj same).1 noBackslash
      | bare written' =>
          rw [written, written'] at same
          exact List.cons.inj same

theorem csharpEscape_ne_nil (c : Char) : csharpEscape c ≠ [] := by
  cases writes c with
  | escaped written =>
      rw [written]
      exact List.cons_ne_nil _ _
  | bare written =>
      rw [written]
      exact List.cons_ne_nil _ _

theorem flatMap_csharpEscape_injective :
    Function.Injective fun s : List Char => s.flatMap csharpEscape := by
  intro s
  induction s with
  | nil =>
      rintro (_ | ⟨d, t⟩) same
      · rfl
      · exact absurd (List.append_eq_nil_iff.mp same.symm).1 (csharpEscape_ne_nil d)
  | cons c s ih =>
      rintro (_ | ⟨d, t⟩) same
      · exact absurd (List.append_eq_nil_iff.mp same).1 (csharpEscape_ne_nil c)
      · obtain ⟨rfl, rest⟩ := csharpEscape_append_inj same
        rw [ih rest]

theorem injective_csharpString : Function.Injective csharpString := by
  intro a b same
  have chars := congrArg String.toList same
  rw [csharpString, csharpString, String.toList_ofList, String.toList_ofList] at chars
  have inner := List.append_cancel_right (List.cons.inj chars).2
  exact String.toList_inj.mp (flatMap_csharpEscape_injective inner)

end Written

/-- A text is quoted as a literal that denotes it if no line end in it is left as it is, and else
what is written goes over a line end and is no literal.  No other text is quoted like it. -/
theorem quoted_denotes_iff (text : String) :
    (literalUnits? (csharpString text) = some (units text.toList) ↔ Escapable text.toList) ∧
    (literalUnits? (csharpString text) = none ↔ ¬Escapable text.toList) ∧
    (OneLine (csharpString text).toList ↔ Escapable text.toList) ∧
    ∀ other, csharpString other = csharpString text ↔ other = text := by
  refine ⟨?_, ?_, oneLine_csharpString text, fun other => injective_csharpString.eq_iff⟩
  · rw [literalUnits?_csharpString]
    split
    next escapable => exact iff_of_true rfl escapable
    next broken => exact iff_of_false nofun broken
  · rw [literalUnits?_csharpString]
    split
    next escapable => exact iff_of_false nofun (not_not_intro escapable)
    next broken => exact iff_of_true rfl broken

/-- A line separator is left as it is, which ends the line inside the quotes. -/
theorem quoted_separator :
    literalUnits? (csharpString "a\u2028b") ≠ some (units "a\u2028b".toList) ∧
      literalUnits? (csharpString "a\u2028b") = none ∧
      ¬OneLine (csharpString "a\u2028b").toList := by
  decide

end LearningStore.Text
