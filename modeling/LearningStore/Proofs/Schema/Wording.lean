import LearningStore.Proofs.Text.Rows
import LearningStore.Proofs.Value.OneLine
import LearningStore.Schema.Problem

/-!
# What problems quote

The wording of a problem quotes names, values and other texts of schema files, and the name of the
file itself, as they are.  The rest of it has no line feeds, so a problem is reported on one row if,
and only if, all that it quotes stands on one row.
-/

namespace LearningStore.Text

/-! ## Wordings -/

theorem oneRow_number (n : Nat) : OneRow (toString n) := by
  have plain : '\n' ∉ Nat.toDigits 10 n := fun inside =>
    absurd (Value.Integer.isDigit_of_mem_digitsOf inside) (by decide)
  exact oneRow_ofList plain

theorem oneRow_integer (n : Int) : OneRow (integerText n) :=
  fun feed => absurd (Value.oneLine_integerText n '\n' feed) (by decide)

/-- A text is made of pieces on one row and of the first texts of a list, which leaves the others
for the text behind it. -/
inductive Worded : String → List String → List String → Prop
  | plain {text : String} {qs : List String} (row : OneRow text) : Worded text qs qs
  | quoted {text : String} {qs : List String} : Worded text (text :: qs) qs
  | append {a b : String} {qs rs ss : List String} (front : Worded a qs rs)
      (back : Worded b rs ss) : Worded (a ++ b) qs ss

theorem Worded.oneRow_iff {text : String} {qs rs : List String} (worded : Worded text qs rs) :
    (∀ q ∈ qs, OneRow q) ↔ OneRow text ∧ ∀ q ∈ rs, OneRow q := by
  induction worded with
  | plain row => exact (and_iff_right row).symm
  | quoted => exact List.forall_mem_cons
  | append _ _ front back => rw [front, back, oneRow_append, and_assoc]

end LearningStore.Text

namespace LearningStore.Xml

open LearningStore.Text

theorem Position.oneRow_text (p : Position) : OneRow p.text :=
  ((oneRow_number p.line).append (oneRow_ofList (by decide))).append (oneRow_number p.column)

namespace Fault

/-- What the wording of a fault quotes. -/
def quoted : Fault → List String
  | closeTag expected actual => [expected, actual]
  | unknownPrefix name | unknownEntity name | attributeTwice name | namespaceTwice name => [name]
  | expectedChar expected actual => [expected.toString, (leadByte actual).toString]
  | expectedSpace actual | expectedQuote actual => [(leadByte actual).toString]
  | expectedText text => [text]
  | _ => []

theorem feed_notMem_toDigits (n : Nat) : '\n' ∉ Nat.toDigits 16 n := by
  induction n using Nat.strongRecOn with
  | ind n ih =>
      have digit : ∀ d < 16, '\n' ≠ Nat.digitChar d := by decide
      by_cases small : n < 16
      · rw [Nat.toDigits_of_lt_base small, List.mem_singleton]
        exact digit n small
      · rw [Nat.toDigits_of_base_le (by decide) (Nat.le_of_not_lt small), List.mem_append,
          List.mem_singleton, not_or]
        exact ⟨ih _ (by omega), digit _ (Nat.mod_lt n (by decide))⟩

theorem oneRow_escaped (c : Char) : OneRow (escaped c) := by
  unfold escaped
  split
  next => exact oneRow_ofList (by decide)
  next =>
    have digits := oneRow_ofList (feed_notMem_toDigits c.toNat)
    exact ((oneRow_ofList (by decide)).append digits).append (oneRow_ofList (by decide))

theorem worded_message (fault : Fault) {place : String} (row : OneRow place) :
    Worded (fault.message place) fault.quoted [] := by
  cases fault <;> dsimp only [message, quoted] <;>
    repeat' with_reducible first
      | apply Worded.append
      | exact .plain (oneRow_ofList (by decide))
      | exact .plain row
      | exact .quoted
      | exact .plain (oneRow_escaped _)

end Fault

end LearningStore.Xml

namespace LearningStore.Value

open LearningStore.Text

theorem Base64.Error.oneRow_message (e : Base64.Error) : OneRow e.message := by
  cases e with
  | symbol byte offset =>
      have front := (oneRow_ofList (by decide) : OneRow "Invalid symbol ").append
        (oneRow_number byte)
      exact ((front.append (oneRow_ofList (by decide))).append (oneRow_number offset)).append
        (oneRow_ofList (by decide))
  | lastSymbol byte offset =>
      have front := (oneRow_ofList (by decide) : OneRow "Invalid last symbol ").append
        (oneRow_number byte)
      exact ((front.append (oneRow_ofList (by decide))).append (oneRow_number offset)).append
        (oneRow_ofList (by decide))
  | length n => exact (oneRow_ofList (by decide)).append (oneRow_number n)
  | padding => exact oneRow_ofList (by decide)

theorem ValueType.oneRow_schemaName (t : ValueType) : OneRow t.schemaName := by
  cases t <;> exact oneRow_ofList (by decide)

/-- What the wording of a refused literal quotes. -/
def LiteralError.quoted : LiteralError → List String
  | noItemIdentifier => []
  | invalid text _ | invalidBase64 text _ => [text]

theorem LiteralError.worded_message (e : LiteralError) : Worded e.message e.quoted [] := by
  cases e <;> dsimp only [message, quoted] <;>
    repeat' with_reducible first
      | apply Worded.append
      | exact .plain (oneRow_ofList (by decide))
      | exact .plain (ValueType.oneRow_schemaName _)
      | exact .plain (Base64.Error.oneRow_message _)
      | exact .quoted

end LearningStore.Value

namespace LearningStore.Schema

open LearningStore.Text
open LearningStore.Value

theorem Location.worded_text (l : Location) (qs : List String) :
    Worded l.text (l.file :: qs) qs := by
  have mark : OneRow "(" ∧ OneRow "," ∧ OneRow ")" :=
    ⟨oneRow_ofList (by decide), oneRow_ofList (by decide), oneRow_ofList (by decide)⟩
  have numbers := ((mark.1.append (oneRow_number l.line)).append mark.2.1).append
    (oneRow_number l.column)
  have worded : Worded _ (l.file :: qs) qs :=
    .append .quoted (.plain (numbers.append mark.2.2))
  simpa only [text, String.append_assoc] using worded

def Subject.quoted : Subject → List String
  | property itemType name => [itemType, name]
  | column view name => [view, name]
  | parameter owner name => [name, owner.name]

theorem Subject.worded_describe (s : Subject) (qs : List String) :
    Worded s.describe (s.quoted ++ qs) qs := by
  rcases s with _ | _ | ⟨_ | _, _⟩ <;>
    dsimp only [describe, quoted, Owner.describe, Owner.name, List.cons_append, List.nil_append] <;>
    repeat' with_reducible first
      | apply Worded.append
      | exact .plain (oneRow_ofList (by decide))
      | exact .quoted

theorem Subject.worded_describe_last (s : Subject) : Worded s.describe s.quoted [] := by
  have worded := s.worded_describe []
  rwa [List.append_nil] at worded

namespace Cause

/-- What the wording of a cause quotes. -/
def quoted : Cause → List String
  | malformed error => error.fault.quoted
  | wrongRoot => []
  | attributeNotAllowed a b | attributeMissing a b | elementNotAllowed a b | elementRepeated a b
  | notBoolean a b | notInteger a b | valueRepeated a b | propertyRepeated a b
  | parameterRepeated a b | propertyTaken a b | noPropertyToExtend a b | parameterTaken a b
  | noParameterToExtend a b => [a, b]
  | textNotAllowed a | statementEmpty a | implementationMissing a | invalidName a | unknownType a
  | noItemTypeToExtend a | noViewToExtend a | noRightToExtend a | stated a => [a]
  | referenceMissing subject _ name | referenceNotAllowed subject name _
  | unknownItemType subject name | unknownEnum subject name
  | unknownEnumValue _ subject name => subject.quoted ++ [name]
  | reservedId subject | lengthOutOfRange subject _ | lengthNotAllowed subject
  | rowGuidNotAllowed subject | cascadeNotAllowed subject | nullDefault subject
  | defaultEmpty subject => subject.quoted
  | defaultInvalid subject error => subject.quoted ++ error.quoted
  | nameTaken name previous => [name, previous.file]

theorem worded_message (c : Cause) : Worded c.message c.quoted [] := by
  cases c <;> dsimp only [message, quoted, schemaNamespace, Xml.Error.message] <;>
    repeat' with_reducible first
      | apply Worded.append
      | exact .plain (oneRow_ofList (by decide))
      | exact Xml.Fault.worded_message _ (Xml.Position.oneRow_text _)
      | exact Location.worded_text _ _
      | exact Subject.worded_describe _ _
      | exact Subject.worded_describe_last _
      | exact LiteralError.worded_message _
      | exact .plain (ValueType.oneRow_schemaName _)
      | exact .plain (oneRow_integer _)
      | exact .quoted

end Cause

namespace Problem

/-- The texts that the report on a problem has in it as they are. -/
def quoted (p : Problem) : List String :=
  (p.location.map Location.file).toList ++ p.cause.quoted

/-- A problem is reported on one row if all that is quoted stands on one row. -/
theorem oneRow_text_iff (p : Problem) : OneRow p.text ↔ ∀ q ∈ p.quoted, OneRow q := by
  have worded : Worded p.text p.quoted [] := by
    obtain ⟨_ | location, cause⟩ := p
    · exact .append (.plain (oneRow_ofList (by decide))) cause.worded_message
    · have lead := (location.worded_text cause.quoted).append
        (.plain (oneRow_ofList (by decide) : OneRow ": error: "))
      exact lead.append cause.worded_message
  rw [worded.oneRow_iff, and_iff_left nofun]

end Problem

end LearningStore.Schema
