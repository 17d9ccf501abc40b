import LearningStore.Proofs.Schema.Reporting
import LearningStore.Proofs.Schema.Validity

/-!
# Which flaws are missed

All flaws of the elements that the grammar leads to are reported exactly if the pass reads each of
these elements that has one.  It misses what stands in a member without a value type, and what
stands in a child that may come once only behind one of another namespace with the same name.
-/

namespace LearningStore.Schema

open LearningStore.Text
open LearningStore.Value
open LearningStore.Xml
open Relation

/-- A problem that reading a schema file ends with. -/
def Reported (text fileName : String) (inBase : Bool) (p : Problem) : Prop :=
  ∃ problems, SchemaFile.read text fileName inBase = .error problems ∧ p ∈ problems.toList

variable {text fileName : String} {inBase : Bool} {d : Document} {p : Problem}

theorem Checked.exists_error_iff {α : Type} {x : Checked α} :
    (∃ problems, x.toExcept = .error problems ∧ p ∈ problems.toList) ↔ p ∈ x.problems := by
  unfold Checked.toExcept
  cases x.problems with
  | nil =>
      constructor
      · rintro ⟨_, same, -⟩
        cases same
      · exact fun inside => absurd inside List.not_mem_nil
  | cons first others =>
      constructor
      · rintro ⟨problems, same, inside⟩
        cases same
        exact inside
      · exact fun inside => ⟨⟨first, others⟩, rfl, inside⟩

theorem reported_iff (parsed : Document.parse text = .ok d) :
    Reported text fileName inBase p ↔ p ∈ (Source.file ⟨fileName, inBase, d⟩).problems := by
  rw [← Checked.exists_error_iff, Reported, SchemaFile.read, parsed]

/-- An element that the grammar leads to is read next if its parent is read and no child of another
namespace comes in front of it where only one may stand. -/
theorem readsNext_iff {x y : Role × Element} (leads : LeadsTo x y) : ReadsNext x y ↔
    x.1.isRead x.2 = true ∧
      (y.2.name ∈ x.1.rule.single → x.2.first? y.2.name = some y.2) := by
  refine and_congr_right fun _ => ?_
  obtain ⟨inside, listed⟩ := leads.isPart
  rw [Source.mem_descend_iff]
  constructor
  · rintro ⟨name, also, found⟩ single
    have named : name = y.2.name := by
      unfold Source.picked at found
      split at found
      next =>
        have first : x.2.elements.find? (fun c => c.name == name) = some y.2 :=
          Option.mem_toList.mp found
        have held : (y.2.name == name) = true :=
          List.find?_some (p := fun c : Element => c.name == name) first
        exact (beq_iff_eq.mp held).symm
      next => exact (beq_iff_eq.mp (List.mem_filter.mp found).2).symm
    subst named
    rw [Source.picked, if_pos single] at found
    exact Option.mem_toList.mp found
  · intro first
    refine ⟨y.2.name, listed, ?_⟩
    unfold Source.picked
    split
    next single => exact Option.mem_toList.mpr (first single)
    next => exact List.mem_filter.mpr ⟨inside, beq_self_eq_true _⟩

/-- A pass does not go on from an element to one that it leads to: it reads nothing in the element,
or a child of another namespace comes in front where only one may stand. -/
def PassesOver (x y : Role × Element) : Prop :=
  x.1.isRead x.2 = false ∨ y.2.name ∈ x.1.rule.single ∧ x.2.first? y.2.name ≠ some y.2

theorem passesOver_of_not_readsNext {x y : Role × Element} (leads : LeadsTo x y)
    (unread : ¬ReadsNext x y) : PassesOver x y := by
  rw [readsNext_iff leads, not_and_or, Bool.not_eq_true, Classical.not_imp] at unread
  exact unread

/-- On the way to an element that is not read, there is a last one that is: the pass does not go on
from it. -/
theorem exists_passesOver {root : Element} {y : Role × Element} (reaches : Reaches root y)
    (missed : ¬Visits root y) : ∃ x z, Visits root x ∧ LeadsTo x z ∧ PassesOver x z ∧
      ReflTransGen LeadsTo z y := by
  induction reaches with
  | refl => exact absurd .refl missed
  | @tail x y _ leads ih =>
      by_cases visits : Visits root x
      · have unread : ¬ReadsNext x y := fun reads => missed (visits.tail reads)
        exact ⟨x, y, visits, leads, passesOver_of_not_readsNext leads unread, .refl⟩
      · obtain ⟨last, hidden, read, next, passed, path⟩ := ih visits
        exact ⟨last, hidden, read, next, passed, path.tail leads⟩

/-- A problem at a place tells the element with the flaw. -/
theorem eq_of_problemAt {root : Element} {x y : Role × Element} {span other : Span}
    {cause : Cause} {s : Source} {chars : List Char}
    (document : s.document = ⟨chars, Position.table chars, root⟩)
    (read : Document.rootOf chars = .ok root) (first : ReflTransGen IsPart (.schemaFile, root) x)
    (second : ReflTransGen IsPart (.schemaFile, root) y) (flaw : Flaw x.1.rule x.2 span cause)
    {reason : Cause} (flawToo : Flaw y.1.rule y.2 other reason)
    (same : s.problemAt span cause = s.problemAt other reason) : x = y := by
  have placed := placed_of_rootOf read
  obtain ⟨location, rfl⟩ := Problem.mk.inj same
  have place := Option.some.inj location
  have position : s.document.position span = s.document.position other :=
    congrArg₂ Position.mk (congrArg Location.line place) (congrArg Location.column place)
  rw [document] at position
  have inText := flaw.start_le (placed.of_path (path_of_isPart first)).1
  have inTextToo := flawToo.start_le (placed.of_path (path_of_isPart second)).1
  exact Flaw.unique placed first second flaw flawToo
    (Document.start_eq_of_position inText inTextToo position)

theorem Reaches.path {root : Element} {x : Role × Element} (reaches : Reaches root x) :
    ReflTransGen IsPart (.schemaFile, root) x :=
  ReflTransGen.mono (fun _ _ => LeadsTo.isPart) _ _ reaches

theorem Visits.path {root : Element} {x : Role × Element} (visits : Visits root x) :
    ReflTransGen IsPart (.schemaFile, root) x :=
  ReflTransGen.mono (fun _ _ => ReadsNext.isPart) _ _ visits

/-- Below the right root, a structural problem is reported if, and only if, it is a flaw of an
element that the pass reads. -/
theorem reported_structural_iff (parsed : Document.parse text = .ok d)
    (rooted : d.root.tag.name = ⟨some schemaNamespace, "StoreSchema"⟩)
    (structural : p.cause.isStructural = true) : Reported text fileName inBase p ↔
      ∃ x span cause, Visits d.root x ∧ Flaw x.1.rule x.2 span cause ∧
        p = Source.problemAt ⟨fileName, inBase, d⟩ span cause := by
  have kept : p ∈ (Source.file ⟨fileName, inBase, d⟩).problems ↔
      p ∈ (Source.file ⟨fileName, inBase, d⟩).structural := by
    rw [Checked.structural, List.mem_filter, structural]
    exact (and_iff_left rfl).symm
  rw [reported_iff parsed, kept, Source.mem_file rooted]
  constructor
  · rintro ⟨x, visits, found⟩
    obtain ⟨span, cause, flaw, same⟩ := Source.mem_violations_iff.mp found
    exact ⟨x, span, cause, visits, flaw, same⟩
  · rintro ⟨x, span, cause, visits, flaw, same⟩
    exact ⟨x, visits, Source.mem_violations_iff.mpr ⟨span, cause, flaw, same⟩⟩

/-- What is reported about the structure of a document with the right root: the flaws of the
elements that the pass reads.  These are all flaws of the elements that the grammar leads to if,
and only if, the pass reads each of these elements that has a flaw.  Such an element is not read
only if the pass does not go on from some element on the way to it. -/
theorem flaws_reported (parsed : Document.parse text = .ok d)
    (rooted : d.root.tag.name = ⟨some schemaNamespace, "StoreSchema"⟩) :
    (∀ p, p.cause.isStructural = true → (Reported text fileName inBase p ↔
      ∃ x span cause, Visits d.root x ∧ Flaw x.1.rule x.2 span cause ∧
        p = Source.problemAt ⟨fileName, inBase, d⟩ span cause)) ∧
    ((∀ x span cause, Reaches d.root x → Flaw x.1.rule x.2 span cause →
        Reported text fileName inBase (Source.problemAt ⟨fileName, inBase, d⟩ span cause)) ↔
      ∀ x span cause, Reaches d.root x → Flaw x.1.rule x.2 span cause → Visits d.root x) ∧
    ∀ y, Reaches d.root y → ¬Visits d.root y → ∃ x z, Visits d.root x ∧ LeadsTo x z ∧
      PassesOver x z ∧ ReflTransGen LeadsTo z y := by
  refine ⟨fun p => reported_structural_iff parsed rooted, ?_, fun _ => exists_passesOver⟩
  constructor
  · intro all x span cause reaches flaw
    obtain ⟨y, other, reason, visits, flawToo, same⟩ :=
      (reported_structural_iff parsed rooted flaw.isStructural).mp (all x span cause reaches flaw)
    obtain ⟨read, document⟩ := parse_eq_ok parsed
    have equal : x = y := eq_of_problemAt (s := ⟨fileName, inBase, d⟩) document read reaches.path
      visits.path flaw flawToo same
    rw [equal]
    exact visits
  · intro all x span cause reaches flaw
    exact (reported_structural_iff parsed rooted flaw.isStructural).mpr
      ⟨x, span, cause, all x span cause reaches flaw, flaw, rfl⟩

namespace Sample

/-- A file with a property that has no type, and a stray attribute in its default. -/
def untypedFile : List Char :=
  (opening ++
    ["<ItemType Name=\"Pet\">", "<Properties>", "<Property Name=\"Key\">",
      "<Default Bogus=\"1\">", "x</Default>", "</Property>", "</Properties>", "</ItemType>",
      "</StoreSchema>"]).flatMap String.toList

theorem untypedFile_hasRoot : (Document.rootOf untypedFile).toOption.isSome = true :=
  hasRoot_of_spelledOut (by repeat constructor) (by decide +kernel)

def untypedSource : Source :=
  .ofCharacters untypedFile "untyped.xml" false untypedFile_hasRoot

theorem parse_untypedFile :
    Document.parse (String.ofList untypedFile) = .ok untypedSource.document :=
  parse_ofList (eq_ok_get untypedFile_hasRoot)

theorem untypedFile_rooted : untypedSource.document.root.tag.name =
    ⟨some schemaNamespace, "StoreSchema"⟩ := by
  have spelled : untypedSource = _ :=
    ofCharacters_of_spelledOut (by repeat constructor) untypedFile_hasRoot
  rw [spelled]
  decide +kernel

/-- The element that first children lead to from a root. -/
def ledTo (root : Element) : Nat → Option (Role × Element)
  | 0 => some (.schemaFile, root)
  | n + 1 => (ledTo root n).bind fun x => (x.1.descend (x.2.elements.filter x.1.rule.allows)).head?

theorem reaches_ledTo {root : Element} {n : Nat} {x : Role × Element}
    (led : ledTo root n = some x) : Reaches root x := by
  induction n generalizing x with
  | zero =>
      cases led
      exact .refl
  | succ n ih =>
      obtain ⟨y, before, last⟩ := Option.bind_eq_some_iff.mp led
      exact (ih before).tail (List.mem_of_head? last)

theorem untypedFile_led : (ledTo untypedSource.document.root 4).isSome = true := by
  have spelled : untypedSource = _ :=
    ofCharacters_of_spelledOut (by repeat constructor) untypedFile_hasRoot
  rw [spelled]
  decide +kernel

/-- The default in the property. -/
def untypedDefault : Role × Element :=
  (ledTo untypedSource.document.root 4).get untypedFile_led

end Sample

theorem flaws_reported_sample :
    Document.parse (String.ofList Sample.untypedFile) = .ok Sample.untypedSource.document ∧
    Sample.untypedSource.document.root.tag.name = ⟨some schemaNamespace, "StoreSchema"⟩ ∧
    (∀ p, p.cause.isStructural = true →
      (Reported (String.ofList Sample.untypedFile) "untyped.xml" false p ↔
        ∃ x span cause, Visits Sample.untypedSource.document.root x ∧
          Flaw x.1.rule x.2 span cause ∧ p = Sample.untypedSource.problemAt span cause)) :=
  ⟨Sample.parse_untypedFile, Sample.untypedFile_rooted,
    (flaws_reported Sample.parse_untypedFile Sample.untypedFile_rooted).1⟩

/-- The attribute in the default is not reported. -/
theorem missed_sample : ∃ x span,
    Document.parse (String.ofList Sample.untypedFile) = .ok Sample.untypedSource.document ∧
    Sample.untypedSource.document.root.tag.name = ⟨some schemaNamespace, "StoreSchema"⟩ ∧
    Reaches Sample.untypedSource.document.root x ∧
    Flaw x.1.rule x.2 span (.attributeNotAllowed "Bogus" "Default") ∧
    ¬Reported (String.ofList Sample.untypedFile) "untyped.xml" false
      (Sample.untypedSource.problemAt span (.attributeNotAllowed "Bogus" "Default")) := by
  let stray : Attribute := ⟨⟨none, "Bogus"⟩, "1"⟩
  have role : Sample.untypedDefault.1 = .default := by decide +kernel
  have inside : stray ∈ Sample.untypedDefault.2.tag.attributes := by decide +kernel
  have flaw : Flaw .default Sample.untypedDefault.2 Sample.untypedDefault.2.tag.span
      (.attributeNotAllowed "Bogus" "Default") :=
    .strayAttribute inside rfl (by decide)
  refine ⟨Sample.untypedDefault, Sample.untypedDefault.2.tag.span, Sample.parse_untypedFile,
    Sample.untypedFile_rooted, Sample.reaches_ledTo (Option.some_get _).symm, ?_, ?_⟩
  · rw [role]
    exact flaw
  · have missing : Sample.untypedSource.problemAt Sample.untypedDefault.2.tag.span
        (.attributeNotAllowed "Bogus" "Default") ∉ Sample.untypedSource.file.problems := by
      decide +kernel
    exact mt (reported_iff Sample.parse_untypedFile).mp missing

end LearningStore.Schema
