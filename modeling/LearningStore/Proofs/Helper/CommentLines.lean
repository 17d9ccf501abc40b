import LearningStore.Helper.Documentation
import LearningStore.Proofs.Schema.Lookup
import LearningStore.Proofs.Schema.Registry
import LearningStore.Proofs.Value.OneLine

/-!
# Lines of documentation comments

A documentation comment is enclosed if each of its lines, wherever a compiler ends them, begins
with the slashes.  What is made up for a comment is on one line.  So it depends on the texts of
the schema file in a comment, and on the namespaces that it shows, whether it is enclosed.
-/

namespace LearningStore.Helper

open LearningStore.Schema
open LearningStore.Text
open LearningStore.Value

/-! ## Written comments -/

namespace DocComment

/-- Every line of the written comment is a comment line, at whatever level it is written. -/
def Enclosed (c : DocComment) : Prop :=
  ∀ level, ∀ l ∈ (sourceLines (renderLines (indentedBy level c.lines)).toList).dropLast,
    isCommentLine l = true

/-- The texts behind the slashes, without the tags around them. -/
def texts (c : DocComment) : List String :=
  c.summary ++ c.remarks.toList.flatten

theorem isIndentation_indentation (level : Nat) :
    ∀ c ∈ (Line.indentation level).toList, isIndentation c = true := by
  intro c member
  rw [Line.indentation, String.toList_ofList] at member
  rw [List.eq_of_mem_replicate member]
  decide

theorem oneLine_indentation (level : Nat) : OneLine (Line.indentation level).toList := by
  rw [Line.indentation, String.toList_ofList]
  exact oneLine_replicate _ (by decide)

/-- A line of a comment shows its text behind the slashes. -/
theorem shown_commentLine (level : Nat) (text : String) : ∃ gap, OneLine gap ∧
    Line.shown ⟨(commentLine text).level + level, (commentLine text).text⟩ =
      (Line.indentation (0 + level)).toList ++ List.replicate 3 '/' ++ gap ++ text.toList := by
  have slashes : "///".toList = List.replicate 3 '/' := by decide
  have led : "/// ".toList = List.replicate 3 '/' ++ [' '] := by decide
  rw [commentLine]
  split
  next empty =>
    rw [String.isEmpty_iff] at empty
    have written : "///".isEmpty = false := by decide
    refine ⟨[], .nil, ?_⟩
    rw [Line.shown, line, written, if_neg Bool.false_ne_true, slashes, empty, List.append_nil]
    exact (List.append_nil _).symm
  next =>
    have written : ("/// " ++ text).isEmpty = false := by
      rw [Bool.eq_false_iff, ne_eq, String.isEmpty_iff, String.append_eq_empty_iff]
      exact fun both => absurd both.1 (by decide)
    refine ⟨[' '], by decide, ?_⟩
    rw [Line.shown, line, written, String.toList_append, led]
    simp only [List.append_assoc, Bool.false_eq_true, if_false]

/-- A line of a comment is written as comment lines exactly if its text is contained. -/
theorem endedLines_commentLine (level : Nat) (text : String) :
    (∀ l ∈ endedLines (Line.shown ⟨(commentLine text).level + level, (commentLine text).text⟩),
      isCommentLine l = true) ↔ ContainedLine text := by
  have blank := isIndentation_indentation (0 + level)
  obtain ⟨gap, oneLine, shown⟩ := shown_commentLine level text
  have front : OneLine ((Line.indentation (0 + level)).toList ++ List.replicate 3 '/' ++ gap) :=
    oneLine_append.mpr
      ⟨oneLine_append.mpr ⟨oneLine_indentation (0 + level), by decide⟩, oneLine⟩
  obtain ⟨first, rest, ended, -⟩ := sourceLines_append_feed text.toList []
  rw [shown, endedLines_append_of_oneLine front, ContainedLine, ended, List.modifyHead_cons,
    List.forall_mem_cons, List.tail_cons]
  refine and_iff_right ?_
  rw [List.append_assoc _ _ first]
  exact isCommentLine_of_indented blank _

theorem element_summary (ls : List String) : element "summary" ls =
    ("<summary>" :: ls ++ ["</summary>"]).map commentLine := by
  rw [List.map_append]
  rfl

theorem element_remarks (ls : List String) : element "remarks" ls =
    ("<remarks>" :: ls ++ ["</remarks>"]).map commentLine := by
  rw [List.map_append]
  rfl

/-- Lines between the tags of an element are written as comment lines exactly if their texts
are contained. -/
theorem endedLines_element (level : Nat) (start stop : String) (front : OneLine start.toList)
    (back : OneLine stop.toList) (ls : List String) :
    (∀ x ∈ (start :: ls ++ [stop]).map commentLine,
      ∀ l ∈ endedLines (Line.shown ⟨x.level + level, x.text⟩), isCommentLine l = true) ↔
        ∀ t ∈ ls, ContainedLine t := by
  rw [List.forall_mem_map]
  simp only [endedLines_commentLine]
  rw [List.forall_mem_append, List.forall_mem_cons, List.forall_mem_singleton, and_assoc]
  constructor
  · exact fun all => all.2.1
  · exact fun inside =>
      ⟨containedLine_of_oneLine front, inside, containedLine_of_oneLine back⟩

/-- A comment is enclosed exactly if all texts in it are contained. -/
theorem enclosed_iff (c : DocComment) : c.Enclosed ↔ ∀ t ∈ c.texts, ContainedLine t := by
  have level (n : Nat) : (∀ l ∈ (sourceLines (renderLines (indentedBy n c.lines)).toList).dropLast,
      isCommentLine l = true) ↔ ∀ t ∈ c.texts, ContainedLine t := by
    have summary := endedLines_element n "<summary>" "</summary>" (by decide) (by decide) c.summary
    rw [sourceLines_renderLines, indentedBy, List.flatMap_map, List.forall_mem_flatMap, lines,
      texts, List.forall_mem_append, List.forall_mem_append, element_summary, summary]
    refine and_congr_right fun _ => ?_
    cases c.remarks with
    | none => exact iff_of_true nofun nofun
    | some remarks =>
        have inside := endedLines_element n "<remarks>" "</remarks>" (by decide) (by decide) remarks
        rw [Option.toList_some, List.flatMap_singleton, List.flatten_singleton, element_remarks]
        exact inside
  exact ⟨fun enclosed => (level 0).mp (enclosed 0), fun contained n => (level n).mpr contained⟩

/-! ## Comments made step by step -/

section Steps

variable {c : DocComment}

theorem enclosed_ofSummary {text : String} : (ofSummary text).Enclosed ↔ ContainedLine text := by
  rw [enclosed_iff]
  exact List.forall_mem_singleton

theorem containedLine_of_markup {markup : Option String} {t : String}
    (member : t ∈ markup.toList.flatMap trimmedLines) : ContainedLine t ↔ Contained t := by
  obtain ⟨text, -, inside⟩ := List.mem_flatMap.mp member
  exact containedLine_of_mem_trimmedLines inside

theorem containedLines_of_markup {markup : Option String} :
    (∀ t ∈ markup.toList.flatMap trimmedLines, ContainedLine t) ↔
      ∀ t ∈ markup.toList.flatMap trimmedLines, Contained t :=
  forall₂_congr fun _ member => containedLine_of_markup member

theorem enclosed_withSummary {markup : Option String} : (c.withSummary markup).Enclosed ↔
    c.Enclosed ∧ ∀ t ∈ markup.toList.flatMap trimmedLines, Contained t := by
  rw [enclosed_iff, enclosed_iff, texts, texts, withSummary, List.forall_mem_append,
    List.forall_mem_append, List.forall_mem_append, containedLines_of_markup]
  exact and_right_comm

theorem enclosed_withRemarkLines {ls : List String} : (c.withRemarkLines ls).Enclosed ↔
    c.Enclosed ∧ ∀ t ∈ ls, ContainedLine t := by
  have remarks : c.remarks.toList.flatten = c.remarks.getD [] := by
    cases c.remarks with
    | none => rfl
    | some remarks => exact List.append_nil remarks
  rw [enclosed_iff, enclosed_iff, texts, texts, withRemarkLines, remarks, Option.toList_some,
    List.flatten_singleton, ← List.append_assoc, List.forall_mem_append]

theorem enclosed_withRemark {text : String} : (c.withRemark text).Enclosed ↔
    c.Enclosed ∧ ContainedLine text := by
  rw [withRemark, enclosed_withRemarkLines, List.forall_mem_singleton]

/-- The mark behind a paragraph changes nothing. -/
theorem containedLine_asParagraph {ls : List String}
    (trimmed : ∀ t ∈ ls, ContainedLine t ↔ Contained t) :
    (∀ t ∈ asParagraph ls, ContainedLine t) ↔ ∀ t ∈ ls, Contained t := by
  induction ls with
  | nil => exact iff_of_true nofun nofun
  | cons first rest ih =>
      obtain ⟨here, others⟩ := List.forall_mem_cons.mp trimmed
      cases rest with
      | nil =>
          have marked := containedLine_around (a := "") (b := "<p/>") first (by decide) (by decide)
            (by decide)
          rw [String.empty_append] at marked
          rw [asParagraph, List.forall_mem_singleton, List.forall_mem_singleton, marked]
      | cons second rest =>
          rw [asParagraph, List.forall_mem_cons, List.forall_mem_cons, here, ih others]
          exact List.cons_ne_nil second rest

theorem enclosed_withRemarks {markup : Option String} : (c.withRemarks markup).Enclosed ↔
    c.Enclosed ∧ ∀ t ∈ markup.toList.flatMap trimmedLines, Contained t := by
  have trimmed : ∀ t ∈ markup.toList.flatMap trimmedLines, ContainedLine t ↔ Contained t :=
    fun t member => containedLine_of_markup member
  rw [withRemarks]
  generalize markup.toList.flatMap trimmedLines = ls at trimmed ⊢
  cases ls with
  | nil => exact (and_iff_left nofun).symm
  | cons first rest => rw [enclosed_withRemarkLines, containedLine_asParagraph trimmed]

theorem enclosed_withFieldList {names : List String} (oneLine : ∀ n ∈ names, OneLine n.toList) :
    (c.withFieldList names).Enclosed ↔ c.Enclosed := by
  rw [withFieldList, enclosed_withRemarkLines]
  refine and_iff_left ?_
  refine List.forall_mem_append.mpr ⟨List.forall_mem_append.mpr ⟨?_, ?_⟩, ?_⟩
  · exact List.forall_mem_singleton.mpr (containedLine_of_oneLine (by decide))
  · refine List.forall_mem_map.mpr fun n member => containedLine_of_oneLine ?_
    exact oneLine_around (by decide) (oneLine n (List.mem_mergeSort.mp member)) (by decide)
  · exact List.forall_mem_singleton.mpr (containedLine_of_oneLine (by decide))

end Steps

end DocComment

/-- The lines of documentation, as comments show them. -/
def documentationTexts (d : Documentation) : List String :=
  d.summary.toList.flatMap trimmedLines ++ d.remarks.toList.flatMap trimmedLines

theorem DocComment.enclosed_withDocumentation {c : DocComment} {d : Documentation} :
    (c.withDocumentation d).Enclosed ↔ c.Enclosed ∧ ∀ t ∈ documentationTexts d, Contained t := by
  rw [withDocumentation, enclosed_withRemarks, enclosed_withSummary, documentationTexts,
    List.forall_mem_append, and_assoc]

/-! ## Lines around a text -/

/-- A text that shows others: it is on one line, or texts on one line stand around one that is
contained if the other is. -/
inductive Shows : String → List String → Prop
  | nothing {text : String} (oneLine : OneLine text.toList) : Shows text []
  | around {a b t text : String} (front : OneLine a.toList) (back : OneLine b.toList)
      (mark : BeginsWithMark b.toList) (same : Contained text ↔ Contained t) :
      Shows (a ++ text ++ b) [t]

namespace Shows

variable {text : String} {ts : List String}

theorem containedLine_iff (h : Shows text ts) : ContainedLine text ↔ ∀ t ∈ ts, Contained t := by
  cases h with
  | nothing oneLine => exact iff_of_true (containedLine_of_oneLine oneLine) nofun
  | around front back mark same =>
      rw [containedLine_around _ front back mark, same, List.forall_mem_singleton]

/-- What stands around on one line shows nothing more. -/
theorem extend (h : Shows text ts) {a b : String} (front : OneLine a.toList)
    (back : OneLine b.toList) : Shows (a ++ text ++ b) ts := by
  cases h with
  | nothing oneLine => exact .nothing (oneLine_around front oneLine back)
  | @around a' b' t inner front' back' mark same =>
      have regrouped : a ++ (a' ++ inner ++ b') ++ b = (a ++ a') ++ inner ++ (b' ++ b) := by
        simp only [String.append_assoc]
      rw [regrouped]
      refine .around ?_ ?_ ?_ same
      · rw [String.toList_append]
        exact oneLine_append.mpr ⟨front, front'⟩
      · rw [String.toList_append]
        exact oneLine_append.mpr ⟨back', back⟩
      · rw [String.toList_append]
        exact mark.append b.toList

end Shows

/-! ## Members -/

theorem isFigure_of_beginsIdentifier {c : Char} (begins : BeginsIdentifier c) :
    isFigure c = true ∨ c = '_' := by
  rcases begins with ⟨low, high⟩ | ⟨low, high⟩ | rfl
  · exact .inl (by simp [isFigure, isLetter, low, high])
  · exact .inl (by simp [isFigure, isLetter, low, high])
  · exact .inr rfl

/-- An identifier is made of figures and underscores. -/
theorem isFigure_of_isIdentifier {name : String} (named : IsIdentifier name) :
    ∀ c ∈ name.toList, isFigure c = true ∨ c = '_' := by
  obtain ⟨first, rest, spelled, begins, continues⟩ := named
  rw [spelled]
  refine List.forall_mem_cons.mpr ⟨isFigure_of_beginsIdentifier begins, fun c inside => ?_⟩
  rcases continues c inside with letter | ⟨low, high⟩
  · exact isFigure_of_beginsIdentifier letter
  · exact .inl (by simp [isFigure, isDigit, low, high])

theorem oneLine_of_isIdentifier {name : String} (h : IsIdentifier name) : OneLine name.toList := by
  intro c inside
  rcases isFigure_of_isIdentifier h c inside with figure | rfl
  · exact not_isTerminator_of (p := isFigure) (by decide) figure
  · decide

/-- The namespace in which comments show the enum that a member refers to. -/
def placeTexts (s : Schema) (places : EnumPlaces) (m : Member) : List String :=
  match m.valueType, s.referencedEnum m with
  | .enumeration, .ok e => [if e.inBase then places.base else places.derived]
  | _, _ => []

/-- The texts in the comment of a member. -/
def memberTexts (s : Schema) (places : EnumPlaces) (m : Member) : List String :=
  placeTexts s places m ++ documentationTexts m.documentation

/-- The texts in the comment of a property. -/
def propertyTexts (s : Schema) (places : EnumPlaces) (p : Property) : List String :=
  memberTexts s places p.toMember ++ (p.default.bind DefaultValue.freeText?).toList

theorem oneLine_ownerPhrase {owner : Owner} (named : IsIdentifier owner.name) :
    OneLine (ownerPhrase owner).toList := by
  cases owner with
  | view name =>
      rw [ownerPhrase, String.toList_append]
      exact oneLine_append.mpr ⟨oneLine_of_isIdentifier named, by decide⟩
  | right name =>
      rw [ownerPhrase, String.toList_append]
      exact oneLine_append.mpr ⟨oneLine_of_isIdentifier named, by decide⟩

theorem oneLine_docName (type : ValueType) : OneLine type.descriptor.docName.toList := by
  cases type <;> decide

theorem oneLine_docDescription (type : ValueType) (maxLength : Option Int) :
    OneLine (type.docDescription maxLength none).toList := by
  unfold ValueType.docDescription
  split
  next n => exact oneLine_around (by decide) (oneLine_integerText n) (by decide)
  next n => exact oneLine_around (by decide) (oneLine_integerText n) (by decide)
  next tagged => cases tagged
  next named => cases named
  next => exact oneLine_docName _

/-- The tag of an enum shows the namespace of the enum. -/
theorem shows_tag {e : EnumType} (name : IsIdentifier e.name) (places : EnumPlaces) :
    Shows (places.tag e) [if e.inBase then places.base else places.derived] := by
  have oneLine : OneLine ("." ++ e.name).toList := by
    rw [String.toList_append]
    exact oneLine_append.mpr ⟨by decide, oneLine_of_isIdentifier name⟩
  have mark : BeginsWithMark ("." ++ e.name).toList := by
    rw [String.toList_append]
    exact BeginsWithMark.append (a := ".".toList) (by decide) _
  rw [EnumPlaces.tag, String.append_assoc]
  exact .around (by decide) oneLine mark Iff.rfl

theorem ofList_quoted (inner : List Char) :
    String.ofList ('"' :: inner ++ ['"']) = "\"" ++ String.ofList inner ++ "\"" := by
  rw [← String.toList_inj]
  simp only [String.toList_append, String.toList_ofList]
  rfl

/-- A default with a text of its own shows that text. -/
theorem shows_docText {default : DefaultValue} {t : String} (free : default.freeText? = some t) :
    Shows ("Default value: " ++ default.docText none ++ "<p/>") [t] := by
  cases default with
  | null => cases free
  | function expression =>
      obtain rfl : expression = t := Option.some.inj free
      exact .around (by decide) (by decide) (by decide) Iff.rfl
  | literal l =>
      cases l with
      | string value =>
          obtain rfl : value = t := Option.some.inj free
          have quoted := Shows.around (a := "\"") (b := "\"") (by decide) (by decide) (by decide)
            (contained_escaped escapes_quotes value)
          rw [DefaultValue.docText, Literal.docText, ofList_quoted]
          exact quoted.extend (by decide) (by decide)
      | xml value =>
          obtain rfl : value = t := Option.some.inj free
          have escaped := contained_escaped escapes_xmlEscape value
          exact .around (by decide) (by decide) (by decide) escaped
      | _ => cases free

section Members

variable {d : Drafts} (sound : d.Sound) {places : EnumPlaces}

include sound

/-- What is said about the type of a member shows the namespace of its enum. -/
theorem shows_typeDescription {m : Member} {maxLength : Option Int} {text : String}
    (made : typeDescription d.toSchema places m maxLength = .ok text) :
    Shows text (placeTexts d.toSchema places m) := by
  unfold typeDescription at made
  unfold placeTexts
  split at made
  next type =>
    obtain ⟨e, found, rfl⟩ := map_eq_ok.mp made
    have name := (sound.enums e (mem_of_referencedEnum found).1).name
    rw [type, found]
    exact (shows_tag name places).extend (by decide) (by decide)
  next type =>
    obtain ⟨i, found, rfl⟩ := map_eq_ok.mp made
    have name := (sound.itemTypes i (mem_of_referencedItemType found).1).name
    rw [type]
    exact .nothing (oneLine_around (by decide) (oneLine_of_isIdentifier name) (by decide))
  next noEnum noItem =>
    cases made
    split
    next e type found => exact absurd type noEnum
    next => exact .nothing (oneLine_docDescription _ _)

/-- What is said about the default shows its text, and beside it no more than what is said about
the type. -/
theorem containedLine_defaultRemark {p : Property} {owner : String} (h : p.Sound owner)
    {text : String} (made : defaultRemark d.toSchema places p = .ok text)
    (place : ∀ t ∈ placeTexts d.toSchema places p.toMember, Contained t) :
    ContainedLine text ↔ ∀ t ∈ (p.default.bind DefaultValue.freeText?).toList, Contained t := by
  unfold defaultRemark at made
  split at made
  next default given =>
    obtain ⟨shown, described, rfl⟩ := map_eq_ok.mp made
    rw [given, Option.bind_some]
    unfold defaultDescription at described
    split at described
    next value =>
      obtain ⟨e, found, rfl⟩ := map_eq_ok.mp described
      have type : p.valueType = .enumeration := (h.literal _ given).symm
      refine iff_of_true ?_ nofun
      cases valued : e.nameOf? value with
      | none =>
          exact containedLine_of_oneLine
            (oneLine_around (by decide) (oneLine_integerText value) (by decide))
      | some name =>
          have known := sound.enums e (mem_of_referencedEnum found).1
          obtain ⟨v, first, rfl⟩ := Option.map_eq_some_iff.mp valued
          have oneLine := oneLine_of_isIdentifier (known.values v (List.mem_of_find?_eq_some first))
          have tagged := (shows_tag known.name places).extend (a := "") (b := "." ++ v.name)
            (by decide) (by
              rw [String.toList_append]
              exact oneLine_append.mpr ⟨by decide, oneLine⟩)
          rw [String.empty_append, ← String.append_assoc] at tagged
          have whole := (tagged.extend (a := "<Fld>") (b := "</Fld>") (by decide)
            (by decide)).extend (a := "Default value: ") (b := "<p/>") (by decide) (by decide)
          rw [placeTexts, type, found] at place
          exact whole.containedLine_iff.mpr place
    next =>
      cases described
      cases free : default.freeText? with
      | none =>
          exact iff_of_true (containedLine_of_oneLine
            (oneLine_around (by decide) (figures_docText free).oneLine (by decide))) nofun
      | some t => exact (shows_docText free).containedLine_iff
  next absent =>
    cases made
    rw [absent]
    exact iff_of_true (containedLine_of_oneLine (by decide)) nofun

theorem enclosed_propertyComment {p : Property} {owner : String} (named : IsIdentifier owner)
    (h : p.Sound owner) {comment : DocComment}
    (made : propertyComment d.toSchema places p = .ok comment) :
    comment.Enclosed ↔ ∀ t ∈ propertyTexts d.toSchema places p, Contained t := by
  have summary : OneLine (propertySummary p.name p.owner).toList := by
    rw [h.owner_eq]
    exact oneLine_around (oneLine_around (by decide) (oneLine_of_isIdentifier h.member.name)
      (by decide)) (oneLine_of_isIdentifier named) (by decide)
  have nullable : OneLine
      (if p.nullable = true then "Can be null.<p/>" else "Cannot be null.<p/>").toList := by
    cases p.nullable <;> decide
  have cascade : ∀ t ∈ cascadeRemarks p, ContainedLine t := by
    unfold cascadeRemarks
    split
    next => exact List.forall_mem_singleton.mpr (containedLine_of_oneLine (by decide))
    next => exact nofun
  obtain ⟨description, described, rest⟩ := bind_eq_ok.mp made
  obtain ⟨default, defaulted, same⟩ := bind_eq_ok.mp rest
  cases same
  have type := ((shows_typeDescription sound described).extend (a := "Type: ") (b := "<p/>")
    (by decide) (by decide)).containedLine_iff
  rw [DocComment.enclosed_withRemarkLines, DocComment.enclosed_withDocumentation,
    DocComment.enclosed_ofSummary, List.forall_mem_append, List.forall_mem_cons,
    List.forall_mem_cons, List.forall_mem_singleton, type, propertyTexts, memberTexts,
    List.forall_mem_append, List.forall_mem_append]
  constructor
  · rintro ⟨⟨-, documented⟩, ⟨place, -, shown⟩, -⟩
    exact ⟨⟨place, documented⟩, (containedLine_defaultRemark sound h defaulted place).mp shown⟩
  · rintro ⟨⟨place, documented⟩, free⟩
    have shown := (containedLine_defaultRemark sound h defaulted place).mpr free
    exact ⟨⟨containedLine_of_oneLine summary, documented⟩,
      ⟨place, containedLine_of_oneLine nullable, shown⟩, cascade⟩

/-- The comments of columns and parameters show the type behind the documentation. -/
theorem enclosed_memberComment {m : Member} {summary description : String}
    (oneLine : OneLine summary.toList)
    (described : typeDescription d.toSchema places m none = .ok description) :
    (((DocComment.ofSummary summary).withDocumentation m.documentation).withRemark
      ("Type: " ++ description)).Enclosed ↔
        ∀ t ∈ memberTexts d.toSchema places m, Contained t := by
  have type := ((shows_typeDescription sound described).extend (a := "Type: ") (b := "")
    (by decide) .nil).containedLine_iff
  rw [String.append_empty] at type
  rw [DocComment.enclosed_withRemark, DocComment.enclosed_withDocumentation,
    DocComment.enclosed_ofSummary, type, memberTexts, List.forall_mem_append,
    and_iff_right (containedLine_of_oneLine oneLine), and_comm]

theorem enclosed_columnComment {c : Column} {owner : String} (named : IsIdentifier owner)
    (h : c.Sound owner) {comment : DocComment}
    (made : columnComment d.toSchema places c = .ok comment) :
    comment.Enclosed ↔ ∀ t ∈ memberTexts d.toSchema places c.toMember, Contained t := by
  obtain ⟨description, described, rfl⟩ := map_eq_ok.mp made
  refine enclosed_memberComment sound ?_ described
  rw [h.owner_eq]
  exact oneLine_around (oneLine_around (by decide) (oneLine_of_isIdentifier h.member.name)
    (by decide)) (oneLine_of_isIdentifier named) (by decide)

theorem enclosed_parameterComment {p : Parameter} {owner : Owner} (h : p.Sound owner)
    (named : IsIdentifier owner.name) {comment : DocComment}
    (made : parameterComment d.toSchema places p = .ok comment) :
    comment.Enclosed ↔ ∀ t ∈ memberTexts d.toSchema places p.toMember, Contained t := by
  obtain ⟨description, described, rfl⟩ := map_eq_ok.mp made
  refine enclosed_memberComment sound ?_ described
  rw [h.owner_eq]
  exact oneLine_around (oneLine_around (by decide) (oneLine_of_isIdentifier h.member.name)
    (by decide)) (oneLine_ownerPhrase named) (by decide)

end Members

/-! ## Elements -/

section Elements

variable {name : String} (named : IsIdentifier name)

include named

/-- A line that names an element. -/
theorem oneLine_naming {a b : String} (front : OneLine a.toList) (back : OneLine b.toList) :
    OneLine (a ++ name ++ b).toList :=
  oneLine_around front (oneLine_of_isIdentifier named) back

theorem enclosed_naming {a b : String} (front : OneLine a.toList) (back : OneLine b.toList) :
    (DocComment.ofSummary (a ++ name ++ b)).Enclosed :=
  DocComment.enclosed_ofSummary.mpr (containedLine_of_oneLine (oneLine_naming named front back))

end Elements

theorem enclosed_itemTypeComment {i : ItemType} (h : i.Sound) :
    (itemTypeComment i).Enclosed ↔ ∀ t ∈ documentationTexts i.documentation, Contained t := by
  have fields : ∀ n ∈ "Id" :: i.properties.map fun p => p.name, OneLine n.toList := by
    refine List.forall_mem_cons.mpr ⟨by decide, List.forall_mem_map.mpr fun p member => ?_⟩
    exact oneLine_of_isIdentifier (h.properties p member).member.name
  rw [itemTypeComment, DocComment.enclosed_withFieldList fields, DocComment.enclosed_withRemark,
    DocComment.enclosed_withDocumentation,
    and_iff_left (containedLine_of_oneLine (by decide)),
    and_iff_right (enclosed_naming h.name (by decide) (by decide))]

theorem enclosed_idComment {i : ItemType} (h : i.Sound) : (idComment i).Enclosed := by
  have summary : OneLine (propertySummary "Id" i.name).toList :=
    oneLine_naming h.name (by decide) (by decide)
  have type : OneLine ("Type: " ++ ("Identifier of a <Typ>" ++ i.name ++ "</Typ> item") ++
      "<p/>").toList :=
    oneLine_around (by decide) (oneLine_naming h.name (by decide) (by decide)) (by decide)
  rw [idComment, DocComment.enclosed_withRemarkLines, DocComment.enclosed_ofSummary,
    List.forall_mem_cons, List.forall_mem_cons, List.forall_mem_singleton]
  exact ⟨containedLine_of_oneLine summary, containedLine_of_oneLine (by decide),
    containedLine_of_oneLine type, containedLine_of_oneLine (by decide)⟩

theorem enclosed_maxLengthComment {p : Property} (named : IsIdentifier p.name) :
    (maxLengthComment p).Enclosed := by
  have unit : OneLine (if p.valueType = .byteArray then "bytes" else "characters").toList := by
    split <;> decide
  exact DocComment.enclosed_ofSummary.mpr (containedLine_of_oneLine
    (oneLine_around (oneLine_naming named (by decide) (by decide)) unit (by decide)))

/-- The comment of parameters under a comment changes nothing in it. -/
theorem enclosed_withParameters {c : DocComment} {ps : List Parameter}
    (names : ∀ p ∈ ps, IsIdentifier p.name) : (c.withParameters ps).Enclosed ↔ c.Enclosed := by
  unfold DocComment.withParameters
  split
  next =>
    rw [DocComment.enclosed_withRemark]
    exact and_iff_left (containedLine_of_oneLine (by decide))
  next =>
    refine DocComment.enclosed_withFieldList (List.forall_mem_map.mpr fun p member => ?_)
    exact oneLine_of_isIdentifier (names p member)

theorem enclosed_viewComment {v : View} (h : v.Sound) :
    (viewComment v).Enclosed ↔ ∀ t ∈ documentationTexts v.documentation, Contained t := by
  have fields : ∀ n ∈ v.columns.map fun c => c.name, OneLine n.toList :=
    List.forall_mem_map.mpr fun c member => oneLine_of_isIdentifier (h.columns c member).member.name
  rw [viewComment, enclosed_withParameters fun p member => (h.parameters p member).member.name,
    DocComment.enclosed_withRemark, DocComment.enclosed_withFieldList fields,
    DocComment.enclosed_withRemark, DocComment.enclosed_withDocumentation,
    and_iff_left (containedLine_of_oneLine (by decide)),
    and_iff_left (containedLine_of_oneLine (by decide)),
    and_iff_right (enclosed_naming h.name (by decide) (by decide))]

theorem enclosed_rightComment {r : Right} (h : r.Sound) :
    (rightComment r).Enclosed ↔ ∀ t ∈ documentationTexts r.documentation, Contained t := by
  rw [rightComment, enclosed_withParameters fun p member => (h.parameters p member).member.name,
    DocComment.enclosed_withRemark, DocComment.enclosed_withDocumentation,
    and_iff_left (containedLine_of_oneLine (by decide)),
    and_iff_right (enclosed_naming h.name (by decide) (by decide))]

/-! ## Enums and identifiers -/

/-- The texts in the comments of an enum and its values. -/
def enumTexts (e : EnumType) : List String :=
  documentationTexts e.documentation ++
    e.values.flatMap fun v => v.documentation.toList.flatMap trimmedLines

theorem enclosed_enumComment {e : EnumType} (h : e.Sound) :
    (enumComment e).Enclosed ↔ ∀ t ∈ documentationTexts e.documentation, Contained t := by
  have remarks : (e.documentation.remarks.map trimmedLines).toList.flatten =
      e.documentation.remarks.toList.flatMap trimmedLines := by
    cases e.documentation.remarks with
    | none => rfl
    | some markup => rfl
  have summary : (∀ t ∈ e.documentation.summary.toList.flatMap trimmedLines, ContainedLine t) ↔
      ∀ t ∈ e.documentation.summary.toList.flatMap trimmedLines, Contained t :=
    DocComment.containedLines_of_markup
  rw [DocComment.enclosed_iff, DocComment.texts, enumComment, documentationTexts, remarks,
    List.forall_mem_append, List.forall_mem_append, DocComment.containedLines_of_markup,
    ← summary]
  refine and_congr_left fun _ => ?_
  cases e.documentation.summary.toList.flatMap trimmedLines with
  | nil =>
      have name := containedLine_of_oneLine (oneLine_of_isIdentifier h.name)
      exact iff_of_true (List.forall_mem_singleton.mpr name) nofun
  | cons first rest => exact Iff.rfl

theorem enclosed_enumValueComment {v : EnumValue} (named : IsIdentifier v.name) :
    (enumValueComment v).Enclosed ↔
      ∀ t ∈ v.documentation.toList.flatMap trimmedLines, Contained t := by
  have value : OneLine (v.name ++ " (" ++ integerText v.value ++ ")").toList := by
    have front : OneLine (v.name ++ " (").toList := by
      rw [String.toList_append]
      exact oneLine_append.mpr ⟨oneLine_of_isIdentifier named, by decide⟩
    exact oneLine_around front (oneLine_integerText v.value) (by decide)
  rw [enumValueComment, DocComment.enclosed_withSummary, DocComment.enclosed_ofSummary,
    and_iff_right (containedLine_of_oneLine value)]

/-- The comment of an identifier class shows the namespace of the class of the item type. -/
theorem enclosed_identifierComment {i : ItemType} (h : i.Sound) (scope : String) :
    (identifierComment i scope).Enclosed ↔ Contained scope := by
  have back : OneLine ("." ++ i.name ++ "</Typ>.").toList :=
    oneLine_naming h.name (by decide) (by decide)
  have mark : BeginsWithMark ("." ++ i.name ++ "</Typ>.").toList := by
    rw [String.append_assoc, String.toList_append]
    exact BeginsWithMark.append (a := ".".toList) (by decide) _
  have line := containedLine_around (a := "Identifier of an item of type <Typ>/") scope
    (by decide) back mark
  rw [← String.append_assoc, ← String.append_assoc] at line
  rw [identifierComment, DocComment.enclosed_ofSummary, line]

theorem enclosed_identifierOfKeyComment {i : ItemType} (h : i.Sound) :
    (identifierOfKeyComment i).Enclosed :=
  DocComment.enclosed_ofSummary.mpr (containedLine_of_oneLine (oneLine_around
    (oneLine_naming h.name (by decide) (by decide)) (oneLine_of_isIdentifier h.name) (by decide)))

theorem enclosed_identifierOfIdentifierComment {i : ItemType} (h : i.Sound) :
    (identifierOfIdentifierComment i).Enclosed := by
  have remark : OneLine ("<paramref name=\"id\"/> must refer to a " ++ i.name ++ " item.").toList :=
    oneLine_naming h.name (by decide) (by decide)
  rw [identifierOfIdentifierComment, DocComment.enclosed_withRemark]
  exact ⟨enclosed_naming h.name (by decide) (by decide), containedLine_of_oneLine remark⟩

end LearningStore.Helper
