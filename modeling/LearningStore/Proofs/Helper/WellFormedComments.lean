import LearningStore.Proofs.Helper.CommentMarkup
import LearningStore.Proofs.Helper.CommentTexts
import LearningStore.Proofs.Schema.LegalDefaults

/-!
# Well-formed comments

A comment is well-formed if the documentation in it is with its lines trimmed.  The comment of a
property shows its default as well: a text or an expression as it is, so that a less-than sign in it
is taken for the start of a tag, while markup is escaped and all other values are written in figures.
-/

namespace LearningStore.Helper

open LearningStore.Schema
open LearningStore.Text
open LearningStore.Value
open LearningStore.Xml
open LearningStore.Xml.Fragment

/-! ## Text between tags -/

/-- A text that can stand between the tags of the remarks as it is. -/
def Fits (text : String) : Prop :=
  IsFragment ("<remarks>" ++ text ++ "</remarks>")

instance (text : String) : Decidable (Fits text) :=
  inferInstanceAs (Decidable (IsFragment _))

/-- Only the remarks end at their end tag. -/
theorem opened_of_run_remarksEnd {k n : Nat} {opened : List (List Char)} (rest : List Char)
    (read : (State.content k opened).run ("</remarks>".toList ++ rest) =
      some (State.content n [])) (plain : State.PlainText rest) :
    opened = ["remarks".toList] := by
  cases opened with
  | nil => cases read
  | cons last others =>
      have before : (State.content k (last :: others)).run "</remarks".toList =
          some ⟨.endName, { tag := "remarks".toList }, last :: others⟩ := rfl
      have apart : "</remarks>".toList ++ rest = "</remarks".toList ++ '>' :: rest := rfl
      rw [apart, State.run_append, before, Option.bind_some, State.run_cons,
        Option.bind_eq_some_iff] at read
      obtain ⟨between, first, later⟩ := read
      obtain ⟨-, mode, act, names, inside, next, applied, rfl⟩ := State.step_eq_some_iff.mp first
      cases next
      rw [Act.apply] at applied
      split at applied
      next same =>
        cases applied
        have inText : (State.content 0 others).run rest = some (State.content n []) := later
        rw [State.run_plain plain] at inText
        have none : others = [] := (State.mk.inj (Option.some.inj inText)).2.2
        rw [same, none]
      next => cases applied

/-- A text that a tag follows ends in character data, and closes nothing that is open around
it. -/
theorem exists_run_iff {t tail : List Char} (quiet : ∀ c ∈ tail, c ≠ '-' ∧ c ≠ ']' ∧ c ≠ '?')
    (rejects : ∀ {k n opened}, (State.content k opened).run ('<' :: tail) =
      some (State.content n []) → opened = ["remarks".toList])
    (accepts : ∀ k, (State.content k ["remarks".toList]).run ('<' :: tail) =
      some (State.content 0 [])) :
    (∃ n, (State.content 0 ["remarks".toList]).run (t ++ '<' :: tail) =
      some (State.content n [])) ↔
        ∃ k, (State.content 0 ["remarks".toList]).run t =
          some (State.content k ["remarks".toList]) := by
  constructor
  · rintro ⟨n, read⟩
    rw [State.run_append, Option.bind_eq_some_iff] at read
    obtain ⟨s, before, behind⟩ := read
    obtain ⟨k, inText⟩ := State.eq_content_of_run ((State.tidy_content _ _).run before) behind quiet
    rw [inText] at behind
    rw [before, inText, rejects behind]
    exact ⟨k, rfl⟩
  · rintro ⟨k, read⟩
    refine ⟨0, ?_⟩
    rw [State.run_append, read, Option.bind_some, accepts]

theorem fits_iff {text : String} : Fits text ↔
    ∃ k, (State.content 0 ["remarks".toList]).run text.toList =
      some (State.content k ["remarks".toList]) := by
  have start (t : List Char) : (State.content 0 []).run ("<remarks>".toList ++ t) =
      (State.content 0 ["remarks".toList]).run t := by
    rw [State.run_append]
    rfl
  have whole : ("<remarks>" ++ text ++ "</remarks>").toList =
      "<remarks>".toList ++ (text.toList ++ '<' :: "/remarks>".toList) := by
    simp only [String.toList_append, List.append_assoc]
    rfl
  rw [Fits, isFragment_iff, whole]
  simp only [start]
  exact exists_run_iff (by decide)
    (fun read => opened_of_run_remarksEnd [] read (List.forall_mem_nil _)) fun k => rfl

/-- A default that is shown as it is lets the remarks end exactly if it fits between their
tags. -/
theorem closes_default {text : String} {ls : List String} (neutral : ∀ t ∈ ls, Neutral t)
    (quiet : ∀ c ∈ linesText ls, c ≠ '-' ∧ c ≠ ']' ∧ c ≠ '?') :
    Closes (("Default value: " ++ text ++ "<p/>") :: ls) (Fits text) := by
  have start (t : List Char) : (State.content 0 ["remarks".toList]).run
      ("Default value: ".toList ++ t) = (State.content 0 ["remarks".toList]).run t := by
    rw [State.run_append]
    rfl
  have whole : linesText (("Default value: " ++ text ++ "<p/>") :: ls ++ ["</remarks>"]) =
      "Default value: ".toList ++ (text.toList ++
        '<' :: ("p/>\n".toList ++ (linesText ls ++ "</remarks>\n".toList))) := by
    rw [List.cons_append, ← List.singleton_append, linesText_append, linesText_append, linesText,
      List.flatMap_singleton, String.toList_append, String.toList_append]
    simp only [List.append_assoc]
    rfl
  have behind (k : Nat) (opened : List (List Char)) : (State.content k opened).run
      ('<' :: ("p/>\n".toList ++ (linesText ls ++ "</remarks>\n".toList))) =
        (State.content 0 opened).run "</remarks>\n".toList := by
    have mark : (State.content k opened).run "<p/>\n".toList = some (State.content 0 opened) := rfl
    have apart : '<' :: ("p/>\n".toList ++ (linesText ls ++ "</remarks>\n".toList)) =
        "<p/>\n".toList ++ (linesText ls ++ "</remarks>\n".toList) := rfl
    rw [apart, State.run_append, mark, Option.bind_some, State.run_append,
      (Tells.neutrals neutral).leads trivial, Option.bind_some]
  rw [Closes, whole, fits_iff]
  simp only [start]
  refine exists_run_iff ?_ ?_ ?_
  · refine List.forall_mem_append.mpr ⟨by decide, List.forall_mem_append.mpr ⟨quiet, by decide⟩⟩
  · intro k n opened read
    rw [behind] at read
    exact opened_of_run_remarksEnd ['\n'] read (by decide)
  · intro k
    rw [behind]
    rfl

/-! ## What decides -/

/-- What documentation shows for a default without escaping anything in it for markup. -/
def unescaped? : DefaultValue → Option String
  | .function expression => some expression
  | .literal (.string value) => some ((Literal.string value).docText none)
  | _ => none

/-- Each part of documentation is a fragment with its lines trimmed. -/
def ShownWell (d : Documentation) : Prop :=
  ∀ m ∈ d.texts, IsFragment (Xml.shown m)

/-- The namespaces in which comments show enums are fragments. -/
structure Marked (places : EnumPlaces) : Prop where
  base : IsFragment places.base
  derived : IsFragment places.derived

theorem shownWell_iff {d : Documentation} : ShownWell d ↔
    (∀ m ∈ d.summary, IsFragment (Xml.shown m)) ∧ ∀ m ∈ d.remarks, IsFragment (Xml.shown m) :=
  forall_mem_texts

/-- Neutral text between two plain ones. -/
theorem Neutral.around {a b t : String} (front : State.PlainText a.toList) (inner : Neutral t)
    (back : State.PlainText b.toList) : Neutral (a ++ t ++ b) :=
  ((neutral_of_plain front).append inner).append (neutral_of_plain back)

theorem neutral_ownerPhrase {owner : Owner} (named : IsIdentifier owner.name) :
    Neutral (ownerPhrase owner) := by
  cases owner with
  | view name => exact (neutral_of_isIdentifier named).append (neutral_of_plain (by decide))
  | right name => exact (neutral_of_isIdentifier named).append (neutral_of_plain (by decide))

theorem neutral_docName (type : ValueType) : Neutral type.descriptor.docName := by
  cases type <;> exact neutral_of_plain (by decide)

theorem neutral_docDescription (type : ValueType) (maxLength : Option Int) :
    Neutral (type.docDescription maxLength none) := by
  unfold ValueType.docDescription
  split
  next n => exact .around (by decide) (neutral_of_figures (figures_integerText n)) (by decide)
  next n => exact .around (by decide) (neutral_of_figures (figures_integerText n)) (by decide)
  next tagged => cases tagged
  next named => cases named
  next => exact neutral_docName _

theorem neutral_identifier {name : String} (named : IsIdentifier name) :
    Neutral (ValueType.itemIdentifier.docDescription none (some name)) :=
  (neutral_of_isIdentifier named).between "Identifier of a <Typ>" "</Typ> item" ["Typ".toList]
    (fun _ => rfl) fun _ => rfl

/-- A remark is neutral if its text is. -/
theorem Neutral.paragraph {a t : String} (front : State.PlainText a.toList) (inner : Neutral t) :
    Neutral (a ++ t ++ "<p/>") :=
  ((neutral_of_plain front).append inner).append fun _ => rfl

/-! ## Defaults -/

theorem eq_xml_of_freeText {default : DefaultValue} {t : String}
    (free : default.freeText? = some t) (escaped : unescaped? default = none) :
    default = .literal (.xml t) := by
  cases default with
  | null => cases free
  | function expression => cases escaped
  | literal l =>
      cases l with
      | string value => cases escaped
      | xml value =>
          cases free
          rfl
      | _ => cases free

theorem neutral_xmlDefault {value : String} (legal : LegalText value.toList) :
    Neutral ("Default value: " ++ (DefaultValue.literal (.xml value)).docText none ++ "<p/>") := by
  intro opened
  obtain ⟨k, read⟩ : ∃ k, (State.content 0 opened).run (value.toList.flatMap xmlEscape) =
      some (State.content k opened) := State.run_escaped legal
  have shown : ((DefaultValue.literal (.xml value)).docText none).toList =
      value.toList.flatMap xmlEscape := by
    rw [DefaultValue.docText, Literal.docText, xmlEscaped, String.toList_ofList]
  have start : (State.content 0 opened).run "Default value: ".toList =
      some (State.content 0 opened) := State.run_plain (by decide)
  rw [String.toList_append, String.toList_append, State.run_append, State.run_append, start,
    Option.bind_some, shown, read]
  rfl

/-- A default that is shown as it is. -/
theorem defaultRemark_eq {s : Schema} {places : EnumPlaces} {p : Property} {shown text : String}
    (unescaped : p.default.bind unescaped? = some shown)
    (made : defaultRemark s places p = .ok text) :
    text = "Default value: " ++ shown ++ "<p/>" := by
  obtain ⟨default, given, free⟩ := Option.bind_eq_some_iff.mp unescaped
  rw [defaultRemark, given] at made
  obtain ⟨description, described, rfl⟩ := map_eq_ok.mp made
  unfold unescaped? at free
  split at free
  case h_1 | h_2 =>
    cases free
    cases described
    rfl
  case h_3 => cases free

theorem neutral_cascadeRemarks (p : Property) : ∀ t ∈ cascadeRemarks p, Neutral t := by
  unfold cascadeRemarks
  split
  next => exact List.forall_mem_singleton.mpr (neutral_of_run (by decide +kernel))
  next => exact List.forall_mem_nil _

theorem quiet_cascadeRemarks (p : Property) :
    ∀ c ∈ linesText (cascadeRemarks p), c ≠ '-' ∧ c ≠ ']' ∧ c ≠ '?' := by
  unfold cascadeRemarks
  split
  next => decide
  next => exact List.forall_mem_nil _

/-! ## Members -/

section Members

variable {d : Drafts} (sound : d.Sound) {places : EnumPlaces} (marked : Marked places)

include marked

theorem neutral_tag {e : EnumType} (named : IsIdentifier e.name) : Neutral (places.tag e) := by
  have scope : IsFragment (if e.inBase then places.base else places.derived) := by
    split
    next => exact marked.base
    next => exact marked.derived
  have name : State.PlainText ("." ++ e.name).toList := by
    rw [String.toList_append]
    exact List.forall_mem_append.mpr ⟨by decide, plainText_of_isIdentifier named⟩
  rw [EnumPlaces.tag, String.append_assoc, String.append_assoc]
  refine (neutral_of_plain (a := "/") (by decide)).append (neutral_of_isFragment scope name ?_)
  exact fun empty => absurd (String.append_eq_empty_iff.mp empty).1 (by decide)

/-- An enum value is shown by its name or by its number. -/
theorem neutral_enumDefault {e : EnumType} (known : e.Sound) (value : Int) :
    Neutral ((Literal.enumeration value).docText
      ((e.nameOf? value).map fun name => places.tag e ++ "." ++ name)) := by
  cases valued : e.nameOf? value with
  | none => exact neutral_of_figures (figures_integerText value)
  | some name =>
      obtain ⟨v, first, rfl⟩ := Option.map_eq_some_iff.mp valued
      have name := neutral_of_isIdentifier (known.values v (List.mem_of_find?_eq_some first))
      have dot : Neutral "." := neutral_of_plain (by decide)
      exact neutral_fld (((neutral_tag marked known.name).append dot).append name)

include sound

theorem neutral_typeDescription {m : Member} {maxLength : Option Int} {text : String}
    (made : typeDescription d.toSchema places m maxLength = .ok text) : Neutral text := by
  unfold typeDescription at made
  split at made
  next type =>
    obtain ⟨e, found, rfl⟩ := map_eq_ok.mp made
    have name := (sound.enums e (mem_of_referencedEnum found).1).name
    rw [type]
    exact (neutral_tag marked name).between "Enumeration <Typ>" "</Typ>" ["Typ".toList]
      (fun _ => rfl) fun _ => rfl
  next type =>
    obtain ⟨i, found, rfl⟩ := map_eq_ok.mp made
    have name := (sound.itemTypes i (mem_of_referencedItemType found).1).name
    rw [type]
    exact neutral_identifier name
  next noEnum noItem =>
    cases made
    exact neutral_docDescription _ _

/-- A default that is not shown as it is, is escaped or written in figures, or it stands for the
value of an enum. -/
theorem neutral_defaultRemark {p : Property} (legal : p.Legal)
    (escaped : p.default.bind unescaped? = none) {text : String}
    (made : defaultRemark d.toSchema places p = .ok text) : Neutral text := by
  unfold defaultRemark at made
  split at made
  next default given =>
    obtain ⟨shown, described, rfl⟩ := map_eq_ok.mp made
    unfold defaultDescription at described
    split at described
    next value =>
      obtain ⟨e, found, rfl⟩ := map_eq_ok.mp described
      have known := sound.enums e (mem_of_referencedEnum found).1
      exact (neutral_enumDefault marked known value).paragraph (by decide)
    next =>
      cases described
      rw [Property.Legal, given, Option.bind_some] at legal
      rw [given, Option.bind_some] at escaped
      cases free : default.freeText? with
      | none => exact (neutral_of_figures (figures_docText free)).paragraph (by decide)
      | some t =>
          rw [eq_xml_of_freeText free escaped]
          exact neutral_xmlDefault (legal t free)
  next absent =>
    cases made
    exact fun _ => rfl

theorem closes_defaultRemark {p : Property} (legal : p.Legal) {text : String}
    (made : defaultRemark d.toSchema places p = .ok text) :
    Closes (text :: cascadeRemarks p) (∀ shown ∈ p.default.bind unescaped?, Fits shown) := by
  have cascade := neutral_cascadeRemarks p
  cases given : p.default.bind unescaped? with
  | none =>
      have default := neutral_defaultRemark sound marked legal given made
      refine ((Tells.neutrals (List.forall_mem_cons.mpr ⟨default, cascade⟩)).congr ?_).closes
      exact iff_of_true trivial fun shown held => absurd held (Option.not_mem_none shown)
  | some shown =>
      have closes : Closes (("Default value: " ++ shown ++ "<p/>") :: cascadeRemarks p)
          (Fits shown) := closes_default cascade (quiet_cascadeRemarks p)
      rw [← defaultRemark_eq given made] at closes
      refine closes.trans ?_
      constructor
      · rintro fits _ ⟨⟩
        exact fits
      · exact fun all => all shown rfl

theorem wellFormed_propertyComment {p : Property} {owner : String} (named : IsIdentifier owner)
    (h : p.Sound owner) (legal : p.Legal)
    (documented : ∀ m ∈ p.documentation.texts, IsFragment m) {comment : DocComment}
    (made : propertyComment d.toSchema places p = .ok comment) :
    comment.WellFormed ↔
      ShownWell p.documentation ∧ ∀ shown ∈ p.default.bind unescaped?, Fits shown := by
  obtain ⟨description, described, rest⟩ := bind_eq_ok.mp made
  obtain ⟨default, defaulted, same⟩ := bind_eq_ok.mp rest
  cases same
  have summary : Neutral (propertySummary p.name p.owner) := by
    rw [h.owner_eq]
    exact (((neutral_of_isIdentifier h.member.name).around (a := "Name of the ") (by decide)
      (by decide)).append (neutral_of_isIdentifier named)).append (neutral_of_plain (by decide))
  have type : Neutral ("Type: " ++ description ++ "<p/>") :=
    (neutral_typeDescription sound marked described).paragraph (by decide)
  have nullable : Neutral (if p.nullable then "Can be null.<p/>" else "Cannot be null.<p/>") := by
    cases p.nullable <;> exact fun _ => rfl
  have front : Tells ["Type: " ++ description ++ "<p/>",
      if p.nullable then "Can be null.<p/>" else "Cannot be null.<p/>"] True :=
    .neutrals (List.forall_mem_cons.mpr ⟨type, List.forall_mem_singleton.mpr nullable⟩)
  have settled := (DocComment.Settled.ofSummary summary).withDocumentation documented
  have closes := front.closes_append (closes_defaultRemark sound marked legal defaulted)
  refine (settled.wellFormed_withRemarkLines closes).trans ?_
  rw [true_and, true_and, true_and, shownWell_iff, and_assoc]

/-- The comments of columns and parameters show the type behind the documentation. -/
theorem wellFormed_memberComment {m : Member} {summary description : String}
    (neutral : Neutral summary) (documented : ∀ t ∈ m.documentation.texts, IsFragment t)
    (described : typeDescription d.toSchema places m none = .ok description) :
    (((DocComment.ofSummary summary).withDocumentation m.documentation).withRemark
      ("Type: " ++ description)).WellFormed ↔ ShownWell m.documentation := by
  have type : Neutral ("Type: " ++ description) :=
    (neutral_of_plain (by decide)).append (neutral_typeDescription sound marked described)
  rw [(((DocComment.Settled.ofSummary neutral).withDocumentation documented).withRemark
    type).wellFormed_iff, true_and, true_and, shownWell_iff]

theorem wellFormed_columnComment {c : Column} {owner : String} (named : IsIdentifier owner)
    (h : c.Sound owner) (documented : ∀ t ∈ c.documentation.texts, IsFragment t)
    {comment : DocComment} (made : columnComment d.toSchema places c = .ok comment) :
    comment.WellFormed ↔ ShownWell c.documentation := by
  obtain ⟨description, described, rfl⟩ := map_eq_ok.mp made
  refine wellFormed_memberComment sound marked ?_ documented described
  rw [h.owner_eq]
  exact (((neutral_of_isIdentifier h.member.name).around (a := "Name of the ") (by decide)
    (by decide)).append (neutral_of_isIdentifier named)).append (neutral_of_plain (by decide))

theorem wellFormed_parameterComment {p : Parameter} {owner : Owner} (h : p.Sound owner)
    (named : IsIdentifier owner.name)
    (documented : ∀ t ∈ p.documentation.texts, IsFragment t) {comment : DocComment}
    (made : parameterComment d.toSchema places p = .ok comment) :
    comment.WellFormed ↔ ShownWell p.documentation := by
  obtain ⟨description, described, rfl⟩ := map_eq_ok.mp made
  refine wellFormed_memberComment sound marked ?_ documented described
  rw [h.owner_eq]
  exact (((neutral_of_isIdentifier h.member.name).around (a := "Name of the ") (by decide)
    (by decide)).append (neutral_ownerPhrase named)).append (neutral_of_plain (by decide))

end Members

/-! ## Elements -/

section Elements

variable {name : String} (named : IsIdentifier name)

include named

/-- A comment of one line that names an element. -/
theorem settled_naming {a b : String} (front : State.PlainText a.toList)
    (back : State.PlainText b.toList) :
    (DocComment.ofSummary (a ++ name ++ b)).Settled True True :=
  .ofSummary ((neutral_of_isIdentifier named).around front back)

theorem wellFormed_naming {a b : String} (front : State.PlainText a.toList)
    (back : State.PlainText b.toList) : (DocComment.ofSummary (a ++ name ++ b)).WellFormed :=
  (settled_naming named front back).wellFormed_iff.mpr ⟨trivial, trivial⟩

end Elements

theorem wellFormed_itemTypeComment {i : ItemType} (h : i.Sound)
    (documented : ∀ t ∈ i.documentation.texts, IsFragment t) :
    (itemTypeComment i).WellFormed ↔ ShownWell i.documentation := by
  have fields : ∀ n ∈ "Id" :: i.properties.map fun p => p.name, Neutral n := by
    refine List.forall_mem_cons.mpr ⟨neutral_of_plain (by decide), ?_⟩
    exact List.forall_mem_map.mpr fun p member =>
      neutral_of_isIdentifier (h.properties p member).member.name
  rw [itemTypeComment, ((((settled_naming h.name (by decide) (by decide)).withDocumentation
    documented).withRemark (neutral_of_plain (by decide))).withFieldList fields).wellFormed_iff,
    true_and, true_and, shownWell_iff]

theorem wellFormed_idComment {i : ItemType} (h : i.Sound) : (idComment i).WellFormed := by
  have type := (neutral_identifier h.name).paragraph (a := "Type: ") (by decide)
  rw [idComment]
  refine ((settled_naming h.name (by decide) (by decide)).withNeutralLines ?_).wellFormed_iff.mpr
    ⟨trivial, trivial⟩
  exact List.forall_mem_cons.mpr ⟨neutral_of_run (by decide +kernel), List.forall_mem_cons.mpr
    ⟨type, List.forall_mem_singleton.mpr (neutral_of_run (by decide +kernel))⟩⟩

theorem wellFormed_maxLengthComment {p : Property} (named : IsIdentifier p.name) :
    (maxLengthComment p).WellFormed := by
  have unit : Neutral (if p.valueType = .byteArray then "bytes" else "characters") := by
    split <;> exact neutral_of_plain (by decide)
  have line := (((neutral_of_isIdentifier named).around (a := "Maximum length of the ")
    (b := " property, in ") (by decide) (by decide)).append unit).append
      (neutral_of_plain (a := ".") (by decide))
  exact (DocComment.Settled.ofSummary line).wellFormed_iff.mpr ⟨trivial, trivial⟩

namespace DocComment.Settled

variable {c : DocComment} {P Q : Prop}

theorem withParameters (h : c.Settled P Q) {ps : List Parameter}
    (names : ∀ p ∈ ps, IsIdentifier p.name) : (c.withParameters ps).Settled P Q := by
  unfold DocComment.withParameters
  split
  next => exact h.withRemark (neutral_of_plain (by decide))
  next =>
    exact h.withFieldList (List.forall_mem_map.mpr fun p member =>
      neutral_of_isIdentifier (names p member))

end DocComment.Settled

theorem wellFormed_viewComment {v : View} (h : v.Sound)
    (documented : ∀ t ∈ v.documentation.texts, IsFragment t) :
    (viewComment v).WellFormed ↔ ShownWell v.documentation := by
  have fields : ∀ n ∈ v.columns.map fun c => c.name, Neutral n :=
    List.forall_mem_map.mpr fun c member =>
      neutral_of_isIdentifier (h.columns c member).member.name
  have settled := ((settled_naming (a := "Describes the ") (b := " view.") h.name (by decide)
    (by decide)).withDocumentation documented).withRemark
      (neutral_of_plain (a := "Columns returned by this view:") (by decide))
  rw [viewComment, (((settled.withFieldList fields).withRemark
    (neutral_of_plain (by decide))).withParameters fun p member =>
      (h.parameters p member).member.name).wellFormed_iff, true_and, true_and, shownWell_iff]

theorem wellFormed_rightComment {r : Right} (h : r.Sound)
    (documented : ∀ t ∈ r.documentation.texts, IsFragment t) :
    (rightComment r).WellFormed ↔ ShownWell r.documentation := by
  rw [rightComment, ((((settled_naming h.name (by decide) (by decide)).withDocumentation
    documented).withRemark (neutral_of_plain (by decide))).withParameters fun p member =>
      (h.parameters p member).member.name).wellFormed_iff, true_and, true_and, shownWell_iff]

/-! ## Enums and identifiers -/

theorem wellFormed_enumComment {e : EnumType} (h : e.Sound)
    (documented : ∀ t ∈ e.documentation.texts, IsFragment t) :
    (enumComment e).WellFormed ↔ ShownWell e.documentation := by
  obtain ⟨summarized, remarked⟩ := forall_mem_texts.mp documented
  have summary : Tells (enumComment e).summary
      (∀ m ∈ e.documentation.summary, IsFragment (Xml.shown m)) := by
    have told := tells_markup summarized
    unfold enumComment
    dsimp only
    split
    next empty =>
      rw [List.isEmpty_iff.mp empty] at told
      exact (Tells.neutral (neutral_of_isIdentifier h.name)).congr
        (iff_of_true trivial told.of_nil)
    next => exact told
  have remarks : Tells ((e.documentation.remarks.map trimmedLines).getD [])
      (∀ m ∈ e.documentation.remarks, IsFragment (Xml.shown m)) := by
    have told := tells_markup remarked
    cases given : e.documentation.remarks with
    | none =>
        rw [given] at told
        exact told
    | some m =>
        rw [given, Option.toList_some, List.flatMap_singleton] at told
        exact told
  have settled : (enumComment e).Settled _ _ := ⟨summary, remarks⟩
  rw [settled.wellFormed_iff, shownWell_iff]

theorem wellFormed_enumValueComment {v : EnumValue} (named : IsIdentifier v.name)
    (documented : ∀ m ∈ v.documentation, IsFragment m) :
    (enumValueComment v).WellFormed ↔ ∀ m ∈ v.documentation, IsFragment (Xml.shown m) := by
  have value : Neutral (v.name ++ " (" ++ integerText v.value ++ ")") :=
    (((neutral_of_isIdentifier named).append (neutral_of_plain (by decide))).append
      (neutral_of_figures (figures_integerText v.value))).append (neutral_of_plain (by decide))
  rw [enumValueComment, ((DocComment.Settled.ofSummary value).withSummary
    documented).wellFormed_iff, true_and, and_iff_left trivial]

theorem wellFormed_identifierComment {i : ItemType} (h : i.Sound) {scope : String}
    (marked : IsFragment scope) : (identifierComment i scope).WellFormed := by
  have name : State.PlainText ("." ++ i.name).toList := by
    rw [String.toList_append]
    exact List.forall_mem_append.mpr ⟨by decide, plainText_of_isIdentifier h.name⟩
  have place : Neutral (scope ++ ("." ++ i.name)) := by
    refine neutral_of_isFragment marked name ?_
    exact fun empty => absurd (String.append_eq_empty_iff.mp empty).1 (by decide)
  have line := place.between "Identifier of an item of type <Typ>/" "</Typ>." ["Typ".toList]
    (fun _ => rfl) fun _ => rfl
  rw [← String.append_assoc, ← String.append_assoc] at line
  exact (DocComment.Settled.ofSummary line).wellFormed_iff.mpr ⟨trivial, trivial⟩

theorem wellFormed_identifierOfKeyComment {i : ItemType} (h : i.Sound) :
    (identifierOfKeyComment i).WellFormed := by
  have name := neutral_of_isIdentifier h.name
  have line := ((name.around (a := "Create a ") (b := "Identifier from the key of a ") (by decide)
    (by decide)).append name).append (neutral_of_plain (a := " item.") (by decide))
  exact (DocComment.Settled.ofSummary line).wellFormed_iff.mpr ⟨trivial, trivial⟩

theorem wellFormed_identifierOfIdentifierComment {i : ItemType} (h : i.Sound) :
    (identifierOfIdentifierComment i).WellFormed := by
  have front : Neutral "<paramref name=\"id\"/> must refer to a " :=
    neutral_of_run (by decide +kernel)
  have remark := (front.append (neutral_of_isIdentifier h.name)).append
    (neutral_of_plain (a := " item.") (by decide))
  exact ((settled_naming h.name (by decide) (by decide)).withRemark remark).wellFormed_iff.mpr
    ⟨trivial, trivial⟩

/-! ## Files -/

/-- The documentation of item types, views and rights and of their members. -/
def memberDocumentation (s : Schema) : List String :=
  s.itemTypes.flatMap ItemType.texts ++ (s.views.flatMap View.texts ++ s.rights.flatMap Right.texts)

/-- The defaults that the comments of properties show as they are. -/
def unescapedDefaults (s : Schema) : List String :=
  s.itemTypes.flatMap fun i => i.properties.filterMap fun p => p.default.bind unescaped?

/-- Comments are well-formed if the documentation in them is with its lines trimmed, and if a
default that is shown as it is fits between the tags of the remarks. -/
def fitting : Criterion where
  documentation := ShownWell
  property p := ShownWell p.documentation ∧ ∀ t ∈ p.default.bind unescaped?, Fits t
  member m := ShownWell m.documentation
  enumType e := ∀ m ∈ e.texts, IsFragment (Xml.shown m)

theorem forall_mem_enumTexts {e : EnumType} {P : String → Prop} :
    (∀ m ∈ e.texts, P m) ↔ (∀ m ∈ e.documentation.texts, P m) ∧
      ∀ v ∈ e.values, ∀ m ∈ v.documentation, P m := by
  rw [EnumType.texts, List.forall_mem_append, List.forall_mem_flatMap]
  exact and_congr_right fun _ => forall₂_congr fun v _ => forall_congr' fun m =>
    imp_congr_left Option.mem_toList

theorem forall_mem_itemTypeTexts {i : ItemType} {P : String → Prop} :
    (∀ m ∈ i.texts, P m) ↔ (∀ m ∈ i.documentation.texts, P m) ∧
      ∀ p ∈ i.properties, ∀ m ∈ p.documentation.texts, P m := by
  rw [ItemType.texts, List.forall_mem_append, List.forall_mem_flatMap]

theorem forall_mem_viewTexts {v : View} {P : String → Prop} :
    (∀ m ∈ v.texts, P m) ↔ (∀ m ∈ v.documentation.texts, P m) ∧
      (∀ c ∈ v.columns, ∀ m ∈ c.documentation.texts, P m) ∧
        ∀ p ∈ v.parameters, ∀ m ∈ p.documentation.texts, P m := by
  rw [View.texts, List.forall_mem_append, List.forall_mem_append, List.forall_mem_flatMap,
    List.forall_mem_flatMap]

theorem forall_mem_rightTexts {r : Right} {P : String → Prop} :
    (∀ m ∈ r.texts, P m) ↔ (∀ m ∈ r.documentation.texts, P m) ∧
      ∀ p ∈ r.parameters, ∀ m ∈ p.documentation.texts, P m := by
  rw [Right.texts, List.forall_mem_append, List.forall_mem_flatMap]

theorem met_fitting {s : Schema} : fitting.Met s ↔
    (∀ m ∈ memberDocumentation s, IsFragment (Xml.shown m)) ∧
      ∀ t ∈ unescapedDefaults s, Fits t := by
  have defaults : (∀ t ∈ unescapedDefaults s, Fits t) ↔ ∀ i ∈ s.itemTypes, ∀ p ∈ i.properties,
      ∀ t ∈ p.default.bind unescaped?, Fits t := by
    rw [unescapedDefaults, List.forall_mem_flatMap]
    exact forall₂_congr fun i _ => List.forall_mem_filterMap
  rw [defaults, memberDocumentation, List.forall_mem_append, List.forall_mem_append,
    List.forall_mem_flatMap, List.forall_mem_flatMap, List.forall_mem_flatMap]
  simp only [forall_mem_itemTypeTexts, forall_mem_viewTexts, forall_mem_rightTexts]
  constructor
  · intro met
    refine ⟨⟨fun i member => ?_, met.views, met.rights⟩, fun i member p inside => ?_⟩
    · exact ⟨(met.itemTypes i member).1, fun p inside => ((met.itemTypes i member).2 p inside).1⟩
    · exact ((met.itemTypes i member).2 p inside).2
  · rintro ⟨⟨itemTypes, views, rights⟩, fits⟩
    refine ⟨fun i member => ⟨(itemTypes i member).1, fun p inside => ?_⟩, views, rights⟩
    exact ⟨(itemTypes i member).2 p inside, fits i member p inside⟩

theorem wellFormed_enumeration {e : EnumType} (h : e.Sound)
    (documented : ∀ m ∈ e.texts, IsFragment m) :
    (enumComment e).WellFormed ∧ (∀ v ∈ e.values, (enumValueComment v).WellFormed) ↔
      ∀ m ∈ e.texts, IsFragment (Xml.shown m) := by
  rw [forall_mem_enumTexts] at documented ⊢
  refine and_congr (wellFormed_enumComment h documented.1) (forall₂_congr fun v member => ?_)
  exact wellFormed_enumValueComment (h.values v member) (documented.2 v member)

theorem decides_fitting {d : Drafts} (sound : d.Sound) {places : EnumPlaces}
    (marked : Marked places) (legal : ∀ i ∈ d.itemTypes, i.Legal)
    (enums : ∀ m ∈ d.enums.flatMap EnumType.texts, IsFragment m)
    (members : ∀ m ∈ memberDocumentation d.toSchema, IsFragment m) :
    fitting.Decides DocComment.WellFormed d.toSchema places := by
  obtain ⟨ofItemTypes, others⟩ := List.forall_mem_append.mp members
  obtain ⟨ofViews, ofRights⟩ := List.forall_mem_append.mp others
  have itemTypes (i : ItemType) (member : i ∈ d.itemTypes) :=
    forall_mem_itemTypeTexts.mp (List.forall_mem_flatMap.mp ofItemTypes i member)
  have views (v : View) (member : v ∈ d.views) :=
    forall_mem_viewTexts.mp (List.forall_mem_flatMap.mp ofViews v member)
  have rights (r : Right) (member : r ∈ d.rights) :=
    forall_mem_rightTexts.mp (List.forall_mem_flatMap.mp ofRights r member)
  exact {
    itemType i member :=
      wellFormed_itemTypeComment (sound.itemTypes i member) (itemTypes i member).1
    itemTypeNames i member :=
      ⟨wellFormed_naming (sound.itemTypes i member).name (by decide) (by decide),
        wellFormed_idComment (sound.itemTypes i member)⟩
    constructors i member :=
      ⟨wellFormed_identifierOfKeyComment (sound.itemTypes i member),
        wellFormed_identifierOfIdentifierComment (sound.itemTypes i member)⟩
    itemTypeLengths i member :=
      wellFormed_naming (sound.itemTypes i member).name (by decide) (by decide)
    lengths := (DocComment.Settled.ofSummary (neutral_of_plain (by decide))).wellFormed_iff.mpr
      ⟨trivial, trivial⟩
    property i member p inside _ made :=
      wellFormed_propertyComment sound marked (sound.itemTypes i member).name
        ((sound.itemTypes i member).properties p inside) (legal i member p inside)
        ((itemTypes i member).2 p inside) made
    maxLength i member p inside :=
      wellFormed_maxLengthComment ((sound.itemTypes i member).properties p inside).member.name
    view v member := wellFormed_viewComment (sound.views v member) (views v member).1
    viewName v member := wellFormed_naming (sound.views v member).name (by decide) (by decide)
    column v member c inside _ made :=
      wellFormed_columnComment sound marked (sound.views v member).name
        ((sound.views v member).columns c inside) ((views v member).2.1 c inside) made
    viewParameter v member p inside _ made :=
      wellFormed_parameterComment sound marked ((sound.views v member).parameters p inside)
        (sound.views v member).name ((views v member).2.2 p inside) made
    right r member := wellFormed_rightComment (sound.rights r member) (rights r member).1
    rightName r member := wellFormed_naming (sound.rights r member).name (by decide) (by decide)
    rightParameter r member p inside _ made :=
      wellFormed_parameterComment sound marked ((sound.rights r member).parameters p inside)
        (sound.rights r member).name ((rights r member).2 p inside) made
    enumeration e member :=
      wellFormed_enumeration (sound.enums e member) (List.forall_mem_flatMap.mp enums e member) }

/-- The comments of a file hold documentation and defaults. -/
structure Fitted (blocks : List NamespaceBlock) (documentation defaults : List String) : Prop where
  /-- The comments are written with all their lines. -/
  written : ∀ c ∈ commentsIn blocks, ∃ level before after,
    fileText blocks = before ++ renderLines (indentedBy level c.lines) ++ after
  /-- All of them are well-formed exactly if the documentation is a fragment as it is shown, and
  the defaults fit between the tags of the remarks. -/
  wellFormed_iff : (∀ c ∈ commentsIn blocks, c.WellFormed) ↔
    (∀ m ∈ documentation, IsFragment (Xml.shown m)) ∧ ∀ t ∈ defaults, Fits t
  /-- Without Ogham space marks in the documentation it depends on the defaults alone. -/
  wellFormed_iff_fits (plain : ∀ m ∈ documentation, '\u1680' ∉ m.toList) :
    (∀ c ∈ commentsIn blocks, c.WellFormed) ↔ ∀ t ∈ defaults, Fits t

theorem fitted_of_iff {blocks : List NamespaceBlock} {documentation defaults : List String}
    (documented : ∀ m ∈ documentation, IsFragment m)
    (same : (∀ c ∈ commentsIn blocks, c.WellFormed) ↔
      (∀ m ∈ documentation, IsFragment (Xml.shown m)) ∧ ∀ t ∈ defaults, Fits t) :
    Fitted blocks documentation defaults :=
  ⟨fun _ => written_of_mem_commentsIn, same, fun plain =>
    same.trans (and_iff_right fun m held => (documented m held).shown (plain m held))⟩

/-- A default that does not fit leaves a comment that is not well-formed. -/
theorem Fitted.exists_not_wellFormed {blocks : List NamespaceBlock}
    {documentation defaults : List String} (h : Fitted blocks documentation defaults) {t : String}
    (member : t ∈ defaults) (unfit : ¬ Fits t) : ∃ c ∈ commentsIn blocks, ¬ c.WellFormed := by
  by_contra none_left
  push Not at none_left
  exact unfit ((h.wellFormed_iff.mp none_left).2 t member)

section Finished

variable {s : Schema} (finished : s.Finished)
  (enums : ∀ m ∈ s.enums.flatMap EnumType.texts, IsFragment m)
  (members : ∀ m ∈ memberDocumentation s, IsFragment m) {names : HelperNamespaces}
  (components : IsFragment names.components)

include finished enums members components

theorem fitted_componentsHelper :
    Fitted (componentsHelper s names) (s.enums.flatMap EnumType.texts) [] := by
  have legal := finished.legal
  obtain ⟨d, sound, -, rfl⟩ := finished.drafts
  have marked : Marked (Setting.ofBase d.toSchema names).enums := ⟨components, components⟩
  refine fitted_of_iff enums ?_
  rw [forall_componentsHelper (decides_fitting sound marked legal enums members),
    List.forall_mem_flatMap]
  exact (and_iff_left (List.forall_mem_nil _)).symm

theorem fitted_storageHelper (baseSchema : IsFragment names.baseSchema)
    {storage : List NamespaceBlock} (made : storageHelper s names = .ok storage) :
    Fitted storage (memberDocumentation s) (unescapedDefaults s) := by
  have legal := finished.legal
  obtain ⟨d, sound, -, rfl⟩ := finished.drafts
  have marked : Marked (Setting.ofBase d.toSchema names).enums := ⟨components, components⟩
  have identifiers : ∀ i ∈ d.toSchema.itemTypes,
      (identifierComment i names.baseSchema).WellFormed :=
    fun i member => wellFormed_identifierComment (sound.itemTypes i member) baseSchema
  refine fitted_of_iff members ?_
  rw [forall_storageHelper (decides_fitting sound marked legal enums members) made,
    and_iff_left identifiers, met_fitting]

theorem fitted_derivedHelper {enumNamespace schemaNamespace : String}
    (enumScope : IsFragment enumNamespace) (schemaScope : IsFragment schemaNamespace)
    {derived : List NamespaceBlock}
    (made : derivedHelper s names enumNamespace schemaNamespace = .ok derived) :
    Fitted derived (memberDocumentation s ++
      (s.enums.filter fun e => !e.inBase).flatMap EnumType.texts) (unescapedDefaults s) := by
  have legal := finished.legal
  obtain ⟨d, sound, -, rfl⟩ := finished.drafts
  have marked : Marked (Setting.ofDerived d.toSchema names enumNamespace).enums :=
    ⟨components, enumScope⟩
  have identifiers : ∀ i ∈ d.toSchema.itemTypes.filter fun i => !i.inBase,
      (identifierComment i schemaNamespace).WellFormed :=
    fun i kept => wellFormed_identifierComment
      (sound.itemTypes i (List.mem_filter.mp kept).1) schemaScope
  have own : ∀ m ∈ (d.toSchema.enums.filter fun e => !e.inBase).flatMap EnumType.texts,
      IsFragment m :=
    List.forall_mem_flatMap.mpr fun e kept =>
      List.forall_mem_flatMap.mp enums e (List.mem_filter.mp kept).1
  refine fitted_of_iff (List.forall_mem_append.mpr ⟨members, own⟩) ?_
  rw [forall_derivedHelper (decides_fitting sound marked legal enums members) made,
    and_iff_left identifiers, met_fitting, List.forall_mem_append, List.forall_mem_flatMap,
    and_right_comm]
  exact Iff.rfl

end Finished

/-- The helper files of a finished schema are made.  Where all documentation is made of
fragments, and so are the namespaces, the comments in them are well-formed exactly if the
documentation still is with its lines trimmed and the defaults that are shown as they are fit
between tags. -/
theorem fitted_of_finished {s : Schema} (finished : s.Finished)
    (enums : ∀ m ∈ s.enums.flatMap EnumType.texts, IsFragment m)
    (members : ∀ m ∈ memberDocumentation s, IsFragment m) (names : HelperNamespaces)
    (enumNamespace schemaNamespace : String) (components : IsFragment names.components)
    (baseSchema : IsFragment names.baseSchema) (enumScope : IsFragment enumNamespace)
    (schemaScope : IsFragment schemaNamespace) :
    ∃ storage derived, storageHelper s names = .ok storage ∧
      derivedHelper s names enumNamespace schemaNamespace = .ok derived ∧
        Fitted (componentsHelper s names) (s.enums.flatMap EnumType.texts) [] ∧
        Fitted storage (memberDocumentation s) (unescapedDefaults s) ∧
        Fitted derived (memberDocumentation s ++
          (s.enums.filter fun e => !e.inBase).flatMap EnumType.texts) (unescapedDefaults s) := by
  obtain ⟨storage, derived, made, madeDerived⟩ :=
    exists_helpers finished names enumNamespace schemaNamespace
  exact ⟨storage, derived, made, madeDerived,
    fitted_componentsHelper finished enums members components,
    fitted_storageHelper finished enums members components baseSchema made,
    fitted_derivedHelper finished enums members components enumScope schemaScope madeDerived⟩

namespace Sample

/-- A file with defaults that hold markup characters: a text that is shown as it is, and markup
that is escaped. -/
def comparingFile : List Char :=
  (Schema.Sample.opening ++
    ["<ItemType Name=\"Pet\">", "<Properties>", "<Property Name=\"Name\" ",
      "Type=\"String\">", "<Documentation><Summary>The <b>name</b>.</Summary></Documentation>",
      "<Default>a &lt; b</Default>", "</Property>", "<Property Name=\"Notes\" ",
      "Type=\"Xml\">", "<Default>&lt;p/&gt;</Default>", "</Property>", "</Properties>",
      "</ItemType>", "</StoreSchema>"]).flatMap String.toList

def comparedProperty : Property :=
  { nameProperty with
    documentation := ⟨some "The <b>name</b>.", none⟩
    default := some (.literal (.string "a < b")) }

def notesProperty : Property :=
  { nameProperty with
    name := "Notes", valueType := .xml, default := some (.literal (.xml "<p/>")) }

def comparingSchema : Schema :=
  ⟨[], [⟨"Pet", [comparedProperty, notesProperty], [], [], [], [], [], [], {}, false⟩], [], [], [],
    []⟩

theorem comparingSchema_finished : comparingSchema.Finished :=
  finished_of_schemaOf? comparingFile "comparing.xml" false
    (schemaOf?_of_spelledOut (by repeat constructor) (by decide +kernel))

end Sample

theorem fitted_sample : Sample.comparingSchema.Finished ∧ ∃ storage derived,
    storageHelper Sample.comparingSchema {} = .ok storage ∧
      derivedHelper Sample.comparingSchema {} "Pets" "Pets.Schema" = .ok derived ∧
        Fitted (componentsHelper Sample.comparingSchema {}) [] [] ∧
        Fitted storage ["The <b>name</b>."] ["\"a < b\""] ∧
        Fitted derived ["The <b>name</b>."] ["\"a < b\""] :=
  ⟨Sample.comparingSchema_finished,
    fitted_of_finished Sample.comparingSchema_finished (by decide) (by decide) {} "Pets"
      "Pets.Schema" (by decide) (by decide) (by decide) (by decide)⟩

/-- A comparison in a default is taken for the start of a tag. -/
theorem unfit_sample : Sample.comparingSchema.Finished ∧
    (∀ m ∈ memberDocumentation Sample.comparingSchema, IsFragment m ∧ IsFragment (Xml.shown m)) ∧
      ∃ storage derived, storageHelper Sample.comparingSchema {} = .ok storage ∧
        derivedHelper Sample.comparingSchema {} "Pets" "Pets.Schema" = .ok derived ∧
          ∀ file ∈ [storage, derived], ∃ c ∈ commentsIn file, ¬ c.WellFormed := by
  have finished := Sample.comparingSchema_finished
  obtain ⟨storage, derived, made, madeDerived⟩ :=
    exists_helpers finished {} "Pets" "Pets.Schema"
  have default : "\"a < b\"" ∈ unescapedDefaults Sample.comparingSchema := by decide
  have unfit : ¬ Fits "\"a < b\"" := by decide
  have members : ∀ m ∈ memberDocumentation Sample.comparingSchema,
      IsFragment m ∧ IsFragment (Xml.shown m) := by decide
  refine ⟨finished, members, storage, derived, made, madeDerived, ?_⟩
  have inStorage := fitted_storageHelper finished (by decide) (fun m held => (members m held).1)
    (by decide) (by decide) made
  have inDerived := fitted_derivedHelper finished (by decide) (fun m held => (members m held).1)
    (by decide) (by decide) (by decide) madeDerived
  rw [List.forall_mem_cons, List.forall_mem_singleton]
  exact ⟨inStorage.exists_not_wellFormed default unfit,
    inDerived.exists_not_wellFormed default unfit⟩

end LearningStore.Helper
