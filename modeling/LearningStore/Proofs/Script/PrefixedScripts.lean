import LearningStore.Proofs.Script.CommandLength
import LearningStore.Proofs.Script.EnumRows
import LearningStore.Proofs.Script.FilledScripts
import LearningStore.Proofs.Text.PrefixedLiterals
import LearningStore.Proofs.Value.Figures

/-!
# Literals without a prefix

What scripts make up themselves, and do not take over from a schema as it is, is plain ASCII but
for the defaults that are texts.  These are quoted without the prefix of Unicode literals, so a
character outside of ASCII in such a default is at the mercy of the code page of the database, and
nothing else that is made is.
-/

namespace LearningStore.Value

open LearningStore.Text

/-- The text that a default quotes. -/
def DefaultValue.quoted? : DefaultValue → Option String
  | .literal (.string value) => some value
  | .literal (.xml value) => some (String.ofList (Literal.onOneLine value.toList))
  | _ => none

theorem sqlConstant_of_quoted? {d : DefaultValue} {t : String} (quoted : d.quoted? = some t) :
    d.sqlConstant = sqlString t := by
  unfold DefaultValue.quoted? at quoted
  split at quoted
  next => exact congrArg sqlString (Option.some.inj quoted)
  next => exact congrArg sqlString (Option.some.inj quoted)
  next => cases quoted

/-- Line ends make no difference. -/
theorem ascii_onOneLine {s : List Char} : Ascii (Literal.onOneLine s) ↔ Ascii s := by
  fun_induction Literal.onOneLine s with
  | case1 => exact Iff.rfl
  | case2 rest ih =>
      have marks : ' '.toNat < 128 ∧ '\r'.toNat < 128 ∧ '\n'.toNat < 128 := by decide
      simp only [ascii_cons, ih, marks, true_and]
  | case3 c rest other ih =>
      rw [ascii_cons, ascii_cons, ih]
      split
      next lineEnd =>
        have small : c.toNat < 128 := by
          rcases lineEnd with rfl | rfl <;> decide
        simp only [small, true_and]
        exact and_iff_right (by decide)
      next => exact Iff.rfl

theorem Figures.ascii {s : List Char} (figures : Figures s) : Ascii s :=
  fun c inside => Nat.lt_of_le_of_lt (toNat_of_isFigure (figures c inside)).2 (by decide)

/-- A default that is neither a text nor an expression is written in ASCII. -/
theorem ascii_sqlConstant {d : DefaultValue} (noText : d.quoted? = none)
    (noCall : ∀ e, d ≠ .function e) : Ascii d.sqlConstant.toList := by
  cases d with
  | null => decide
  | function e => exact absurd rfl (noCall e)
  | literal l =>
      cases l with
      | boolean value => cases value <;> decide
      | byteArray bytes =>
          rw [DefaultValue.sqlConstant, Literal.sqlConstant, String.toList_ofList]
          refine Figures.ascii (figures_cons.mpr ⟨by decide, figures_cons.mpr ⟨by decide, ?_⟩⟩)
          exact List.forall_mem_flatMap.mpr fun byte _ => figures_hexPair byte
      | dateTime value =>
          have figures : Figures value.toMillisecond :=
            figures_append.mpr ⟨figures_toSecond value, figures_cons.mpr
              ⟨by decide, figures_paddedDigits _ _⟩⟩
          simp only [DefaultValue.sqlConstant, Literal.sqlConstant, String.toList_append,
            String.toList_ofList, ascii_append]
          exact ⟨⟨by decide, figures.ascii⟩, by decide⟩
      | double value => exact (figures_text .double value).ascii
      | single value => exact (figures_text .single value).ascii
      | int32 value => exact (figures_integerText value).ascii
      | enumeration value => exact (figures_integerText value).ascii
      | guid value =>
          simp only [DefaultValue.sqlConstant, Literal.sqlConstant, String.toList_append,
            ascii_append]
          exact ⟨⟨by decide, (figures_hyphenated value).ascii⟩, by decide⟩
      | string value => cases noText
      | xml value => cases noText

end LearningStore.Value

namespace LearningStore.Schema

/-- The texts that defaults of an item type quote. -/
def ItemType.quotedDefaults (i : ItemType) : List String :=
  i.properties.filterMap fun p => p.default.bind Value.DefaultValue.quoted?

/-- The texts that defaults of a schema quote. -/
def quotedDefaults (s : Schema) : List String :=
  s.itemTypes.flatMap ItemType.quotedDefaults

/-- Those of item types with expressions that grant additions. -/
def guardedQuotedDefaults (s : Schema) : List String :=
  s.itemTypes.flatMap fun i => if i.addExpressions.isEmpty then [] else i.quotedDefaults

end LearningStore.Schema

namespace LearningStore.Script

open LearningStore.Schema
open LearningStore.Text
open LearningStore.Value
open LearningStore.Xml

variable {s : Schema}

/-! ## Texts of ASCII -/

section Texts

variable {text : String}

theorem ascii_iff : Over isAscii text ↔ Ascii text.toList :=
  forall₂_congr fun _ _ => decide_eq_true_iff

theorem ascii_of_words (words : Over isWordChar text) : Over isAscii text :=
  words.mono fun _ each => decide_eq_true
    (Nat.lt_of_le_of_lt (range_of_isWordChar each).2 (by decide))

theorem ascii_of_isIdentifier (name : IsIdentifier text) : Over isAscii text :=
  ascii_of_words (over_identifier name)

theorem ascii_of_tag (tag : Over isDocumentChar text) : Over isAscii text :=
  tag.mono fun _ each => decide_eq_true (toNat_lt_of_isDocumentChar each)

theorem ascii_integerText (n : Int) : Over isAscii (integerText n) :=
  ascii_of_words (over_integerText n)

theorem ascii_around {front back : String} (before : Over isAscii front) (plain : Over isAscii text)
    (behind : Over isAscii back) : Over isAscii (front ++ text ++ back) :=
  (before.append plain).append behind

theorem ascii_bracketed (name : Over isAscii text) : Over isAscii (bracketed text) :=
  ascii_around (.ofList (by decide)) name (.ofList (by decide))

theorem ascii_sqlString (plain : Over isAscii text) : Over isAscii (sqlString text) := by
  have doubled {t : List Char} (ascii : Ascii t) : Ascii (doubleApostrophes t) := by
    induction t with
    | nil => exact ascii
    | cons c t ih =>
        obtain ⟨here, later⟩ := ascii_cons.mp ascii
        rw [doubleApostrophes]
        split
        next => exact ascii_cons.mpr ⟨by decide, ascii_cons.mpr ⟨by decide, ih later⟩⟩
        next => exact ascii_cons.mpr ⟨here, ih later⟩
  rw [ascii_iff, sqlString, String.toList_ofList]
  exact ascii_append.mpr ⟨ascii_cons.mpr ⟨by decide, doubled (ascii_iff.mp plain)⟩, by decide⟩

theorem ascii_sqlType (t : ValueType) (length : Option Int) : Over isAscii (t.sqlType length) := by
  have word : Over isAscii (SqlType.word t.descriptor.sqlType) := by
    cases t <;> decide
  unfold ValueType.sqlType
  split
  next name fixed =>
    rw [fixed] at word
    exact word
  next name limit sized =>
    rw [sized] at word
    have unlimited : Over isAscii (name ++ "(max)") := word.append (.ofList (by decide))
    split
    next n =>
      split
      next =>
        exact ascii_around (word.append (.ofList (by decide))) (ascii_integerText n)
          (.ofList (by decide))
      next => exact unlimited
    next => exact unlimited

end Texts

/-! ## What statements make -/

/-- The texts of a record that are quoted. -/
def Record.quotedTags (r : Record) : List String :=
  r.markup.start :: r.members.map Markup.empty ++ [r.markup.stop]

namespace Statement

/-- The names and other texts that a statement is made from, but for fragments and defaults. -/
def words : Statement → List String
  | comment text => [text]
  | raiseIf condition message => [condition, message]
  | turnOn setting => [setting]
  | setDocument rs => rs.flatMap Record.quotedTags
  | grant _ object => [object]
  | createEnumTable name => [name]
  | identityInsert table _ => [table]
  | insertRow table _ name => [table, name]
  | createTable name columns => name :: columns.flatMap fun c => [c.name, c.type]
  | addForeignKey k => [k.table, k.column, k.target]
  | createFunction f => f.name :: f.parameters.flatMap (fun p => [p.name, p.type]) ++
      match f.body with
      | .everyRow columns table => table :: columns
      | _ => []
  | deleteAttribute name => [name]
  | deleteRecords element => [element]
  | insertAttribute itemType name value => [itemType, name, value]
  | insertRecord r => r.quotedTags
  | _ => []

end Statement

/-! ## Pieces -/

/-- What stands in front of a default, of a column or of a parameter. -/
def defaultLeads : List String := [" DEFAULT ", "="]

/-- Every piece that is made is ASCII or puts one of some texts as a default. -/
def AsciiBut (texts : List String) (ps : List Piece) : Prop :=
  ∀ text, .made text ∈ ps → Over isAscii text ∨
    ∃ t ∈ texts, ∃ lead ∈ defaultLeads, text = lead ++ sqlString t

section Pieces

variable {texts : List String} {a b : List Piece} {text : String}

theorem AsciiBut.append (first : AsciiBut texts a) (second : AsciiBut texts b) :
    AsciiBut texts (a ++ b) :=
  fun text inside => (List.mem_append.mp inside).elim (first text) (second text)

theorem AsciiBut.flatMap {α : Type} {xs : List α} {f : α → List Piece}
    (each : ∀ x ∈ xs, AsciiBut texts (f x)) : AsciiBut texts (xs.flatMap f) := by
  intro text inside
  obtain ⟨x, member, found⟩ := List.mem_flatMap.mp inside
  exact each x member text found

theorem asciiBut_nil : AsciiBut texts [] :=
  nofun

theorem AsciiBut.made (ascii : Over isAscii text) (others : AsciiBut texts a) :
    AsciiBut texts (.made text :: a) := by
  intro other inside
  rcases List.mem_cons.mp inside with here | later
  · cases here
    exact .inl ascii
  · exact others other later

theorem AsciiBut.fragment (t : String) (others : AsciiBut texts a) :
    AsciiBut texts (.fragment t :: a) := by
  intro other inside
  rcases List.mem_cons.mp inside with here | later
  · cases here
  · exact others other later

/-- A default that is not fixed by its type alone is a fragment or one of the texts. -/
theorem asciiBut_default {lead : String} (known : lead ∈ defaultLeads)
    {default : Option DefaultValue}
    (quoted : ∀ d ∈ default, ∀ t, d.quoted? = some t → t ∈ texts) :
    AsciiBut texts (default.toList.flatMap (defaultPieces lead)) := by
  have front : Over isAscii lead := (by decide : ∀ l ∈ defaultLeads, Over isAscii l) lead known
  refine .flatMap fun d inside => ?_
  have given := Option.mem_toList.mp inside
  have constant (noCall : ∀ e, d ≠ .function e) :
      AsciiBut texts [.made (lead ++ d.sqlConstant)] := by
    cases shown : d.quoted? with
    | none =>
        exact .made (front.append (ascii_iff.mpr (ascii_sqlConstant shown noCall))) asciiBut_nil
    | some t =>
        intro text member
        cases List.mem_singleton.mp member
        exact .inr ⟨t, quoted d given t shown, lead, known, by rw [sqlConstant_of_quoted? shown]⟩
  cases d with
  | function expression => exact .made front (.fragment expression asciiBut_nil)
  | null => exact constant fun _ => nofun
  | literal l => exact constant fun _ => nofun

theorem asciiBut_column {c : TableColumn} (name : Over isAscii c.name) (type : Over isAscii c.type)
    (quoted : ∀ d ∈ c.default, ∀ t, d.quoted? = some t → t ∈ texts) :
    AsciiBut texts c.pieces := by
  refine .append (.append (.append (.append (.append ?_ ?_) ?_) ?_) ?_) (.flatMap fun t _ => ?_)
  · exact .made (((ascii_bracketed name).append (.ofList (by decide))).append type) asciiBut_nil
  · split
    next => exact .made (.ofList (by decide)) asciiBut_nil
    next => exact asciiBut_nil
  · split
    next => exact asciiBut_nil
    next => exact .made (.ofList (by decide)) asciiBut_nil
  · exact asciiBut_default (by decide) quoted
  · cases c.checkedLength with
    | none => exact asciiBut_nil
    | some n =>
        have front : Over isAscii (" CHECK(LEN(" ++ bracketed c.name) :=
          .append (by decide) (ascii_bracketed name)
        exact .made (ascii_around (front.append (by decide)) (ascii_integerText n) (by decide))
          asciiBut_nil
  · exact .made (.ofList (by decide)) (.fragment _ asciiBut_nil)

theorem asciiBut_parameter {p : FunctionParameter} (name : Over isAscii p.name)
    (type : Over isAscii p.type)
    (quoted : ∀ d ∈ p.default, ∀ t, d.quoted? = some t → t ∈ texts) :
    AsciiBut texts p.pieces := by
  have front : Over isAscii (",@" ++ p.name) := .append (.ofList (by decide)) name
  exact .made ((front.append (by decide)).append type) (asciiBut_default (by decide) quoted)

theorem asciiBut_unionPieces (expressions : List String) :
    AsciiBut texts (FunctionBody.unionPieces expressions) := by
  have enclosed (e : String) : AsciiBut texts (FunctionBody.enclosed e) :=
    .made (.ofList (by decide)) (.fragment e (.made (.ofList (by decide)) asciiBut_nil))
  cases expressions with
  | nil => exact .made (.ofList (by decide)) asciiBut_nil
  | cons first rest =>
      refine .made (.ofList (by decide)) ((enclosed first).append (.flatMap fun e _ => ?_))
      exact .made (.ofList (by decide)) (enclosed e)

end Pieces

/-! ## Segments -/

/-- Every piece of some segments is ASCII or puts one of some texts as a default. -/
def AsciiSegments (texts : List String) (segs : List Segment) : Prop :=
  ∀ seg ∈ segs, AsciiBut texts seg.pieces

section Segments

variable {texts : List String}

theorem asciiSegments_ofLine {ls : List Line} (ascii : ∀ l ∈ ls, Over isAscii l.text) :
    AsciiSegments texts (ls.map Segment.ofLine) :=
  List.forall_mem_map.mpr fun l inside => .made (ascii l inside) asciiBut_nil

theorem ascii_indented {ls : List Line} (ascii : ∀ l ∈ ls, Over isAscii l.text) :
    ∀ l ∈ indented ls, Over isAscii l.text :=
  List.forall_mem_map.mpr ascii

theorem asciiSegments_commaSegments {pss : List (List Piece)}
    (each : ∀ ps ∈ pss, AsciiBut texts ps) : AsciiSegments texts (commaSegments pss) := by
  fun_induction commaSegments pss with
  | case1 => exact List.forall_mem_nil _
  | case2 last => exact List.forall_mem_singleton.mpr (each last List.mem_cons_self)
  | case3 ps rest more ih =>
      obtain ⟨here, later⟩ := List.forall_mem_cons.mp each
      exact List.forall_mem_cons.mpr
        ⟨here.append (.made (.ofList (by decide)) asciiBut_nil), ih later⟩

theorem ascii_record {r : Record} (tags : ∀ t ∈ r.quotedTags, Over isAscii t) :
    ∀ l ∈ r.lines, Over isAscii l.text := by
  have plus {tag : String} (ascii : Over isAscii tag) : Over isAscii (sqlString tag ++ " +") :=
    (ascii_sqlString ascii).append (.ofList (by decide))
  rw [Record.quotedTags, List.cons_append, List.forall_mem_cons, List.forall_mem_append] at tags
  obtain ⟨start, members, stop⟩ := tags
  refine List.forall_mem_append.mpr ⟨List.forall_mem_cons.mpr ⟨plus start, ?_⟩, ?_⟩
  · exact ascii_indented (List.forall_mem_map.mpr fun m inside =>
      plus (members _ (List.mem_map_of_mem inside)))
  · exact List.forall_mem_singleton.mpr
      (ascii_sqlString (stop r.markup.stop (List.mem_singleton.mpr rfl)))

theorem ascii_line_cons {text : String} {ls : List Line} (here : Over isAscii text)
    (others : ∀ l ∈ ls, Over isAscii l.text) : ∀ l ∈ line text :: ls, Over isAscii l.text :=
  List.forall_mem_cons.mpr ⟨here, others⟩

theorem ascii_documentLines {rs : List Record}
    (tags : ∀ t ∈ rs.flatMap Record.quotedTags, Over isAscii t) :
    ∀ l ∈ documentLines rs, Over isAscii l.text := by
  refine List.forall_mem_append.mpr ⟨List.forall_mem_append.mpr ⟨?_, ?_⟩, ?_⟩
  · have empty := ascii_sqlString (.ofList (by decide) : Over isAscii "<StoreSchema>")
    exact ascii_line_cons (.ofList (by decide))
      (ascii_line_cons (.append (.ofList (by decide)) empty) (List.forall_mem_nil _))
  · refine List.forall_mem_flatMap.mpr fun r inside => ?_
    have record := ascii_record (List.forall_mem_flatMap.mp tags r inside)
    exact ascii_line_cons (.ofList (by decide)) (ascii_indented record)
  · have closed := ascii_sqlString (.ofList (by decide) : Over isAscii "</StoreSchema>")
    exact ascii_line_cons (.append (.ofList (by decide)) closed) (List.forall_mem_nil _)

theorem ascii_recordedQuery {entry : String × String} (key : Over isAscii entry.1)
    (element : Over isAscii entry.2) : ∀ l ∈ recordedQuery entry, Over isAscii l.text := by
  refine ascii_line_cons (ascii_around (.ofList (by decide)) key (.ofList (by decide))) ?_
  refine ascii_line_cons (.ofList (by decide)) ?_
  refine ascii_line_cons (ascii_around (.ofList (by decide)) element (.ofList (by decide))) ?_
  exact List.forall_mem_singleton.mpr
    (ascii_around (.ofList (by decide)) key (.ofList (by decide)))

theorem ascii_dropLines : ∀ l ∈ dropLines, Over isAscii l.text := by
  have plain : ∀ entry ∈ recordedFunctions, Over isAscii entry.1 ∧ Over isAscii entry.2 := by
    repeat refine List.forall_mem_cons.mpr ⟨⟨.ofList (by decide), .ofList (by decide)⟩, ?_⟩
    exact List.forall_mem_nil _
  refine List.forall_mem_append.mpr ⟨List.forall_mem_append.mpr ⟨List.forall_mem_append.mpr
    ⟨List.forall_mem_append.mpr ⟨?_, fun l inside => ?_⟩, ?_⟩, ascii_indented ?_⟩, ?_⟩
  · repeat refine ascii_line_cons (.ofList (by decide)) ?_
    exact List.forall_mem_nil _
  rcases mem_or_mem_of_mem_intercalate inside with between | ⟨part, member, found⟩
  · exact ascii_line_cons (.ofList (by decide)) (List.forall_mem_nil _) l between
  · obtain ⟨entry, known, rfl⟩ := List.mem_map.mp member
    exact ascii_recordedQuery (plain entry known).1 (plain entry known).2 l found
  all_goals
    repeat refine ascii_line_cons (.ofList (by decide)) ?_
    exact List.forall_mem_nil _

theorem asciiSegments_body {body : FunctionBody}
    (words : ∀ columns table, body = .everyRow columns table →
      Over isAscii table ∧ ∀ c ∈ columns, Over isAscii c) :
    AsciiSegments texts body.segments := by
  have around (front back : List Line) (seg : Segment)
      (before : ∀ l ∈ front, Over isAscii l.text) (inside : AsciiBut texts seg.pieces)
      (behind : ∀ l ∈ back, Over isAscii l.text) :
      AsciiSegments texts (front.map Segment.ofLine ++ seg :: back.map Segment.ofLine) :=
    List.forall_mem_append.mpr ⟨asciiSegments_ofLine before,
      List.forall_mem_cons.mpr ⟨inside, asciiSegments_ofLine behind⟩⟩
  cases body with
  | granted expressions =>
      exact around [line "RETURNS bit", line "AS", line "BEGIN"] [line "END"] _ (by decide)
        (asciiBut_unionPieces expressions) (by decide)
  | query text =>
      exact around [line "RETURNS TABLE", line "AS", line "RETURN ("] [line ")"] _ (by decide)
        (.fragment text asciiBut_nil) (by decide)
  | everyRow columns table =>
      obtain ⟨tableWord, columnWords⟩ := words columns table rfl
      have columnsText : Over isAscii (String.join (columns.map fun c => ", " ++ bracketed c)) :=
        .join (List.forall_mem_map.mpr fun c inside =>
          .append (by decide) (ascii_bracketed (columnWords c inside)))
      refine asciiSegments_ofLine (List.forall_mem_append.mpr ⟨List.forall_mem_append.mpr
        ⟨by decide, ascii_indented ?_⟩, by decide⟩)
      exact List.forall_mem_cons.mpr ⟨.append (.ofList (by decide)) columnsText,
        List.forall_mem_singleton.mpr (.append (.ofList (by decide)) (ascii_bracketed tableWord))⟩

namespace Statement

theorem ascii_raiseIf {condition message : String} (guard : Over isAscii condition)
    (text : Over isAscii message) : ∀ l ∈ (raiseIf condition message).lines, Over isAscii l.text :=
  List.forall_mem_append.mpr ⟨List.forall_mem_append.mpr
    ⟨List.forall_mem_cons.mpr ⟨.append (.ofList (by decide)) guard, by decide⟩,
      ascii_indented (List.forall_mem_cons.mpr
        ⟨ascii_around (.ofList (by decide)) (ascii_sqlString text) (.ofList (by decide)),
          by decide⟩)⟩, by decide⟩

theorem ascii_grant {permission : Permission} {object : String} (name : Over isAscii object) :
    ∀ l ∈ (grant permission object).lines, Over isAscii l.text := by
  have granted : Over isAscii ("GRANT " ++ permission.text ++ " ON ") := by
    cases permission <;> exact .append (.append (.ofList (by decide)) (.ofList (by decide)))
      (.ofList (by decide))
  exact List.forall_mem_singleton.mpr
    ((ascii_around granted (ascii_bracketed name) (.ofList (by decide))).append
      (.ofList (by decide)))

theorem ascii_identityInsert {table : String} {on : Bool} (name : Over isAscii table) :
    ∀ l ∈ (identityInsert table on).lines, Over isAscii l.text := by
  have switch : Over isAscii (if on then " ON" else " OFF") := by
    cases on <;> exact .ofList (by decide)
  exact List.forall_mem_singleton.mpr
    (ascii_around (.ofList (by decide)) (ascii_bracketed name) switch)

theorem ascii_insertRow {table name : String} {id : Int} (target : Over isAscii table)
    (value : Over isAscii name) : ∀ l ∈ (insertRow table id name).lines, Over isAscii l.text := by
  have into : Over isAscii ("INSERT INTO " ++ bracketed table ++ "(") :=
    ascii_around (.ofList (by decide)) (ascii_bracketed target) (.ofList (by decide))
  have number : Over isAscii (integerText id ++ ",") :=
    (ascii_integerText id).append (.ofList (by decide))
  have values : ∀ l ∈ [line (integerText id ++ ","), line (sqlString name)], Over isAscii l.text :=
    List.forall_mem_cons.mpr ⟨number, List.forall_mem_singleton.mpr (ascii_sqlString value)⟩
  exact List.forall_mem_append.mpr ⟨List.forall_mem_append.mpr ⟨List.forall_mem_append.mpr
    ⟨List.forall_mem_cons.mpr ⟨into, by decide⟩, by decide⟩, ascii_indented values⟩, by decide⟩

theorem ascii_addForeignKey {k : ForeignKey} (owner : Over isAscii k.table)
    (column : Over isAscii k.column) (target : Over isAscii k.target) :
    ∀ l ∈ (addForeignKey k).lines, Over isAscii l.text := by
  have key : Over isAscii k.name :=
    (ascii_around (.ofList (by decide)) owner (.ofList (by decide))).append column
  have constraint : Over isAscii ("ADD CONSTRAINT " ++ k.name ++ " FOREIGN KEY (") :=
    ascii_around (.ofList (by decide)) key (.ofList (by decide))
  have cascade : Over isAscii (if k.cascade then " ON DELETE CASCADE" else "") := by
    cases k.cascade <;> decide
  refine List.forall_mem_cons.mpr ⟨.append (.ofList (by decide)) (ascii_bracketed owner),
    List.forall_mem_cons.mpr ⟨?_, List.forall_mem_singleton.mpr ?_⟩⟩
  · exact ascii_around constraint (ascii_bracketed column) (.ofList (by decide))
  · exact (ascii_around (.ofList (by decide)) (ascii_bracketed target)
      (.ofList (by decide))).append cascade

theorem ascii_insertAttribute {itemType name value : String} (owner : Over isAscii itemType)
    (key : Over isAscii name) (content : Over isAscii value) :
    ∀ l ∈ (insertAttribute itemType name value).lines, Over isAscii l.text := by
  have command : Over isAscii ("insert attribute " ++ name ++ "\x7b\"" ++ value ++
      "\"\x7d into /StoreSchema[1]/ItemType[@Name=\"" ++ itemType ++ "\"][1]") :=
    ascii_around (ascii_around
      (ascii_around (.ofList (by decide)) key (.ofList (by decide))) content (.ofList (by decide)))
      owner (.ofList (by decide))
  exact List.forall_mem_singleton.mpr
    (ascii_around (.ofList (by decide)) command (.ofList (by decide)))

theorem ascii_insertRecord {r : Record} (tags : ∀ t ∈ r.quotedTags, Over isAscii t) :
    ∀ l ∈ (insertRecord r).lines, Over isAscii l.text := by
  have opening : ∀ l ∈
      [line "SET @command = 'UPDATE Configuration SET SchemaDefinition.modify(''insert ' +"],
      Over isAscii l.text :=
    ascii_line_cons (.ofList (by decide)) (List.forall_mem_nil _)
  have closing : ∀ l ∈ [line "+ ' into /StoreSchema[1]'')'"], Over isAscii l.text :=
    ascii_line_cons (.ofList (by decide)) (List.forall_mem_nil _)
  have record := List.forall_mem_append.mpr ⟨ascii_record tags, closing⟩
  exact List.forall_mem_append.mpr ⟨List.forall_mem_append.mpr
    ⟨opening, ascii_indented record⟩, ascii_line_cons (.ofList (by decide)) (List.forall_mem_nil _)⟩

/-- Statements without fragments are written in ASCII if their words are. -/
theorem ascii_lines {st : Statement} (made : st.isMade = true)
    (ascii : ∀ w ∈ st.words, Over isAscii w) : ∀ l ∈ st.lines, Over isAscii l.text := by
  cases st with
  | snippet | createTable | createFunction => cases made
  | createRole | grantConfiguration =>
      exact ascii_line_cons (.append (.ofList (by decide)) (.ofList (by decide)))
        (List.forall_mem_nil _)
  | blank | endBatch | commit | createConfiguration | insertConfiguration | declareCommand =>
      repeat refine List.forall_mem_cons.mpr ⟨.ofList (by decide), ?_⟩
      exact List.forall_mem_nil _
  | dropRecorded => exact ascii_dropLines
  | setDocument rs => exact ascii_documentLines ascii
  | insertRecord r => exact ascii_insertRecord ascii
  | comment text =>
      have text := List.forall_mem_singleton.mp ascii
      exact List.forall_mem_singleton.mpr (.append (.ofList (by decide)) text)
  | raiseIf condition message =>
      obtain ⟨guard, rest⟩ := List.forall_mem_cons.mp ascii
      exact ascii_raiseIf guard (List.forall_mem_singleton.mp rest)
  | turnOn setting =>
      have setting := List.forall_mem_singleton.mp ascii
      exact List.forall_mem_singleton.mpr
        (ascii_around (.ofList (by decide)) setting (.ofList (by decide)))
  | grant permission object => exact ascii_grant (List.forall_mem_singleton.mp ascii)
  | createEnumTable name =>
      have name := ascii_bracketed (List.forall_mem_singleton.mp ascii)
      refine List.forall_mem_cons.mpr
        ⟨ascii_around (.ofList (by decide)) name (.ofList (by decide)), ?_⟩
      repeat refine List.forall_mem_cons.mpr ⟨.ofList (by decide), ?_⟩
      exact List.forall_mem_nil _
  | identityInsert table on => exact ascii_identityInsert (List.forall_mem_singleton.mp ascii)
  | insertRow table id name =>
      obtain ⟨target, rest⟩ := List.forall_mem_cons.mp ascii
      exact ascii_insertRow target (List.forall_mem_singleton.mp rest)
  | addForeignKey k =>
      obtain ⟨owner, rest⟩ := List.forall_mem_cons.mp ascii
      obtain ⟨column, rest⟩ := List.forall_mem_cons.mp rest
      exact ascii_addForeignKey owner column (List.forall_mem_singleton.mp rest)
  | deleteAttribute name | deleteRecords name =>
      have name := List.forall_mem_singleton.mp ascii
      exact List.forall_mem_singleton.mpr
        (ascii_around (.ofList (by decide)) (.append (.ofList (by decide)) name)
          (.ofList (by decide)))
  | insertAttribute itemType name value =>
      obtain ⟨owner, rest⟩ := List.forall_mem_cons.mp ascii
      obtain ⟨key, rest⟩ := List.forall_mem_cons.mp rest
      exact ascii_insertAttribute owner key (List.forall_mem_singleton.mp rest)

end Statement

theorem asciiSegments_createTable {name : String} {columns : List TableColumn}
    (words : ∀ w ∈ (Statement.createTable name columns).words, Over isAscii w)
    (quoted : ∀ c ∈ columns, ∀ d ∈ c.default, ∀ t, d.quoted? = some t → t ∈ texts) :
    AsciiSegments texts (Statement.createTable name columns).segments := by
  obtain ⟨nameWord, columnWords⟩ := List.forall_mem_cons.mp words
  have closing : AsciiSegments texts ([line ")"].map Segment.ofLine) :=
    asciiSegments_ofLine (by decide)
  refine List.forall_mem_append.mpr ⟨List.forall_mem_cons.mpr ⟨?_, ?_⟩, closing⟩
  · exact .made (ascii_around (by decide) (ascii_bracketed nameWord) (by decide)) asciiBut_nil
  · refine asciiSegments_commaSegments (List.forall_mem_cons.mpr
      ⟨.made (by decide) asciiBut_nil, List.forall_mem_map.mpr fun c inside => ?_⟩)
    obtain ⟨column, rest⟩ := List.forall_mem_cons.mp
      (List.forall_mem_flatMap.mp columnWords c inside)
    exact asciiBut_column column (List.forall_mem_singleton.mp rest)
      (quoted c inside)

theorem asciiSegments_createFunction {f : SqlFunction}
    (words : ∀ w ∈ (Statement.createFunction f).words, Over isAscii w)
    (quoted : ∀ p ∈ f.parameters, ∀ d ∈ p.default, ∀ t, d.quoted? = some t → t ∈ texts) :
    AsciiSegments texts (Statement.createFunction f).segments := by
  obtain ⟨header, bodyWords⟩ := List.forall_mem_append.mp words
  obtain ⟨nameWord, parameterWords⟩ := List.forall_mem_cons.mp header
  have front : Over isAscii ("CREATE FUNCTION " ++ bracketed f.name) :=
    .append (.ofList (by decide)) (ascii_bracketed nameWord)
  refine List.forall_mem_cons.mpr ⟨.append (.append
    (.made (front.append (.ofList (by decide))) asciiBut_nil) (.flatMap fun p inside => ?_))
    (.made (.ofList (by decide)) asciiBut_nil), asciiSegments_body fun columns table same => ?_⟩
  · obtain ⟨parameter, rest⟩ := List.forall_mem_cons.mp
      (List.forall_mem_flatMap.mp parameterWords p inside)
    exact asciiBut_parameter parameter (List.forall_mem_singleton.mp rest)
      (quoted p inside)
  · rw [same] at bodyWords
    exact List.forall_mem_cons.mp bodyWords

/-- A statement makes ASCII from words of ASCII, but for defaults that are texts. -/
theorem Statement.asciiSegments {st : Statement} (words : ∀ w ∈ st.words, Over isAscii w)
    (quoted : ∀ d ∈ st.defaults, ∀ t, d.quoted? = some t → t ∈ texts) :
    AsciiSegments texts st.segments := by
  cases st with
  | snippet text => exact List.forall_mem_singleton.mpr (.fragment text asciiBut_nil)
  | createTable name columns =>
      exact asciiSegments_createTable words fun c inside d given =>
        quoted d (List.mem_flatMap.mpr ⟨c, inside, Option.mem_toList.mpr given⟩)
  | createFunction f =>
      exact asciiSegments_createFunction words fun p inside d given =>
        quoted d (List.mem_flatMap.mpr ⟨p, inside, Option.mem_toList.mpr given⟩)
  | _ =>
      rw [segments_of_isMade rfl]
      exact asciiSegments_ofLine (ascii_lines rfl words)

end Segments

/-! ## Words of scripts -/

/-- A script whose statements are made from words of ASCII. -/
def AsciiWords (script : List Statement) : Prop :=
  ∀ st ∈ script, ∀ w ∈ st.words, Over isAscii w

instance (script : List Statement) : Decidable (AsciiWords script) :=
  inferInstanceAs (Decidable (∀ st ∈ script, ∀ w ∈ st.words, Over isAscii w))

section Words

variable {a b : List Statement}

theorem AsciiWords.append (first : AsciiWords a) (second : AsciiWords b) : AsciiWords (a ++ b) :=
  List.forall_mem_append.mpr ⟨first, second⟩

theorem AsciiWords.cons {st : Statement} (first : ∀ w ∈ st.words, Over isAscii w)
    (others : AsciiWords a) : AsciiWords (st :: a) :=
  List.forall_mem_cons.mpr ⟨first, others⟩

/-- A statement that is made from one word. -/
theorem AsciiWords.word {st : Statement} {word : String} (made : st.words = [word])
    (ascii : Over isAscii word) (others : AsciiWords a) : AsciiWords (st :: a) :=
  .cons (made ▸ List.forall_mem_singleton.mpr ascii) others

theorem AsciiWords.guard {condition message : String} (guard : Over isAscii condition)
    (text : Over isAscii message) : AsciiWords [.raiseIf condition message, .blank] :=
  .cons (List.forall_mem_cons.mpr ⟨guard, List.forall_mem_singleton.mpr text⟩) (.cons nofun nofun)

theorem AsciiWords.flatMap {α : Type} {xs : List α} {f : α → List Statement}
    (each : ∀ x ∈ xs, AsciiWords (f x)) : AsciiWords (xs.flatMap f) := by
  intro st inside
  obtain ⟨x, member, found⟩ := List.mem_flatMap.mp inside
  exact each x member st found

/-- Both scripts start alike. -/
theorem asciiWords_opening : AsciiWords (header ++ guardMaster) := by
  have message := Over.append (p := isAscii)
    (.ofList (by decide) : Over isAscii
      "This script must not be run against the master database. Select a ")
    (.ofList (by decide) : Over isAscii "LearningStore database first.")
  have comments : AsciiWords header :=
    .word rfl (.ofList (by decide)) (.word rfl (.ofList (by decide)) (.cons nofun nofun))
  exact comments.append (.guard (.ofList (by decide)) message)

theorem asciiWords_sessionSettings : AsciiWords sessionSettings := by
  repeat refine .word rfl (.ofList (by decide)) ?_
  exact .cons nofun nofun

theorem asciiWords_closeBatch : AsciiWords closeBatch :=
  .cons nofun (.cons nofun nofun)

theorem asciiWords_snippets (texts : List String) : AsciiWords (snippets texts) :=
  .flatMap fun _ _ => .cons nofun (.cons nofun nofun)

theorem Record.Simple.ascii_quotedTags {r : Record} (simple : r.Simple) :
    ∀ t ∈ r.quotedTags, Over isAscii t := by
  refine List.forall_mem_append.mpr ⟨List.forall_mem_cons.mpr ⟨?_, ?_⟩, ?_⟩
  · exact ascii_of_tag simple.markup.over_start
  · exact List.forall_mem_map.mpr fun m inside => ascii_of_tag (simple.members m inside).over_empty
  · exact List.forall_mem_singleton.mpr (ascii_of_tag simple.markup.over_stop)

/-- A comment about something that has a name. -/
theorem ascii_about {front back name : String} (before : Over isAscii front)
    (identifier : IsIdentifier name) (behind : Over isAscii back) :
    Over isAscii (front ++ name ++ back) :=
  ascii_around before (ascii_of_isIdentifier identifier) behind

theorem asciiWords_enumTable (valid : s.Valid) {e : EnumType} (member : e ∈ s.enums) :
    AsciiWords (enumTable e) := by
  have name : Over isAscii e.name := ascii_of_isIdentifier (valid.enums e member)
  have named : ∀ w ∈ [e.name], Over isAscii w := List.forall_mem_singleton.mpr name
  have title : ∀ w ∈ ["Create the " ++ e.name ++ " table"], Over isAscii w :=
    List.forall_mem_singleton.mpr
      (ascii_about (.ofList (by decide)) (valid.enums e member) (.ofList (by decide)))
  have inserts : AsciiWords (enumInserts e) := by
    rcases enumInserts_cases e with ⟨-, nothing⟩ | filled
    · rw [nothing]
      exact nofun
    · rw [filled]
      refine .append (.cons named (List.forall_mem_map.mpr fun row inside => ?_))
        (.cons named nofun)
      obtain ⟨v, known, value⟩ : ∃ v ∈ e.values, v.name = row.2 := by
        have found := (mem_enumRows_iff.mp inside).2
        obtain ⟨v, first, same⟩ := Option.map_eq_some_iff.mp found
        exact ⟨v, List.mem_of_find?_eq_some first, same⟩
      refine List.forall_mem_cons.mpr ⟨name, List.forall_mem_singleton.mpr ?_⟩
      rw [← value]
      exact ascii_of_isIdentifier (valid.enum_values e member v known)
  exact .append (.append (.cons title (.cons named (.cons named nofun))) inserts)
    (.cons nofun nofun)

theorem asciiWords_itemTypeTable (valid : s.Valid) {i : ItemType} (member : i ∈ s.itemTypes) :
    AsciiWords (itemTypeTable i) := by
  have name : Over isAscii i.name := ascii_of_isIdentifier (valid.itemTypes i member)
  refine .cons (List.forall_mem_singleton.mpr ?_) (.cons (List.forall_mem_cons.mpr ⟨name, ?_⟩)
    (.cons (List.forall_mem_singleton.mpr name) (.cons nofun nofun)))
  · exact ascii_about (.ofList (by decide)) (valid.itemTypes i member) (.ofList (by decide))
  · refine List.forall_mem_flatMap.mpr (List.forall_mem_map.mpr fun p inside => ?_)
    exact List.forall_mem_cons.mpr
      ⟨ascii_of_isIdentifier (valid.properties i member p inside).member.name,
        List.forall_mem_singleton.mpr (ascii_sqlType p.valueType p.length)⟩

theorem asciiWords_constraintsAndIndexes (valid : s.Valid) {i : ItemType}
    (member : i ∈ s.itemTypes) {script : List Statement}
    (made : constraintsAndIndexes s i = .ok script) : AsciiWords script := by
  obtain ⟨keys, rfl, leads⟩ := constraintsAndIndexes_eq_ok made
  refine .append (.flatMap fun k inside => ?_) (asciiWords_snippets i.indexes)
  obtain ⟨table, ⟨p, property, column⟩, target⟩ := leads k inside
  refine .cons (List.forall_mem_cons.mpr ⟨?_, List.forall_mem_cons.mpr ⟨?_,
    List.forall_mem_singleton.mpr ?_⟩⟩) (.cons nofun nofun)
  · rw [table]
    exact ascii_of_isIdentifier (valid.itemTypes i member)
  · rw [column]
    exact ascii_of_isIdentifier (valid.properties i member p property).member.name
  · rcases target with ⟨other, known, same⟩ | ⟨other, known, same⟩
    · rw [same]
      exact ascii_of_isIdentifier (valid.itemTypes other known)
    · rw [same]
      exact ascii_of_isIdentifier (valid.enums other known)

/-- A function whose words are ASCII, with its comment. -/
def Described.AsciiWords (d : Described) : Prop :=
  Over isAscii d.purpose ∧ ∀ w ∈ (Statement.createFunction d.function).words, Over isAscii w

theorem ascii_parameters {parameters : List FunctionParameter}
    (each : ∀ p ∈ parameters, Over isAscii p.name ∧ Over isAscii p.type) :
    ∀ w ∈ parameters.flatMap fun p => [p.name, p.type], Over isAscii w :=
  List.forall_mem_flatMap.mpr fun p inside =>
    List.forall_mem_cons.mpr ⟨(each p inside).1, List.forall_mem_singleton.mpr (each p inside).2⟩

theorem ascii_nullableParameters {parameters : List Parameter}
    (names : ∀ p ∈ parameters, IsIdentifier p.name) :
    ∀ p ∈ nullableParameters parameters, Over isAscii p.name ∧ Over isAscii p.type :=
  List.forall_mem_map.mpr fun p inside =>
    ⟨ascii_of_isIdentifier (names p inside), ascii_sqlType p.valueType none⟩

theorem ascii_itemRightParameters (valid : s.Valid) {i : ItemType} (member : i ∈ s.itemTypes)
    (right : ItemRight) :
    ∀ p ∈ itemRightParameters i right, Over isAscii p.name ∧ Over isAscii p.type := by
  have name {p : Property} (inside : p ∈ i.properties) : Over isAscii p.name :=
    ascii_of_isIdentifier (valid.properties i member p inside).member.name
  have type (p : Property) : Over isAscii p.sqlType := ascii_sqlType p.valueType p.length
  have id : Over isAscii idParameter.name ∧ Over isAscii idParameter.type := by decide
  cases right with
  | query => exact nofun
  | add => exact List.forall_mem_map.mpr fun p inside => ⟨name inside, type p⟩
  | update =>
      refine List.forall_mem_cons.mpr ⟨id, List.forall_mem_flatMap.mpr fun p inside => ?_⟩
      exact List.forall_mem_cons.mpr
        ⟨⟨(name inside).append (b := "$Changed") (.ofList (by decide)),
          (.ofList (by decide) : Over isAscii "bit")⟩,
          List.forall_mem_singleton.mpr ⟨name inside, type p⟩⟩
  | delete => exact List.forall_mem_singleton.mpr id

/-- A function that grants something has no words but its name and those of its parameters. -/
theorem asciiWords_granted {purpose name : String} {parameters : List FunctionParameter}
    {expressions : List String} (about : Over isAscii purpose) (ascii : Over isAscii name)
    (each : ∀ p ∈ parameters, Over isAscii p.name ∧ Over isAscii p.type) :
    Described.AsciiWords ⟨purpose, ⟨name, parameters, .granted expressions⟩⟩ :=
  ⟨about, List.forall_mem_append.mpr
    ⟨List.forall_mem_cons.mpr ⟨ascii, ascii_parameters each⟩, nofun⟩⟩

theorem asciiWords_functions (valid : s.Valid) (withDefaultViews : Bool) :
    ∀ d ∈ functions s withDefaultViews, d.AsciiWords := by
  intro d inside
  obtain ⟨x, slot, found⟩ := List.mem_flatMap.mp (functions_perm.mem_iff.mp inside)
  rcases mem_slots_iff.mp slot with ⟨i, member, rfl | ⟨right, rfl⟩⟩ | ⟨v, member, rfl | rfl⟩ |
    ⟨r, member, rfl⟩
  · cases withDefaultViews with
    | false => cases found
    | true =>
        obtain rfl := List.mem_singleton.mp found
        have owner : Over isAscii i.name := ascii_of_isIdentifier (valid.itemTypes i member)
        refine ⟨.append (.ofList (by decide)) owner, List.forall_mem_append.mpr
          ⟨List.forall_mem_singleton.mpr (owner.append (b := "$DefaultView") (.ofList (by decide))),
            List.forall_mem_cons.mpr ⟨owner, List.forall_mem_map.mpr fun p inside => ?_⟩⟩⟩
        exact ascii_of_isIdentifier (valid.properties i member p inside).member.name
  · obtain ⟨name, given, rfl⟩ := List.mem_map.mp found
    have identifier := valid.itemTypes i member
    have purpose : Over isAscii (itemRightPurpose i right) := by
      cases right
      all_goals exact .append (.ofList (by decide)) (ascii_of_isIdentifier identifier)
    have function := over_securityFunction identifier (Option.mem_toList.mp given)
    exact asciiWords_granted purpose (ascii_of_words function)
      (ascii_itemRightParameters valid member right)
  · obtain rfl := List.mem_singleton.mp found
    have identifier := valid.views v member
    refine ⟨ascii_about (.ofList (by decide)) identifier (.ofList (by decide)),
      List.forall_mem_append.mpr
      ⟨List.forall_mem_cons.mpr ⟨ascii_of_isIdentifier identifier, ascii_parameters ?_⟩, nofun⟩⟩
    exact ascii_nullableParameters fun p known => (valid.view_parameters v member p known).name
  · obtain ⟨name, given, rfl⟩ := List.mem_map.mp found
    obtain ⟨-, same⟩ := Option.ite_none_left_eq_some.mp (Option.mem_toList.mp given)
    cases same
    have identifier := valid.views v member
    exact asciiWords_granted (.append (.ofList (by decide)) (ascii_of_isIdentifier identifier))
      ((ascii_of_isIdentifier identifier).append (.ofList (by decide)))
      (ascii_nullableParameters fun p known => (valid.view_parameters v member p known).name)
  · obtain ⟨name, given, rfl⟩ := List.mem_map.mp found
    obtain ⟨-, same⟩ := Option.ite_none_left_eq_some.mp (Option.mem_toList.mp given)
    cases same
    have identifier := valid.rights r member
    exact asciiWords_granted (ascii_about (.ofList (by decide)) identifier (.ofList (by decide)))
      (ascii_of_isIdentifier identifier)
      (ascii_nullableParameters fun p known => (valid.right_parameters r member p known).name)

theorem asciiWords_createFunctions (valid : s.Valid) (withDefaultViews : Bool) :
    AsciiWords (createFunctions s withDefaultViews) := by
  refine .flatMap fun d inside => ?_
  obtain ⟨purpose, words⟩ := asciiWords_functions valid withDefaultViews d inside
  have name : Over isAscii d.function.name := words _ List.mem_cons_self
  exact .cons (List.forall_mem_singleton.mpr purpose) (.cons words (.cons nofun
    (.cons (List.forall_mem_singleton.mpr name) (.cons nofun (.cons nofun nofun)))))

/-- The script that creates a store is made from words of ASCII. -/
theorem asciiWords_init (valid : s.Valid) {script : List Statement} (made : init s = .ok script) :
    AsciiWords script := by
  obtain ⟨document, constraints, recorded, constrained, rfl⟩ := init_eq_ok made
  have front : AsciiWords (initFront s) :=
    .append (.append (.append asciiWords_opening asciiWords_sessionSettings)
      (asciiWords_snippets s.sqlBefore)) (.word rfl (.ofList (by decide)) (.cons nofun nofun))
  have stored : ∀ w ∈ (Statement.setDocument document).words, Over isAscii w :=
    List.forall_mem_flatMap.mpr fun r inside =>
      (simple_records valid recorded r inside).ascii_quotedTags
  have middle : AsciiWords (initMiddle s constraints) := by
    have created : AsciiWords createRole :=
      .word rfl
        (.append (.append (.ofList (by decide)) (.ofList (by decide))) (.ofList (by decide)))
        (.cons nofun (.cons nofun (.cons nofun nofun)))
    refine .append (.append (.append (.append (.append (.cons nofun (.cons nofun nofun)) created)
      (.flatMap fun e member => ?_)) (.flatMap fun i member => ?_)) ?_) asciiWords_closeBatch
    · exact asciiWords_enumTable valid member
    · exact asciiWords_itemTypeTable valid member
    · rw [← List.flatMap_id]
      exact .flatMap (forall_mem_of_mapM constrained fun i member script part =>
        asciiWords_constraintsAndIndexes valid member part)
  have back : AsciiWords (initBack s) :=
    .append (.append (asciiWords_snippets _) (asciiWords_snippets _))
      (.cons nofun asciiWords_closeBatch)
  exact .append (.append (.append front (.cons stored middle))
    (asciiWords_createFunctions valid true)) back

/-- So is the script that upgrades one. -/
theorem asciiWords_upgrade (valid : s.Valid) {script : List Statement}
    (made : upgrade s = .ok script) : AsciiWords script := by
  have simple := simple_inserted valid made
  obtain ⟨views, rights, -, -, rfl⟩ := upgrade_eq_ok made
  have guards : AsciiWords (insertGuards s) := by
    refine .flatMap fun i member => List.forall_mem_map.mpr fun entry inside => ?_
    have identifier := valid.itemTypes i member
    obtain ⟨right, -, given⟩ := List.mem_filterMap.mp inside
    obtain ⟨function, guarded, rfl⟩ := Option.map_eq_some_iff.mp given
    have key : Over isAscii (securityAttribute right) := by
      cases right <;> exact .ofList (by decide)
    exact List.forall_mem_cons.mpr ⟨ascii_of_isIdentifier identifier, List.forall_mem_cons.mpr
      ⟨key, List.forall_mem_singleton.mpr
        (ascii_of_words (over_securityFunction identifier guarded))⟩⟩
  have records : AsciiWords ((views ++ rights).map .insertRecord) := by
    refine List.forall_mem_map.mpr fun r inside => (simple r (mem_inserted.mpr ?_)).ascii_quotedTags
    exact List.mem_append_left _ (List.mem_append_left _ (List.mem_append_left _
      (List.mem_append_right _ (List.mem_map_of_mem inside))))
  have missing : AsciiWords guardEmpty :=
    .guard (.append (.ofList (by decide)) (.ofList (by decide)))
      (.append (.ofList (by decide)) (.ofList (by decide)))
  have dropping : AsciiWords dropFunctions :=
    .word rfl (.ofList (by decide)) (.cons nofun (.cons nofun nofun))
  have replacing : AsciiWords
      [.comment "Replace the view, right and security information in the schema document",
        .declareCommand] :=
    .word rfl (.ofList (by decide)) (.cons nofun nofun)
  have deleting : AsciiWords deleteRecorded := by
    refine .append (List.forall_mem_map.mpr fun right _ => List.forall_mem_singleton.mpr ?_)
      (.word rfl (.ofList (by decide)) (.word rfl (.ofList (by decide)) nofun))
    cases right <;> exact .ofList (by decide)
  have front : AsciiWords upgradeFront :=
    .append (.append (.append (.append (.append (.append asciiWords_opening missing)
      asciiWords_sessionSettings) dropping) asciiWords_closeBatch) replacing) deleting
  exact .append (.append (.append (.append (.append front guards) records) asciiWords_closeBatch)
    (asciiWords_createFunctions valid false)) (.cons nofun asciiWords_closeBatch)

end Words

/-! ## Literals of scripts -/

/-- The text of a piece that is made. -/
def Piece.made? : Piece → Option String
  | .made text => some text
  | .fragment _ => none

/-- The texts that a script makes up, in order. -/
def madeTexts (script : List Statement) : List String :=
  (segments script).flatMap fun seg => seg.pieces.filterMap Piece.made?

/-- The string literals in the texts that a script makes up. -/
def madeLiterals (script : List Statement) : List SqlLiteral :=
  (madeTexts script).flatMap fun text => sqlLiterals text.toList

section Literals

variable {script : List Statement} {texts : List String} {text t : String}

theorem mem_madeTexts_iff :
    text ∈ madeTexts script ↔ ∃ st ∈ script, ∃ seg ∈ st.segments, .made text ∈ seg.pieces := by
  have made {p : Piece} : p.made? = some text ↔ p = .made text := by
    cases p <;> simp [Piece.made?]
  simp only [madeTexts, segments, List.mem_flatMap, List.mem_filterMap, made, exists_eq_right]
  constructor
  · rintro ⟨seg, ⟨st, inside, part⟩, found⟩
    exact ⟨st, inside, seg, part, found⟩
  · rintro ⟨st, inside, seg, part, found⟩
    exact ⟨seg, ⟨st, inside, part⟩, found⟩

/-- A script of ASCII words makes ASCII, but for the texts that its defaults quote. -/
theorem ascii_or_default (words : AsciiWords script)
    (quoted : ∀ d ∈ defaultsOf script, ∀ t, d.quoted? = some t → t ∈ texts)
    (made : text ∈ madeTexts script) :
    Over isAscii text ∨ ∃ t ∈ texts, ∃ lead ∈ defaultLeads, text = lead ++ sqlString t := by
  obtain ⟨st, inside, seg, part, found⟩ := mem_madeTexts_iff.mp made
  refine Statement.asciiSegments (words st inside) (fun d given => ?_) seg part text found
  exact quoted d (List.mem_flatMap.mpr ⟨st, inside, given⟩)

theorem mem_commaSegments {pss : List (List Piece)} {ps : List Piece} (listed : ps ∈ pss)
    {p : Piece} (inside : p ∈ ps) : ∃ seg ∈ commaSegments pss, p ∈ seg.pieces := by
  fun_induction commaSegments pss with
  | case1 => cases listed
  | case2 last => exact ⟨_, List.mem_cons_self, List.mem_singleton.mp listed ▸ inside⟩
  | case3 first rest more ih =>
      rcases List.mem_cons.mp listed with rfl | later
      · exact ⟨_, List.mem_cons_self, List.mem_append_left _ inside⟩
      · obtain ⟨seg, part, found⟩ := ih later
        exact ⟨seg, List.mem_cons_of_mem _ part, found⟩

/-- Every text that a default quotes is made behind a lead. -/
theorem exists_mem_madeTexts {d : DefaultValue} (given : d ∈ defaultsOf script)
    (quoted : d.quoted? = some t) :
    ∃ lead ∈ defaultLeads, lead ++ sqlString t ∈ madeTexts script := by
  have pieces (lead : String) : defaultPieces lead d = [.made (lead ++ sqlString t)] := by
    rw [← sqlConstant_of_quoted? quoted]
    cases d with
    | function e => cases quoted
    | null => rfl
    | literal l => rfl
  have inside (lead : String) {default : Option DefaultValue} (same : default = some d) :
      .made (lead ++ sqlString t) ∈ default.toList.flatMap (defaultPieces lead) := by
    rw [same, Option.toList_some, List.flatMap_singleton, pieces]
    exact List.mem_singleton.mpr rfl
  obtain ⟨st, stands, listed⟩ := List.mem_flatMap.mp given
  cases st with
  | createTable name columns =>
      obtain ⟨c, column, same⟩ := List.mem_flatMap.mp listed
      have made : .made (" DEFAULT " ++ sqlString t) ∈ c.pieces := by
        simp only [TableColumn.pieces, List.mem_append, inside _ (Option.mem_toList.mp same),
          or_true, true_or]
      obtain ⟨seg, part, found⟩ := mem_commaSegments
        (List.mem_cons_of_mem [.made idDefinition] (List.mem_map_of_mem column)) made
      refine ⟨_, by decide, mem_madeTexts_iff.mpr ⟨_, stands, seg, ?_, found⟩⟩
      exact List.mem_append_left _ (List.mem_cons_of_mem _ part)
  | createFunction f =>
      obtain ⟨p, parameter, same⟩ := List.mem_flatMap.mp listed
      have made : .made ("=" ++ sqlString t) ∈ f.headerPieces :=
        List.mem_append_left _ (List.mem_append_right _ (List.mem_flatMap.mpr
          ⟨p, parameter, List.mem_cons_of_mem _ (inside _ (Option.mem_toList.mp same))⟩))
      exact ⟨_, by decide, mem_madeTexts_iff.mpr ⟨_, stands, _, List.mem_cons_self, made⟩⟩
  | _ => cases listed

/-- A default is quoted without the prefix. -/
theorem sqlLiterals_default {lead : String} (known : lead ∈ defaultLeads) (t : String) :
    sqlLiterals (lead ++ sqlString t).toList = [⟨false, t.toList⟩] := by
  have opened : ∃ before, sqlLiterals (lead ++ sqlString t).toList =
      scanLiterals .literal before ⟨false, []⟩ (doubleApostrophes t.toList ++ ['\'']) := by
    rw [String.toList_append, sqlString, String.toList_ofList]
    simp only [defaultLeads, List.mem_cons, List.not_mem_nil, or_false] at known
    rcases known with rfl | rfl
    · exact ⟨_, rfl⟩
    · exact ⟨_, rfl⟩
  obtain ⟨before, whole⟩ := opened
  rw [whole, scanLiterals_doubleApostrophes]
  rfl

/-- How the literals of a script fare in a database that has a code page: those of its own making
are ASCII, but for some texts, which stand there without the prefix. -/
structure LiteralsFare (script : List Statement) (texts : List String) : Prop where
  spelled : (scriptText script).toList = segmentsText (segments script)
  made : ∀ text ∈ madeTexts script, Over isAscii text ∨
    ∃ t ∈ texts, ∃ lead ∈ defaultLeads, text = lead ++ sqlString t
  literals : ∀ l ∈ madeLiterals script, Ascii l.content ∨ ∃ t ∈ texts, l = ⟨false, t.toList⟩
  defaults : ∀ t ∈ texts, ⟨false, t.toList⟩ ∈ madeLiterals script
  safe_iff : (∀ l ∈ madeLiterals script, l.Safe) ↔ ∀ t ∈ texts, Over isAscii t
  kept_iff : (∀ l ∈ madeLiterals script, l.Kept) ↔ ∀ t ∈ texts, Over isAscii t

theorem literalsFare_of_words (words : AsciiWords script)
    (quoted : ∀ t, (∃ d ∈ defaultsOf script, d.quoted? = some t) ↔ t ∈ texts) :
    LiteralsFare script texts := by
  have made (text : String) (inside : text ∈ madeTexts script) :=
    ascii_or_default words (fun d given t shown => (quoted t).mp ⟨d, given, shown⟩) inside
  have literals : ∀ l ∈ madeLiterals script, Ascii l.content ∨
      ∃ t ∈ texts, l = ⟨false, t.toList⟩ := by
    intro l inside
    obtain ⟨text, member, found⟩ := List.mem_flatMap.mp inside
    rcases made text member with ascii | ⟨t, known, lead, led, rfl⟩
    · exact .inl (ascii_of_mem_sqlLiterals (ascii_iff.mp ascii) found)
    · rw [sqlLiterals_default led] at found
      exact .inr ⟨t, known, List.mem_singleton.mp found⟩
  have defaults : ∀ t ∈ texts, ⟨false, t.toList⟩ ∈ madeLiterals script := by
    intro t known
    obtain ⟨d, given, shown⟩ := (quoted t).mpr known
    obtain ⟨lead, led, member⟩ := exists_mem_madeTexts given shown
    refine List.mem_flatMap.mpr ⟨_, member, ?_⟩
    rw [sqlLiterals_default led]
    exact List.mem_singleton.mpr rfl
  have safe : (∀ l ∈ madeLiterals script, l.Safe) ↔ ∀ t ∈ texts, Over isAscii t := by
    constructor
    · exact fun all t known => ascii_iff.mpr ((all _ (defaults t known)).resolve_left nofun)
    · intro all l inside
      rcases literals l inside with ascii | ⟨t, known, rfl⟩
      · exact .inr ascii
      · exact .inr (ascii_iff.mp (all t known))
  exact ⟨(segmentsText_segments script).symm, made, literals, defaults, safe,
    (forall₂_congr fun _ _ => SqlLiteral.kept_iff).trans safe⟩

end Literals

/-! ## Finished schemas -/

theorem mem_quotedDefaults {i : ItemType} {t : String} :
    t ∈ i.quotedDefaults ↔ ∃ p ∈ i.properties, ∃ d, p.default = some d ∧ d.quoted? = some t := by
  simp only [ItemType.quotedDefaults, List.mem_filterMap, Option.bind_eq_some_iff]

theorem ne_null_of_quoted? {d : DefaultValue} {t : String} (quoted : d.quoted? = some t) :
    d ≠ .null := by
  rintro rfl
  cases quoted

/-- Defaults stand in definitions of tables and in headers of functions. -/
theorem cases_of_mem_defaultsOf {script : List Statement} {d : DefaultValue}
    (given : d ∈ defaultsOf script) :
    (∃ st ∈ tableDefinitions script, d ∈ st.defaults) ∨
      ∃ f ∈ created script, ∃ p ∈ f.parameters, p.default = some d := by
  obtain ⟨st, stands, listed⟩ := List.mem_flatMap.mp given
  cases st with
  | createTable name columns => exact .inl ⟨_, List.mem_filter.mpr ⟨stands, rfl⟩, listed⟩
  | createFunction f =>
      obtain ⟨p, parameter, same⟩ := List.mem_flatMap.mp listed
      exact .inr ⟨f, List.mem_filterMap.mpr ⟨_, stands, rfl⟩, p, parameter,
        Option.mem_toList.mp same⟩
  | _ => cases listed

section Quoted

variable {script : List Statement} {d : DefaultValue} {t : String}

theorem mem_parameters_of_guarded {withDefaultViews : Bool}
    (creates : Creates (functions s withDefaultViews) script) (value : d ≠ .null) :
    (∃ f ∈ created script, ∃ p ∈ f.parameters, p.default = some d) ↔
      ∃ i ∈ s.itemTypes, i.addExpressions.isEmpty = false ∧
        ∃ p ∈ i.properties, p.default = some d := by
  rw [← exists_parameterDefault_iff withDefaultViews value, creates.created_eq]
  simp only [List.mem_map, exists_exists_and_eq_and]

/-- The script that creates a store quotes the defaults of all properties. -/
theorem quoted_init (made : init s = .ok script) :
    (∃ d ∈ defaultsOf script, d.quoted? = some t) ↔ t ∈ s.quotedDefaults := by
  simp only [Schema.quotedDefaults, List.mem_flatMap, mem_quotedDefaults]
  constructor
  · rintro ⟨d, given, quoted⟩
    have value := ne_null_of_quoted? quoted
    rcases cases_of_mem_defaultsOf given with ⟨st, defines, listed⟩ | parameter
    · rw [tableDefinitions_init made, List.mem_cons, List.mem_append, List.mem_append,
        List.mem_map, List.mem_map, List.mem_map] at defines
      rcases defines with rfl | (⟨e, -, rfl⟩ | ⟨i, known, rfl⟩) | ⟨k, -, rfl⟩
      · cases listed
      · cases listed
      · obtain ⟨c, column, same⟩ := List.mem_flatMap.mp listed
        obtain ⟨p, property, rfl⟩ := List.mem_map.mp column
        exact ⟨i, known, p, property, d, Option.mem_toList.mp same, quoted⟩
      · cases listed
    · obtain ⟨i, known, -, p, property, same⟩ :=
        (mem_parameters_of_guarded (creates_init made) value).mp parameter
      exact ⟨i, known, p, property, d, same, quoted⟩
  · rintro ⟨i, known, p, property, d, same, quoted⟩
    exact ⟨d, mem_defaultsOf_of_property made known property same, quoted⟩

/-- The script that upgrades a store quotes those of item types with expressions that grant
additions. -/
theorem quoted_upgrade (made : upgrade s = .ok script) :
    (∃ d ∈ defaultsOf script, d.quoted? = some t) ↔ t ∈ s.guardedQuotedDefaults := by
  have listed (i : ItemType) : t ∈ (if i.addExpressions.isEmpty then [] else i.quotedDefaults) ↔
      i.addExpressions.isEmpty = false ∧
        ∃ p ∈ i.properties, ∃ d, p.default = some d ∧ d.quoted? = some t := by
    cases i.addExpressions.isEmpty <;> simp [mem_quotedDefaults]
  simp only [Schema.guardedQuotedDefaults, List.mem_flatMap, listed]
  constructor
  · rintro ⟨d, given, quoted⟩
    rcases cases_of_mem_defaultsOf given with ⟨st, defines, -⟩ | parameter
    · rw [tableDefinitions_upgrade made] at defines
      cases defines
    · obtain ⟨i, known, granted, p, property, same⟩ :=
        (mem_parameters_of_guarded (creates_upgrade made) (ne_null_of_quoted? quoted)).mp parameter
      exact ⟨i, known, granted, p, property, d, same, quoted⟩
  · rintro ⟨i, known, granted, p, property, d, same, quoted⟩
    obtain ⟨f, created, parameter, inHeader, given⟩ :=
      (mem_parameters_of_guarded (creates_upgrade made) (ne_null_of_quoted? quoted)).mpr
        ⟨i, known, granted, p, property, same⟩
    exact ⟨d, mem_defaultsOf_of_created created inHeader given, quoted⟩

end Quoted

/-- The values of the types String and Xml, as a schema file has them, are ASCII if what is quoted
of them is. -/
theorem ascii_quotedDefaults_iff :
    (∀ t ∈ s.quotedDefaults, Over isAscii t) ↔
      ∀ i ∈ s.itemTypes, ∀ p ∈ i.properties, ∀ value,
        p.default = some (.literal (.string value)) ∨ p.default = some (.literal (.xml value)) →
          Over isAscii value := by
  have oneLine (value : String) :
      Over isAscii (String.ofList (Literal.onOneLine value.toList)) ↔ Over isAscii value := by
    rw [ascii_iff, String.toList_ofList, ascii_onOneLine, ascii_iff]
  simp only [Schema.quotedDefaults, List.forall_mem_flatMap (f := ItemType.quotedDefaults),
    mem_quotedDefaults]
  refine forall₂_congr fun i _ => ⟨fun all p property value given => ?_, ?_⟩
  · rcases given with given | given
    · exact all value ⟨p, property, _, given, rfl⟩
    · exact (oneLine value).mp (all _ ⟨p, property, _, given, rfl⟩)
  · rintro all t ⟨p, property, d, given, quoted⟩
    unfold DefaultValue.quoted? at quoted
    split at quoted
    next value =>
      cases quoted
      exact all p property t (.inl given)
    next value =>
      cases quoted
      exact (oneLine value).mpr (all p property value (.inr given))
    next => cases quoted

/-- Of the literals that the scripts for a finished schema have of their own, no character is lost
to a code page exactly if the defaults that are texts are ASCII: all of them where a store is
created, and where it is upgraded those that reach the header of a function. -/
theorem literalsFare_of_finished (finished : s.Finished) :
    ((∀ t ∈ s.quotedDefaults, Over isAscii t) ↔
      ∀ i ∈ s.itemTypes, ∀ p ∈ i.properties, ∀ value,
        p.default = some (.literal (.string value)) ∨ p.default = some (.literal (.xml value)) →
          Over isAscii value) ∧
      ∃ first next, init s = .ok first ∧ upgrade s = .ok next ∧
        LiteralsFare first s.quotedDefaults ∧ LiteralsFare next s.guardedQuotedDefaults := by
  obtain ⟨valid, -⟩ := wellFormed_of_finished finished
  obtain ⟨first, made⟩ := succeeds_init valid
  obtain ⟨next, remade⟩ := succeeds_upgrade valid
  exact ⟨ascii_quotedDefaults_iff, first, next, made, remade,
    literalsFare_of_words (asciiWords_init valid made) fun _ => quoted_init made,
    literalsFare_of_words (asciiWords_upgrade valid remade) fun _ => quoted_upgrade remade⟩

theorem literalsFare_sample : Sample.schema.Finished ∧
    ((∀ t ∈ Sample.schema.quotedDefaults, Over isAscii t) ↔
      ∀ i ∈ Sample.schema.itemTypes, ∀ p ∈ i.properties, ∀ value,
        p.default = some (.literal (.string value)) ∨ p.default = some (.literal (.xml value)) →
          Over isAscii value) ∧
      ∃ first next, init Sample.schema = .ok first ∧ upgrade Sample.schema = .ok next ∧
        LiteralsFare first Sample.schema.quotedDefaults ∧
          LiteralsFare next Sample.schema.guardedQuotedDefaults :=
  ⟨Sample.schema_finished, literalsFare_of_finished Sample.schema_finished⟩

namespace Sample

/-- A file with a default that is not ASCII. -/
def accentFile : List Char :=
  (Schema.Sample.opening ++
    ["<ItemType Name=", "\"Pet\">", "<Properties>", "<Property Name=\"Key\" ",
      "Type=\"String\">", "<Default>é</Default>", "</Property>", "</Properties>", "</ItemType>",
      "<ExtendItemType ", "Name=\"Pet\">", "<GrantAddRight>", "<Expression>1</Expression>",
      "</GrantAddRight>", "</ExtendItemType>", "</StoreSchema>"]).flatMap String.toList

def accentProperty : Property :=
  { name := "Key", valueType := .string, itemTypeName := none, enumName := none
    documentation := {}, inBase := false, owner := "Pet", nullable := false, length := none
    cascadeDelete := false, rowGuid := false, default := some (.literal (.string "é"))
    constraints := [] }

def accentSchema : Schema :=
  ⟨[], [⟨"Pet", [accentProperty], [], ["1"], [], [], [], [], {}, false⟩], [], [], [], []⟩

theorem accentSchema_finished : accentSchema.Finished :=
  finished_of_schemaOf? accentFile "accent.xml" false
    (schemaOf?_of_spelledOut (by repeat constructor) (by decide +kernel))

end Sample

/-- A default with an accent stands in both scripts without the prefix, and becomes a question mark
in the smallest code page. -/
theorem accent_sample : Sample.accentSchema.Finished ∧ ∃ first next,
    init Sample.accentSchema = .ok first ∧ upgrade Sample.accentSchema = .ok next ∧
      ⟨false, ['é']⟩ ∈ madeLiterals first ∧ ⟨false, ['é']⟩ ∈ madeLiterals next ∧
        ¬SqlLiteral.Safe ⟨false, ['é']⟩ ∧ SqlLiteral.stored ⟨false, ['é']⟩ .smallest = ['?'] ∧
          (TableColumn.ofProperty Sample.accentProperty).definition =
            "[Key] nvarchar(max) NOT NULL DEFAULT 'é'" := by
  obtain ⟨valid, -⟩ := wellFormed_of_finished Sample.accentSchema_finished
  obtain ⟨first, made⟩ := succeeds_init valid
  obtain ⟨next, remade⟩ := succeeds_upgrade valid
  have inFirst := literalsFare_of_words (asciiWords_init valid made) fun _ => quoted_init made
  have inNext := literalsFare_of_words (asciiWords_upgrade valid remade) fun _ =>
    quoted_upgrade remade
  exact ⟨Sample.accentSchema_finished, first, next, made, remade,
    inFirst.defaults "é" (by decide +kernel), inNext.defaults "é" (by decide +kernel),
    by decide +kernel, by decide +kernel, by decide +kernel⟩

end LearningStore.Script
