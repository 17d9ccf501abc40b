import LearningStore.Proofs.Script.Batches
import LearningStore.Proofs.Script.Swallowing

/-!
# Fragments in statements

The segments of a statement are fine where the names in it are identifiers and its fragments are
closed.  Constants and records are quoted, so their values may be any.
-/

namespace LearningStore.Script

open LearningStore.Schema
open LearningStore.Text
open LearningStore.Value

/-! ## Even texts -/

/-- A text behind which the scan stands as it did in front of it. -/
def Even (text : String) : Prop :=
  SqlMode.code.run text.toList = .code

instance (text : String) : Decidable (Even text) :=
  inferInstanceAs (Decidable (_ = _))

section Even

variable {a b text : String}

theorem Even.append (first : Even a) (second : Even b) : Even (a ++ b) := by
  rw [Even, String.toList_append, SqlMode.run_append, first]
  exact second

theorem Even.settled (even : Even text) : (SqlMode.code.run text.toList).Settled := by
  rw [even]
  exact SqlMode.settled_code

theorem Even.closed (even : Even text) : Closed text.toList :=
  even.settled.rested

theorem Even.append_closed (first : Even a) (second : Closed b.toList) :
    Closed (a ++ b).toList := by
  rw [Closed, String.toList_append, SqlMode.run_append, first]
  exact second

/-- A text that is spelled out is even if its characters are. -/
theorem even_ofList {chars : List Char} (even : SqlMode.code.run chars = .code) :
    Even (String.ofList chars) := by
  rw [Even, String.toList_ofList]
  exact even

theorem even_join {texts : List String} (each : ∀ text ∈ texts, Even text) :
    Even (String.join texts) := by
  rw [Even, String.toList_join]
  induction texts with
  | nil => rfl
  | cons text texts ih =>
      obtain ⟨here, later⟩ := List.forall_mem_cons.mp each
      rw [List.flatMap_cons, SqlMode.run_append, here]
      exact ih later

theorem even_of_isInert (inert : ∀ c ∈ text.toList, isInert c = true) : Even text :=
  run_of_isInert inert

theorem isInert_of_toNat {c : Char} (quote : c.toNat ≠ 39) (dash : c.toNat ≠ 45)
    (slash : c.toNat ≠ 47) : isInert c = true := by
  have other (d : Char) (apart : c.toNat ≠ d.toNat) : (c != d) = true :=
    bne_iff_ne.mpr fun same => apart (congrArg Char.toNat same)
  rw [isInert, other '\'' quote, other '-' dash, other '/' slash]
  rfl

theorem isInert_of_isDigit {c : Char} (digit : isDigit c = true) : isInert c = true := by
  have above : 48 ≤ c.toNat := of_decide_eq_true (Bool.and_eq_true_iff.mp digit).1
  exact isInert_of_toNat (by omega) (by omega) (by omega)

theorem even_of_isIdentifier (name : IsIdentifier text) : Even text := by
  have begins {c : Char} (letter : BeginsIdentifier c) : isInert c = true := by
    have above : 65 ≤ c.toNat := by
      rcases letter with ⟨low, -⟩ | ⟨low, -⟩ | rfl
      · exact low
      · exact Nat.le_trans (by decide : 65 ≤ 97) low
      · decide
    exact isInert_of_toNat (by omega) (by omega) (by omega)
  obtain ⟨first, rest, spelled, letter, others⟩ := name
  refine even_of_isInert ?_
  rw [spelled]
  refine List.forall_mem_cons.mpr ⟨begins letter, fun c inside => ?_⟩
  rcases others c inside with letter | digit
  · exact begins letter
  · exact isInert_of_isDigit (by simpa [isDigit] using digit)

theorem even_bracketed (even : Even text) : Even (bracketed text) :=
  ((by decide : Even "[").append even).append (by decide)

/-- A dash in front of inert characters starts no comment. -/
theorem run_dash {c : Char} {s : List Char} (inert : ∀ d ∈ c :: s, isInert d = true) :
    SqlMode.code.run ('-' :: c :: s) = .code := by
  obtain ⟨here, later⟩ := List.forall_mem_cons.mp inert
  have other : c ≠ '-' := by
    rintro rfl
    cases here
  have first : SqlMode.dash.after c = .code := (if_neg other).trans (after_of_isInert here)
  change (SqlMode.dash.after c).run s = .code
  rw [first]
  exact run_of_isInert later

theorem even_integerText (n : Int) : Even (integerText n) := by
  have digits (m : Nat) : ∀ c ∈ digitsOf m, isInert c = true :=
    fun c inside => isInert_of_isDigit (digits_digitsOf m c inside)
  rw [Even]
  cases n with
  | ofNat m =>
      rw [integerText, String.toList_ofList]
      exact run_of_isInert (digits m)
  | negSucc m =>
      rw [integerText, String.toList_ofList]
      have some : digitsOf (m + 1) ≠ [] := Nat.toDigits_ne_nil
      obtain ⟨c, rest, spelled⟩ := List.exists_cons_of_ne_nil some
      have inert := digits (m + 1)
      rw [spelled] at inert ⊢
      exact run_dash inert

theorem even_text (format : BinaryFormat) (x : Binary) : Even (x.text format) := by
  have decimal : isDecimal (if x.significand = 0 then ['0'] else
      Binary.positional (Binary.shortest format x).1 (Binary.shortest format x).2) = true := by
    split
    next => decide
    next => exact isDecimal_positional _ _
  obtain ⟨s, decimal, spelled⟩ : ∃ s, isDecimal s = true ∧
      (x.text format).toList = if x.negative then '-' :: s else s :=
    ⟨_, decimal, String.toList_ofList⟩
  have inert : ∀ c ∈ s, isInert c = true := fun c inside => by
    rcases isDigit_or_point decimal inside with digit | rfl
    · exact isInert_of_isDigit digit
    · rfl
  obtain ⟨c, rest, rfl, -⟩ := exists_symbol_of_isDecimal decimal
  rw [Even, spelled]
  split
  next => exact run_dash inert
  next => exact run_of_isInert inert

theorem isInert_of_mem_hexPair {byte : UInt8} {c : Char} (inside : c ∈ Literal.hexPair byte) :
    isInert c = true := by
  have digit : ∀ n < 16, isInert (Nat.digitChar n).toUpper = true := by decide
  have small : byte.toNat < 256 := byte.toNat_lt
  rw [Literal.hexPair] at inside
  rcases List.mem_pair.mp inside with rfl | rfl
  · exact digit _ (by omega)
  · exact digit _ (by omega)

/-- Every constant is closed, and nothing is open behind it. -/
theorem settled_sqlConstant {d : DefaultValue} (constant : ∀ e, d ≠ .function e) :
    (SqlMode.code.run d.sqlConstant.toList).Settled := by
  have quoted {value : List Char} (plain : '\'' ∉ value) :
      SqlMode.literal.run (value ++ ['\'']) = .quote := by
    rw [SqlMode.run_append, run_literal plain]
    rfl
  cases d with
  | null => decide
  | function e => exact absurd rfl (constant e)
  | literal l =>
      cases l with
      | boolean value => cases value <;> decide
      | byteArray bytes =>
          have inert : ∀ c ∈ '0' :: 'x' :: bytes.flatMap Literal.hexPair, isInert c = true := by
            refine List.forall_mem_cons.mpr ⟨rfl, List.forall_mem_cons.mpr ⟨rfl, fun c inside => ?_⟩⟩
            obtain ⟨byte, -, found⟩ := List.mem_flatMap.mp inside
            exact isInert_of_mem_hexPair found
          rw [DefaultValue.sqlConstant, Literal.sqlConstant, String.toList_ofList,
            run_of_isInert inert]
          exact SqlMode.settled_code
      | dateTime value =>
          have spelled : (Literal.dateTime value).sqlConstant.toList =
              "\x7bts '".toList ++ (value.toMillisecond ++ ['\'']) ++ ['\x7d'] := by
            simp [Literal.sqlConstant]
          have opened : SqlMode.code.run "\x7bts '".toList = .literal := by decide
          rw [DefaultValue.sqlConstant, spelled, SqlMode.run_append, SqlMode.run_append, opened,
            quoted (apostrophe_notMem_toMillisecond value)]
          exact SqlMode.settled_code
      | double value => exact (even_text .double value).settled
      | single value => exact (even_text .single value).settled
      | int32 value => exact (even_integerText value).settled
      | enumeration value => exact (even_integerText value).settled
      | guid value =>
          have spelled : (Literal.guid value).sqlConstant.toList =
              '\'' :: (value.hyphenated.toList ++ ['\'']) := by
            simp [Literal.sqlConstant]
          have closes := quoted (apostrophe_notMem_hyphenated value)
          rw [DefaultValue.sqlConstant, spelled]
          exact closes ▸ SqlMode.settled_quote
      | string value =>
          rw [DefaultValue.sqlConstant, Literal.sqlConstant, run_sqlString]
          exact SqlMode.settled_quote
      | xml value =>
          rw [DefaultValue.sqlConstant, Literal.sqlConstant, run_sqlString]
          exact SqlMode.settled_quote

theorem even_sqlType (t : ValueType) (length : Option Int) : Even (t.sqlType length) := by
  have word : Even (SqlType.word t.descriptor.sqlType) := by
    cases t <;> decide
  unfold ValueType.sqlType
  split
  next name fixed =>
    rw [fixed] at word
    exact word
  next name limit sized =>
    rw [sized] at word
    have unlimited : Even (name ++ "(max)") := word.append (by decide)
    split
    next n =>
      split
      next => exact ((word.append (by decide)).append (even_integerText n)).append (by decide)
      next => exact unlimited
    next => exact unlimited

end Even

/-! ## Lines -/

/-- A statement with closed fragments, and with names that open nothing. -/
def Statement.Fine (st : Statement) : Prop :=
  ∀ seg ∈ st.segments, seg.Fine

theorem fine_ofLine {l : Line} (closed : Closed l.text.toList) : (Segment.ofLine l).Fine :=
  .inl ⟨_, rfl, closed⟩

theorem fine_ofLines (ls : List Line) (closed : ∀ l ∈ ls, Closed l.text.toList) :
    ∀ seg ∈ ls.map Segment.ofLine, seg.Fine :=
  List.forall_mem_map.mpr fun l inside => fine_ofLine (closed l inside)

/-- Lines are closed if they are further in. -/
theorem closed_indented {ls : List Line} (closed : ∀ l ∈ ls, Closed l.text.toList) :
    ∀ l ∈ indented ls, Closed l.text.toList :=
  List.forall_mem_map.mpr closed

theorem closed_comment {text : String} (row : OneRow text) : Closed ("-- " ++ text).toList := by
  have stays {t : List Char} (plain : '\n' ∉ t) : SqlMode.comment.run t = .comment := by
    induction t with
    | nil => rfl
    | cons c t ih =>
        obtain ⟨other, later⟩ := List.ne_and_not_mem_of_not_mem_cons plain
        have kept : SqlMode.comment.after c = .comment := if_neg other.symm
        rw [SqlMode.run, List.foldl_cons, kept]
        exact ih later
  have opened : SqlMode.code.run "-- ".toList = .comment := by decide
  rw [Closed, String.toList_append, SqlMode.run_append, opened, stays row]
  rfl

theorem even_quoted_plus (text : String) : Even (sqlString text ++ " +") := by
  rw [Even, String.toList_append, SqlMode.run_append, run_sqlString]
  decide

theorem closed_sqlString (text : String) : Closed (sqlString text).toList := by
  rw [Closed, run_sqlString]
  rfl

theorem closed_record (r : Record) : ∀ l ∈ r.lines, Closed l.text.toList := by
  refine List.forall_mem_append.mpr ⟨List.forall_mem_cons.mpr ⟨?_, ?_⟩, ?_⟩
  · exact (even_quoted_plus _).closed
  · exact closed_indented (List.forall_mem_map.mpr fun m _ => (even_quoted_plus _).closed)
  · exact List.forall_mem_singleton.mpr (closed_sqlString _)

theorem closed_documentLines (rs : List Record) :
    ∀ l ∈ documentLines rs, Closed l.text.toList := by
  refine List.forall_mem_append.mpr ⟨List.forall_mem_append.mpr ⟨by decide, ?_⟩, by decide⟩
  intro l inside
  obtain ⟨r, -, found⟩ := List.mem_flatMap.mp inside
  rcases List.mem_cons.mp found with rfl | later
  · decide
  · exact closed_indented (closed_record r) l later

/-- A command without apostrophes is quoted as it is. -/
theorem even_modifyLine {command : String} (plain : '\'' ∉ command.toList) :
    Even (modifyLine command).text := by
  have opened : SqlMode.code.run "UPDATE Configuration SET SchemaDefinition.modify('".toList =
      .literal := by decide
  have closes : SqlMode.literal.run "')".toList = .code := by decide
  rw [Even, modifyLine, line, String.toList_append, String.toList_append, SqlMode.run_append,
    SqlMode.run_append, opened, run_literal plain, closes]

namespace Statement

variable {name table : String}

/-- Whether a statement has no fragments, so that each of its lines is a segment of its own. -/
def isMade : Statement → Bool
  | snippet _ | createTable _ _ | createFunction _ => false
  | _ => true

theorem segments_of_isMade {st : Statement} (made : st.isMade = true) :
    st.segments = st.lines.map Segment.ofLine := by
  cases st with
  | snippet => cases made
  | createTable => cases made
  | createFunction => cases made
  | _ => rfl

theorem fine_of_lines {st : Statement} (made : st.isMade = true)
    (closed : ∀ l ∈ st.lines, Closed l.text.toList) : st.Fine := by
  rw [Fine, segments_of_isMade made]
  exact fine_ofLines _ closed

theorem fine_snippet {text : String} (closed : Closed text.toList) : (snippet text).Fine :=
  List.forall_mem_singleton.mpr (.inl ⟨_, rfl, closed⟩)

theorem fine_comment {text : String} (row : OneRow text) : (comment text).Fine :=
  fine_of_lines rfl (List.forall_mem_singleton.mpr (closed_comment row))

theorem fine_raiseIf {condition : String} (closed : Closed condition.toList) (message : String) :
    (raiseIf condition message).Fine := by
  have raised : Even ("RAISERROR(N" ++ sqlString message ++ ",16,1)") := by
    have opened : SqlMode.code.run "RAISERROR(N".toList = .code := by decide
    have closes : SqlMode.quote.run ",16,1)".toList = .code := by decide
    rw [Even, String.toList_append, String.toList_append, SqlMode.run_append, SqlMode.run_append,
      opened, run_sqlString, closes]
  refine fine_of_lines rfl (List.forall_mem_append.mpr ⟨List.forall_mem_append.mpr
    ⟨List.forall_mem_cons.mpr ⟨?_, by decide⟩, ?_⟩, by decide⟩)
  · exact Even.append_closed (by decide) closed
  · exact closed_indented (List.forall_mem_cons.mpr ⟨raised.closed, by decide⟩)

theorem fine_turnOn {setting : String} (even : Even setting) : (turnOn setting).Fine :=
  fine_of_lines rfl (List.forall_mem_singleton.mpr
    ((Even.append (by decide) even).append (by decide)).closed)

theorem fine_dropRecorded : dropRecorded.Fine := by
  have query {entry : String × String} (key : '\'' ∉ entry.1.toList)
      (element : '\'' ∉ entry.2.toList) : ∀ l ∈ recordedQuery entry, Closed l.text.toList := by
    have quoted {a b : List Char} {text : String} (opened : SqlMode.code.run a = .literal)
        (plain : '\'' ∉ text.toList) (closes : SqlMode.literal.run b = .code) :
        Closed (String.ofList a ++ text ++ String.ofList b).toList := by
      rw [Closed, String.toList_append, String.toList_append, String.toList_ofList,
        String.toList_ofList, SqlMode.run_append, SqlMode.run_append, opened, run_literal plain,
        closes]
      rfl
    refine List.forall_mem_cons.mpr ⟨quoted (by decide) key (by decide),
      List.forall_mem_cons.mpr ⟨(even_ofList (by decide)).closed, List.forall_mem_cons.mpr
        ⟨quoted (by decide) element (by decide), List.forall_mem_singleton.mpr
          (quoted (by decide) key (by decide))⟩⟩⟩
  have plain : ∀ entry ∈ recordedFunctions, '\'' ∉ entry.1.toList ∧ '\'' ∉ entry.2.toList := by
    decide
  refine fine_of_lines rfl (List.forall_mem_append.mpr ⟨List.forall_mem_append.mpr
    ⟨List.forall_mem_append.mpr ⟨List.forall_mem_append.mpr ⟨by decide +kernel, ?_⟩,
      by decide +kernel⟩, closed_indented (by decide +kernel)⟩, by decide +kernel⟩)
  intro l inside
  rcases mem_or_mem_of_mem_intercalate inside with between | ⟨part, member, found⟩
  · exact (by decide : ∀ l ∈ [line "UNION"], Closed l.text.toList) l between
  · obtain ⟨entry, known, rfl⟩ := List.mem_map.mp member
    exact query (plain entry known).1 (plain entry known).2 l found

theorem fine_deleteAttribute {name : String} (plain : '\'' ∉ name.toList) :
    (deleteAttribute name).Fine := by
  refine fine_of_lines rfl (List.forall_mem_singleton.mpr (Even.closed (even_modifyLine ?_)))
  rw [String.toList_append, List.mem_append, not_or]
  exact ⟨by decide, plain⟩

theorem fine_deleteRecords {element : String} (plain : '\'' ∉ element.toList) :
    (deleteRecords element).Fine := by
  refine fine_of_lines rfl (List.forall_mem_singleton.mpr (Even.closed (even_modifyLine ?_)))
  rw [String.toList_append, List.mem_append, not_or]
  exact ⟨by decide, plain⟩

theorem fine_setDocument (rs : List Record) : (setDocument rs).Fine :=
  fine_of_lines rfl (closed_documentLines rs)

theorem fine_grant (permission : Permission) (even : Even name) : (grant permission name).Fine := by
  have granted : Even ("GRANT " ++ permission.text) := by
    cases permission <;> decide
  refine fine_of_lines rfl (List.forall_mem_singleton.mpr (Even.closed ?_))
  exact (((granted.append (by decide)).append (even_bracketed even)).append (by decide)).append
    (by decide)

theorem fine_createEnumTable (even : Even name) : (createEnumTable name).Fine := by
  refine fine_of_lines rfl (List.forall_mem_cons.mpr ⟨Even.closed ?_, by decide⟩)
  exact (Even.append (by decide) (even_bracketed even)).append (by decide)

theorem fine_identityInsert (even : Even table) (on : Bool) : (identityInsert table on).Fine := by
  have switch : Even (if on then " ON" else " OFF") := by
    cases on <;> decide
  refine fine_of_lines rfl (List.forall_mem_singleton.mpr (Even.closed ?_))
  exact (Even.append (by decide) (even_bracketed even)).append switch

theorem fine_insertRow (even : Even table) (id : Int) (name : String) :
    (insertRow table id name).Fine := by
  refine fine_of_lines rfl ?_
  refine List.forall_mem_append.mpr ⟨List.forall_mem_append.mpr ⟨List.forall_mem_append.mpr
    ⟨List.forall_mem_cons.mpr ⟨Even.closed ?_, by decide⟩, by decide⟩, ?_⟩, by decide⟩
  · exact (Even.append (by decide) (even_bracketed even)).append (by decide)
  · refine closed_indented (List.forall_mem_cons.mpr ⟨Even.closed ?_, ?_⟩)
    · exact (even_integerText id).append (by decide)
    · exact List.forall_mem_singleton.mpr (closed_sqlString name)

theorem fine_addForeignKey {k : ForeignKey} (owner : Even k.table) (column : Even k.column)
    (target : Even k.target) : (addForeignKey k).Fine := by
  have key : Even k.name := ((Even.append (by decide) owner).append (by decide)).append column
  have cascade : Even (if k.cascade then " ON DELETE CASCADE" else "") := by
    cases k.cascade <;> decide
  refine fine_of_lines rfl (List.forall_mem_cons.mpr ⟨Even.closed ?_, List.forall_mem_cons.mpr
    ⟨Even.closed ?_, List.forall_mem_singleton.mpr (Even.closed ?_)⟩⟩)
  · exact Even.append (by decide) (even_bracketed owner)
  · exact (((Even.append (by decide) key).append (by decide)).append
      (even_bracketed column)).append (by decide)
  · exact ((Even.append (by decide) (even_bracketed target)).append (by decide)).append cascade

theorem fine_insertAttribute {itemType name value : String} (owner : Over isWordChar itemType)
    (key : Over isWordChar name) (content : Over isWordChar value) :
    (insertAttribute itemType name value).Fine := by
  have plain {text : String} (words : Over isWordChar text) : '\'' ∉ text.toList :=
    fun inside => absurd (words _ inside) (by decide)
  refine fine_of_lines rfl (List.forall_mem_singleton.mpr (Even.closed (even_modifyLine ?_)))
  simp only [String.toList_append, List.mem_append, plain owner, plain key, plain content]
  decide

theorem fine_insertRecord (r : Record) : (insertRecord r).Fine := by
  refine fine_of_lines rfl (List.forall_mem_append.mpr ⟨List.forall_mem_append.mpr
    ⟨by decide, ?_⟩, by decide⟩)
  exact closed_indented (List.forall_mem_append.mpr ⟨closed_record r, by decide⟩)

end Statement

/-! ## Columns and headers -/

/-- The text of a default that is a fragment. -/
def defaultFragments (default : Option DefaultValue) : List String :=
  default.toList.flatMap fun
    | .function expression => [expression]
    | _ => []

theorem fresh_append {a : String} (fresh : Fresh a.toList) (b : String) :
    Fresh (a ++ b).toList := by
  rw [String.toList_append]
  exact fresh.append _

theorem chain_made {x : String} {rest : List Piece} (fresh : Fresh x.toList) (even : Even x)
    (others : Chain rest) : Chain (.made x :: rest) :=
  .made fresh even.settled others

theorem chain_defaultPieces {lead : String} (fresh : Fresh lead.toList) (even : Even lead)
    {default : Option DefaultValue} (closed : ∀ t ∈ defaultFragments default, Closed t.toList) :
    Chain (default.toList.flatMap (defaultPieces lead)) := by
  cases default with
  | none => exact .nil
  | some d =>
      rw [Option.toList_some, List.flatMap_singleton]
      have constant (noCall : ∀ e, d ≠ .function e) : Chain [.made (lead ++ d.sqlConstant)] := by
        refine .made ?_ ?_ .nil
        · exact fresh_append fresh _
        · rw [String.toList_append, SqlMode.run_append, even]
          exact settled_sqlConstant noCall
      cases d with
      | function expression =>
          exact .fragment fresh even (closed expression List.mem_cons_self) .nil
      | null => exact constant fun _ => nofun
      | literal l => exact constant fun _ => nofun

/-- A column whose name opens nothing, with closed fragments. -/
structure TableColumn.Closes (c : TableColumn) : Prop where
  name : Even c.name
  type : Even c.type
  default : ∀ t ∈ defaultFragments c.default, Closed t.toList
  constraints : ∀ t ∈ c.constraints, Closed t.toList

theorem TableColumn.Closes.chain {c : TableColumn} (closes : c.Closes) : Chain c.pieces := by
  refine .append (.append (.append (.append (.append ?_ ?_) ?_) ?_) ?_) (.flatMap fun t inside => ?_)
  · refine chain_made ?_ ?_ .nil
    · exact fresh_append (fresh_append (fresh_append (fresh_append (by decide) _) _) _) _
    · exact ((even_bracketed closes.name).append (by decide)).append closes.type
  · split
    next => exact chain_made (by decide) (by decide) .nil
    next => exact .nil
  · split
    next => exact .nil
    next => exact chain_made (by decide) (by decide) .nil
  · exact chain_defaultPieces (by decide) (by decide) closes.default
  · cases c.checkedLength with
    | none => exact .nil
    | some n =>
        refine chain_made ?_ ?_ .nil
        · exact fresh_append (fresh_append (fresh_append (fresh_append (by decide) _) _) _) _
        · exact (((Even.append (by decide) (even_bracketed closes.name)).append (by decide)).append
            (even_integerText n)).append (by decide)
  · refine .fragment (by decide) (by decide) ?_ .nil
    rw [Closed, trimmed, String.toList_ofList, rested_run_trim]
    exact closes.constraints t inside

/-- The pieces on each of some lines with commas make a chain. -/
theorem fine_commaSegments {pss : List (List Piece)} (chains : ∀ ps ∈ pss, Chain ps) :
    ∀ seg ∈ commaSegments pss, seg.Fine := by
  have single {ps : List Piece} (chain : Chain ps) : (⟨1, ps, false⟩ : Segment).Fine :=
    .inr ⟨chain, Segment.stands_of_chain chain⟩
  have comma : Chain [.made ","] := chain_made (by decide) (by decide) .nil
  fun_induction commaSegments pss with
  | case1 => exact List.forall_mem_nil _
  | case2 last =>
      exact List.forall_mem_singleton.mpr (single (chains last List.mem_cons_self))
  | case3 ps rest more ih =>
      obtain ⟨here, later⟩ := List.forall_mem_cons.mp chains
      exact List.forall_mem_cons.mpr ⟨single (here.append comma), ih later⟩

theorem Statement.fine_createTable {name : String} {columns : List TableColumn}
    (even : Even name) (closes : ∀ c ∈ columns, c.Closes) : (createTable name columns).Fine := by
  refine List.forall_mem_append.mpr ⟨List.forall_mem_cons.mpr ⟨fine_ofLine (Even.closed ?_), ?_⟩,
    fine_ofLines [line ")"] (by decide)⟩
  · exact (Even.append (by decide) (even_bracketed even)).append (by decide)
  · refine fine_commaSegments (List.forall_mem_cons.mpr ⟨?_, ?_⟩)
    · exact chain_made (by decide) (by decide) .nil
    · exact List.forall_mem_map.mpr fun c inside => (closes c inside).chain

/-! ## Functions -/

structure FunctionParameter.Closes (p : FunctionParameter) : Prop where
  name : Even p.name
  type : Even p.type
  default : ∀ t ∈ defaultFragments p.default, Closed t.toList

theorem FunctionParameter.Closes.chain {p : FunctionParameter} (closes : p.Closes) :
    Chain p.pieces := by
  refine chain_made ?_ ?_ (chain_defaultPieces (by decide) (by decide) closes.default)
  · exact fresh_append (fresh_append (fresh_append (by decide) _) _) _
  · exact ((Even.append (by decide) closes.name).append (by decide)).append closes.type

theorem SqlFunction.chain_headerPieces (f : SqlFunction) (even : Even f.name)
    (closes : ∀ p ∈ f.parameters, p.Closes) : Chain f.headerPieces := by
  refine .append (.append (chain_made ?_ ?_ .nil) ?_) (chain_made (by decide) (by decide) .nil)
  · exact fresh_append (fresh_append (by decide) _) _
  · exact (Even.append (by decide) (even_bracketed even)).append (by decide)
  · exact .flatMap fun p inside => (closes p inside).chain

namespace FunctionBody

/-- The alternatives behind the first one. -/
def otherPieces (expressions : List String) : List Piece :=
  expressions.flatMap fun e => .made " | " :: enclosed e

theorem chain_enclosed {e : String} (closed : Closed e.toList) : Chain (enclosed e) :=
  .fragment (by decide) (by decide) closed (chain_made (by decide) (by decide) .nil)

theorem chain_unionPieces {expressions : List String}
    (closed : ∀ e ∈ expressions, Closed e.toList) : Chain (unionPieces expressions) := by
  cases expressions with
  | nil => exact chain_made (by decide) (by decide) .nil
  | cons first rest =>
      obtain ⟨here, later⟩ := List.forall_mem_cons.mp closed
      refine chain_made (by decide) (by decide) ((chain_enclosed here).append (.flatMap ?_))
      exact fun e inside => chain_made (by decide) (by decide) (chain_enclosed (later e inside))

/-- What follows an expression is a parenthesis. -/
theorem closes_of_split {first t x : String} {rest : List String} {a b : List Piece}
    (split : enclosed first ++ otherPieces rest = a ++ .fragment t :: .made x :: b) :
    x = ")" := by
  induction rest generalizing first a with
  | nil =>
      match a, split with
      | [], same => cases same
      | [_], same =>
          cases same
          rfl
      | [_, _], same => cases same
      | _ :: _ :: _ :: [], same => cases same
      | _ :: _ :: _ :: _ :: _, same => cases same
  | cons next rest ih =>
      match a, split with
      | [], same => cases same
      | [_], same =>
          cases same
          rfl
      | [_, _], same => cases same
      | [_, _, _], same => cases same
      | _ :: _ :: _ :: _ :: a, same =>
          simp only [enclosed, otherPieces, List.flatMap_cons, List.cons_append, List.nil_append,
            List.cons.injEq] at same
          exact ih same.2.2.2.2

theorem exists_concat (first : String) (rest : List String) :
    ∃ ps, enclosed first ++ otherPieces rest = ps ++ [.made ")"] := by
  rcases List.eq_nil_or_concat' rest with rfl | ⟨front, last, rfl⟩
  · exact ⟨[.made "(", .fragment first], rfl⟩
  · refine ⟨enclosed first ++ otherPieces front ++ [.made " | ", .made "(", .fragment last], ?_⟩
    simp [otherPieces, enclosed]

theorem stands_unionPieces (expressions : List String) :
    (⟨1, unionPieces expressions, true⟩ : Segment).Stands := by
  intro a t x b pieces
  cases expressions with
  | nil =>
      have short := congrArg List.length pieces
      simp only [unionPieces, List.length_append, List.length_cons, List.length_nil] at short
      omega
  | cons first rest =>
      obtain ⟨ps, ends⟩ := exists_concat first rest
      have listed : unionPieces (first :: rest) = .made "RETURN " :: (ps ++ [.made ")"]) :=
        congrArg (List.cons _) ends
      have mark : x = ")" := by
        cases a with
        | nil => cases pieces
        | cons p a => exact closes_of_split (List.cons.inj pieces).2
      have whole : piecesText (unionPieces (first :: rest)) =
          piecesText (a ++ [.fragment t]) ++ ')' :: piecesText b := by
        have cut : unionPieces (first :: rest) = a ++ .fragment t :: .made x :: b := pieces
        rw [cut, mark, List.append_cons, piecesText_append, piecesText_cons]
        rfl
      have enclosing : piecesText (unionPieces (first :: rest)) =
          'R' :: ("ETURN ".toList ++ piecesText ps) ++ [')'] := by
        rw [listed, piecesText_cons, piecesText_append, piecesText_cons, piecesText_nil,
          List.append_nil, List.cons_append, List.append_assoc]
        rfl
      have kept : trim (piecesText (unionPieces (first :: rest))) =
          piecesText (unionPieces (first :: rest)) := by
        rw [enclosing, trim_enclosed _ (by decide) (by decide)]
      have solid : piecesText (unionPieces (first :: rest)) ≠ [] := by
        rw [enclosing]
        exact List.append_ne_nil_of_right_ne_nil _ (List.cons_ne_nil _ _)
      have text : (⟨1, unionPieces (first :: rest), true⟩ : Segment).text =
          (Line.indentation 1).toList ++ (relaid 1 (piecesText (a ++ [.fragment t])) ++
            ')' :: relaid 1 (piecesText b)) ++ ['\n'] := by
        change reindented 1 (String.ofList _) = _
        rw [reindented_eq, String.toList_ofList, kept, if_neg solid, whole, relaid_append rfl]
      rw [text, mark, Segment.front, if_pos rfl, List.append_assoc, List.append_assoc,
        List.append_assoc]
      exact (List.prefix_append_right_inj _).mpr ((List.prefix_append_right_inj _).mpr
        (List.prefix_append _ _))

/-- A body with closed fragments, and with names that open nothing. -/
def Closes : FunctionBody → Prop
  | granted expressions => ∀ t ∈ expressions, Closed t.toList
  | query text => Closed text.toList
  | everyRow columns table => (∀ name ∈ columns, Even name) ∧ Even table

theorem fine_segments {body : FunctionBody} (closes : body.Closes) :
    ∀ seg ∈ body.segments, seg.Fine := by
  cases body with
  | granted expressions =>
      refine List.forall_mem_append.mpr ⟨fine_ofLines _ (by decide), List.forall_mem_cons.mpr
        ⟨.inr ⟨chain_unionPieces closes, stands_unionPieces expressions⟩,
          fine_ofLines [line "END"] (by decide)⟩⟩
  | query text =>
      refine List.forall_mem_append.mpr ⟨fine_ofLines _ (by decide), List.forall_mem_cons.mpr
        ⟨.inl ⟨_, rfl, closes⟩, fine_ofLines [line ")"] (by decide)⟩⟩
  | everyRow columns table =>
      obtain ⟨names, source⟩ := closes
      have selected : Even (String.join (columns.map fun c => ", " ++ bracketed c)) :=
        even_join (List.forall_mem_map.mpr fun c inside =>
          Even.append (by decide) (even_bracketed (names c inside)))
      refine fine_ofLines (lines (everyRow columns table)) ?_
      refine List.forall_mem_append.mpr ⟨List.forall_mem_append.mpr ⟨by decide, ?_⟩, by decide⟩
      refine closed_indented (List.forall_mem_cons.mpr ⟨Even.closed ?_,
        List.forall_mem_singleton.mpr (Even.closed ?_)⟩)
      · exact Even.append (by decide) selected
      · exact Even.append (by decide) (even_bracketed source)

end FunctionBody

structure SqlFunction.Closes (f : SqlFunction) : Prop where
  name : Even f.name
  parameters : ∀ p ∈ f.parameters, p.Closes
  body : f.body.Closes

theorem Statement.fine_createFunction {f : SqlFunction} (closes : f.Closes) :
    (createFunction f).Fine := by
  have header := f.chain_headerPieces closes.name closes.parameters
  exact List.forall_mem_cons.mpr ⟨.inr ⟨header, Segment.stands_of_chain header⟩,
    FunctionBody.fine_segments closes.body⟩

end LearningStore.Script
