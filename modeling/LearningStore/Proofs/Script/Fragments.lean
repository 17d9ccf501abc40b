import LearningStore.Proofs.Script.SteadyStatements
import LearningStore.Proofs.Text.Literals

/-!
# Fragments in scripts

A script has fragments of a schema in it as they are: expressions, constraints, queries and
snippets.  Where a fragment stands inside a line that is made, the rest of the line follows it.
A statement is written in segments, each of them pieces on a row of its own, and every piece is
made or a fragment.
-/

namespace LearningStore.Script

open LearningStore.Schema
open LearningStore.Text
open LearningStore.Value

/-! ## Pieces and segments -/

inductive Piece where
  | made (text : String)
  | fragment (text : String)
deriving DecidableEq, Repr

def Piece.text : Piece → String
  | made text => text
  | fragment text => text

/-- The text of pieces one behind the other. -/
def piecesText (ps : List Piece) : List Char :=
  ps.flatMap fun p => p.text.toList

/-- Pieces on rows of their own: a line at a level, or free-form text that is reindented. -/
structure Segment where
  level : Nat
  pieces : List Piece
  freeForm : Bool
deriving DecidableEq, Repr

namespace Segment

def text (seg : Segment) : List Char :=
  let whole := String.ofList (piecesText seg.pieces)
  if seg.freeForm then reindented seg.level whole else (⟨seg.level, whole⟩ : Line).render.toList

/-- What a segment is written as up to the end of some of its pieces. -/
def front (seg : Segment) (ps : List Piece) : List Char :=
  (Line.indentation seg.level).toList ++
    if seg.freeForm then relaid seg.level (piecesText ps) else piecesText ps

/-- A line that is made. -/
def ofLine (l : Line) : Segment :=
  ⟨l.level, [.made l.text], false⟩

end Segment

/-- A default behind a lead.  An expression is a fragment. -/
def defaultPieces (lead : String) : DefaultValue → List Piece
  | .function expression => [.made lead, .fragment expression]
  | d => [.made (lead ++ d.sqlConstant)]

/-- The pieces of the definition of a column. -/
def TableColumn.pieces (c : TableColumn) : List Piece :=
  [.made (bracketed c.name ++ " " ++ c.type)] ++
  (if c.rowGuid then [.made " ROWGUIDCOL"] else []) ++
  (if c.nullable then [] else [.made " NOT NULL"]) ++
  c.default.toList.flatMap (defaultPieces " DEFAULT ") ++
  (c.checkedLength.toList.map fun n =>
    .made (" CHECK(LEN(" ++ bracketed c.name ++ ")<=" ++ integerText n ++ ")")) ++
  c.constraints.flatMap fun text => [.made " ", .fragment (trimmed text)]

/-- Lines one level further in, with a comma after all but the last. -/
def commaSegments : List (List Piece) → List Segment
  | [] => []
  | [last] => [⟨1, last, false⟩]
  | ps :: rest => ⟨1, ps ++ [.made ","], false⟩ :: commaSegments rest

def FunctionParameter.pieces (p : FunctionParameter) : List Piece :=
  .made (",@" ++ p.name ++ " " ++ p.type) :: p.default.toList.flatMap (defaultPieces "=")

def SqlFunction.headerPieces (f : SqlFunction) : List Piece :=
  [.made ("CREATE FUNCTION " ++ bracketed f.name ++ "(@UserKey nvarchar(250)")] ++
    f.parameters.flatMap FunctionParameter.pieces ++ [.made ")"]

namespace FunctionBody

/-- An expression in parentheses. -/
def enclosed (expression : String) : List Piece :=
  [.made "(", .fragment expression, .made ")"]

def unionPieces : List String → List Piece
  | [] => [.made "RETURN "]
  | first :: rest =>
      .made "RETURN " :: enclosed first ++ rest.flatMap fun e => .made " | " :: enclosed e

def segments : FunctionBody → List Segment
  | granted expressions =>
      [line "RETURNS bit", line "AS", line "BEGIN"].map Segment.ofLine ++
        [⟨1, unionPieces expressions, true⟩, .ofLine (line "END")]
  | query text =>
      [line "RETURNS TABLE", line "AS", line "RETURN ("].map Segment.ofLine ++
        [⟨1, [.fragment text], true⟩, .ofLine (line ")")]
  | body => body.lines.map Segment.ofLine

end FunctionBody

/-- The segments of a statement. -/
def Statement.segments : Statement → List Segment
  | snippet text => [⟨0, [.fragment text], true⟩]
  | createTable name columns =>
      .ofLine (line ("CREATE TABLE " ++ bracketed name ++ "(")) ::
        commaSegments ([.made idDefinition] :: columns.map TableColumn.pieces) ++
        [.ofLine (line ")")]
  | createFunction f => ⟨0, f.headerPieces, false⟩ :: f.body.segments
  | st => st.lines.map Segment.ofLine

def segments (script : List Statement) : List Segment :=
  script.flatMap Statement.segments

/-- The text of segments one behind the other. -/
def segmentsText (segs : List Segment) : List Char :=
  segs.flatMap Segment.text

/-! ## What segments are written as -/

section Texts

variable {a b : List Piece} {ls : List Line}

theorem piecesText_append : piecesText (a ++ b) = piecesText a ++ piecesText b :=
  List.flatMap_append

theorem piecesText_cons (p : Piece) (ps : List Piece) :
    piecesText (p :: ps) = p.text.toList ++ piecesText ps :=
  List.flatMap_cons

theorem piecesText_nil : piecesText [] = [] := rfl

theorem piecesText_flatMap {α : Type} (xs : List α) (f : α → List Piece) :
    piecesText (xs.flatMap f) = xs.flatMap fun x => piecesText (f x) :=
  List.flatMap_assoc

theorem segmentsText_append (as bs : List Segment) :
    segmentsText (as ++ bs) = segmentsText as ++ segmentsText bs :=
  List.flatMap_append

theorem segmentsText_cons (seg : Segment) (segs : List Segment) :
    segmentsText (seg :: segs) = seg.text ++ segmentsText segs :=
  List.flatMap_cons

/-- A line is a segment with its text as one piece, or as several. -/
theorem Segment.text_of_line {l : Line} {ps : List Piece} (same : piecesText ps = l.text.toList) :
    (⟨l.level, ps, false⟩ : Segment).text = l.render.toList := by
  have whole : String.ofList (piecesText ps) = l.text := by
    rw [same, String.ofList_toList]
  exact congrArg (fun text => (⟨l.level, text⟩ : Line).render.toList) whole

theorem segmentsText_ofLine (ls : List Line) :
    segmentsText (ls.map Segment.ofLine) = (renderLines ls).toList := by
  induction ls with
  | nil => rfl
  | cons l ls ih =>
      rw [List.map_cons, segmentsText_cons, ih, renderLines_cons, String.toList_append,
        Segment.ofLine, Segment.text_of_line]
      exact List.append_nil _

theorem piecesText_defaultPieces (lead : String) (d : DefaultValue) :
    piecesText (defaultPieces lead d) = lead.toList ++ d.sqlConstant.toList := by
  cases d with
  | function expression =>
      rw [defaultPieces, piecesText_cons, piecesText_cons, piecesText_nil, List.append_nil]
      rfl
  | _ =>
      rw [defaultPieces, piecesText_cons, piecesText_nil, List.append_nil, Piece.text,
        String.toList_append]
      exact nofun

theorem FunctionParameter.piecesText_pieces (p : FunctionParameter) :
    piecesText p.pieces = p.text.toList := by
  rw [pieces, piecesText_cons, piecesText_flatMap, text, String.toList_append, String.toList_join,
    List.flatMap_map]
  refine congrArg _ (List.flatMap_congr fun d _ => ?_)
  rw [piecesText_defaultPieces, String.toList_append]

theorem SqlFunction.piecesText_headerPieces (f : SqlFunction) :
    piecesText f.headerPieces = f.header.toList := by
  have parameters : (String.join (f.parameters.map FunctionParameter.text)).toList =
      piecesText (f.parameters.flatMap FunctionParameter.pieces) := by
    rw [String.toList_join, List.flatMap_map, piecesText_flatMap]
    exact List.flatMap_congr fun p _ => p.piecesText_pieces.symm
  unfold header
  rw [String.toList_append, String.toList_append, parameters, headerPieces, piecesText_append,
    piecesText_append, piecesText_cons, piecesText_cons, piecesText_nil, List.append_nil,
    List.append_nil]
  rfl

theorem TableColumn.piecesText_pieces (c : TableColumn) :
    piecesText c.pieces = c.definition.toList := by
  let led (clause : String) : List Char := " ".toList ++ clause.toList
  have rowGuid : ((if c.rowGuid then ["ROWGUIDCOL"] else []).map led).flatten =
      piecesText (if c.rowGuid then [.made " ROWGUIDCOL"] else []) := by
    split <;> rfl
  have nullable : ((if c.nullable then [] else ["NOT NULL"]).map led).flatten =
      piecesText (if c.nullable then [] else [.made " NOT NULL"]) := by
    split <;> rfl
  have default : ((c.default.toList.map fun d => "DEFAULT " ++ d.sqlConstant).map led).flatten =
      piecesText (c.default.toList.flatMap (defaultPieces " DEFAULT ")) := by
    rw [List.map_map, piecesText_flatMap, List.flatMap_def]
    refine congrArg List.flatten (List.map_congr_left fun d _ => ?_)
    rw [piecesText_defaultPieces, Function.comp_apply]
    simp only [led, String.toList_append]
    rfl
  have checked : ((c.checkedLength.toList.map fun n =>
        "CHECK(LEN(" ++ bracketed c.name ++ ")<=" ++ integerText n ++ ")").map led).flatten =
      piecesText (c.checkedLength.toList.map fun n =>
        .made (" CHECK(LEN(" ++ bracketed c.name ++ ")<=" ++ integerText n ++ ")")) := by
    rw [List.map_map, piecesText, List.flatMap_map, List.flatMap_def]
    refine congrArg List.flatten (List.map_congr_left fun n _ => ?_)
    simp only [led, Function.comp_apply, Piece.text, String.toList_append]
    rfl
  have constraints : ((c.constraints.map trimmed).map led).flatten =
      piecesText (c.constraints.flatMap fun text => [.made " ", .fragment (trimmed text)]) := by
    rw [List.map_map, piecesText_flatMap, List.flatMap_def]
    refine congrArg List.flatten (List.map_congr_left fun text _ => ?_)
    rw [piecesText_cons, piecesText_cons, piecesText_nil, List.append_nil]
    rfl
  rw [definition, toList_intercalate_cons, List.map_cons, List.flatten_cons, clauses,
    List.map_append, List.map_append, List.map_append, List.map_append, List.flatten_append,
    List.flatten_append, List.flatten_append, List.flatten_append, rowGuid, nullable, default,
    checked, constraints, pieces, piecesText_append, piecesText_append, piecesText_append,
    piecesText_append, piecesText_append, piecesText_cons, piecesText_nil, Piece.text,
    String.toList_append, String.toList_append]
  simp only [List.append_assoc, List.append_nil]

theorem segmentsText_commaSegments (pss : List (List Piece)) :
    segmentsText (commaSegments pss) = (renderLines
      (indented (commaLines (pss.map fun ps => String.ofList (piecesText ps))))).toList := by
  have column (ps : List Piece) (text : String) (same : piecesText ps = text.toList) :
      (⟨1, ps, false⟩ : Segment).text = (⟨1, text⟩ : Line).render.toList :=
    Segment.text_of_line (l := ⟨1, text⟩) same
  have comma (ps : List Piece) : piecesText (ps ++ [.made ","]) =
      (String.ofList (piecesText ps) ++ ",").toList := by
    rw [piecesText_append, String.toList_append, String.toList_ofList]
    rfl
  have first (l : Line) (ls : List Line) :
      (renderLines (l :: ls)).toList = l.render.toList ++ (renderLines ls).toList := by
    rw [renderLines_cons, String.toList_append]
  fun_induction commaSegments pss with
  | case1 => rfl
  | case2 last =>
      rw [segmentsText_cons, column last _ String.toList_ofList.symm]
      exact (first _ []).symm
  | case3 ps rest more ih =>
      obtain ⟨next, others, rfl⟩ := List.exists_cons_of_ne_nil more
      rw [segmentsText_cons, ih, column _ _ (comma ps)]
      exact (first _ _).symm

theorem FunctionBody.piecesText_unionPieces (expressions : List String) :
    piecesText (unionPieces expressions) = (union expressions).toList := by
  have inside (e : String) : piecesText (enclosed e) = ("(" ++ e ++ ")").toList := by
    rw [enclosed, piecesText_cons, piecesText_cons, piecesText_cons, piecesText_nil,
      String.toList_append, String.toList_append]
    simp only [Piece.text, List.append_nil, List.append_assoc]
  cases expressions with
  | nil => rfl
  | cons first rest =>
      rw [union, List.map_cons, String.toList_append, toList_intercalate_cons, unionPieces,
        List.cons_append, piecesText_cons, piecesText_append, inside, piecesText_flatMap,
        List.map_map]
      simp only [piecesText_cons, inside, List.flatMap_def]
      rfl

/-- Free-form text is a segment with its text as one piece, or as several. -/
theorem Segment.text_of_statementLines {levels : Nat} {ps : List Piece} {text : String}
    (same : piecesText ps = text.toList) : (⟨levels, ps, true⟩ : Segment).text =
      (renderLines (indentedBy levels (statementLines text))).toList := by
  have whole : String.ofList (piecesText ps) = text := by
    rw [same, String.ofList_toList]
  rw [Segment.text, whole, if_pos rfl, reindented_eq_renderLines]

theorem toList_renderLines_append (ls more : List Line) :
    (renderLines (ls ++ more)).toList = (renderLines ls).toList ++ (renderLines more).toList := by
  rw [renderLines_append, String.toList_append]

theorem FunctionBody.segmentsText_segments (body : FunctionBody) :
    segmentsText body.segments = (renderLines body.lines).toList := by
  have around (front : List Line) (last : Line) {ps : List Piece} {text : String}
      (same : piecesText ps = text.toList) :
      segmentsText (front.map Segment.ofLine ++ [⟨1, ps, true⟩, .ofLine last]) =
        (renderLines (front ++ indented (statementLines text) ++ [last])).toList := by
    rw [segmentsText_append, segmentsText_cons, segmentsText_ofLine, toList_renderLines_append,
      toList_renderLines_append, Segment.text_of_statementLines same, List.append_assoc]
    exact congrArg _ (congrArg _ (segmentsText_ofLine [last]))
  cases body with
  | granted expressions => exact around _ _ (piecesText_unionPieces expressions)
  | query text => exact around _ _ (List.flatMap_singleton _ _)
  | everyRow columns table => exact segmentsText_ofLine _

theorem Statement.segmentsText_segments (st : Statement) :
    segmentsText st.segments = (renderLines st.lines).toList := by
  cases st with
  | snippet text =>
      have same : piecesText [.fragment text] = text.toList := List.flatMap_singleton _ _
      have unmoved : indentedBy 0 (statementLines text) = statementLines text := List.map_id _
      rw [segments, segmentsText_cons, Segment.text_of_statementLines same, unmoved]
      exact List.append_nil _
  | createTable name columns =>
      have definitions : (([.made idDefinition] :: columns.map TableColumn.pieces).map
          fun ps => String.ofList (piecesText ps)) =
            idDefinition :: columns.map TableColumn.definition := by
        rw [List.map_cons, List.map_map]
        refine congrArg₂ List.cons ?_ (List.map_congr_left fun c _ => ?_)
        · rw [piecesText_cons, piecesText_nil, List.append_nil]
          exact String.ofList_toList
        · rw [Function.comp_apply, c.piecesText_pieces, String.ofList_toList]
      have single (l : Line) : (renderLines [l]).toList = (Segment.ofLine l).text := by
        rw [← List.append_nil (Segment.ofLine l).text]
        exact (segmentsText_ofLine [l]).symm
      rw [segments, segmentsText_append, segmentsText_cons, segmentsText_commaSegments,
        definitions, lines, toList_renderLines_append, toList_renderLines_append, single, single,
        segmentsText_cons]
      exact congrArg _ (List.append_nil _)
  | createFunction f =>
      have header : (⟨0, f.headerPieces, false⟩ : Segment).text =
          (line f.header).render.toList :=
        Segment.text_of_line (l := line f.header) f.piecesText_headerPieces
      rw [segments, segmentsText_cons, f.body.segmentsText_segments, header, lines,
        SqlFunction.lines, renderLines_cons, String.toList_append]
  | _ => exact segmentsText_ofLine _

/-- A script is written as its segments are. -/
theorem segmentsText_segments (script : List Statement) :
    segmentsText (segments script) = (scriptText script).toList := by
  induction script with
  | nil => rfl
  | cons st script ih =>
      rw [segments, List.flatMap_cons, segmentsText_append, st.segmentsText_segments, ← segments,
        ih]
      exact (toList_renderLines_append _ _).symm

end Texts

end LearningStore.Script
