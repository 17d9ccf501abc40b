import LearningStore.Proofs.Script.Fragments
import LearningStore.Proofs.Text.ClosedTexts

/-!
# Comments that swallow

A fragment that ends in a comment up to the end of its row makes what follows it on the row a part
of the comment.  As long as no fragment does so, every piece that is made stands outside of
comments, and every row that starts with one does: each fragment is scanned as if it were alone.
-/

namespace LearningStore.Script

open LearningStore.Text

/-! ## Followed fragments -/

/-- The fragments among pieces that a made piece follows. -/
def followed : List Piece → List String
  | .fragment t :: .made x :: rest => t :: followed (.made x :: rest)
  | _ :: rest => followed rest
  | [] => []

/-- What is made behind a fragment on the same row: the fragment, the piece behind it, and what
the script is written as up to there. -/
def TailAt (segs : List Segment) (t x : String) (front : List Char) : Prop :=
  ∃ before seg after a b, segs = before ++ seg :: after ∧
    seg.pieces = a ++ .fragment t :: .made x :: b ∧
    front = segmentsText before ++ seg.front (a ++ [.fragment t])

/-- No fragment swallows what follows it: every made piece behind a fragment on the same row stands
outside of comments, and so does every row that starts a segment. -/
structure Unswallowed (segs : List Segment) : Prop where
  tails : ∀ t x front, TailAt segs t x front → (SqlMode.code.run front).inComment = false
  rows : ∀ before after, segs = before ++ after →
    (SqlMode.code.run (segmentsText before)).inComment = false

/-! ## Pieces -/

section Pieces

variable {ps qs : List Piece} {m : SqlMode}

theorem mem_followed_iff {t : String} :
    t ∈ followed ps ↔ ∃ a x b, ps = a ++ .fragment t :: .made x :: b := by
  fun_induction followed ps with
  | case1 s y rest ih =>
      rw [List.mem_cons, ih]
      constructor
      · rintro (rfl | ⟨a, x, b, same⟩)
        · exact ⟨[], y, rest, rfl⟩
        · exact ⟨.fragment s :: a, x, b, congrArg (List.cons _) same⟩
      · rintro ⟨a, x, b, same⟩
        cases a with
        | nil =>
            cases same
            exact .inl rfl
        | cons p a => exact .inr ⟨a, x, b, (List.cons.inj same).2⟩
  | case2 p rest other ih =>
      rw [ih]
      constructor
      · rintro ⟨a, x, b, rfl⟩
        exact ⟨p :: a, x, b, rfl⟩
      · rintro ⟨a, x, b, same⟩
        cases a with
        | nil =>
            obtain ⟨rfl, rfl⟩ := List.cons.inj same
            exact (other t x b rfl rfl).elim
        | cons q a => exact ⟨a, x, b, (List.cons.inj same).2⟩
  | case3 =>
      refine ⟨nofun, ?_⟩
      rintro ⟨a, x, b, same⟩
      cases a <;> cases same

/-- Pieces that are made start afresh, with nothing open at their ends; a closed fragment stands
behind a made piece. -/
inductive Chain : List Piece → Prop
  | nil : Chain []
  | made {x : String} {rest : List Piece} (fresh : Fresh x.toList)
      (settled : (SqlMode.code.run x.toList).Settled) (others : Chain rest) : Chain (.made x :: rest)
  | fragment {x t : String} {rest : List Piece} (fresh : Fresh x.toList)
      (even : SqlMode.code.run x.toList = .code) (closed : Closed t.toList) (others : Chain rest) :
      Chain (.made x :: .fragment t :: rest)

theorem Chain.append (first : Chain ps) (second : Chain qs) : Chain (ps ++ qs) := by
  induction first with
  | nil => exact second
  | made fresh settled _ ih => exact .made fresh settled ih
  | fragment fresh even closed _ ih => exact .fragment fresh even closed ih

theorem Chain.flatMap {α : Type} {xs : List α} {f : α → List Piece}
    (each : ∀ x ∈ xs, Chain (f x)) : Chain (xs.flatMap f) := by
  induction xs with
  | nil => exact .nil
  | cons x xs ih =>
      obtain ⟨here, later⟩ := List.forall_mem_cons.mp each
      exact here.append (ih later)

/-- Behind each followed fragment the scan stands outside of comments. -/
def ClearFrom (m : SqlMode) (ps : List Piece) : Prop :=
  ∀ a t x b, ps = a ++ .fragment t :: .made x :: b →
    (m.run (piecesText (a ++ [.fragment t]))).inComment = false

theorem clearFrom_made {x : String} : ClearFrom m (.made x :: ps) ↔
    ClearFrom (m.run x.toList) ps := by
  have shift (a : List Piece) (t : String) :
      m.run (piecesText (.made x :: a ++ [.fragment t])) =
        (m.run x.toList).run (piecesText (a ++ [.fragment t])) := by
    rw [List.cons_append, piecesText_cons, SqlMode.run_append]
    rfl
  constructor
  · rintro clear a t y b rfl
    rw [← shift]
    exact clear (.made x :: a) t y b rfl
  · intro clear a t y b same
    cases a with
    | nil => cases same
    | cons p a =>
        obtain ⟨rfl, rest⟩ := List.cons.inj same
        rw [shift]
        exact clear a t y b rest

theorem clearFrom_fragment {t : String} : ClearFrom m (.fragment t :: ps) ↔
    ((∃ x b, ps = .made x :: b) → (m.run t.toList).inComment = false) ∧
      ClearFrom (m.run t.toList) ps := by
  have alone : piecesText [.fragment t] = t.toList := List.flatMap_singleton _ _
  have shift (a : List Piece) (s : String) :
      m.run (piecesText (.fragment t :: a ++ [.fragment s])) =
        (m.run t.toList).run (piecesText (a ++ [.fragment s])) := by
    rw [List.cons_append, piecesText_cons, SqlMode.run_append]
    rfl
  constructor
  · intro clear
    refine ⟨?_, ?_⟩
    · rintro ⟨x, b, rfl⟩
      rw [← alone]
      exact clear [] t x b rfl
    · rintro a s y b rfl
      rw [← shift]
      exact clear (.fragment t :: a) s y b rfl
  · rintro ⟨here, later⟩ a s y b same
    cases a with
    | nil =>
        obtain ⟨first, rest⟩ := List.cons.inj same
        cases first
        rw [List.nil_append, alone]
        exact here ⟨y, b, rest⟩
    | cons p a =>
        obtain ⟨rfl, rest⟩ := List.cons.inj same
        rw [shift]
        exact later a s y b rest

theorem followed_made {x : String} : followed (.made x :: ps) = followed ps := by
  rw [followed]
  exact nofun

theorem Chain.eq_nil_or_made (chain : Chain ps) : ps = [] ∨ ∃ x b, ps = .made x :: b := by
  cases chain with
  | nil => exact .inl rfl
  | made fresh settled others => exact .inr ⟨_, _, rfl⟩
  | fragment fresh even closed others => exact .inr ⟨_, _, rfl⟩

theorem Chain.fresh_of_mem {x : String} (chain : Chain ps) (inside : .made x ∈ ps) :
    Fresh x.toList := by
  induction chain with
  | nil => cases inside
  | made fresh settled others ih =>
      rcases List.mem_cons.mp inside with same | later
      · cases same
        exact fresh
      · exact ih later
  | fragment fresh even closed others ih =>
      rcases List.mem_cons.mp inside with same | later
      · cases same
        exact fresh
      · exact ih ((List.mem_cons.mp later).resolve_left nofun)

theorem clearFrom_nil : ClearFrom m [] := by
  intro a t x b same
  cases a <;> cases same

/-- Each fragment of a chain is scanned as if it were alone, up to the first one that swallows what
follows it. -/
theorem Chain.scan (chain : Chain ps) (settled : m.Settled) :
    (ClearFrom m ps ↔ ∀ t ∈ followed ps, ¬EndsInComment t.toList) ∧
      ((∀ t ∈ followed ps, ¬EndsInComment t.toList) →
        (m.run (piecesText ps)).rested = .code) := by
  induction chain generalizing m with
  | nil => exact ⟨⟨fun _ => nofun, fun _ => clearFrom_nil⟩, fun _ => settled.rested⟩
  | @made x rest fresh even _ ih =>
      obtain ⟨clear, closes⟩ := ih (m := m.run x.toList) (by rw [fresh.run_eq settled]; exact even)
      rw [clearFrom_made, followed_made, piecesText_cons, SqlMode.run_append]
      exact ⟨clear, closes⟩
  | @fragment x t rest fresh even closed others ih =>
      have outside : (SqlMode.code.run t.toList).inComment = false ↔ ¬EndsInComment t.toList := by
        rw [← Bool.not_eq_true, SqlMode.inComment_iff closed]
        rfl
      rw [clearFrom_made, followed_made, piecesText_cons, piecesText_cons, SqlMode.run_append,
        SqlMode.run_append, Piece.text, fresh.run_eq settled, even, clearFrom_fragment]
      rcases others.eq_nil_or_made with rfl | ⟨y, b, rfl⟩
      · refine ⟨⟨fun _ => List.forall_mem_nil _, fun _ => ⟨?_, clearFrom_nil⟩⟩, fun _ => closed⟩
        rintro ⟨y, b, same⟩
        cases same
      · have follows : (∃ x c, Piece.made y :: b = .made x :: c) := ⟨y, b, rfl⟩
        rw [followed, List.forall_mem_cons, ← outside]
        constructor
        · constructor
          · rintro ⟨here, later⟩
            exact ⟨here follows, (ih ⟨closed, here follows⟩).1.mp later⟩
          · rintro ⟨here, later⟩
            exact ⟨fun _ => here, (ih ⟨closed, here⟩).1.mpr later⟩
        · rintro ⟨here, later⟩
          exact (ih ⟨closed, here⟩).2 later

/-- Where a made piece comes last, every fragment is followed. -/
theorem Chain.mem_followed_iff (chain : Chain ps) {x t : String}
    (last : ps.getLast? = some (.made x)) : t ∈ followed ps ↔ .fragment t ∈ ps := by
  induction chain with
  | nil => cases last
  | @made y rest fresh settled others ih =>
      have skip : .fragment t ∈ Piece.made y :: rest ↔ .fragment t ∈ rest :=
        ⟨fun inside => (List.mem_cons.mp inside).resolve_left nofun, List.mem_cons_of_mem _⟩
      rw [followed_made, skip]
      cases rest with
      | nil => exact ⟨nofun, nofun⟩
      | cons p rest => exact ih last
  | @fragment y u rest fresh even closed others ih =>
      have skip : .fragment t ∈ Piece.made y :: .fragment u :: rest ↔
          t = u ∨ .fragment t ∈ rest := by
        rw [List.mem_cons, List.mem_cons, Piece.fragment.injEq]
        exact ⟨fun inside => inside.resolve_left nofun, .inr⟩
      rw [followed_made, skip]
      rcases others.eq_nil_or_made with rfl | ⟨z, b, rfl⟩
      · cases last
      · rw [followed, List.mem_cons, ih last]

end Pieces

/-! ## Segments -/

namespace Segment

variable {seg : Segment}

/-- What is made behind a fragment stands in the written text right behind what is written up to
there. -/
def Stands (seg : Segment) : Prop :=
  ∀ a t x b, seg.pieces = a ++ .fragment t :: .made x :: b →
    seg.front (a ++ [.fragment t]) ++ x.toList <+: seg.text

/-- The pieces of a segment are one closed piece, or a chain of pieces that keep their places. -/
def Fine (seg : Segment) : Prop :=
  (∃ p, seg.pieces = [p] ∧ Closed p.text.toList) ∨ Chain seg.pieces ∧ seg.Stands

/-- In front of a segment nothing is open, so its front is scanned as its pieces are. -/
theorem run_front (seg : Segment) (ps : List Piece) :
    SqlMode.code.run (seg.front ps) = SqlMode.code.run (piecesText ps) := by
  rw [front, SqlMode.run_append, run_indentation]
  split
  next => exact SqlMode.run_relaid .code _
  next => rfl

/-- A segment ends with its row. -/
theorem run_text (seg : Segment) :
    SqlMode.code.run seg.text = (SqlMode.code.run (piecesText seg.pieces)).rested := by
  unfold text
  dsimp only
  split
  next => rw [run_reindented, String.toList_ofList]
  next => rw [run_render, String.toList_ofList]

/-- The made pieces behind fragments in a segment stand outside of comments. -/
def Clear (seg : Segment) : Prop :=
  ∀ a t x b, seg.pieces = a ++ .fragment t :: .made x :: b →
    (SqlMode.code.run (seg.front (a ++ [.fragment t]))).inComment = false

theorem Fine.scan (fine : seg.Fine) :
    (seg.Clear ↔ ∀ t ∈ followed seg.pieces, ¬EndsInComment t.toList) ∧
      ((∀ t ∈ followed seg.pieces, ¬EndsInComment t.toList) →
        SqlMode.code.run seg.text = .code) := by
  have same : seg.Clear ↔ ClearFrom .code seg.pieces := by
    simp only [Clear, run_front]
    rfl
  rw [same, run_text]
  rcases fine with ⟨p, alone, closed⟩ | ⟨chain, -⟩
  · have single : followed [p] = [] ∧ ClearFrom .code [p] := by
      cases p with
      | made x => exact ⟨rfl, clearFrom_made.mpr clearFrom_nil⟩
      | fragment t => exact ⟨rfl, clearFrom_fragment.mpr ⟨nofun, clearFrom_nil⟩⟩
    rw [alone, single.1, piecesText_cons, piecesText_nil, List.append_nil]
    exact ⟨⟨fun _ => nofun, fun _ => single.2⟩, fun _ => closed⟩
  · exact chain.scan SqlMode.settled_code

theorem Fine.stands (fine : seg.Fine) : seg.Stands := by
  rcases fine with ⟨p, alone, -⟩ | ⟨-, stands⟩
  · intro a t x b pieces
    have short := congrArg List.length pieces
    rw [alone, List.length_append] at short
    simp only [List.length_cons, List.length_nil] at short
    omega
  · exact stands

/-- On a line every piece keeps its place. -/
theorem stands_of_chain {level : Nat} {ps : List Piece} (chain : Chain ps) :
    (⟨level, ps, false⟩ : Segment).Stands := by
  rintro a t x b (rfl : ps = _)
  have solid : x.toList ≠ [] := by
    have fresh := chain.fresh_of_mem (x := x) (by simp)
    rintro empty
    rw [empty] at fresh
    cases fresh
  have whole : piecesText (a ++ .fragment t :: .made x :: b) =
      piecesText (a ++ [.fragment t]) ++ x.toList ++ piecesText b := by
    simp only [piecesText, List.flatMap_append, List.flatMap_cons, List.flatMap_nil,
      List.append_nil, List.append_assoc, Piece.text]
  have shown : ¬(String.ofList (piecesText (a ++ .fragment t :: .made x :: b))).isEmpty = true := by
    rw [String.isEmpty_iff, ← String.toList_inj, String.toList_ofList, whole]
    exact List.append_ne_nil_of_left_ne_nil (List.append_ne_nil_of_right_ne_nil _ solid) _
  have text : (⟨level, a ++ .fragment t :: .made x :: b, false⟩ : Segment).text =
      (Line.indentation level).toList ++ piecesText (a ++ .fragment t :: .made x :: b) ++
        ['\n'] := by
    change (⟨level, String.ofList _⟩ : Line).render.toList = _
    rw [Line.toList_render, Line.shown, if_neg shown, String.toList_ofList]
  rw [text, whole, front, if_neg Bool.false_ne_true, List.append_assoc, List.append_assoc,
    List.append_assoc, List.append_assoc]
  exact (List.prefix_append_right_inj _).mpr ((List.prefix_append_right_inj _).mpr
    (List.prefix_append _ _))

end Segment

/-- What is made behind a fragment stands in the text of the segments. -/
theorem TailAt.prefix {segs : List Segment} (fine : ∀ seg ∈ segs, seg.Fine) {t x : String}
    {front : List Char} (tail : TailAt segs t x front) :
    front ++ x.toList <+: segmentsText segs := by
  obtain ⟨before, seg, after, a, b, rfl, pieces, rfl⟩ := tail
  have here := (fine seg (by simp)).stands a t x b pieces
  rw [segmentsText_append, segmentsText_cons, List.append_assoc, List.prefix_append_right_inj]
  exact here.trans (List.prefix_append _ _)

theorem tailAt_cons {seg : Segment} {segs : List Segment} {t x : String} {front : List Char} :
    TailAt (seg :: segs) t x front ↔
      (∃ a b, seg.pieces = a ++ .fragment t :: .made x :: b ∧
        front = seg.front (a ++ [.fragment t])) ∨
      ∃ later, TailAt segs t x later ∧ front = seg.text ++ later := by
  constructor
  · rintro ⟨before, other, after, a, b, cut, pieces, rfl⟩
    cases before with
    | nil =>
        obtain ⟨rfl, rfl⟩ := List.cons.inj cut
        exact .inl ⟨a, b, pieces, rfl⟩
    | cons first before =>
        obtain ⟨rfl, rfl⟩ := List.cons.inj cut
        refine .inr ⟨_, ⟨before, other, after, a, b, rfl, pieces, rfl⟩, ?_⟩
        rw [segmentsText_cons, List.append_assoc]
  · rintro (⟨a, b, pieces, rfl⟩ | ⟨_, ⟨before, other, after, a, b, rfl, pieces, rfl⟩, rfl⟩)
    · exact ⟨[], seg, segs, a, b, rfl, pieces, rfl⟩
    · refine ⟨seg :: before, other, after, a, b, rfl, pieces, ?_⟩
      rw [segmentsText_cons, List.append_assoc]

theorem unswallowed_nil : Unswallowed [] := by
  constructor
  · rintro t x front ⟨before, seg, after, a, b, cut, -, -⟩
    cases before <;> cases cut
  · intro before after cut
    obtain ⟨rfl, -⟩ := List.append_eq_nil_iff.mp cut.symm
    rfl

/-- A segment that closes all that it opens leaves the others as they are. -/
theorem unswallowed_cons {seg : Segment} {segs : List Segment}
    (closes : SqlMode.code.run seg.text = .code) :
    Unswallowed (seg :: segs) ↔ seg.Clear ∧ Unswallowed segs := by
  have shift (rest : List Char) : SqlMode.code.run (seg.text ++ rest) = SqlMode.code.run rest := by
    rw [SqlMode.run_append, closes]
  constructor
  · intro all
    refine ⟨fun a t x b pieces => all.tails t x _ (tailAt_cons.mpr (.inl ⟨a, b, pieces, rfl⟩)),
      ⟨fun t x front tail => ?_, fun before after cut => ?_⟩⟩
    · rw [← shift]
      exact all.tails t x _ (tailAt_cons.mpr (.inr ⟨front, tail, rfl⟩))
    · rw [← shift, ← segmentsText_cons]
      exact all.rows (seg :: before) after (congrArg (List.cons seg) cut)
  · rintro ⟨here, later⟩
    refine ⟨fun t x front tail => ?_, fun before after cut => ?_⟩
    · rcases tailAt_cons.mp tail with ⟨a, b, pieces, rfl⟩ | ⟨rest, behind, rfl⟩
      · exact here a t x b pieces
      · rw [shift]
        exact later.tails t x rest behind
    · cases before with
      | nil => rfl
      | cons first before =>
          obtain ⟨rfl, rest⟩ := List.cons.inj cut
          rw [segmentsText_cons, shift]
          exact later.rows before after rest

/-- Made pieces stand outside of comments if, and only if, no fragment that one of them follows
ends in a comment up to the end of the row. -/
theorem unswallowed_iff {segs : List Segment} (fine : ∀ seg ∈ segs, seg.Fine) :
    Unswallowed segs ↔ ∀ seg ∈ segs, ∀ t ∈ followed seg.pieces, ¬EndsInComment t.toList := by
  induction segs with
  | nil => exact ⟨fun _ => nofun, fun _ => unswallowed_nil⟩
  | cons seg segs ih =>
      obtain ⟨here, later⟩ := List.forall_mem_cons.mp fine
      obtain ⟨clear, closes⟩ := here.scan
      rw [List.forall_mem_cons, ← ih later]
      constructor
      · intro all
        have first : seg.Clear := fun a t x b pieces =>
          all.tails t x _ (tailAt_cons.mpr (.inl ⟨a, b, pieces, rfl⟩))
        have none_ends := clear.mp first
        exact ⟨none_ends, ((unswallowed_cons (closes none_ends)).mp all).2⟩
      · rintro ⟨none_ends, others⟩
        exact (unswallowed_cons (closes none_ends)).mpr ⟨clear.mpr none_ends, others⟩

end LearningStore.Script
