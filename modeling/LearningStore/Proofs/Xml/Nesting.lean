import LearningStore.Proofs.Xml.Placement
import Mathlib.Data.List.Induction
import Mathlib.Data.List.Pairwise
import Mathlib.Logic.Relation

/-!
# Places of elements

No two places in a text have one line and column.  The elements and pieces of text of a document
begin at places of their own: what stands in an element lies between its tags, and what stands side
by side is apart.
-/

namespace LearningStore.Xml

open Relation

/-! ## Lines and columns -/

namespace Position

/-- A place comes before another one. -/
def Before (p q : Position) : Prop :=
  p.line < q.line ∨ p.line = q.line ∧ p.column < q.column

theorem Before.trans {p q r : Position} (first : p.Before q) (second : q.Before r) :
    p.Before r := by
  simp only [Before] at first second ⊢
  omega

theorem before_after (p : Position) (c : Char) : p.Before (p.after c) := by
  unfold after
  split
  · exact .inl (Nat.lt_succ_self _)
  · exact .inr ⟨rfl, Nat.lt_succ_self _⟩

theorem before_foldl (p : Position) {cs : List Char} (some_char : cs ≠ []) :
    p.Before (cs.foldl after p) := by
  induction cs generalizing p with
  | nil => exact absurd rfl some_char
  | cons c rest ih =>
      cases rest with
      | nil => exact before_after p c
      | cons d rest => exact (before_after p c).trans (ih (p.after c) (List.cons_ne_nil d rest))

theorem before_ofOffset {text : List Char} {j k : Nat} (less : j < k) (inside : k ≤ text.length) :
    (ofOffset text j).Before (ofOffset text k) := by
  have cut : text.take k = text.take j ++ (text.take k).drop j := by
    have shorter : (text.take k).take j = text.take j := by
      rw [List.take_take, Nat.min_eq_left (Nat.le_of_lt less)]
    rw [← shorter, List.take_append_drop]
  have some_char : (text.take k).drop j ≠ [] := by
    intro none_left
    have short := List.drop_eq_nil_iff.mp none_left
    rw [List.length_take] at short
    omega
  rw [ofOffset, ofOffset, cut, List.foldl_append]
  exact before_foldl _ some_char

/-- A line and a column tell the place. -/
theorem ofOffset_injective {text : List Char} {j k : Nat} (first : j ≤ text.length)
    (second : k ≤ text.length) (same : ofOffset text j = ofOffset text k) : j = k := by
  have apart {p : Position} : ¬p.Before p := by
    simp only [Before]
    omega
  rcases Nat.lt_trichotomy j k with less | equal | greater
  · have before := before_ofOffset less second
    rw [same] at before
    exact absurd before apart
  · exact equal
  · have before := before_ofOffset greater first
    rw [same] at before
    exact absurd before apart

theorem toList_table (text : List Char) :
    (table text).toList = (List.range (text.length + 1)).map (ofOffset text) := by
  let extend (places : Array Position × Position) (c : Char) :=
    let next := places.2.after c
    (places.1.push next, next)
  have state : (text.foldl extend (#[⟨1, 1⟩], ⟨1, 1⟩)).2 = ofOffset text text.length ∧
      (text.foldl extend (#[⟨1, 1⟩], ⟨1, 1⟩)).1.toList =
        (List.range (text.length + 1)).map (ofOffset text) := by
    induction text using List.reverseRecOn with
    | nil => exact ⟨rfl, rfl⟩
    | append_singleton text c ih =>
        obtain ⟨here, places⟩ := ih
        have next : ofOffset (text ++ [c]) (text ++ [c]).length =
            (ofOffset text text.length).after c := by
          rw [ofOffset, ofOffset, List.take_length, List.take_length, List.foldl_append]
          rfl
        have older : (List.range (text.length + 1)).map (ofOffset (text ++ [c])) =
            (List.range (text.length + 1)).map (ofOffset text) := by
          refine List.map_congr_left fun k inside => ?_
          have short : k ≤ text.length := Nat.le_of_lt_succ (List.mem_range.mp inside)
          rw [ofOffset, ofOffset, List.take_append_of_le_length short]
        rw [List.foldl_append, List.foldl_cons, List.foldl_nil]
        refine ⟨?_, ?_⟩
        · rw [next, ← here]
        · rw [Array.toList_push, places, here, ← next, ← older, List.length_append,
            List.length_singleton, List.range_succ (n := text.length + 1), List.map_append]
          rfl
  exact state.2

theorem getD_table {text : List Char} {k : Nat} (inside : k ≤ text.length) (other : Position) :
    (table text).getD k other = ofOffset text k := by
  have listed : (table text).toList[k]? = some (ofOffset text k) := by
    rw [toList_table, List.getElem?_map, List.getElem?_range (Nat.lt_succ_of_le inside)]
    rfl
  rw [Array.getD_eq_getD_getElem?, ← Array.getElem?_toList, listed]
  rfl

end Position

/-- In a document no two places are alike. -/
theorem Document.start_eq_of_position {text : List Char} {root : Element} {a b : Span}
    (first : a.start ≤ text.length) (second : b.start ≤ text.length)
    (same : (⟨text, Position.table text, root⟩ : Document).position a =
      (⟨text, Position.table text, root⟩ : Document).position b) : a.start = b.start := by
  rw [Document.position, Document.position, Position.getD_table first,
    Position.getD_table second] at same
  exact Position.ofOffset_injective first second same

/-! ## Nodes side by side -/

/-- Nodes between two places, the last one first. -/
structure Lined (a stop : Nat) (nodes : List Node) : Prop where
  inside : ∀ n ∈ nodes, a ≤ n.span.start ∧ n.span.start ≤ n.span.stop ∧ n.span.stop ≤ stop
  apart : nodes.Pairwise fun later earlier => earlier.span.stop ≤ later.span.start
  texts : ∀ span content, .text span content ∈ nodes → span.start < span.stop

theorem Lined.mono {a stop further : Nat} {nodes : List Node} (lined : Lined a stop nodes)
    (le : stop ≤ further) : Lined a further nodes :=
  ⟨fun n member => ⟨(lined.inside n member).1, (lined.inside n member).2.1,
    Nat.le_trans (lined.inside n member).2.2 le⟩, lined.apart, lined.texts⟩

theorem Content.lined {a here : Nat} {tokens : List Token} {nodes : List Node}
    (content : Content a tokens nodes here) : Lined a here nodes := by
  induction content with
  | start => exact ⟨nofun, .nil, nofun⟩
  | data before apart data longer ih =>
      have from_start := before.le
      refine ⟨List.forall_mem_cons.mpr ⟨⟨from_start, Nat.le_of_lt longer, Nat.le_refl _⟩,
        (ih.mono (Nat.le_of_lt longer)).inside⟩,
        List.pairwise_cons.mpr ⟨fun n member => (ih.inside n member).2.2, ih.apart⟩, ?_⟩
      intro span text member
      rcases List.mem_cons.mp member with same | older
      · cases same
        exact longer
      · exact ih.texts span text older
  | more before data longer ih =>
      obtain ⟨here, older⟩ := List.forall_mem_cons.mp (ih.mono (Nat.le_of_lt longer)).inside
      obtain ⟨first, others⟩ := List.pairwise_cons.mp ih.apart
      refine ⟨List.forall_mem_cons.mpr ⟨here, older⟩, List.pairwise_cons.mpr ⟨first, others⟩, ?_⟩
      intro span text member
      rcases List.mem_cons.mp member with same | earlier
      · cases same
        exact ih.texts _ _ List.mem_cons_self
      · exact ih.texts span text (List.mem_cons_of_mem _ earlier)
  | node before other mark starts forward ih =>
      have from_start := before.le
      refine ⟨List.forall_mem_cons.mpr ⟨⟨?_, ?_, Nat.le_refl _⟩, (ih.mono forward).inside⟩,
        List.pairwise_cons.mpr ⟨fun n member => ?_, ih.apart⟩, ?_⟩
      · omega
      · omega
      · have earlier := (ih.inside n member).2.2
        omega
      · intro span text member
        rcases List.mem_cons.mp member with same | older
        · rw [← same] at other
          cases other
        · exact ih.texts span text older

/-- A node that begins inside of another one is that one. -/
theorem Lined.eq_of_start {a stop : Nat} {nodes : List Node} (lined : Lined a stop nodes)
    {m n : Node} (first : m ∈ nodes) (second : n ∈ nodes) (solid : m.span.start < m.span.stop)
    (from_start : n.span.start ≤ m.span.start) (to_stop : m.span.start < n.span.stop) : m = n := by
  let Apart (m n : Node) : Prop := n.span.stop ≤ m.span.start ∨ m.span.stop ≤ n.span.start
  have symmetric : Std.Symm Apart := ⟨fun _ _ side => side.symm⟩
  have apart : nodes.Pairwise Apart := lined.apart.imp .inl
  by_contra different
  rcases apart.forall first second different with before | behind
  · omega
  · omega

/-! ## Elements inside each other -/

section Placed

variable {source : List Char} {all : List Token} {e child root : Element}

theorem Placed.start_lt_stop (placed : Placed source all e) :
    e.tag.span.start < e.tag.span.stop := by
  cases placed with
  | empty written isTag =>
      obtain ⟨body, rfl, -⟩ := isTag
      have long := written.2
      rw [List.length_cons] at long
      dsimp only
      omega
  | full opens isStart closes isEnd content =>
      obtain ⟨body, rfl, -⟩ := isStart
      have long := opens.2
      have later := content.le
      have last := closes.le
      rw [List.length_cons] at long
      dsimp only
      omega

/-- What an element holds lies between its tags, node by node. -/
theorem Placed.lined (placed : Placed source all e) : ∃ a stop, e.tag.span.start < a ∧
    stop < e.tag.span.stop ∧ Lined a stop e.children.reverse := by
  have solid := placed.start_lt_stop
  cases placed with
  | empty => exact ⟨_, _, Nat.lt_succ_self _, solid, nofun, .nil, nofun⟩
  | full opens isStart closes isEnd content =>
      obtain ⟨body, rfl, -⟩ := isStart
      obtain ⟨name, rfl, -⟩ := isEnd
      have first := opens.2
      have last := closes.2
      rw [List.length_cons] at first last
      exact ⟨_, _, by dsimp only; omega, by dsimp only; omega, content.lined⟩

/-- A child lies between the tags of its element. -/
theorem Placed.inside (placed : Placed source all e) {n : Node} (member : n ∈ e.children) :
    e.tag.span.start < n.span.start ∧ n.span.stop < e.tag.span.stop := by
  obtain ⟨a, stop, opens, closes, lined⟩ := placed.lined
  have place := lined.inside n (List.mem_reverse.mpr member)
  omega

theorem mem_children_of_mem_elements (member : child ∈ e.elements) :
    .element child.tag child.children ∈ e.children := by
  obtain ⟨node, inside, same⟩ := List.mem_filterMap.mp member
  cases node with
  | element tag nodes =>
      cases same
      exact inside
  | text => cases same
  | comment => cases same
  | instruction => cases same

/-- An element below another one is placed, and lies in it. -/
theorem Placed.of_path (placed : Placed source all root)
    (path : ReflTransGen (fun x y => y ∈ x.elements) root e) : Placed source all e ∧
      root.tag.span.start ≤ e.tag.span.start ∧ e.tag.span.stop ≤ root.tag.span.stop := by
  induction path with
  | refl => exact ⟨placed, Nat.le_refl _, Nat.le_refl _⟩
  | tail _ member ih =>
      obtain ⟨here, first, last⟩ := ih
      have place := here.inside (mem_children_of_mem_elements member)
      refine ⟨here.of_elements member, ?_, ?_⟩
      · exact Nat.le_trans first (Nat.le_of_lt place.1)
      · exact Nat.le_trans (Nat.le_of_lt place.2) last

/-- An element and a node inside of it do not stand side by side. -/
theorem Placed.eq_of_start (placed : Placed source all e) {m : Node} (first : m ∈ e.children)
    (solid : m.span.start < m.span.stop) (second : child ∈ e.elements)
    (from_start : child.tag.span.start ≤ m.span.start)
    (to_stop : m.span.start < child.tag.span.stop) :
    m = .element child.tag child.children := by
  obtain ⟨a, stop, -, -, lined⟩ := placed.lined
  exact lined.eq_of_start (List.mem_reverse.mpr first)
    (List.mem_reverse.mpr (mem_children_of_mem_elements second)) solid from_start to_stop

theorem Placed.eq_of_elements (placed : Placed source all e) {other : Element} {k : Nat}
    (first : child ∈ e.elements) (second : other ∈ e.elements)
    (inFirst : child.tag.span.start ≤ k ∧ k < child.tag.span.stop)
    (inSecond : other.tag.span.start ≤ k ∧ k < other.tag.span.stop) : child = other := by
  have same : Node.element child.tag child.children = .element other.tag other.children := by
    rcases Nat.le_total child.tag.span.start other.tag.span.start with before | behind
    · have solid := (placed.of_elements second).start_lt_stop
      exact (placed.eq_of_start (mem_children_of_mem_elements second) solid first before
        (Nat.lt_of_le_of_lt inSecond.1 inFirst.2)).symm
    · have solid := (placed.of_elements first).start_lt_stop
      exact placed.eq_of_start (mem_children_of_mem_elements first) solid second behind
        (Nat.lt_of_le_of_lt inFirst.1 inSecond.2)
  cases child
  cases other
  cases same
  rfl

theorem mem_elements_of_mem_children {tag : Tag} {children : List Node}
    (member : .element tag children ∈ e.children) : ⟨tag, children⟩ ∈ e.elements :=
  List.mem_filterMap.mpr ⟨_, member, rfl⟩

/-- Child elements and pieces of text are not empty. -/
theorem Placed.solid (placed : Placed source all e) {n : Node} (member : n ∈ e.children)
    (kind : n.isText = true ∨ ∃ tag children, n = .element tag children) :
    n.span.start < n.span.stop := by
  rcases kind with text | ⟨tag, children, rfl⟩
  · obtain ⟨a, stop, -, -, lined⟩ := placed.lined
    cases n with
    | text span content => exact lined.texts span content (List.mem_reverse.mpr member)
    | _ => cases text
  · exact (placed.of_elements (mem_elements_of_mem_children member)).start_lt_stop

/-- An element lies in the text. -/
theorem Placed.stop_le (placed : Placed source all e) : e.tag.span.stop ≤ source.length := by
  have ends {start stop : Nat} {chars : List Char} (holds : Holds source start stop chars)
      (some_char : chars ≠ []) : stop ≤ source.length := by
    have long := congrArg List.length holds.1
    have solid := List.length_pos_of_ne_nil some_char
    have place := holds.2
    rw [List.length_append, List.length_drop, List.length_drop] at long
    omega
  cases placed with
  | empty written isTag =>
      obtain ⟨body, rfl, -⟩ := isTag
      exact ends written (List.cons_ne_nil _ _)
  | full opens isStart closes isEnd =>
      obtain ⟨name, rfl, -⟩ := isEnd
      exact ends closes (List.cons_ne_nil _ _)

end Placed

end LearningStore.Xml
