import LearningStore.Proofs.Xml.Passing

/-!
# Where elements stand

The tokens of a document cover its text without a gap, so the nodes of an element stand one behind
the other between its two tags.  The exception is character data in several pieces that touch:
they are one node, which stands where the first of them does.
-/

namespace LearningStore.Xml

/-- The characters of a text between two places. -/
def Holds (source : List Char) (start stop : Nat) (chars : List Char) : Prop :=
  source.drop start = chars ++ source.drop stop ∧ stop = start + chars.length

theorem Holds.trans {source a b : List Char} {start between stop : Nat}
    (first : Holds source start between a) (second : Holds source between stop b) :
    Holds source start stop (a ++ b) := by
  refine ⟨?_, ?_⟩
  · rw [first.1, second.1, List.append_assoc]
  · rw [second.2, first.2, List.length_append, Nat.add_assoc]

theorem Holds.le {source chars : List Char} {start stop : Nat}
    (holds : Holds source start stop chars) : start ≤ stop := by
  have place := holds.2
  omega

theorem Holds.take {source chars : List Char} {start stop : Nat}
    (holds : Holds source start stop chars) :
    (source.drop start).take (stop - start) = chars := by
  have length : stop - start = chars.length := by
    have place := holds.2
    omega
  rw [length, holds.1, List.take_left]

namespace Cursor

variable {source chars : List Char} {c after : Cursor}

/-- A place in a text. -/
def In (c : Cursor) (source : List Char) : Prop :=
  c.rest = source.drop c.offset

theorem Passes.in (passed : c.Passes chars after) (here : c.In source) : after.In source := by
  rw [In, passed.2, ← List.drop_drop, ← here, passed.1, List.drop_left]

theorem Passes.holds (passed : c.Passes chars after) (here : c.In source) :
    Holds source c.offset after.offset chars := by
  refine ⟨?_, passed.2⟩
  rw [← here, ← passed.in here]
  exact passed.1

end Cursor

/-! ## The content of an element -/

def Token.isData (t : Token) : Bool :=
  t.data?.isSome

def Node.isText : Node → Bool
  | .text _ _ => true
  | _ => false

/-- The content of an element from the end of its start tag on: the tokens so far, the nodes that
they make, the last one first, and the place behind them. -/
inductive Content (a : Nat) : List Token → List Node → Nat → Prop where
  | start : Content a [] [] a
  | data {tokens : List Token} {nodes : List Node} {t : Token} {here stop : Nat}
      {content : List Char} (before : Content a tokens nodes here)
      (apart : ∀ node ∈ nodes.head?, node.isText = false) (data : t.data? = some ⟨here, stop⟩)
      (longer : here < stop) : Content a (tokens ++ [t]) (.text ⟨here, stop⟩ content :: nodes) stop
  | more {tokens : List Token} {nodes : List Node} {t : Token} {span : Span} {here stop : Nat}
      {content content' : List Char} (before : Content a tokens (.text span content :: nodes) here)
      (data : t.data? = some ⟨here, stop⟩) (longer : here < stop) :
      Content a (tokens ++ [t]) (.text span content' :: nodes) stop
  | node {tokens own : List Token} {nodes : List Node} {t : Token} {node : Node} {here : Nat}
      (before : Content a tokens nodes here) (other : node.isText = false)
      (mark : t.isData = false) (starts : node.span.start = here) (forward : here ≤ node.span.stop) :
      Content a (tokens ++ (own ++ [t])) (node :: nodes) node.span.stop

/-- Where a node ends that pieces of character data make.  Without a piece it is the place given. -/
def dataEnd (here : Nat) (pieces : List Token) : Nat :=
  match pieces.head?.bind Token.data? with
  | some span => span.stop
  | none => here

/-- How content ends: in these pieces of character data, all that touch. -/
structure Ending (a : Nat) (front pieces : List Token) (nodes : List Node) (here : Nat) : Prop where
  each : ∀ t ∈ pieces, t.isData = true
  apart : ∀ t ∈ front.getLast?, t.isData = false
  text : (∃ node ∈ nodes.head?, node.isText = true) ↔ pieces ≠ []
  kept : ∀ node ∈ nodes.head?, node.span.stop = dataEnd here pieces
  forward : a ≤ dataEnd here pieces ∧ dataEnd here pieces ≤ here
  whole : dataEnd here pieces = here ↔ pieces.length ≤ 1

theorem dataEnd_singleton {t : Token} {span : Span} (data : t.data? = some span) (here : Nat) :
    dataEnd here [t] = span.stop := by
  simp [dataEnd, data]

/-- More pieces of character data do not move the end of their node. -/
theorem dataEnd_append {pieces : List Token} (some_piece : pieces ≠ [])
    (each : ∀ t ∈ pieces, t.isData = true) (more : List Token) (here there : Nat) :
    dataEnd there (pieces ++ more) = dataEnd here pieces := by
  cases pieces with
  | nil => exact absurd rfl some_piece
  | cons t rest =>
      obtain ⟨span, data⟩ := Option.isSome_iff_exists.mp (each t List.mem_cons_self)
      simp [dataEnd, data]

namespace Ending

variable {a here stop : Nat} {front pieces : List Token} {nodes : List Node} {t : Token}

theorem start (a : Nat) : Ending a [] [] [] a where
  each := nofun
  apart := nofun
  text := by simp
  kept := nofun
  forward := ⟨Nat.le_refl a, Nat.le_refl a⟩
  whole := by simp [dataEnd]

theorem pieces_eq_nil (ending : Ending a front pieces nodes here)
    (apart : ∀ node ∈ nodes.head?, node.isText = false) : pieces = [] := by
  by_contra some_piece
  obtain ⟨node, last, text⟩ := ending.text.mpr some_piece
  rw [apart node last] at text
  cases text

/-- A first piece of character data makes a node. -/
theorem data (ending : Ending a front [] nodes here) (data : t.data? = some ⟨here, stop⟩)
    (longer : here < stop) (content : List Char) :
    Ending a front [t] (.text ⟨here, stop⟩ content :: nodes) stop := by
  have ends : dataEnd stop [t] = stop := dataEnd_singleton data stop
  have before : a ≤ here := ending.forward.1
  constructor
  case each => simp [Token.isData, data]
  case apart => exact ending.apart
  case text => simp [Node.isText]
  case kept =>
    intro node last
    cases last
    exact ends.symm
  case forward =>
    rw [ends]
    exact ⟨Nat.le_of_lt (Nat.lt_of_le_of_lt before longer), Nat.le_refl stop⟩
  case whole => simp [ends]

/-- A further piece changes the content of the node, which ends before that piece begins. -/
theorem more {span : Span} {content : List Char}
    (ending : Ending a front pieces (.text span content :: nodes) here)
    (data : t.data? = some ⟨here, stop⟩) (longer : here < stop) (content' : List Char) :
    Ending a front (pieces ++ [t]) (.text span content' :: nodes) stop := by
  have some_piece : pieces ≠ [] := ending.text.mp ⟨_, rfl, rfl⟩
  have ends := dataEnd_append some_piece ending.each [t] here stop
  have forward := ending.forward
  constructor
  case each =>
    refine List.forall_mem_append.mpr ⟨ending.each, ?_⟩
    simp [Token.isData, data]
  case apart => exact ending.apart
  case text => simp [Node.isText]
  case kept =>
    intro node last
    cases last
    rw [ends]
    exact ending.kept (.text span content) rfl
  case forward => omega
  case whole =>
    have several := List.length_pos_of_ne_nil some_piece
    rw [ends, List.length_append, List.length_singleton]
    omega

/-- Behind any other node there is no piece yet. -/
theorem node (ending : Ending a front pieces nodes here) {node : Node}
    (other : node.isText = false) (mark : t.isData = false) (forward : here ≤ node.span.stop)
    (own : List Token) :
    Ending a (front ++ pieces ++ (own ++ [t])) [] (node :: nodes) node.span.stop := by
  have before : a ≤ here := Nat.le_trans ending.forward.1 ending.forward.2
  constructor
  case each => exact nofun
  case apart =>
    rw [← List.append_assoc, List.getLast?_concat]
    intro _ last
    cases last
    exact mark
  case text => simp [other]
  case kept =>
    intro _ last
    cases last
    rfl
  case forward => exact ⟨Nat.le_trans before forward, Nat.le_refl _⟩
  case whole => simp [dataEnd]

end Ending

namespace Content

variable {a here : Nat} {tokens : List Token} {nodes : List Node}

/-- The first node stands right behind the start tag. -/
theorem first (content : Content a tokens nodes here) :
    (nodes.getLast?.map fun node => node.span.start).getD here = a := by
  induction content with
  | start => rfl
  | @data _ nodes _ here _ _ _ _ _ _ ih =>
      rw [← ih, List.getLast?_cons]
      cases nodes.getLast? <;> rfl
  | @more _ nodes _ _ _ _ _ _ _ _ _ ih =>
      rw [← ih, List.getLast?_cons, List.getLast?_cons]
      cases nodes.getLast? <;> rfl
  | @node _ _ nodes _ _ _ _ _ _ starts _ ih =>
      rw [← ih, List.getLast?_cons]
      cases nodes.getLast? with
      | none => exact starts
      | some first => rfl

/-- The last node ends with the first of the pieces of character data in which the content ends. -/
theorem ending (content : Content a tokens nodes here) :
    ∃ front pieces, tokens = front ++ pieces ∧ Ending a front pieces nodes here := by
  induction content with
  | start => exact ⟨[], [], rfl, .start a⟩
  | @data tokens nodes t here stop content _ apart data longer ih =>
      obtain ⟨front, pieces, rfl, ending⟩ := ih
      -- The node before is no text, so the new piece touches no other one.
      obtain rfl := ending.pieces_eq_nil apart
      exact ⟨front, [t], by rw [List.append_nil], ending.data data longer content⟩
  | @more tokens nodes t span here stop _ content' _ data longer ih =>
      obtain ⟨front, pieces, rfl, ending⟩ := ih
      exact ⟨front, pieces ++ [t], List.append_assoc .., ending.more data longer content'⟩
  | @node tokens own nodes t node here _ other mark _ forward ih =>
      obtain ⟨front, pieces, rfl, ending⟩ := ih
      exact ⟨front ++ pieces ++ (own ++ [t]), [], by rw [List.append_nil],
        ending.node other mark forward own⟩

theorem le (content : Content a tokens nodes here) : a ≤ here := by
  obtain ⟨front, pieces, -, ending⟩ := content.ending
  exact Nat.le_trans ending.forward.1 ending.forward.2

end Content

/-! ## Elements in their place -/

section Places

variable (source : List Char) (all : List Token)

/-- An element that stands in a text as it was read from its tokens: between its tags are the
tokens that made its children, which stand in their places too. -/
inductive Placed : Element → Prop where
  | empty {tag : Tag} {chars : List Char} {before after : List Token}
      (written : Holds source tag.span.start tag.span.stop chars) (isTag : IsEmptyTag chars)
      (tokens : all = before ++ .tagEnd false tag.span.stop :: after) : Placed ⟨tag, []⟩
  | full {tag : Tag} {children : List Node} {a c : Nat} {opening closing : List Char}
      {name : QName} {before inside after : List Token}
      (opens : Holds source tag.span.start a opening) (isStart : IsStartTag opening)
      (closes : Holds source c tag.span.stop closing) (isEnd : IsEndTag closing)
      (content : Content a inside children.reverse c)
      (tokens : all = before ++ .tagEnd true a ::
        (inside ++ .endTag ⟨c, tag.span.stop⟩ name :: after))
      (each : ∀ child nodes, .element child nodes ∈ children → Placed ⟨child, nodes⟩) :
      Placed ⟨tag, children⟩

theorem Placed.of_elements {source : List Char} {all : List Token} {e child : Element}
    (placed : Placed source all e) (inside : child ∈ e.elements) : Placed source all child := by
  cases placed with
  | empty => cases inside
  | full _ _ _ _ _ _ each =>
      obtain ⟨node, member, same⟩ := List.mem_filterMap.mp inside
      cases node with
      | element tag nodes =>
          cases same
          exact each tag nodes member
      | text => cases same
      | comment => cases same
      | instruction => cases same

/-- The elements that are open at a place, the innermost first.  Each one began where the content
of the next had come to. -/
inductive Stack : List Token → List OpenElement → Nat → Prop where
  | outside {tokens : List Token} {here : Nat} : Stack tokens [] here
  | inside {before own inside : List Token} {ancestors : List OpenElement} {e : OpenElement}
      {a here : Nat} {opening : List Char} (below : Stack before ancestors e.tag.span.start)
      (opens : Holds source e.tag.span.start a opening) (isStart : IsStartTag opening)
      (content : Content a inside e.children here)
      (each : ∀ child nodes, .element child nodes ∈ e.children → Placed source all ⟨child, nodes⟩) :
      Stack (before ++ (own ++ .tagEnd true a :: inside)) (e :: ancestors) here

/-- What has been read at a place of a region. -/
inductive Reached : List Token → Region → Nat → Partial → Prop where
  | prologue {tokens : List Token} {here : Nat} : Reached tokens .prologue here ⟨none, [], none⟩
  | epilogue {tokens : List Token} {here : Nat} {root : Option Element}
      (placed : ∀ e ∈ root, Placed source all e) : Reached tokens .epilogue here ⟨none, [], root⟩
  | tag {before own : List Token} {o : Opening} {ancestors : List OpenElement}
      {root : Option Element} {here : Nat} {body : List Char}
      (below : Stack source all before ancestors o.start)
      (written : Holds source o.start here ('<' :: body)) (inside : TagBody body)
      (placed : ∀ e ∈ root, Placed source all e) :
      Reached (before ++ own) (.tag ancestors.length) here ⟨some o, ancestors, root⟩
  | content {tokens : List Token} {e : OpenElement} {ancestors : List OpenElement}
      {root : Option Element} {here : Nat} (stack : Stack source all tokens (e :: ancestors) here)
      (placed : ∀ e ∈ root, Placed source all e) :
      Reached tokens (.content (ancestors.length + 1)) here ⟨none, e :: ancestors, root⟩

end Places

section Reading

variable {source : List Char} {all : List Token}

theorem Reached.placed {tokens : List Token} {region : Region} {here : Nat} {p : Partial}
    (reached : Reached source all tokens region here p) : ∀ e ∈ p.root, Placed source all e := by
  cases reached with
  | prologue => exact nofun
  | epilogue placed => exact placed
  | tag _ _ _ placed => exact placed
  | content _ placed => exact placed

/-- Another node in the innermost open element. -/
theorem Stack.add {tokens : List Token} {e : OpenElement} {ancestors : List OpenElement}
    {here : Nat} (stack : Stack source all tokens (e :: ancestors) here) (own : List Token)
    {t : Token} (node : Node) (other : node.isText = false) (mark : t.isData = false)
    (starts : node.span.start = here) (forward : here ≤ node.span.stop)
    (placed : ∀ tag nodes, node = .element tag nodes → Placed source all ⟨tag, nodes⟩) :
    Stack source all (tokens ++ (own ++ [t])) ({ e with children := node :: e.children } :: ancestors)
      node.span.stop := by
  cases stack with
  | inside below opens isStart content each =>
      rw [List.append_assoc, List.append_assoc, List.cons_append]
      refine .inside below opens isStart (content.node other mark starts forward) ?_
      intro tag nodes member
      rcases List.mem_cons.mp member with same | older
      · exact placed tag nodes same.symm
      · exact each tag nodes older

/-- Another piece of character data in the innermost open element. -/
theorem Stack.addText {tokens : List Token} {e : OpenElement} {ancestors : List OpenElement}
    {here stop : Nat} (stack : Stack source all tokens (e :: ancestors) here) {t : Token}
    (data : t.data? = some ⟨here, stop⟩) (longer : here < stop) (root : Option Element)
    (content : List Char) :
    ∃ e', (⟨none, e :: ancestors, root⟩ : Partial).addText ⟨here, stop⟩ content =
        ⟨none, e' :: ancestors, root⟩ ∧
      Stack source all (tokens ++ [t]) (e' :: ancestors) stop := by
  obtain ⟨tag, written, bindings, children⟩ := e
  cases stack with
  | inside below opens isStart inside each =>
      refine ⟨_, rfl, ?_⟩
      rw [List.append_assoc, List.append_assoc, List.cons_append]
      -- The text right before it takes the new piece in.
      split
      next first before older here =>
        subst here
        refine .inside below opens isStart (inside.more data longer) ?_
        intro tag nodes member
        rcases List.mem_cons.mp member with same | member
        · cases same
        · exact each tag nodes (List.mem_cons_of_mem _ member)
      next children noText =>
        refine .inside below opens isStart (inside.data ?_ data longer) ?_
        · intro node last
          cases node with
          | text span content =>
              obtain ⟨older, rfl⟩ := List.head?_eq_some_iff.mp last
              exact absurd rfl (noText span content older)
          | element => rfl
          | comment => rfl
          | instruction => rfl
        · intro tag nodes member
          rcases List.mem_cons.mp member with same | member
          · cases same
          · exact each tag nodes member

/-- Behind an element goes on what it stands in. -/
theorem Placed.reached {tag : Tag} {nodes : List Node} {before : List Token}
    {ancestors : List OpenElement} {t : Token} {root : Option Element}
    (element : Placed source all ⟨tag, nodes⟩) (forward : tag.span.start ≤ tag.span.stop)
    (stack : Stack source all before ancestors tag.span.start) (own : List Token)
    (mark : t.isData = false) (placed : ∀ e ∈ root, Placed source all e) :
    Reached source all (before ++ (own ++ [t])) (Step.within ancestors.length) tag.span.stop
      ((⟨none, ancestors, root⟩ : Partial).add (.element tag nodes)) := by
  cases ancestors with
  | nil =>
      refine .epilogue ?_
      intro e same
      cases same
      exact element
  | cons parent rest =>
      refine .content (stack.add own (.element tag nodes) rfl mark rfl forward ?_) placed
      intro tag nodes same
      cases same
      exact element

theorem addAttribute_start {o o' : Opening} {start valueStart : Nat} {name : QName}
    {raw : List Char} (read : Partial.addAttribute o start name valueStart raw = .ok o') :
    o'.start = o.start := by
  unfold Partial.addAttribute at read
  split at read
  next => cases read
  next =>
    dsimp only at read
    split at read
    next =>
      unfold Partial.declare at read
      repeat' split at read
      all_goals cases read <;> rfl
    next =>
      split at read
      next =>
        unfold Partial.declareDefault at read
        repeat' split at read
        all_goals cases read <;> rfl
      next =>
        cases read
        rfl

/-- An element that ends with this tag. -/
theorem placed_of_endTag {before own inside after : List Token} {e : OpenElement}
    {a here stop : Nat} {opening closing : List Char} {name : QName}
    (opens : Holds source e.tag.span.start a opening) (isStart : IsStartTag opening)
    (content : Content a inside e.children here)
    (each : ∀ child nodes, .element child nodes ∈ e.children → Placed source all ⟨child, nodes⟩)
    (closes : Holds source here stop closing) (isEnd : IsEndTag closing)
    (part : all = before ++ (own ++ .tagEnd true a :: inside) ++
      .endTag ⟨here, stop⟩ name :: after) :
    Placed source all ⟨{ e.tag with span := ⟨e.tag.span.start, stop⟩ }, e.children.reverse⟩ := by
  have tokens : all = (before ++ own) ++ .tagEnd true a ::
      (inside ++ .endTag ⟨here, stop⟩ name :: after) := by
    rw [part]
    simp only [List.append_assoc, List.cons_append]
  refine .full opens isStart closes isEnd ?_ tokens ?_
  · rw [List.reverse_reverse]
    exact content
  · intro child nodes member
    exact each child nodes (List.mem_reverse.mp member)

/-- What the end of a start tag makes. -/
theorem exists_of_endTag {p p' : Partial} {o : Opening} {opened : Bool} {stop : Nat}
    (read : p.endTag o opened stop = .ok p') :
    ∃ tag bindings, tag.span = ⟨o.start, stop⟩ ∧
      p' = if opened then ⟨none, ⟨tag, o.name, bindings, []⟩ :: p.ancestors, p.root⟩
        else (⟨none, p.ancestors, p.root⟩ : Partial).add (.element tag []) := by
  unfold Partial.endTag at read
  dsimp only at read
  split at read
  next => cases read
  next attributes _ =>
    split at read
    next => cases read
    next name _ =>
      refine ⟨⟨⟨o.start, stop⟩, name, attributes⟩, o.bindings ++ p.bindings, rfl, ?_⟩
      cases opened <;> cases read <;> rfl

variable {tokens later : List Token} {region : Region} {c after : Cursor} {t : Token}
  {p p' : Partial}

theorem Reached.tagPair {depth start valueStart : Nat} {name : QName} {body raw : List Char}
    (reached : Reached source all tokens (.tag depth) c.offset p) (here : c.In source)
    (passed : c.Passes body after) (inside : TagBody body)
    (stepped : p.step (.attribute start name valueStart raw) = .ok p') :
    Reached source all (tokens ++ [.attribute start name valueStart raw]) (.tag depth)
      after.offset p' := by
  cases reached with
  | @tag before own o ancestors root _ front below written bodyInside placed =>
      obtain ⟨o', read, rfl⟩ := map_eq_ok.mp stepped
      have same := addAttribute_start read
      have covers := written.trans (passed.holds here)
      rw [← same] at below covers
      rw [List.append_assoc]
      exact .tag below covers (bodyInside.append inside) placed

theorem Reached.emptyEnd {depth : Nat} {body : List Char}
    (reached : Reached source all tokens (.tag depth) c.offset p) (here : c.In source)
    (passed : c.Passes (body ++ ['/', '>']) after) (inside : TagBody body)
    (part : all = tokens ++ .tagEnd false after.offset :: later)
    (stepped : p.step (.tagEnd false after.offset) = .ok p') :
    Reached source all (tokens ++ [.tagEnd false after.offset]) (Step.within depth)
      after.offset p' := by
  cases reached with
  | @tag before own o ancestors root _ front below written bodyInside placed =>
      obtain ⟨tag, bindings, span, rfl⟩ := exists_of_endTag stepped
      have covers := written.trans (passed.holds here)
      have starts : tag.span.start = o.start := by rw [span]
      have stops : tag.span.stop = after.offset := by rw [span]
      rw [← starts] at below
      rw [← starts, ← stops] at covers
      have isTag : IsEmptyTag ('<' :: front ++ (body ++ ['/', '>'])) :=
        ⟨front ++ body, by simp, bodyInside.append inside⟩
      rw [← stops] at part
      rw [List.append_assoc, ← stops]
      exact (Placed.empty covers isTag part).reached covers.le below own rfl placed

theorem Reached.startEnd {depth : Nat} {body : List Char}
    (reached : Reached source all tokens (.tag depth) c.offset p) (here : c.In source)
    (passed : c.Passes (body ++ ['>']) after) (inside : TagBody body)
    (stepped : p.step (.tagEnd true after.offset) = .ok p') :
    Reached source all (tokens ++ [.tagEnd true after.offset]) (.content (depth + 1))
      after.offset p' := by
  cases reached with
  | @tag before own o ancestors root _ front below written bodyInside placed =>
      obtain ⟨tag, bindings, span, rfl⟩ := exists_of_endTag stepped
      have covers := written.trans (passed.holds here)
      have starts : tag.span.start = o.start := by rw [span]
      rw [← starts] at below covers
      have isTag : IsStartTag ('<' :: front ++ (body ++ ['>'])) :=
        ⟨front ++ body, by simp, bodyInside.append inside⟩
      rw [List.append_assoc]
      exact .content (.inside below covers isTag .start nofun) placed

theorem Reached.close {depth : Nat} {chars : List Char} {name : QName}
    (reached : Reached source all tokens (.content depth) c.offset p) (here : c.In source)
    (passed : c.Passes chars after) (written : IsEndTag chars)
    (part : all = tokens ++ .endTag ⟨c.offset, after.offset⟩ name :: later)
    (stepped : p.step (.endTag ⟨c.offset, after.offset⟩ name) = .ok p') :
    Reached source all (tokens ++ [.endTag ⟨c.offset, after.offset⟩ name])
      (Step.within (depth - 1)) after.offset p' := by
  cases reached with
  | content stack placed =>
      rw [Partial.step, Partial.close] at stepped
      dsimp only at stepped
      split at stepped
      next =>
        cases stepped
        cases stack with
        | inside below opens isStart content each =>
            have closes := passed.holds here
            have element := placed_of_endTag opens isStart content each closes written part
            have forward := Nat.le_trans opens.le (Nat.le_trans content.le closes.le)
            rw [List.append_assoc]
            exact element.reached forward below _ rfl placed
      next => cases stepped

theorem step_eq_ok_of_data {span : Span} (data : t.data? = some span)
    (stepped : p.step t = .ok p') : ∃ content, p' = p.addText span content := by
  rcases Token.data?_eq_some data with ⟨raw, rfl⟩ | ⟨raw, rfl⟩
  · obtain ⟨pieces, -, rfl⟩ := map_eq_ok.mp stepped
    exact ⟨_, rfl⟩
  · cases stepped
    exact ⟨_, rfl⟩

theorem Reached.data {depth : Nat} {chars : List Char}
    (reached : Reached source all tokens (.content depth) c.offset p)
    (passed : c.Passes chars after) (nonempty : chars ≠ [])
    (data : t.data? = some ⟨c.offset, after.offset⟩) (stepped : p.step t = .ok p') :
    Reached source all (tokens ++ [t]) (.content depth) after.offset p' := by
  cases reached with
  | @content _ e ancestors root _ stack placed =>
      obtain ⟨content, rfl⟩ := step_eq_ok_of_data data stepped
      obtain ⟨e', added, stack'⟩ := stack.addText data (passed.lt nonempty) root content
      rw [added]
      exact .content stack' placed

/-- What holds at one place holds behind the next token. -/
theorem Reached.step {region' : Region} (reached : Reached source all tokens region c.offset p)
    (here : c.In source) (scans : Scans region c t region' after)
    (part : all = tokens ++ t :: later) (stepped : p.step t = .ok p') :
    Reached source all (tokens ++ [t]) region' after.offset p' := by
  cases scans with
  | outside outer passed note =>
      rcases outer with rfl | rfl
      · cases reached with
        | prologue => rcases note with rfl | rfl <;> cases stepped <;> exact .prologue
      · cases reached with
        | epilogue placed => rcases note with rfl | rfl <;> cases stepped <;> exact .epilogue placed
  | @root _ start _ _ body name first passed inside =>
      cases reached with
      | prologue =>
          rw [Partial.step] at stepped
          split at stepped
          next => cases stepped
          next =>
            cases stepped
            have covers := passed.holds (first.in here)
            have below : Stack source all tokens [] start.offset := .outside
            exact .tag (o := ⟨start.offset, name, [], []⟩) below covers inside nofun
  | pair passed inside => exact reached.tagPair here passed inside stepped
  | emptyEnd passed inside => exact reached.emptyEnd here passed inside part stepped
  | startEnd passed inside => exact reached.startEnd here passed inside stepped
  | @child _ _ _ body name passed inside =>
      cases reached with
      | content stack placed =>
          rw [Partial.step] at stepped
          split at stepped
          next => cases stepped
          next =>
            cases stepped
            exact .tag (o := ⟨c.offset, name, [], []⟩) stack (passed.holds here) inside placed
  | close passed written => exact reached.close here passed written part stepped
  | data passed nonempty data => exact reached.data passed nonempty data stepped
  | note passed note =>
      cases reached with
      | content stack placed =>
          have forward := (passed.holds here).le
          rcases note with rfl | rfl <;> cases stepped
          · exact .content (stack.add [] (.comment _) rfl rfl rfl forward nofun) placed
          · exact .content (stack.add [] (.instruction _) rfl rfl rfl forward nofun) placed

/-- The root element that is read from the tokens of a text stands in it. -/
theorem Reached.run {bound : Nat} (reached : Reached source all tokens region c.offset p)
    (here : c.In source) (part : all = tokens ++ (Token.scanFrom bound region c).tokens)
    (ran : p.run (Token.scanFrom bound region c).tokens = .ok p') :
    ∀ e ∈ p'.root, Placed source all e := by
  -- The bound only counts the steps; what each step keeps is `Reached` at the place behind it.
  induction bound generalizing tokens region c p with
  | zero =>
      cases ran
      exact reached.placed
  | succ bound ih =>
      cases scanned : Step.next region c with
      | finished =>
          simp only [Token.scanFrom, scanned] at ran
          cases ran
          exact reached.placed
      | failed e =>
          simp only [Token.scanFrom, scanned] at ran
          cases ran
          exact reached.placed
      | scanned t region' after =>
          simp only [Token.scanFrom, scanned] at part ran
          rw [Partial.run] at ran
          split at ran
          next => cases ran
          next stepped =>
            have scans := scans_of_next scanned
            obtain ⟨chars, passed⟩ := scans.passes
            refine ih (reached.step here scans part stepped) (passed.in here) ?_ ran
            rw [part, List.append_assoc, List.singleton_append]

end Reading

/-- The root element of a text stands in it. -/
theorem placed_of_rootOf {text : List Char} {root : Element}
    (read : Document.rootOf text = .ok root) :
    Placed text (Token.scan text).tokens root := by
  unfold Document.rootOf at read
  dsimp only at read
  split at read
  next => cases read
  next p ran =>
    split at read
    next => cases read
    next unfaulted =>
      split at read
      next => cases read
      next => cases read
      next same =>
        cases read
        cases begins : (Cursor.skipMark ⟨0, text⟩).skipDeclaration with
        | error e =>
            simp only [Token.scan, begins] at unfaulted
            cases unfaulted
        | ok c =>
            obtain ⟨marks, past⟩ := Cursor.exists_passes_skipMark ⟨0, text⟩
            obtain ⟨written, behind⟩ := Cursor.exists_passes_skipDeclaration begins
            have start : (⟨0, text⟩ : Cursor).In text := rfl
            have here : c.In text := behind.in (past.in start)
            have scan : Token.scan text = Token.scanFrom (c.rest.length + 1) .prologue c := by
              simp only [Token.scan, begins]
            rw [scan] at ran ⊢
            exact Reached.run .prologue here (List.nil_append _).symm ran root same

theorem parse_eq_ok {text : String} {d : Document} (parsed : Document.parse text = .ok d) :
    Document.rootOf text.toList = .ok d.root ∧
      d = ⟨text.toList, Position.table text.toList, d.root⟩ := by
  unfold Document.parse at parsed
  dsimp only at parsed
  split at parsed
  next => cases parsed
  next root read =>
    cases parsed
    exact ⟨read, rfl⟩

end LearningStore.Xml
