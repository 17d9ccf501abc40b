import LearningStore.Proofs.Text.Gluing
import LearningStore.Proofs.Xml.Placement

/-!
# What stands between the tags of an element

The place of an element says where its start tag begins and where its end tag ends.  Both can be
told from the text inside, so there is one text between them.  The text that is taken for it ends
with the last node of the element, and so it ends too early where that node stands for pieces of
character data that touch.
-/

namespace LearningStore.Xml

open LearningStore.Text

/-! ## Tags in a text -/

/-- A tag ends at the first mark that may end it. -/
theorem TagBody.append_cons_inj {a b x y : List Char} {m n : Char} (first : TagBody a)
    (second : TagBody b) (ends : m = '/' ∨ m = '>') (ends' : n = '/' ∨ n = '>')
    (same : a ++ m :: x = b ++ n :: y) : a = b ∧ m :: x = n :: y := by
  induction first generalizing b with
  | nil =>
      cases second with
      | nil => exact ⟨rfl, same⟩
      | char plain more =>
          cases same
          rcases ends with rfl | rfl <;> simp at plain
      | quoted quote inside more =>
          cases same
          rcases ends with rfl | rfl <;> simp at quote
  | char plain more ih =>
      cases second with
      | nil =>
          cases same
          rcases ends' with rfl | rfl <;> simp at plain
      | char plain' more' =>
          obtain ⟨rfl, rest⟩ := List.cons.inj same
          obtain ⟨rfl, behind⟩ := ih more' rest
          exact ⟨rfl, behind⟩
      | quoted quote inside more' =>
          obtain ⟨rfl, -⟩ := List.cons.inj same
          rcases quote with rfl | rfl <;> simp at plain
  | @quoted mark value rest quote inside more ih =>
      -- Inside a quotation there may be marks that end tags, but both texts leave it at one place.
      cases second with
      | nil =>
          cases same
          rcases ends' with rfl | rfl <;> simp at quote
      | char plain more' =>
          obtain ⟨rfl, -⟩ := List.cons.inj same
          rcases quote with rfl | rfl <;> simp at plain
      | @quoted mark' value' rest' quote' inside' more' =>
          obtain ⟨rfl, -⟩ := List.cons.inj same
          have glued : value ++ mark :: (rest ++ m :: x) = value' ++ mark :: (rest' ++ n :: y) := by
            simpa using same
          obtain ⟨rfl, rest⟩ := append_cons_inj_first inside.1 inside'.1 glued
          obtain ⟨rfl, behind⟩ := ih more' rest
          exact ⟨rfl, behind⟩

theorem TagBody.notMem {s : List Char} (body : TagBody s) : '<' ∉ s := by
  induction body with
  | nil => exact List.not_mem_nil
  | char plain _ ih => simpa using ⟨Ne.symm plain.1, ih⟩
  | quoted quote inside _ ih =>
      rcases quote with rfl | rfl <;> simpa using ⟨inside.2, ih⟩

section Tags

variable {s t x y : List Char}

theorem IsStartTag.unique (first : IsStartTag s) (second : IsStartTag t)
    (same : s ++ x = t ++ y) : s = t := by
  obtain ⟨a, rfl, inside⟩ := first
  obtain ⟨b, rfl, inside'⟩ := second
  have rest : a ++ '>' :: x = b ++ '>' :: y := by simpa using same
  rw [(inside.append_cons_inj inside' (.inr rfl) (.inr rfl) rest).1]

theorem IsStartTag.ne_emptyTag (first : IsStartTag s) (second : IsEmptyTag t) :
    s ++ x ≠ t ++ y := by
  intro same
  obtain ⟨a, rfl, inside⟩ := first
  obtain ⟨b, rfl, inside'⟩ := second
  have rest : a ++ '>' :: x = b ++ '/' :: '>' :: y := by simpa using same
  cases (inside.append_cons_inj inside' (.inr rfl) (.inl rfl) rest).2

theorem IsEndTag.unique (first : IsEndTag s) (second : IsEndTag t) (same : x ++ s = y ++ t) :
    s = t := by
  obtain ⟨a, rfl, inside⟩ := first
  obtain ⟨b, rfl, inside'⟩ := second
  have last : '<' ∉ '/' :: (a ++ ['>']) := by simpa using inside.notMem
  have last' : '<' ∉ '/' :: (b ++ ['>']) := by simpa using inside'.notMem
  rw [(append_cons_inj_last last last' same).2]

end Tags

/-! ## Ends of tags among tokens -/

/-- Where a tag ends whose last token this is. -/
def Token.close? : Token → Option Nat
  | .tagEnd _ stop => some stop
  | .endTag span _ => some span.stop
  | _ => none

section Tokens

variable {region region' : Region} {c after : Cursor} {t : Token} {bound place : Nat}

/-- The last token of a tag takes characters, and the tag ends with them. -/
theorem Scans.closes (scans : Scans region c t region' after) (closes : t.close? = some place) :
    place = after.offset ∧ c.offset < after.offset := by
  cases scans with
  | outside _ _ note => rcases note with rfl | rfl <;> cases closes
  | root => cases closes
  | pair => cases closes
  | emptyEnd passed _ =>
      cases closes
      exact ⟨rfl, passed.lt (by simp)⟩
  | startEnd passed _ =>
      cases closes
      exact ⟨rfl, passed.lt (by simp)⟩
  | child => cases closes
  | close passed written =>
      cases closes
      obtain ⟨body, rfl, -⟩ := written
      exact ⟨rfl, passed.lt (List.cons_ne_nil _ _)⟩
  | data _ _ data => rcases Token.data?_eq_some data with ⟨raw, rfl⟩ | ⟨raw, rfl⟩ <;> cases closes
  | note _ note => rcases note with rfl | rfl <;> cases closes

/-- A tag whose last token is still to come ends behind the place that has been reached. -/
theorem lt_of_mem_scanFrom (inside : t ∈ (Token.scanFrom bound region c).tokens)
    (closes : t.close? = some place) : c.offset < place := by
  induction bound generalizing region c with
  | zero => cases inside
  | succ bound ih =>
      cases scanned : Step.next region c with
      | finished =>
          simp only [Token.scanFrom, scanned] at inside
          cases inside
      | failed e =>
          simp only [Token.scanFrom, scanned] at inside
          cases inside
      | scanned t' region' after =>
          simp only [Token.scanFrom, scanned] at inside
          have scans := scans_of_next scanned
          rcases List.mem_cons.mp inside with rfl | later
          · rw [(scans.closes closes).1]
            exact (scans.closes closes).2
          · obtain ⟨chars, passed⟩ := scans.passes
            have ahead := ih later
            rw [passed.2] at ahead
            omega

/-- No two tags end at the same place. -/
theorem close_unique {before before' rest rest' : List Token} {t' : Token}
    (first : (Token.scanFrom bound region c).tokens = before ++ t :: rest)
    (second : (Token.scanFrom bound region c).tokens = before' ++ t' :: rest')
    (closes : t.close? = some place) (closes' : t'.close? = some place) :
    before = before' ∧ t = t' := by
  induction bound generalizing region c before before' with
  | zero => cases before <;> cases first
  | succ bound ih =>
      cases scanned : Step.next region c with
      | finished =>
          simp only [Token.scanFrom, scanned] at first
          cases before <;> cases first
      | failed e =>
          simp only [Token.scanFrom, scanned] at first
          cases before <;> cases first
      | scanned t₁ region' after =>
          simp only [Token.scanFrom, scanned] at first second
          have scans := scans_of_next scanned
          -- A tag that ends with the first token ends before every other.
          have apart {t₂ : Token} (inside : t₂ ∈ (Token.scanFrom bound region' after).tokens)
              (closes₁ : t₁.close? = some place) (closes₂ : t₂.close? = some place) : False := by
            have ends := (scans.closes closes₁).1
            have later := lt_of_mem_scanFrom inside closes₂
            omega
          cases before with
          | nil =>
              obtain ⟨rfl, rfl⟩ := List.cons.inj first
              cases before' with
              | nil => exact ⟨rfl, (List.cons.inj second).1⟩
              | cons t₂ before' =>
                  obtain ⟨-, behind⟩ := List.cons.inj second
                  exact (apart (behind ▸ List.mem_append_right _ List.mem_cons_self) closes
                    closes').elim
          | cons t₂ before =>
              obtain ⟨rfl, ahead⟩ := List.cons.inj first
              cases before' with
              | nil =>
                  obtain ⟨rfl, -⟩ := List.cons.inj second
                  exact (apart (ahead ▸ List.mem_append_right _ List.mem_cons_self) closes'
                    closes).elim
              | cons t₃ before' =>
                  obtain ⟨rfl, behind⟩ := List.cons.inj second
                  obtain ⟨rfl, rfl⟩ := ih ahead behind
                  exact ⟨rfl, rfl⟩

end Tokens

/-! ## What is taken for the text between the tags -/

namespace Document

/-- The text between the tags of an element. -/
inductive Between (d : Document) (e : Element) : List Char → Prop where
  | empty (isTag : IsEmptyTag (d.slice e.tag.span)) : Between d e []
  | full {a c : Nat} (isStart : IsStartTag (d.slice ⟨e.tag.span.start, a⟩))
      (isEnd : IsEndTag (d.slice ⟨c, e.tag.span.stop⟩)) (forward : a ≤ c) :
      Between d e (d.slice ⟨a, c⟩)

/-- All the pieces of character data that touch at the end of an element. -/
def EndsIn (d : Document) (e : Element) (pieces : List Token) : Prop :=
  (∀ t ∈ pieces, t.isData = true) ∧ ∃ before after c name,
    (Token.scan d.text).tokens =
      before ++ pieces ++ .endTag ⟨c, e.tag.span.stop⟩ name :: after ∧
    ∀ t ∈ before.getLast?, t.isData = false

/-- Character data in more than one piece stands right before the end tag of an element. -/
def Splits (d : Document) (e : Element) : Prop :=
  ∃ pieces, d.EndsIn e pieces ∧ 2 ≤ pieces.length

/-- What is taken for the text between the tags of an element: all of it, or what stands before
the end of the first piece of the character data in which it ends. -/
inductive Gives (d : Document) (e : Element) : List Char → Prop where
  | whole {content : List Char} (between : d.Between e content) (plain : ¬ d.Splits e) :
      Gives d e content
  | cut {a c : Nat} {first : Token} {pieces : List Token} {place : Span}
      (isStart : IsStartTag (d.slice ⟨e.tag.span.start, a⟩))
      (isEnd : IsEndTag (d.slice ⟨c, e.tag.span.stop⟩))
      (ends : d.EndsIn e (first :: pieces)) (several : pieces ≠ [])
      (data : first.data? = some place) (forward : a ≤ place.stop) (early : place.stop < c) :
      Gives d e (d.slice ⟨a, place.stop⟩)

variable {d : Document} {e : Element}

/-! ### Slices -/

theorem slice_append (d : Document) {start between stop : Nat} (first : start ≤ between)
    (second : between ≤ stop) :
    d.slice ⟨start, between⟩ ++ d.slice ⟨between, stop⟩ = d.slice ⟨start, stop⟩ := by
  have length : stop - start = (between - start) + (stop - between) := by omega
  have next : start + (between - start) = between := by omega
  simp only [slice, length, List.take_add, List.drop_drop, next]

theorem length_slice (d : Document) (start stop : Nat) :
    (d.slice ⟨start, stop⟩).length = min stop d.text.length - start := by
  rw [slice, List.length_take, List.length_drop, Nat.sub_min_sub_right]

theorem lt_of_slice_eq_cons {start stop : Nat} {x : Char} {chars : List Char}
    (same : d.slice ⟨start, stop⟩ = x :: chars) : start < stop ∧ start < d.text.length := by
  have long := d.length_slice start stop
  rw [same, List.length_cons] at long
  omega

/-- The end of a start tag that begins at a place. -/
theorem start_unique {start a a' : Nat} (first : IsStartTag (d.slice ⟨start, a⟩))
    (second : IsStartTag (d.slice ⟨start, a'⟩)) (inside : a ≤ d.text.length)
    (inside' : a' ≤ d.text.length) : a = a' := by
  have same := first.unique second
    ((List.take_append_drop _ _).trans (List.take_append_drop _ _).symm)
  have lengths := congrArg List.length same
  rw [length_slice, length_slice] at lengths
  obtain ⟨_, begins, -⟩ := first
  obtain ⟨_, begins', -⟩ := second
  have some_chars := lt_of_slice_eq_cons begins
  have some_chars' := lt_of_slice_eq_cons begins'
  omega

/-- The beginning of an end tag that ends at a place. -/
theorem end_unique {c c' stop : Nat} (first : IsEndTag (d.slice ⟨c, stop⟩))
    (second : IsEndTag (d.slice ⟨c', stop⟩)) : c = c' := by
  have begins := first
  have begins' := second
  obtain ⟨_, begins, -⟩ := begins
  obtain ⟨_, begins', -⟩ := begins'
  have some_chars := lt_of_slice_eq_cons begins
  have some_chars' := lt_of_slice_eq_cons begins'
  have glued := d.slice_append (Nat.zero_le c) (Nat.le_of_lt some_chars.1)
  have glued' := d.slice_append (Nat.zero_le c') (Nat.le_of_lt some_chars'.1)
  have lengths := congrArg List.length (first.unique second (glued.trans glued'.symm))
  rw [length_slice, length_slice] at lengths
  omega

theorem Between.unique {x y : List Char} (first : d.Between e x) (second : d.Between e y) :
    x = y := by
  have split (n : Nat) : d.slice ⟨e.tag.span.start, n⟩ ++ _ = d.text.drop e.tag.span.start :=
    List.take_append_drop (n - e.tag.span.start) _
  cases first with
  | empty isTag =>
      cases second with
      | empty => rfl
      | @full a _ isStart _ _ =>
          exact absurd ((split a).trans (split e.tag.span.stop).symm) (isStart.ne_emptyTag isTag)
  | @full a c isStart isEnd forward =>
      cases second with
      | empty isTag =>
          exact absurd ((split a).trans (split e.tag.span.stop).symm) (isStart.ne_emptyTag isTag)
      | @full a' c' isStart' isEnd' forward' =>
          obtain rfl := end_unique isEnd isEnd'
          obtain ⟨_, begins, -⟩ := isEnd
          have inside := lt_of_slice_eq_cons begins
          rw [start_unique isStart isStart' (by omega) (by omega)]

/-! ### Pieces of character data -/

theorem close_unique_scan {text : List Char} {before before' rest rest' : List Token}
    {t t' : Token} {place : Nat} (first : (Token.scan text).tokens = before ++ t :: rest)
    (second : (Token.scan text).tokens = before' ++ t' :: rest')
    (closes : t.close? = some place) (closes' : t'.close? = some place) :
    before = before' ∧ t = t' := by
  unfold Token.scan at first second
  split at first
  next => cases before <;> cases first
  next begins =>
    rw [begins] at second
    exact close_unique first second closes closes'

theorem EndsIn.unique {pieces pieces' : List Token} (first : d.EndsIn e pieces)
    (second : d.EndsIn e pieces') : pieces = pieces' := by
  obtain ⟨each, before, _, _, _, tokens, apart⟩ := first
  obtain ⟨each', before', _, _, _, tokens', apart'⟩ := second
  -- What touches ends in something else, so one cannot reach further than the other.
  have apart_iff {front more pieces : List Token} (each : ∀ t ∈ more ++ pieces, t.isData = true)
      (apart : ∀ t ∈ (front ++ more).getLast?, t.isData = false) : more = [] := by
    rcases List.eq_nil_or_concat more with none | ⟨init, t, rfl⟩
    · exact none
    · have data := each t (by simp)
      rw [apart t (by simp)] at data
      cases data
  rcases List.append_eq_append_iff.mp (close_unique_scan tokens tokens' rfl rfl).1 with
    ⟨more, rfl, rfl⟩ | ⟨more, rfl, rfl⟩
  · rw [apart_iff each apart', List.nil_append]
  · rw [apart_iff each' apart, List.nil_append]

/-- What is taken is the text between the tags unless that ends in split character data. -/
theorem Gives.between_iff {markup : List Char} (gives : d.Gives e markup) :
    d.Between e markup ↔ ¬ d.Splits e := by
  cases gives with
  | whole between plain => exact ⟨fun _ => plain, fun _ => between⟩
  | @cut a c first pieces place isStart isEnd ends several data forward early =>
      have splits : d.Splits e :=
        ⟨first :: pieces, ends, Nat.succ_le_succ (List.length_pos_of_ne_nil several)⟩
      refine ⟨fun between => ?_, fun plain => absurd splits plain⟩
      have same := between.unique (.full isStart isEnd (by omega))
      have lengths := congrArg List.length same
      rw [length_slice, length_slice] at lengths
      obtain ⟨_, begins, -⟩ := isEnd
      have inside := lt_of_slice_eq_cons begins
      omega

/-! ### Elements in their place -/

theorem slice_of_holds {start stop : Nat} {chars : List Char}
    (holds : Holds d.text start stop chars) : d.slice ⟨start, stop⟩ = chars :=
  holds.take

/-- From its first node to its last, an element shows what begins behind its start tag. -/
theorem inner_of_content {tag : Tag} {children : List Node} {a c : Nat}
    {front pieces : List Token} (content : Content a (front ++ pieces) children.reverse c)
    (ending : Ending a front pieces children.reverse c) :
    d.inner ⟨tag, children⟩ = String.ofList (d.slice ⟨a, dataEnd c pieces⟩) := by
  have first := content.first
  have last := ending.kept
  have forward := ending.forward
  rw [List.getLast?_reverse] at first
  rw [List.head?_reverse] at last
  unfold inner
  cases begins : children.head? with
  | none =>
      have nothing : dataEnd c pieces - a = 0 := by
        rw [begins] at first
        have same : c = a := first
        omega
      simp only [slice, nothing, List.take_zero, String.ofList_nil]
  | some node =>
      cases ends : children.getLast? with
      | none =>
          rw [List.getLast?_eq_none_iff.mp ends] at begins
          cases begins
      | some node' =>
          rw [begins] at first
          have start : node.span.start = a := first
          dsimp only
          rw [start, last node' ends]

/-- An empty element does not end in character data. -/
theorem not_splits_of_empty {before after : List Token}
    (tokens : (Token.scan d.text).tokens = before ++ .tagEnd false e.tag.span.stop :: after) :
    ¬ d.Splits e := by
  rintro ⟨pieces, ⟨-, _, _, _, _, tokens', -⟩, -⟩
  cases (close_unique_scan tokens tokens' rfl rfl).2

section Ends

variable {a c : Nat} {front pieces : List Token} {nodes : List Node}

/-- The pieces in which the content of an element ends touch its end tag. -/
theorem endsIn_of_ending (ending : Ending a front pieces nodes c) {before after : List Token}
    {name : QName}
    (tokens : (Token.scan d.text).tokens = before ++ .tagEnd true a ::
      (front ++ pieces ++ .endTag ⟨c, e.tag.span.stop⟩ name :: after)) :
    d.EndsIn e pieces := by
  refine ⟨ending.each, before ++ .tagEnd true a :: front, after, c, name, ?_, ?_⟩
  · rw [tokens]
    simp only [List.append_assoc, List.cons_append]
  · intro t last
    rw [List.getLast?_append_of_ne_nil _ (List.cons_ne_nil _ _), List.getLast?_cons] at last
    cases behind : front.getLast? with
    | none =>
        rw [behind] at last
        cases last
        rfl
    | some t' =>
        rw [behind] at last
        cases last
        exact ending.apart t' behind

/-- What stands before the end of the first piece is the whole content where there is one piece at
most, and is cut off where there are more. -/
theorem gives_of_ending (ending : Ending a front pieces nodes c)
    (isStart : IsStartTag (d.slice ⟨e.tag.span.start, a⟩))
    (isEnd : IsEndTag (d.slice ⟨c, e.tag.span.stop⟩)) (ends : d.EndsIn e pieces) :
    d.Gives e (d.slice ⟨a, dataEnd c pieces⟩) := by
  have forward := ending.forward
  by_cases one : pieces.length ≤ 1
  · rw [ending.whole.mpr one]
    refine .whole (.full isStart isEnd (Nat.le_trans forward.1 forward.2)) ?_
    rintro ⟨pieces', ends', several⟩
    rw [ends'.unique ends] at several
    omega
  · have early : dataEnd c pieces < c :=
      Nat.lt_of_le_of_ne forward.2 fun same => one (ending.whole.mp same)
    cases pieces with
    | nil => exact absurd (Nat.zero_le 1) one
    | cons first more =>
        obtain ⟨place, data⟩ :=
          Option.isSome_iff_exists.mp (ending.each first List.mem_cons_self)
        have stops : dataEnd c (first :: more) = place.stop := by simp [dataEnd, data]
        have several : more ≠ [] := by
          rintro rfl
          exact one (Nat.le_refl 1)
        rw [stops] at forward early ⊢
        exact .cut isStart isEnd ends several data forward.1 early

end Ends

theorem gives_of_placed (placed : Placed d.text (Token.scan d.text).tokens e) :
    d.Gives e (d.inner e).toList := by
  cases placed with
  | empty written isTag tokens =>
      rw [← slice_of_holds written] at isTag
      exact .whole (.empty isTag) (not_splits_of_empty tokens)
  | full opens isStart closes isEnd content tokens _ =>
      obtain ⟨front, pieces, rfl, ending⟩ := content.ending
      rw [← slice_of_holds opens] at isStart
      rw [← slice_of_holds closes] at isEnd
      rw [inner_of_content content ending, String.toList_ofList]
      exact gives_of_ending ending isStart isEnd (endsIn_of_ending ending tokens)

end Document

end LearningStore.Xml
