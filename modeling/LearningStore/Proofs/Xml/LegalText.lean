import LearningStore.Proofs.Xml.Placement

/-!
# Characters of texts

A document holds no character that it must not hold, written out or referred to.  So the texts in
its elements are made of characters that any document may hold.
-/

namespace LearningStore.Xml

open LearningStore.Text

/-- Text of characters that a document may hold. -/
def LegalText (s : List Char) : Prop :=
  ∀ c ∈ s, isXmlChar c = true

instance (s : List Char) : Decidable (LegalText s) :=
  inferInstanceAs (Decidable (∀ c ∈ s, isXmlChar c = true))

/-! ## Tokens -/

/-- A token whose text, if it has some, is legal. -/
def Token.Legal : Token → Prop
  | .text _ raw => LegalText raw
  | .cdata _ raw => LegalText raw
  | _ => True

section Tokens

variable {c after : Cursor} {t : Token} {region region' : Region}

theorem Cursor.legalText_takeUntil {stop : List Char → Bool} {offset : Nat}
    {s taken : List Char} (read : takeUntil stop offset s = .ok (taken, after)) :
    LegalText taken := by
  induction s generalizing offset taken with
  | nil =>
      cases read
      exact List.forall_mem_nil _
  | cons d rest ih =>
      rw [takeUntil] at read
      split at read
      next => cases read
      next legal =>
        split at read
        next =>
          cases read
          exact List.forall_mem_nil _
        next =>
          split at read
          next => cases read
          next found =>
            cases read
            have here : isXmlChar d = true := by simpa using legal
            exact List.forall_mem_cons.mpr ⟨here, ih found⟩

theorem Cursor.legal_cdataToken (read : c.cdataToken = .ok (t, after)) : t.Legal := by
  unfold cdataToken at read
  obtain ⟨⟨raw, c₁⟩, taken, read⟩ := bind_eq_ok.mp read
  obtain ⟨c₂, ended, read⟩ := bind_eq_ok.mp read
  cases read
  exact legalText_takeUntil taken

theorem Cursor.legal_textToken (read : c.textToken = .ok (t, after)) : t.Legal := by
  unfold textToken at read
  obtain ⟨⟨raw, c₁⟩, taken, read⟩ := bind_eq_ok.mp read
  dsimp only at read
  split at read
  next => cases read
  next =>
    cases read
    exact legalText_takeUntil taken

/-- A step that gives a piece of data reads it in one of two ways. -/
theorem data_of_inContent {depth : Nat}
    (scanned : Step.inContent depth c = .scanned t region' after) (data : t.data? ≠ none) :
    c.cdataToken = .ok (t, after) ∨ c.textToken = .ok (t, after) := by
  unfold Step.inContent at scanned
  split at scanned
  next => cases scanned
  next => cases scanned
  next =>
    split at scanned
    next starts =>
      obtain ⟨chars, -, rfl⟩ := Cursor.commentToken_eq_ok_imp starts (ofScan_eq_scanned scanned).1
      exact absurd rfl data
    next =>
      split at scanned
      next => exact .inl (ofScan_eq_scanned scanned).1
      next => cases scanned
  next here =>
    obtain ⟨chars, -, rfl⟩ := Cursor.instructionToken_eq_ok_imp here (ofScan_eq_scanned scanned).1
    exact absurd rfl data
  next here =>
    obtain ⟨chars, name, -, -, rfl⟩ :=
      Cursor.endTagToken_eq_ok_imp here (ofScan_eq_scanned scanned).1
    exact absurd rfl data
  next here =>
    obtain ⟨body, name, -, -, rfl⟩ :=
      Cursor.startTagToken_eq_ok_imp here (ofScan_eq_scanned scanned).1
    exact absurd rfl data
  next => exact .inr (ofScan_eq_scanned scanned).1

theorem legal_of_next (scanned : Step.next region c = .scanned t region' after) : t.Legal := by
  have scans := scans_of_next scanned
  cases scans with
  | data passed nonempty data =>
      have given : t.data? ≠ none := by
        rw [data]
        exact Option.some_ne_none _
      rcases data_of_inContent scanned given with read | read
      · exact Cursor.legal_cdataToken read
      · exact Cursor.legal_textToken read
  | outside _ _ note | note _ note =>
      rcases note with rfl | rfl <;> trivial
  | _ => trivial

theorem legal_of_mem_scanFrom {bound : Nat}
    (member : t ∈ (Token.scanFrom bound region c).tokens) : t.Legal := by
  induction bound generalizing region c with
  | zero => cases member
  | succ bound ih =>
      rw [Token.scanFrom] at member
      split at member
      next => cases member
      next => cases member
      next scanned =>
        rcases List.mem_cons.mp member with rfl | later
        · exact legal_of_next scanned
        · exact ih later

theorem legal_of_mem_scan {text : List Char} (member : t ∈ (Token.scan text).tokens) :
    t.Legal := by
  rw [Token.scan] at member
  split at member
  next => cases member
  next => exact legal_of_mem_scanFrom member

end Tokens

/-! ## References -/

/-- A reference to a character is to one that a document may hold. -/
theorem Reference.legal_numbered {base lead used : Nat} {isDigitOf : Char → Bool} {s : List Char}
    {c : Char} (read : numbered? base lead isDigitOf s = some (.char c used)) :
    isXmlChar c = true := by
  unfold numbered? at read
  dsimp only at read
  split at read
  next => cases read
  next allowed =>
    split at read
    next =>
      cases read
      simp only [Bool.or_eq_true, not_or, Bool.not_eq_true, Bool.not_eq_false'] at allowed
      exact allowed.2
    next => cases read

theorem Reference.legal_named {s : List Char} {c : Char} {used : Nat}
    (read : named? s = some (.char c used)) : isXmlChar c = true := by
  have legal {name : String} (known : predefined? name = some c) : isXmlChar c = true := by
    unfold predefined? at known
    split at known <;> cases known <;> decide
  unfold named? at read
  dsimp only at read
  split at read
  next =>
    split at read
    next =>
      split at read
      next known =>
        cases read
        exact legal known
      next => cases read
    next => cases read
  next => cases read

theorem Reference.legal_read {s : List Char} {c : Char} {used : Nat}
    (read : read? s = some (.char c used)) : isXmlChar c = true := by
  unfold read? at read
  split at read
  next => exact legal_numbered read
  next => exact legal_numbered read
  next => exact legal_named read

/-- The character of a piece. -/
def Piece.char : Piece → Char
  | written c => c
  | referred c => c

theorem Piece.legal_ofRaw {skip offset : Nat} {raw : List Char} {pieces : List Piece}
    (legal : LegalText raw) (read : ofRaw skip offset raw = .ok pieces) :
    ∀ x ∈ pieces, isXmlChar x.char = true := by
  induction raw generalizing skip offset pieces with
  | nil =>
      cases read
      exact List.forall_mem_nil _
  | cons c rest ih =>
      obtain ⟨here, later⟩ := List.forall_mem_cons.mp legal
      cases skip with
      | succ skip => exact ih later read
      | zero =>
          rw [ofRaw] at read
          split at read
          next =>
            split at read
            next => cases read
            next => cases read
            next d used referred =>
              obtain ⟨more, found, rfl⟩ := map_eq_ok.mp read
              exact List.forall_mem_cons.mpr ⟨Reference.legal_read referred, ih later found⟩
          next =>
            obtain ⟨more, found, rfl⟩ := map_eq_ok.mp read
            exact List.forall_mem_cons.mpr ⟨here, ih later found⟩

theorem Piece.legal_addWritten {c : Char} {before : List Char} (last : Bool)
    (here : isXmlChar c = true) (legal : LegalText before) :
    LegalText (addWritten c last before) := by
  have feed : isXmlChar '\n' = true := by decide
  unfold addWritten
  split
  next older =>
    have rest : LegalText older := (List.forall_mem_cons.mp legal).2
    have ended : LegalText ('\n' :: older) := List.forall_mem_cons.mpr ⟨feed, rest⟩
    split
    next => exact ended
    next =>
      split
      next => exact List.forall_mem_cons.mpr ⟨feed, ended⟩
      next => exact List.forall_mem_cons.mpr ⟨here, ended⟩
  next =>
    split
    next => exact List.forall_mem_cons.mpr ⟨feed, legal⟩
    next => exact List.forall_mem_cons.mpr ⟨here, legal⟩

theorem Piece.legal_textValue {before : List Char} {asIs : Bool} {pieces : List Piece}
    (legal : LegalText before) (each : ∀ x ∈ pieces, isXmlChar x.char = true) :
    LegalText (textValue before asIs pieces) := by
  induction pieces generalizing before asIs with
  | nil => exact fun c member => legal c (List.mem_reverse.mp member)
  | cons x rest ih =>
      obtain ⟨here, later⟩ := List.forall_mem_cons.mp each
      have added (c : Char) (h : isXmlChar c = true) : LegalText (c :: before) :=
        List.forall_mem_cons.mpr ⟨h, legal⟩
      cases x with
      | referred c => exact ih (added c here) later
      | written c =>
          rw [textValue]
          split
          next => exact ih (added c here) later
          next => exact ih (legal_addWritten _ here legal) later

/-! ## Elements -/

/-- A node in which all text is legal. -/
inductive Node.Legal : Node → Prop where
  | element {tag : Tag} {children : List Node} (each : ∀ n ∈ children, n.Legal) :
      Legal (.element tag children)
  | text {span : Span} {content : List Char} (legal : LegalText content) :
      Legal (.text span content)
  | comment (span : Span) : Legal (.comment span)
  | instruction (span : Span) : Legal (.instruction span)

/-- An element in which all text is legal. -/
def Element.Legal (e : Element) : Prop :=
  ∀ n ∈ e.children, n.Legal

theorem Element.Legal.of_elements {e child : Element} (h : e.Legal)
    (member : child ∈ e.elements) : child.Legal := by
  obtain ⟨node, inside, same⟩ := List.mem_filterMap.mp member
  have legal := h node inside
  cases legal with
  | element each =>
      cases same
      exact each
  | _ => cases same

theorem Element.Legal.text {e : Element} (h : e.Legal) : LegalText e.text.toList := by
  rw [Element.text, String.toList_ofList]
  refine List.forall_mem_flatMap.mpr fun node inside => ?_
  have legal := h node inside
  cases legal with
  | text legal => exact legal
  | _ => exact List.forall_mem_nil _

/-- All text that has been read so far is legal. -/
structure Partial.Legal (p : Partial) : Prop where
  ancestors : ∀ e ∈ p.ancestors, ∀ n ∈ e.children, n.Legal
  root : ∀ e ∈ p.root, e.Legal

namespace Partial

variable {p p' : Partial}

theorem Legal.add (h : p.Legal) {node : Node} (legal : node.Legal) : (p.add node).Legal := by
  obtain ⟨opening, ancestors, root⟩ := p
  cases ancestors with
  | cons parent rest =>
      obtain ⟨here, others⟩ := List.forall_mem_cons.mp h.ancestors
      exact ⟨List.forall_mem_cons.mpr ⟨List.forall_mem_cons.mpr ⟨legal, here⟩, others⟩, h.root⟩
  | nil =>
      cases legal with
      | element each =>
          refine ⟨List.forall_mem_nil _, ?_⟩
          rintro _ ⟨⟩
          exact each
      | _ => exact h

theorem Legal.addText (h : p.Legal) {content : List Char} (legal : LegalText content)
    (span : Span) : (p.addText span content).Legal := by
  obtain ⟨opening, ancestors, root⟩ := p
  cases ancestors with
  | nil => exact h
  | cons parent rest =>
      obtain ⟨here, others⟩ := List.forall_mem_cons.mp h.ancestors
      refine ⟨List.forall_mem_cons.mpr ⟨?_, others⟩, h.root⟩
      dsimp only
      split
      next found =>
        rw [found] at here
        obtain ⟨first, older⟩ := List.forall_mem_cons.mp here
        cases first with
        | text before =>
            have joined := List.forall_mem_append.mpr ⟨before, legal⟩
            exact List.forall_mem_cons.mpr ⟨.text joined, older⟩
      next => exact List.forall_mem_cons.mpr ⟨.text legal, here⟩

theorem Legal.endTag (h : p.Legal) {o : Opening} {opened : Bool} {stop : Nat}
    (read : p.endTag o opened stop = .ok p') : p'.Legal := by
  unfold Partial.endTag at read
  dsimp only at read
  split at read
  next => cases read
  next =>
    split at read
    next => cases read
    next =>
      split at read
      next =>
        cases read
        exact ⟨List.forall_mem_cons.mpr ⟨List.forall_mem_nil _, h.ancestors⟩, h.root⟩
      next =>
        cases read
        have same : ({ p with opening := none } : Partial).Legal := ⟨h.ancestors, h.root⟩
        exact same.add (.element (List.forall_mem_nil _))

theorem Legal.close (h : p.Legal) {span : Span} {name : QName}
    (read : p.close span name = .ok p') : p'.Legal := by
  obtain ⟨opening, ancestors, root⟩ := p
  cases ancestors with
  | nil =>
      cases read
      exact h
  | cons e rest =>
      obtain ⟨here, others⟩ := List.forall_mem_cons.mp h.ancestors
      unfold Partial.close at read
      dsimp only at read
      split at read
      next =>
        cases read
        have below : Partial.Legal ⟨opening, rest, root⟩ := ⟨others, h.root⟩
        exact below.add (.element fun n member => here n (List.mem_reverse.mp member))
      next => cases read

theorem Legal.step (h : p.Legal) {t : Token} (legal : t.Legal) (read : p.step t = .ok p') :
    p'.Legal := by
  unfold Partial.step at read
  split at read
  next =>
    split at read
    next => cases read
    next =>
      cases read
      exact ⟨h.ancestors, h.root⟩
  next =>
    split at read
    next =>
      cases read
      exact h
    next =>
      obtain ⟨o, -, rfl⟩ := map_eq_ok.mp read
      exact ⟨h.ancestors, h.root⟩
  next =>
    split at read
    next =>
      cases read
      exact h
    next => exact h.endTag read
  next => exact h.close read
  next span raw =>
    obtain ⟨pieces, found, rfl⟩ := map_eq_ok.mp read
    have each := Piece.legal_ofRaw legal found
    exact h.addText (Piece.legal_textValue (List.forall_mem_nil _) each) span
  next span raw =>
    cases read
    have each : ∀ x ∈ raw.map Piece.written, isXmlChar x.char = true :=
      List.forall_mem_map.mpr legal
    exact h.addText (Piece.legal_textValue (List.forall_mem_nil _) each) span
  next span =>
    cases read
    exact h.add (.comment span)
  next span =>
    cases read
    exact h.add (.instruction span)

theorem Legal.run (h : p.Legal) {tokens : List Token} (legal : ∀ t ∈ tokens, t.Legal)
    (read : p.run tokens = .ok p') : p'.Legal := by
  induction tokens generalizing p with
  | nil =>
      cases read
      exact h
  | cons t rest ih =>
      obtain ⟨here, later⟩ := List.forall_mem_cons.mp legal
      rw [run] at read
      split at read
      next => cases read
      next p₁ stepped => exact ih (h.step here stepped) later read

end Partial

theorem legal_of_rootOf {text : List Char} {root : Element}
    (read : Document.rootOf text = .ok root) : root.Legal := by
  have start : Partial.empty.Legal := by
    refine ⟨List.forall_mem_nil _, ?_⟩
    rintro _ ⟨⟩
  unfold Document.rootOf at read
  dsimp only at read
  split at read
  next => cases read
  next ran =>
    have legal := start.run (fun t member => legal_of_mem_scan member) ran
    split at read
    next => cases read
    next =>
      split at read
      next => cases read
      next => cases read
      next found =>
        cases read
        exact legal.root _ found

theorem legal_of_parse {text : String} {d : Document} (parsed : Document.parse text = .ok d) :
    d.root.Legal :=
  legal_of_rootOf (parse_eq_ok parsed).1

end LearningStore.Xml
