import LearningStore.Proofs.Schema.Lookup
import LearningStore.Proofs.Value.Integer
import LearningStore.Proofs.Xml.Content
import LearningStore.Script.Document

/-!
# Records are read back

The names and the values in a stored document are words of letters, digits and a few signs.
None of them has to be escaped in markup or in a literal, so the text of a document is plain
ASCII, and what is read from it are the records that were written.
-/

namespace LearningStore.Script

open LearningStore.Schema
open LearningStore.Text
open LearningStore.Value
open LearningStore.Xml

/-! ## Texts over a class of characters -/

/-- Every character of a text is in a class. -/
def Over (p : Char → Bool) (text : String) : Prop :=
  ∀ c ∈ text.toList, p c = true

instance (p : Char → Bool) (text : String) : Decidable (Over p text) :=
  List.decidableBAll (fun c => p c = true) text.toList

namespace Over

variable {p q : Char → Bool} {a b : String}

/-- A text that is spelled out is over a class if its characters are in it. -/
theorem ofList {chars : List Char} (all : ∀ c ∈ chars, p c = true) :
    Over p (String.ofList chars) := by
  rw [Over, String.toList_ofList]
  exact all

theorem append (ha : Over p a) (hb : Over p b) : Over p (a ++ b) := by
  unfold Over
  rw [String.toList_append]
  exact List.forall_mem_append.mpr ⟨ha, hb⟩

theorem join {texts : List String} (h : ∀ text ∈ texts, Over p text) :
    Over p (String.join texts) := by
  intro c inside
  rw [String.toList_join] at inside
  obtain ⟨text, member, found⟩ := List.mem_flatMap.mp inside
  exact h text member c found

theorem mono (h : Over p a) (weaker : ∀ c, p c = true → q c = true) : Over q a :=
  fun c inside => weaker c (h c inside)

end Over

/-- What the names and the values of a stored document are made of. -/
def isWordChar (c : Char) : Bool :=
  isLetter c || isDigit c || "_$-".toList.contains c

/-- What a stored document is made of: words and the signs of tags. -/
def isDocumentChar (c : Char) : Bool :=
  isWordChar c || " </>=\"".toList.contains c

theorem isDocumentChar_of_isWordChar {c : Char} (h : isWordChar c = true) :
    isDocumentChar c = true := by
  rw [isDocumentChar, h, Bool.true_or]

/-- The characters of words lie between the dollar sign and the small z. -/
theorem range_of_isWordChar {c : Char} (h : isWordChar c = true) :
    36 ≤ c.toNat ∧ c.toNat ≤ 122 := by
  have spans (low high : Char) (between : (low ≤ c && c ≤ high) = true) :
      low.toNat ≤ c.toNat ∧ c.toNat ≤ high.toNat := by
    obtain ⟨lower, upper⟩ := Bool.and_eq_true_iff.mp between
    exact ⟨of_decide_eq_true lower, of_decide_eq_true upper⟩
  simp only [isWordChar, isLetter, isDigit, Bool.or_eq_true, List.contains_iff_mem] at h
  rcases h with ((capital | small) | digit) | sign
  · exact ⟨Nat.le_trans (by decide) (spans _ _ capital).1,
      Nat.le_trans (spans _ _ capital).2 (by decide)⟩
  · exact ⟨Nat.le_trans (by decide) (spans _ _ small).1,
      Nat.le_trans (spans _ _ small).2 (by decide)⟩
  · exact ⟨Nat.le_trans (by decide) (spans _ _ digit).1,
      Nat.le_trans (spans _ _ digit).2 (by decide)⟩
  · have signs : Over (fun d => decide (36 ≤ d.toNat ∧ d.toNat ≤ 122)) "_$-" := by decide
    exact of_decide_eq_true (signs c sign)

/-- A stored document is plain ASCII. -/
theorem toNat_lt_of_isDocumentChar {c : Char} (h : isDocumentChar c = true) :
    c.toNat < 128 := by
  rcases Bool.or_eq_true_iff.mp h with word | sign
  · exact Nat.lt_of_le_of_lt (range_of_isWordChar word).2 (by decide)
  · have signs : Over (fun d => decide (d.toNat < 128)) " </>=\"" := by decide
    exact of_decide_eq_true (signs c (List.contains_iff_mem.mp sign))

/-- Words are the same in markup. -/
theorem xmlEscape_of_isWordChar {c : Char} (h : isWordChar c = true) : xmlEscape c = [c] := by
  refine (xmlEscape_of_not_isMarkupChar (Bool.eq_false_iff.mpr fun markup => ?_)).1
  rcases eq_of_isMarkupChar markup with rfl | rfl | rfl | rfl | rfl <;> exact absurd h (by decide)

theorem isValueChar_of_isWordChar {c : Char} (h : isWordChar c = true) : IsValueChar c := by
  obtain ⟨low, high⟩ := range_of_isWordChar h
  refine ⟨?_, fun space => ?_⟩
  · have above : ¬ c.toNat < 32 := by omega
    have first : c.toNat ≠ 65534 := by omega
    have second : c.toNat ≠ 65535 := by omega
    simp [isXmlChar, above, first, second]
  · simp only [isSpace, Bool.or_eq_true, beq_iff_eq, or_assoc] at space
    rcases space with rfl | rfl | rfl | rfl <;> exact absurd low (by decide)

theorem over_identifier {name : String} (h : IsIdentifier name) : Over isWordChar name := by
  have begins {c : Char} (letter : BeginsIdentifier c) : isWordChar c = true := by
    rcases letter with capital | small | rfl
    · simp [isWordChar, isLetter, capital]
    · simp [isWordChar, isLetter, small]
    · decide
  obtain ⟨first, rest, spelled, letter, others⟩ := h
  unfold Over
  rw [spelled]
  refine List.forall_mem_cons.mpr ⟨begins letter, fun c inside => ?_⟩
  rcases others c inside with letter | digit
  · exact begins letter
  · simp [isWordChar, isDigit, digit]

theorem over_integerText (n : Int) : Over isWordChar (integerText n) := by
  have digits {m : Nat} {c : Char} (inside : c ∈ digitsOf m) : isWordChar c = true := by
    rw [isWordChar, Integer.isDigit_of_mem_digitsOf inside, Bool.or_true, Bool.true_or]
  unfold Over
  cases n with
  | ofNat m =>
      rw [integerText, String.toList_ofList]
      exact fun c => digits
  | negSucc m =>
      rw [integerText, String.toList_ofList]
      exact List.forall_mem_cons.mpr ⟨by decide, fun c => digits⟩

theorem over_booleanText (b : Bool) : Over isWordChar (booleanText b) := by
  cases b <;> decide

/-! ## Simple tags -/

/-- A name or a key that a tag may have. -/
def IsKey (name : String) : Prop :=
  PlainName name ∧ Over isWordChar name

instance (name : String) : Decidable (IsKey name) :=
  inferInstanceAs (Decidable (_ ∧ _))

/-- A tag that is made of words. -/
structure Simple (m : Markup) : Prop where
  name : IsKey m.name
  keys : ∀ a ∈ m.attributes, IsKey a.1
  distinct : (m.attributes.map Prod.fst).Nodup
  values : ∀ a ∈ m.attributes, Over isWordChar a.2

namespace Simple

variable {m : Markup}

/-- The keys of a tag can be looked up in a list of keys that has each once. -/
theorem of_sublist (known : List String) (name : IsKey m.name)
    (sublist : (m.attributes.map Prod.fst).Sublist known)
    (fine : known.Nodup ∧ ∀ key ∈ known, IsKey key)
    (values : ∀ a ∈ m.attributes, Over isWordChar a.2) : Simple m :=
  ⟨name, fun _ inside => fine.2 _ (sublist.subset (List.mem_map_of_mem inside)),
    fine.1.sublist sublist, values⟩

theorem plain (h : Simple m) : m.Plain :=
  ⟨h.name.1, fun a inside => ⟨(h.keys a inside).1,
    fun c member => isValueChar_of_isWordChar (h.values a inside c member)⟩, h.distinct⟩

theorem over_inside (h : Simple m) : Over isDocumentChar m.inside := by
  have word {text : String} (words : Over isWordChar text) : Over isDocumentChar text :=
    words.mono fun _ => isDocumentChar_of_isWordChar
  refine (word h.name.2).append (.join fun text member => ?_)
  obtain ⟨a, inside, rfl⟩ := List.mem_map.mp member
  have escaped : xmlEscaped a.2 = a.2 := by
    have same : a.2.toList.flatMap xmlEscape = a.2.toList.flatMap fun c => [c] :=
      List.flatMap_congr fun c member => xmlEscape_of_isWordChar (h.values a inside c member)
    rw [xmlEscaped, same, List.flatMap_singleton', String.ofList_toList]
  have key := word (h.keys a inside).2
  have value := word (h.values a inside)
  dsimp only
  rw [escaped]
  have blank : Over isDocumentChar " " := by decide
  have equals : Over isDocumentChar "=\"" := by decide
  have quote : Over isDocumentChar "\"" := by decide
  exact (((blank.append key).append equals).append value).append quote

theorem over_start (h : Simple m) : Over isDocumentChar m.start := by
  have opens : Over isDocumentChar "<" := by decide
  have closes : Over isDocumentChar ">" := by decide
  exact (opens.append h.over_inside).append closes

theorem over_empty (h : Simple m) : Over isDocumentChar m.empty := by
  have opens : Over isDocumentChar "<" := by decide
  have closes : Over isDocumentChar "/>" := by decide
  exact (opens.append h.over_inside).append closes

theorem over_stop (h : Simple m) : Over isDocumentChar m.stop := by
  have opens : Over isDocumentChar "</" := by decide
  have closes : Over isDocumentChar ">" := by decide
  have name := h.name.2.mono fun _ => isDocumentChar_of_isWordChar
  exact (opens.append name).append closes

end Simple

/-! ## Records -/

namespace Record

/-- The tags of a record in a row. -/
def text (r : Record) : String :=
  r.markup.start ++ String.join (r.members.map Markup.empty) ++ r.markup.stop

/-- The record that an element is, if it holds nothing but elements without content. -/
def ofElement? (e : Element) : Option Record := do
  let markup ← e.tag.markup?
  let members ← e.contents? Element.empty?
  pure ⟨markup, members⟩

/-- A record that is made of words. -/
structure Simple (r : Record) : Prop where
  markup : Script.Simple r.markup
  members : ∀ m ∈ r.members, Script.Simple m

namespace Simple

variable {r : Record}

theorem over_text (h : r.Simple) : Over isDocumentChar r.text := by
  have members : Over isDocumentChar (String.join (r.members.map Markup.empty)) := by
    refine .join fun text member => ?_
    obtain ⟨m, inside, rfl⟩ := List.mem_map.mp member
    exact (h.members m inside).over_empty
  exact (h.markup.over_start.append members).append h.markup.over_stop

/-- The text of a record is read as this record. -/
theorem readsAs (h : r.Simple) : ReadsAs r.text fun e => ofElement? e = some r := by
  have each : ∀ m ∈ r.members, ReadsAs m.empty fun e => e.empty? = some m :=
    fun m inside => readsAs_empty (h.members m inside).plain
  intro p region depth c rest opens unbound here
  obtain ⟨e, after, ⟨markup, members⟩, behind, path⟩ :=
    readsAs_element h.markup.plain each opens unbound here
  refine ⟨e, after, ?_, behind, path⟩
  simp [ofElement?, markup, members]

end Simple

end Record

/-! ## Documents -/

/-- The tag of a stored document. -/
def storeMarkup : Markup := ⟨"StoreSchema", []⟩

theorem simple_storeMarkup : Simple storeMarkup :=
  .of_sublist [] (by decide) (List.Sublist.refl _) (by decide) (by simp [storeMarkup])

/-- The text of a stored document. -/
def documentText (rs : List Record) : String :=
  storeMarkup.start ++ String.join (rs.map Record.text) ++ storeMarkup.stop

/-- The records of an element that is a stored document. -/
def recordsOf? (root : Element) : Option (List Record) :=
  if root.tag.markup? = some storeMarkup then root.contents? Record.ofElement? else none

section DocumentText

variable {rs : List Record} (simple : ∀ r ∈ rs, r.Simple)

include simple

theorem over_documentText : Over isDocumentChar (documentText rs) := by
  have records : Over isDocumentChar (String.join (rs.map Record.text)) := by
    refine .join fun text member => ?_
    obtain ⟨r, inside, rfl⟩ := List.mem_map.mp member
    exact (simple r inside).over_text
  exact (simple_storeMarkup.over_start.append records).append simple_storeMarkup.over_stop

/-- The text of a document is well-formed, and its records are read back. -/
theorem parse_documentText :
    ∃ d, Document.parse (documentText rs) = .ok d ∧ recordsOf? d.root = some rs := by
  have reads := readsAs_element (m := storeMarkup) simple_storeMarkup.plain
    fun r inside => (simple r inside).readsAs
  have spelled : (documentText rs).toList = '<' :: 'S' ::
      ("toreSchema>".toList ++ (String.join (rs.map Record.text)).toList ++
        storeMarkup.stop.toList) := by
    rw [documentText, String.toList_append, String.toList_append]
    rfl
  obtain ⟨d, parsed, markup, records⟩ := parse_of_readsAs reads spelled (by decide)
  refine ⟨d, parsed, ?_⟩
  rw [recordsOf?, if_pos markup, records]

end DocumentText

/-! ## The records of a schema -/

variable {s : Schema}

/-- The attribute for a reference has one of two keys, and its value is a name. -/
theorem referenceAttribute_cases (valid : s.Valid) {m : Member}
    {reference : List (String × String)} (made : referenceAttribute s m = .ok reference) :
    reference = [] ∨ ∃ name, IsIdentifier name ∧
      (reference = [("ReferencedItemTypeName", name)] ∨ reference = [("EnumName", name)]) := by
  unfold referenceAttribute at made
  split at made
  next =>
    obtain ⟨i, found, rfl⟩ := map_eq_ok.mp made
    exact .inr ⟨i.name, valid.itemTypes i (mem_of_referencedItemType found).1, .inl rfl⟩
  next =>
    obtain ⟨e, found, rfl⟩ := map_eq_ok.mp made
    exact .inr ⟨e.name, valid.enums e (mem_of_referencedEnum found).1, .inr rfl⟩
  next =>
    cases made
    exact .inl rfl

/-- The tag of a member: a name, a type code, some truth values, and a reference. -/
theorem simple_member (valid : s.Valid) {element : String} (key : IsKey element) {m : Member}
    (name : IsIdentifier m.name) (truths : List (String × Bool))
    (known : (truths.map Prod.fst).Sublist ["Nullable", "HasDefault"])
    {reference : List (String × String)} (made : referenceAttribute s m = .ok reference) :
    Simple ⟨element, [("Name", m.name), typeCodeAttribute m] ++
      truths.map (fun t => (t.1, booleanText t.2)) ++ reference⟩ := by
  refine .of_sublist (["Name", "TypeCode"] ++ ["Nullable", "HasDefault"] ++
    ["ReferencedItemTypeName", "EnumName"]) key ?_ (by decide) ?_
  · have referred : (reference.map Prod.fst).Sublist ["ReferencedItemTypeName", "EnumName"] := by
      rcases referenceAttribute_cases valid made with rfl | ⟨name, -, rfl | rfl⟩
      · exact List.nil_sublist _
      · exact List.sublist_append_left ["ReferencedItemTypeName"] ["EnumName"]
      · exact List.sublist_append_right ["ReferencedItemTypeName"] ["EnumName"]
    rw [List.map_append, List.map_append, List.map_map]
    exact ((List.Sublist.refl _).append known).append referred
  · refine List.forall_mem_append.mpr ⟨List.forall_mem_append.mpr ⟨?_, ?_⟩, ?_⟩
    · simp [over_identifier name, typeCodeAttribute, over_integerText]
    · intro a inside
      obtain ⟨t, -, rfl⟩ := List.mem_map.mp inside
      exact over_booleanText t.2
    · rcases referenceAttribute_cases valid made with rfl | ⟨name, identifier, rfl | rfl⟩
      · simp
      · simpa using over_identifier identifier
      · simpa using over_identifier identifier

theorem simple_propertyMarkup (valid : s.Valid) {p : Property} (name : IsIdentifier p.name)
    {m : Markup} (made : propertyMarkup s p = .ok m) : Simple m := by
  obtain ⟨reference, referred, rfl⟩ := map_eq_ok.mp made
  exact simple_member valid (by decide) name
    [("Nullable", p.nullable), ("HasDefault", p.default.isSome)]
    (List.Sublist.refl _) referred

theorem simple_nullableMarkup (valid : s.Valid) {element : String} (key : IsKey element)
    {member : Member} (name : IsIdentifier member.name) {m : Markup}
    (made : nullableMarkup s element member = .ok m) : Simple m := by
  obtain ⟨reference, referred, rfl⟩ := map_eq_ok.mp made
  exact simple_member valid key name [("Nullable", true)]
    (List.sublist_append_left ["Nullable"] ["HasDefault"]) referred

theorem simple_parameterMarkups (valid : s.Valid) {parameters : List Parameter}
    (names : ∀ p ∈ parameters, IsIdentifier p.name) {ms : List Markup}
    (made : parameterMarkups s parameters = .ok ms) : ∀ m ∈ ms, Simple m :=
  forall_mem_of_mapM made fun p inside _ each =>
    simple_nullableMarkup valid (by decide) (names p inside) each

/-- The names of functions are words. -/
theorem over_securityFunction {i : ItemType} (name : IsIdentifier i.name) {right : ItemRight}
    {function : String} (made : i.securityFunction? right = some function) :
    Over isWordChar function := by
  unfold ItemType.securityFunction? at made
  split at made
  next => cases made
  next =>
    cases made
    refine (over_identifier name).append ?_
    cases right <;> decide

/-- The attributes for guards have keys of their own. -/
theorem keys_securityAttributes_sublist (i : ItemType) (rights : List ItemRight) :
    ((rights.filterMap fun right => (i.securityFunction? right).map fun function =>
      (securityAttribute right, function)).map Prod.fst).Sublist
      (rights.map securityAttribute) := by
  induction rights with
  | nil => exact List.Sublist.refl _
  | cons right rest ih =>
      cases guard : i.securityFunction? right with
      | none => simpa [guard] using ih.cons (securityAttribute right)
      | some function => simpa [guard] using ih

theorem simple_itemTypeRecord (valid : s.Valid) {i : ItemType} (member : i ∈ s.itemTypes)
    {r : Record} (made : itemTypeRecord s i = .ok r) : r.Simple := by
  obtain ⟨members, passed, rfl⟩ := map_eq_ok.mp made
  have name := valid.itemTypes i member
  refine ⟨?_, forall_mem_of_mapM passed fun p inside _ each =>
    simple_propertyMarkup valid (valid.properties i member p inside).member.name each⟩
  refine .of_sublist (["Name", "ViewFunction"] ++ recordedRights.map securityAttribute)
    (by decide : IsKey "ItemType") ?_ (by decide) ?_
  · rw [List.map_append]
    refine (List.Sublist.refl _).append ?_
    exact keys_securityAttributes_sublist i recordedRights
  · refine List.forall_mem_append.mpr ⟨?_, fun a inside => ?_⟩
    · have ending : Over isWordChar "$DefaultView" := by decide
      simpa using ⟨over_identifier name, (over_identifier name).append ending⟩
    · obtain ⟨right, -, found⟩ := List.mem_filterMap.mp inside
      obtain ⟨function, guards, rfl⟩ := Option.map_eq_some_iff.mp found
      exact over_securityFunction name guards

theorem simple_enumRecord (valid : s.Valid) {e : EnumType} (member : e ∈ s.enums) :
    (enumRecord e).Simple := by
  refine ⟨.of_sublist ["Name"] (by decide : IsKey "Enum") (List.Sublist.refl _)
    (by decide) ?_, fun m inside => ?_⟩
  · simpa [enumRecord] using over_identifier (valid.enums e member)
  · obtain ⟨v, listed, rfl⟩ := List.mem_map.mp inside
    refine .of_sublist ["Name", "Value"] (by decide : IsKey "Value")
      (List.Sublist.refl _) (by decide) ?_
    simpa using ⟨over_identifier (valid.enum_values e member v listed), over_integerText v.value⟩

/-- The tag of a view or a right with its guard. -/
theorem simple_guarded {element : String} (key : IsKey element)
    {named : List (String × String)} {function : Option String}
    (known : (named.map Prod.fst).Sublist ["Name", "Function"])
    (values : ∀ a ∈ named, Over isWordChar a.2)
    (guards : ∀ name ∈ function, Over isWordChar name) :
    Simple ⟨element, named ++ guardAttribute function⟩ := by
  refine .of_sublist (["Name", "Function"] ++ ["SecurityFunction"]) key ?_
    (by decide) ?_
  · rw [List.map_append]
    refine known.append ?_
    cases function <;> simp [guardAttribute]
  · refine List.forall_mem_append.mpr ⟨values, ?_⟩
    cases function with
    | none => simp [guardAttribute]
    | some name => simpa [guardAttribute] using guards name rfl

theorem simple_viewRecord (valid : s.Valid) {v : View} (member : v ∈ s.views)
    {r : Record} (made : viewRecord s v = .ok r) : r.Simple := by
  obtain ⟨columns, passed, rest⟩ := bind_eq_ok.mp made
  obtain ⟨parameters, parametersMade, same⟩ := bind_eq_ok.mp rest
  cases same
  have name := over_identifier (valid.views v member)
  refine ⟨simple_guarded (by decide) (by simp) (by simpa using name) ?_,
    List.forall_mem_append.mpr ⟨?_, ?_⟩⟩
  · intro guard found
    unfold View.securityFunction? at found
    split at found
    next => cases found
    next =>
      cases found
      have ending : Over isWordChar "$Security" := by decide
      exact name.append ending
  · exact forall_mem_of_mapM passed fun c inside _ each =>
      simple_nullableMarkup valid (by decide) (valid.columns v member c inside).name each
  · exact simple_parameterMarkups valid
      (fun p inside => (valid.view_parameters v member p inside).name) parametersMade

theorem simple_rightRecord (valid : s.Valid) {v : Right} (member : v ∈ s.rights)
    {r : Record} (made : rightRecord s v = .ok r) : r.Simple := by
  obtain ⟨parameters, parametersMade, rfl⟩ := map_eq_ok.mp made
  have name := over_identifier (valid.rights v member)
  refine ⟨simple_guarded (by decide) (by simp) (by simpa using name) ?_,
    simple_parameterMarkups valid
      (fun p inside => (valid.right_parameters v member p inside).name) parametersMade⟩
  intro guard found
  unfold Right.securityFunction? at found
  split at found
  next => cases found
  next =>
    cases found
    exact name

theorem records_eq_ok {rs : List Record} (made : records s = .ok rs) :
    ∃ itemTypes views rights, s.itemTypes.mapM (itemTypeRecord s) = .ok itemTypes ∧
      s.views.mapM (viewRecord s) = .ok views ∧ s.rights.mapM (rightRecord s) = .ok rights ∧
      rs = itemTypes ++ s.enums.map enumRecord ++ views ++ rights := by
  obtain ⟨itemTypes, itemTypesMade, rest⟩ := bind_eq_ok.mp made
  obtain ⟨views, viewsMade, rest⟩ := bind_eq_ok.mp rest
  obtain ⟨rights, rightsMade, same⟩ := bind_eq_ok.mp rest
  cases same
  exact ⟨itemTypes, views, rights, itemTypesMade, viewsMade, rightsMade, rfl⟩

/-- The records of a valid schema are made of words. -/
theorem simple_records (valid : s.Valid) {rs : List Record} (made : records s = .ok rs) :
    ∀ r ∈ rs, r.Simple := by
  obtain ⟨itemTypes, views, rights, itemTypesMade, viewsMade, rightsMade, rfl⟩ :=
    records_eq_ok made
  refine List.forall_mem_append.mpr ⟨List.forall_mem_append.mpr
    ⟨List.forall_mem_append.mpr ⟨?_, fun r inside => ?_⟩, ?_⟩, ?_⟩
  · exact forall_mem_of_mapM itemTypesMade fun i member _ each =>
      simple_itemTypeRecord valid member each
  · obtain ⟨e, member, rfl⟩ := List.mem_map.mp inside
    exact simple_enumRecord valid member
  · exact forall_mem_of_mapM viewsMade fun v member _ each => simple_viewRecord valid member each
  · exact forall_mem_of_mapM rightsMade fun r member _ each =>
      simple_rightRecord valid member each

/-! ## Kinds of records -/

/-- The records for one kind of element. -/
def recordsNamed (element : String) (rs : List Record) : List Record :=
  rs.filter fun r => r.markup.name == element

theorem recordsNamed_append (element : String) (a b : List Record) :
    recordsNamed element (a ++ b) = recordsNamed element a ++ recordsNamed element b :=
  List.filter_append ..

/-- Records that are all of one kind. -/
theorem recordsNamed_eq {name : String} {rs : List Record}
    (all : ∀ r ∈ rs, r.markup.name = name) (element : String) :
    recordsNamed element rs = if name = element then rs else [] := by
  split
  next same =>
    exact List.filter_eq_self.mpr fun r inside => beq_iff_eq.mpr ((all r inside).trans same)
  next other =>
    refine List.filter_eq_nil_iff.mpr fun r inside equal => other ?_
    exact (all r inside).symm.trans (beq_iff_eq.mp equal)

theorem name_itemTypeRecord {i : ItemType} {r : Record} (made : itemTypeRecord s i = .ok r) :
    r.markup.name = "ItemType" := by
  obtain ⟨members, -, rfl⟩ := map_eq_ok.mp made
  rfl

theorem name_viewRecord {v : View} {r : Record} (made : viewRecord s v = .ok r) :
    r.markup.name = "View" := by
  obtain ⟨columns, -, rest⟩ := bind_eq_ok.mp made
  obtain ⟨parameters, -, same⟩ := bind_eq_ok.mp rest
  cases same
  rfl

theorem name_rightRecord {v : Right} {r : Record} (made : rightRecord s v = .ok r) :
    r.markup.name = "Right" := by
  obtain ⟨parameters, -, rfl⟩ := map_eq_ok.mp made
  rfl

/-- The records of a kind among the records of item types, enums, views and rights. -/
theorem recordsNamed_kinds {itemTypes views rights : List Record} (enums : List EnumType)
    (allItemTypes : ∀ r ∈ itemTypes, r.markup.name = "ItemType")
    (allViews : ∀ r ∈ views, r.markup.name = "View")
    (allRights : ∀ r ∈ rights, r.markup.name = "Right") (element : String) :
    recordsNamed element (itemTypes ++ enums.map enumRecord ++ views ++ rights) =
      (if "ItemType" = element then itemTypes else []) ++
        (if "Enum" = element then enums.map enumRecord else []) ++
        (if "View" = element then views else []) ++
        (if "Right" = element then rights else []) := by
  have allEnums : ∀ r ∈ enums.map enumRecord, r.markup.name = "Enum" := by
    intro r inside
    obtain ⟨e, -, rfl⟩ := List.mem_map.mp inside
    rfl
  simp only [recordsNamed_append, recordsNamed_eq allItemTypes, recordsNamed_eq allEnums,
    recordsNamed_eq allViews, recordsNamed_eq allRights]

end LearningStore.Script
