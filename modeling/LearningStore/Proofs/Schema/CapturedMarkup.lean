import LearningStore.Proofs.Schema.Entries
import LearningStore.Proofs.Xml.Between

/-!
# Documentation is taken from the text of its file

The documentation of a file is captured as it is written: for each element that holds some there is
one text, and it is the text between the tags of the element.  The exception is an element that
ends in character data of several pieces, of which only the first is captured.
-/

namespace LearningStore.Xml.Element

/-- The elements that hold the documentation of an element. -/
def documented (e : Element) : List Element :=
  e.within "Documentation" "Summary" ++ e.within "Documentation" "Remarks"

/-- The elements that hold the documentation of members. -/
def documentedMembers (e : Element) (list member : String) : List Element :=
  (e.within list member).flatMap documented

/-- Those of a kind of declaration: of the declaration itself and of its members. -/
def documentedWith (e : Element) (lists : List (String × String)) : List Element :=
  e.documented ++ lists.flatMap fun list => e.documentedMembers list.1 list.2

theorem documentedWith_singleton (e : Element) (list member : String) :
    e.documentedWith [(list, member)] = e.documented ++ e.documentedMembers list member := by
  simp [documentedWith]

theorem documentedWith_pair (e : Element) (list member list' member' : String) :
    e.documentedWith [(list, member), (list', member')] =
      e.documented ++ (e.documentedMembers list member ++ e.documentedMembers list' member') := by
  simp [documentedWith]

/-- The elements that hold the documentation of an enum and of its values. -/
def documentedEnum (e : Element) : List Element :=
  e.documented ++ (e.within "Values" "Value").flatMap fun value => value.named "Documentation"

/-- The lists of members that a declaration of each kind can have. -/
def memberLists : List (String × List (String × String)) :=
  [("ItemType", [("Properties", "Property")]),
    ("View", [("Columns", "Column"), ("Parameters", "Parameter")]),
    ("Right", [("Parameters", "Parameter")]),
    ("ExtendItemType", [("Properties", "Property"), ("Properties", "ExtendProperty")]),
    ("ExtendView", []),
    ("ExtendRight", [("Parameters", "Parameter"), ("Parameters", "ExtendParameter")])]

/-- All the elements of a file that hold documentation, kind by kind. -/
def documentation (root : Element) : List Element :=
  (root.named "Enum").flatMap documentedEnum ++
    memberLists.flatMap fun kind => (root.named kind.1).flatMap (documentedWith · kind.2)

end LearningStore.Xml.Element

namespace LearningStore.Schema

open LearningStore.Xml

/-! ## The texts of a file -/

def Documentation.texts (d : Documentation) : List String :=
  d.summary.toList ++ d.remarks.toList

def EnumType.texts (t : EnumType) : List String :=
  t.documentation.texts ++ t.values.flatMap fun v => v.documentation.toList

def ItemType.texts (i : ItemType) : List String :=
  i.documentation.texts ++ i.properties.flatMap fun p => p.documentation.texts

def View.texts (v : View) : List String :=
  v.documentation.texts ++ ((v.columns.flatMap fun c => c.documentation.texts) ++
    v.parameters.flatMap fun p => p.documentation.texts)

def Right.texts (r : Right) : List String :=
  r.documentation.texts ++ r.parameters.flatMap fun p => p.documentation.texts

def ItemTypeExtension.texts (x : ItemTypeExtension) : List String :=
  x.body.documentation.texts ++
    ((x.body.properties.flatMap fun p => p.item.documentation.texts) ++
      x.body.propertyExtensions.flatMap fun p => p.documentation.texts)

def RightExtension.texts (x : RightExtension) : List String :=
  x.documentation.texts ++ ((x.parameters.flatMap fun p => p.item.documentation.texts) ++
    x.parameterExtensions.flatMap fun p => p.documentation.texts)

/-- The captured texts of a file: every summary, all remarks and the documentation of every enum
value, kind by kind. -/
def SchemaFile.texts (file : SchemaFile) : List String :=
  (file.enums.flatMap fun d => d.item.texts) ++
    ((file.itemTypes.flatMap fun d => d.item.texts) ++
      ((file.views.flatMap fun d => d.item.texts) ++
        ((file.rights.flatMap fun d => d.item.texts) ++
          ((file.itemTypeExtensions.flatMap ItemTypeExtension.texts) ++
            ((file.viewExtensions.flatMap fun x => x.documentation.texts) ++
              file.rightExtensions.flatMap RightExtension.texts)))))

/-! ## Texts and their elements -/

section Texts

variable {s : Source} {e : Element}

/-- Where each member of a list is read from an element, so are the texts of all of them. -/
theorem flatMap_texts {α : Type} {R : Element → α → Prop} {es : List Element} {xs : List α}
    {texts : α → List String} {elements : Element → List Element} (h : List.Forall₂ R es xs)
    (each : ∀ e x, R e x → texts x = (elements e).map s.document.inner) :
    xs.flatMap texts = (es.flatMap elements).map s.document.inner := by
  induction h with
  | nil => rfl
  | cons related _ ih =>
      rw [List.flatMap_cons, List.flatMap_cons, List.map_append, each _ _ related, ih]

theorem Documentation.From.texts {d : Documentation} (h : d.From s e) :
    d.texts = e.documented.map s.document.inner := by
  rw [Documentation.texts, h.summary, h.remarks, Element.documented, List.map_append]

theorem flatMap_members {α : Type} {R : Element → α → Prop} {list member : String} {xs : List α}
    {texts : α → List String} (h : List.Forall₂ R (e.within list member) xs)
    (each : ∀ e x, R e x → texts x = e.documented.map s.document.inner) :
    xs.flatMap texts = (e.documentedMembers list member).map s.document.inner :=
  flatMap_texts h each

theorem EnumType.From.texts {t : EnumType} (h : t.From s e) :
    t.texts = e.documentedEnum.map s.document.inner := by
  rw [EnumType.texts, h.documentation.texts,
    flatMap_texts h.values fun _ _ value => value.documentation, ← List.map_append]
  rfl

theorem ItemType.From.texts {i : ItemType} (h : i.From s e) :
    i.texts = (e.documentedWith [("Properties", "Property")]).map s.document.inner := by
  rw [ItemType.texts, h.documentation.texts, Element.documentedWith_singleton, List.map_append,
    flatMap_members h.properties fun _ _ p => p.member.documentation.texts]

theorem View.From.texts {v : View} (h : v.From s e) :
    v.texts = (e.documentedWith [("Columns", "Column"), ("Parameters", "Parameter")]).map
      s.document.inner := by
  rw [View.texts, h.documentation.texts, Element.documentedWith_pair, List.map_append,
    List.map_append, flatMap_members h.columns fun _ _ c => c.documentation.texts,
    flatMap_members h.parameters fun _ _ p => p.documentation.texts]

theorem Right.From.texts {r : Right} (h : r.From s e) :
    r.texts = (e.documentedWith [("Parameters", "Parameter")]).map s.document.inner := by
  rw [Right.texts, h.documentation.texts, Element.documentedWith_singleton, List.map_append,
    flatMap_members h.parameters fun _ _ p => p.documentation.texts]

theorem ItemTypeExtension.From.texts {x : ItemTypeExtension} (h : x.From s e) :
    x.texts = (e.documentedWith [("Properties", "Property"),
      ("Properties", "ExtendProperty")]).map s.document.inner := by
  rw [ItemTypeExtension.texts, h.body.documentation.texts, Element.documentedWith_pair,
    List.map_append, List.map_append,
    flatMap_members h.body.properties fun _ _ p => p.item.member.documentation.texts,
    flatMap_members h.body.propertyExtensions fun _ _ p => p.documentation.texts]

theorem ViewExtension.From.texts {x : ViewExtension} (h : x.From s e) :
    x.documentation.texts = (e.documentedWith []).map s.document.inner := by
  rw [h.documentation.texts, Element.documentedWith, List.flatMap_nil, List.append_nil]

theorem RightExtension.From.texts {x : RightExtension} (h : x.From s e) :
    x.texts = (e.documentedWith [("Parameters", "Parameter"),
      ("Parameters", "ExtendParameter")]).map s.document.inner := by
  rw [RightExtension.texts, h.documentation.texts, Element.documentedWith_pair, List.map_append,
    List.map_append, flatMap_members h.parameters fun _ _ p => p.item.documentation.texts,
    flatMap_members h.parameterExtensions fun _ _ p => p.documentation.texts]

/-- The texts of a file are those inside its elements, each of them once and in order. -/
theorem SchemaFile.From.texts {root : Element} {file : SchemaFile} (h : file.From s root) :
    file.texts = root.documentation.map s.document.inner := by
  rw [SchemaFile.texts, flatMap_texts h.enums fun _ _ d => d.item.texts,
    flatMap_texts h.itemTypes fun _ _ d => d.item.texts,
    flatMap_texts h.views fun _ _ d => d.item.texts,
    flatMap_texts h.rights fun _ _ d => d.item.texts,
    flatMap_texts h.itemTypeExtensions fun _ _ x => x.texts,
    flatMap_texts h.viewExtensions fun _ _ x => x.texts,
    flatMap_texts h.rightExtensions fun _ _ x => x.texts]
  simp only [Element.documentation, Element.memberLists, List.flatMap_cons, List.flatMap_nil,
    List.append_nil, List.map_append]

end Texts

/-! ## Elements below the root -/

section Placed

variable {source : List Char} {all : List Token} {e child : Element}

theorem placed_of_named {name : String} (placed : Placed source all e)
    (listed : child ∈ e.named name) : Placed source all child :=
  placed.of_elements (List.mem_of_mem_filter listed)

theorem placed_of_within {outer inner : String} (placed : Placed source all e)
    (listed : child ∈ e.within outer inner) : Placed source all child := by
  obtain ⟨o, first, second⟩ := List.mem_flatMap.mp listed
  exact placed_of_named (placed_of_named placed first) second

theorem placed_of_documented (placed : Placed source all e) (listed : child ∈ e.documented) :
    Placed source all child := by
  rcases List.mem_append.mp listed with summary | remarks
  · exact placed_of_within placed summary
  · exact placed_of_within placed remarks

theorem placed_of_documentedWith {lists : List (String × String)} (placed : Placed source all e)
    (listed : child ∈ e.documentedWith lists) : Placed source all child := by
  rcases List.mem_append.mp listed with own | members
  · exact placed_of_documented placed own
  · obtain ⟨list, -, member⟩ := List.mem_flatMap.mp members
    obtain ⟨m, inside, documented⟩ := List.mem_flatMap.mp member
    exact placed_of_documented (placed_of_within placed inside) documented

theorem placed_of_documentedEnum (placed : Placed source all e)
    (listed : child ∈ e.documentedEnum) : Placed source all child := by
  rcases List.mem_append.mp listed with own | values
  · exact placed_of_documented placed own
  · obtain ⟨value, inside, documented⟩ := List.mem_flatMap.mp values
    exact placed_of_named (placed_of_within placed inside) documented

theorem placed_of_documentation (placed : Placed source all e)
    (listed : child ∈ e.documentation) : Placed source all child := by
  rcases List.mem_append.mp listed with enums | others
  · obtain ⟨enum, inside, documented⟩ := List.mem_flatMap.mp enums
    exact placed_of_documentedEnum (placed_of_named placed inside) documented
  · obtain ⟨kind, -, declared⟩ := List.mem_flatMap.mp others
    obtain ⟨declaration, inside, documented⟩ := List.mem_flatMap.mp declared
    exact placed_of_documentedWith (placed_of_named placed inside) documented

end Placed

/-! ## What is captured -/

theorem rootOf_of_parse {text : String} {d : Document} (parsed : Document.parse text = .ok d) :
    d.text = text.toList ∧ Document.rootOf d.text = .ok d.root := by
  obtain ⟨scanned, same⟩ := parse_eq_ok parsed
  rw [same]
  exact ⟨rfl, scanned⟩

/-- The texts that are captured from an accepted file belong one by one to the elements of its
document that hold documentation.  What is captured of an element is the source text between its
tags, unless that text ends in character data of several pieces. -/
theorem SchemaFile.texts_of_read {text fileName : String} {inBase : Bool} {file : SchemaFile}
    (accepted : SchemaFile.read text fileName inBase = .ok file) :
    ∃ d, Document.parse text = .ok d ∧ d.text = text.toList ∧
      List.Forall₂ (fun e captured => d.Gives e captured.toList ∧
          (d.Between e captured.toList ↔ ¬ d.Splits e))
        d.root.documentation file.texts := by
  obtain ⟨d, parsed, clean, rfl⟩ := SchemaFile.read_eq_ok_iff.mp accepted
  obtain ⟨same, found⟩ := rootOf_of_parse parsed
  refine ⟨d, parsed, same, ?_⟩
  rw [(Source.from_file clean).texts]
  refine forall₂_map fun e listed => ?_
  have gives := Document.gives_of_placed (placed_of_documentation (placed_of_rootOf found) listed)
  exact ⟨gives, gives.between_iff⟩

namespace Sample

/-- A file with a summary whose text is in three pieces. -/
def splitFile : List Char :=
  (opening ++
    ["<Enum Name=\"Mood\">", "<Documentation>", "<Summary>a<![CDATA[b]]>c</Summary>",
      "<Remarks>see <b>x</b></Remarks>", "</Documentation>", "<Values/>", "</Enum>",
      "</StoreSchema>"]).flatMap String.toList

theorem splitFile_hasRoot : (Document.rootOf splitFile).toOption.isSome = true :=
  hasRoot_of_spelledOut (by repeat constructor) (by decide +kernel)

def splitSource : Source :=
  Source.ofCharacters splitFile "split.xml" false splitFile_hasRoot

theorem read_splitFile :
    SchemaFile.read (String.ofList splitFile) "split.xml" false = .ok splitSource.file.value := by
  have spelled : splitSource = _ :=
    ofCharacters_of_spelledOut (by repeat constructor) splitFile_hasRoot
  have clean : splitSource.file.problems = [] := by
    rw [spelled]
    decide +kernel
  exact SchemaFile.read_eq_ok_iff.mpr
    ⟨_, parse_ofList (eq_ok_get splitFile_hasRoot), clean, rfl⟩

/-- The element of the summary. -/
def splitSummary : Element :=
  splitSource.document.root.documentation.headD splitSource.document.root

theorem between_splitSummary :
    splitSource.document.Between splitSummary "a<![CDATA[b]]>c".toList := by
  have spelled : splitSource = _ :=
    ofCharacters_of_spelledOut (by repeat constructor) splitFile_hasRoot
  have text : splitSource.document.slice ⟨131, 146⟩ = "a<![CDATA[b]]>c".toList := by
    rw [spelled]
    decide +kernel
  have opens : splitSource.document.slice ⟨splitSummary.tag.span.start, 131⟩ =
      '<' :: ("Summary".toList ++ ['>']) := by
    rw [splitSummary, spelled]
    decide +kernel
  have closes : splitSource.document.slice ⟨146, splitSummary.tag.span.stop⟩ =
      '<' :: '/' :: ("Summary".toList ++ ['>']) := by
    rw [splitSummary, spelled]
    decide +kernel
  have name : TagBody "Summary".toList :=
    tagBody_of_forall (p := isNameChar) (List.all_eq_true.mp (by decide)) (by decide)
  rw [← text]
  exact .full ⟨_, opens, name⟩ ⟨_, closes, name⟩ (by decide)

end Sample

theorem SchemaFile.texts_splitFile :
    SchemaFile.read (String.ofList Sample.splitFile) "split.xml" false =
        .ok Sample.splitSource.file.value ∧
      Sample.splitSource.file.value.texts = ["a", "see <b>x</b>"] ∧
      ∃ d, Document.parse (String.ofList Sample.splitFile) = .ok d ∧
        d.text = (String.ofList Sample.splitFile).toList ∧
        List.Forall₂ (fun e captured => d.Gives e captured.toList ∧
            (d.Between e captured.toList ↔ ¬ d.Splits e))
          d.root.documentation Sample.splitSource.file.value.texts :=
  ⟨Sample.read_splitFile, by decide +kernel, SchemaFile.texts_of_read Sample.read_splitFile⟩

/-- Of a summary in pieces that touch, only the first piece is captured. -/
theorem SchemaFile.not_between_splitFile :
    SchemaFile.read (String.ofList Sample.splitFile) "split.xml" false =
        .ok Sample.splitSource.file.value ∧
      (Sample.splitSource.file.value.enums.map fun d => d.item.documentation.summary) =
        [some "a"] ∧
      Document.parse (String.ofList Sample.splitFile) = .ok Sample.splitSource.document ∧
      Sample.splitSource.document.Between Sample.splitSummary "a<![CDATA[b]]>c".toList ∧
      ¬ Sample.splitSource.document.Between Sample.splitSummary "a".toList := by
  refine ⟨Sample.read_splitFile, by decide +kernel,
    parse_ofList (eq_ok_get Sample.splitFile_hasRoot), Sample.between_splitSummary, ?_⟩
  intro between
  cases between.unique Sample.between_splitSummary

end LearningStore.Schema
