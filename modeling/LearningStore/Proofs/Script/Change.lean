import LearningStore.Proofs.Script.Assembly

/-!
# Changes of the stored document

The queries by which a script changes the stored document, read from their text and applied
to the records of the document.  A query that names a place which is not there changes
nothing; an attribute that is there already cannot be added.
-/

namespace LearningStore.Script

open LearningStore.Text
open LearningStore.Xml

inductive Change where
  | deleteAttribute (name : String)
  | deleteRecords (element : String)
  | insertAttribute (itemType name value : String)
  | insertRecord (r : Record)
deriving DecidableEq, Repr

/-! ## Applying -/

namespace Record

/-- The name of the item type that a record is of. -/
def itemTypeName? (r : Record) : Option String :=
  if r.markup.name = "ItemType" then r.markup.attributes.lookup "Name" else none

/-- Whether a record is that of the item type with a name. -/
def isItemType (r : Record) (name : String) : Bool :=
  r.itemTypeName? == some name

/-- The record without an attribute. -/
def without (r : Record) (key : String) : Record :=
  ⟨⟨r.markup.name, r.markup.attributes.filter fun a => a.1 != key⟩, r.members⟩

/-- The record with more attributes behind its own. -/
def extend (r : Record) (more : List (String × String)) : Record :=
  ⟨⟨r.markup.name, r.markup.attributes ++ more⟩, r.members⟩

def hasAttribute (r : Record) (key : String) : Bool :=
  r.markup.attributes.any fun a => a.1 == key

end Record

/-- Add an attribute to the first record of an item type. -/
def insertAttribute? (itemType : String) (a : String × String) :
    List Record → Option (List Record)
  | [] => some []
  | r :: rest =>
      if r.isItemType itemType then
        if r.hasAttribute a.1 then none else some (r.extend [a] :: rest)
      else (insertAttribute? itemType a rest).map (r :: ·)

namespace Change

/-- The records after a change. -/
def result? (rs : List Record) : Change → Option (List Record)
  | deleteAttribute name =>
      some (rs.map fun r => if r.markup.name = "ItemType" then r.without name else r)
  | deleteRecords element => some (rs.filter fun r => r.markup.name != element)
  | insertAttribute itemType name value => insertAttribute? itemType (name, value) rs
  | insertRecord r => some (rs ++ [r])

end Change

/-! ## Reading -/

/-- What follows a beginning. -/
def stripFront? (front text : List Char) : Option (List Char) :=
  if front.isPrefixOf text then some (text.drop front.length) else none

/-- What comes before an end. -/
def stripBack? (back text : List Char) : Option (List Char) :=
  (stripFront? back.reverse text.reverse).map List.reverse

/-- What comes before the first quotation mark, and what follows it. -/
def splitQuote (text : List Char) : List Char × List Char :=
  (text.takeWhile (· != '"'), (text.dropWhile (· != '"')).drop 1)

theorem stripFront?_append (front rest : List Char) :
    stripFront? front (front ++ rest) = some rest := by
  simp [stripFront?]

theorem stripBack?_append (rest back : List Char) :
    stripBack? back (rest ++ back) = some rest := by
  rw [stripBack?, List.reverse_append, stripFront?_append]
  simp

theorem splitQuote_append {front : List Char} (plain : '"' ∉ front) (rest : List Char) :
    splitQuote (front ++ '"' :: rest) = (front, rest) := by
  have other : ∀ c ∈ front, (c != '"') = true :=
    fun c inside => bne_iff_ne.mpr fun same => plain (same ▸ inside)
  rw [splitQuote, takeWhile_run other (by decide), List.dropWhile_append_of_pos other]
  rfl

theorem stripFront?_of_ne {c d : Char} (other : d ≠ c) (front rest : List Char) :
    stripFront? (d :: front) (c :: rest) = none := by
  simp [stripFront?, other]

/-- A common beginning has no part in what follows it. -/
theorem stripFront?_common (common front rest : List Char) :
    stripFront? (common ++ front) (common ++ rest) = stripFront? front rest := by
  simp [stripFront?]

/-! ### The fixed parts of queries -/

def deleteStart : String := "delete /StoreSchema/"

def itemTypeStart : String := "ItemType/@"

def insertStart : String := "insert "

def attributeStart : String := "insert attribute "

/-- What stands between the name and the value of an attribute, up to the quotation mark. -/
def valueStart : String := "\x7b\""

/-- What stands between the value of an attribute and the name of an item type. -/
def itemTypePlace : String := "\"\x7d into /StoreSchema[1]/ItemType[@Name=\""

def itemTypeEnd : String := "\"][1]"

def storePlace : String := " into /StoreSchema[1]"

/-- What stands between the quotation marks in front of the name of an item type. -/
def itemTypePath : List Char := "\x7d into /StoreSchema[1]/ItemType[@Name=".toList

def lastPath : List Char := "][1]".toList

theorem toList_deleteStart : deleteStart.toList = 'd' :: deleteStart.toList.tail := by
  decide

theorem toList_insertStart : insertStart.toList = 'i' :: insertStart.toList.tail := by
  decide

theorem toList_attributeStart :
    attributeStart.toList = insertStart.toList ++ 'a' :: "ttribute ".toList := by
  decide

theorem toList_valueStart : valueStart.toList = ['\x7b', '"'] := by
  decide

theorem toList_itemTypePlace : itemTypePlace.toList = '"' :: (itemTypePath ++ ['"']) := by
  decide

theorem toList_itemTypeEnd : itemTypeEnd.toList = '"' :: lastPath := by
  decide

namespace Change

/-- The rest of a query that adds an attribute: its name, its value, and the place. -/
def attribute? (text : List Char) : Option Change :=
  let name := splitQuote text
  let value := splitQuote name.2
  let path := splitQuote value.2
  let itemType := splitQuote path.2
  if path.1 = itemTypePath ∧ itemType.2 = lastPath then
    (stripBack? ['\x7b'] name.1).map fun spelled =>
      insertAttribute (String.ofList itemType.1) (String.ofList spelled) (String.ofList value.1)
  else none

/-- The rest of a query that adds a record: the record and the place. -/
def record? (text : List Char) : Option Change := do
  let written ← stripBack? storePlace.toList text
  let document ← (Document.parse (String.ofList written)).toOption
  let r ← Record.ofElement? document.root
  pure (insertRecord r)

/-- The rest of a query that deletes something: attributes of all item types, or records. -/
def delete (text : List Char) : Change :=
  match stripFront? itemTypeStart.toList text with
  | some name => deleteAttribute (String.ofList name)
  | none => deleteRecords (String.ofList text)

/-- The change that a query spells. -/
def read? (query : String) : Option Change :=
  match stripFront? deleteStart.toList query.toList with
  | some rest => some (delete rest)
  | none =>
      match stripFront? attributeStart.toList query.toList with
      | some rest => attribute? rest
      | none => (stripFront? insertStart.toList query.toList).bind record?

end Change

/-- The query that adds an attribute to an item type. -/
def attributeQuery (itemType name value : String) : String :=
  attributeStart ++ name ++ valueStart ++ value ++ itemTypePlace ++ itemType ++ itemTypeEnd

theorem quote_notMem {text : String} (h : Over isWordChar text) : '"' ∉ text.toList :=
  fun inside => absurd (h '"' inside) (by decide)

theorem apostrophe_notMem {text : String} (h : Over isDocumentChar text) :
    '\'' ∉ text.toList :=
  fun inside => absurd (h '\'' inside) (by decide)

namespace Change

/-- No query that adds something is one that deletes something. -/
theorem not_delete (rest : List Char) :
    stripFront? deleteStart.toList (insertStart.toList ++ rest) = none := by
  rw [toList_deleteStart, toList_insertStart]
  exact stripFront?_of_ne (by decide) _ _

/-- The query for an attribute is read as it is meant. -/
theorem read?_attributeQuery {itemType name value : String} (hItemType : Over isWordChar itemType)
    (hName : Over isWordChar name) (hValue : Over isWordChar value) :
    read? (attributeQuery itemType name value) =
      some (insertAttribute itemType name value) := by
  have spelled : (attributeQuery itemType name value).toList =
      attributeStart.toList ++ ((name.toList ++ ['\x7b']) ++ '"' :: (value.toList ++
        '"' :: (itemTypePath ++ '"' :: (itemType.toList ++ '"' :: lastPath)))) := by
    simp only [attributeQuery, String.toList_append, toList_valueStart, toList_itemTypePlace,
      toList_itemTypeEnd, List.append_assoc, List.cons_append, List.nil_append]
  have other : stripFront? deleteStart.toList (attributeQuery itemType name value).toList =
      none := by
    rw [spelled, toList_attributeStart, List.append_assoc]
    exact not_delete _
  have marked : '"' ∉ name.toList ++ ['\x7b'] := by
    simpa using quote_notMem hName
  have path : '"' ∉ itemTypePath := by
    decide
  rw [read?, other, spelled, stripFront?_append]
  simp only [attribute?, splitQuote_append marked, splitQuote_append (quote_notMem hValue),
    splitQuote_append path, splitQuote_append (quote_notMem hItemType), stripBack?_append,
    and_self, if_true, Option.map_some, String.ofList_toList]

/-- The query for a record is read as it is meant. -/
theorem read?_insertQuery {r : Record} (simple : r.Simple) :
    read? (insertQuery r) = some (insertRecord r) := by
  obtain ⟨first, others, name, begins⟩ := simple.markup.name.1.exists_cons
  obtain ⟨rest, tagged⟩ : ∃ rest, r.text.toList = '<' :: first :: rest := by
    simp [Record.text, Markup.start, Markup.inside, String.toList_append, name]
  obtain ⟨document, parsed, root⟩ := parse_of_readsAs simple.readsAs tagged begins
  have spelled : (insertQuery r).toList =
      insertStart.toList ++ (r.text.toList ++ storePlace.toList) := by
    rw [insertQuery, String.toList_append, String.toList_append, List.append_assoc]
    rfl
  have notDelete : stripFront? deleteStart.toList (insertQuery r).toList = none := by
    rw [spelled]
    exact not_delete _
  have notAttribute : stripFront? attributeStart.toList (insertQuery r).toList = none := by
    rw [spelled, toList_attributeStart, stripFront?_common, tagged, List.cons_append]
    exact stripFront?_of_ne (by decide) _ _
  have denoted : record? (r.text.toList ++ storePlace.toList) = some (insertRecord r) := by
    rw [record?, stripBack?_append]
    simp [parsed, root, Except.toOption]
  rw [read?, notDelete, notAttribute, spelled, stripFront?_append]
  exact denoted

end Change

/-- The query for an attribute holds no apostrophe. -/
theorem attributeQuery_plain {itemType name value : String}
    (hItemType : Over isWordChar itemType) (hName : Over isWordChar name)
    (hValue : Over isWordChar value) :
    '\'' ∉ (attributeQuery itemType name value).toList := by
  have word {text : String} (h : Over isWordChar text) : '\'' ∉ text.toList :=
    apostrophe_notMem (h.mono fun _ => isDocumentChar_of_isWordChar)
  simp only [attributeQuery, String.toList_append, List.mem_append, not_or]
  exact ⟨⟨⟨⟨⟨⟨by decide, word hName⟩, by decide⟩, word hValue⟩,
    by decide⟩, word hItemType⟩, by decide⟩

theorem insertQuery_plain {r : Record} (simple : r.Simple) :
    '\'' ∉ (insertQuery r).toList := by
  rw [insertQuery, String.toList_append, String.toList_append, List.mem_append, List.mem_append,
    not_or, not_or]
  exact ⟨⟨by decide, apostrophe_notMem simple.over_text⟩, by decide⟩

end LearningStore.Script
