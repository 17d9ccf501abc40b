import LearningStore.Proofs.Schema.Soundness
import LearningStore.Proofs.Schema.Checked
import LearningStore.Schema.Reading.File

/-!
# Marks of declarations

Every declaration knows whether it comes from a file of the base schema, and so does every
member.  One file marks all that it declares alike, and all that its extensions add.
-/

namespace LearningStore.Schema

open LearningStore.Xml

structure ItemType.Marked (inBase : Bool) (i : ItemType) : Prop where
  itself : i.inBase = inBase
  properties : ∀ p ∈ i.properties, p.inBase = inBase

structure View.Marked (inBase : Bool) (v : View) : Prop where
  itself : v.inBase = inBase
  columns : ∀ c ∈ v.columns, c.inBase = inBase
  parameters : ∀ p ∈ v.parameters, p.inBase = inBase

structure Right.Marked (inBase : Bool) (r : Right) : Prop where
  itself : r.inBase = inBase
  parameters : ∀ p ∈ r.parameters, p.inBase = inBase

/-- The declarations of a file, and the members that its extensions add, are all marked
alike. -/
structure SchemaFile.Marked (inBase : Bool) (f : SchemaFile) : Prop where
  enums : ∀ x ∈ f.enums, x.item.inBase = inBase
  itemTypes : ∀ x ∈ f.itemTypes, x.item.Marked inBase
  views : ∀ x ∈ f.views, x.item.Marked inBase
  rights : ∀ x ∈ f.rights, x.item.Marked inBase
  itemTypeExtensions : ∀ x ∈ f.itemTypeExtensions,
    ∀ p ∈ x.body.properties, p.item.inBase = inBase
  rightExtensions : ∀ x ∈ f.rightExtensions, ∀ p ∈ x.parameters, p.item.inBase = inBase

theorem SchemaFile.Marked.empty (inBase : Bool) (fileName : String) :
    (SchemaFile.empty fileName).Marked inBase := by
  constructor <;> exact fun _ member => nomatch member

namespace Source

variable {s : Source} {e : Element}

end Source

end LearningStore.Schema
