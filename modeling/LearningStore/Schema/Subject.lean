/-!
# Members and their owners

How diagnostics refer to a property, a column or a parameter: by its own name and
by that of the element that holds it.
-/

namespace LearningStore.Schema

/-- The view or the right that a parameter belongs to. -/
inductive Owner where
  | view (name : String)
  | right (name : String)
deriving DecidableEq, Repr

namespace Owner

def name : Owner → String
  | view name => name
  | right name => name

/-- How diagnostics refer to the owner. -/
def describe : Owner → String
  | view name => "view " ++ name
  | right name => "right " ++ name

end Owner

/-- A property of an item type, a column of a view, or a parameter. -/
inductive Subject where
  | property (itemType name : String)
  | column (view name : String)
  | parameter (owner : Owner) (name : String)
deriving DecidableEq, Repr

namespace Subject

def describe : Subject → String
  | property itemType name => "property " ++ itemType ++ "." ++ name
  | column view name => "column " ++ view ++ "." ++ name
  | parameter owner name => "parameter " ++ name ++ " of " ++ owner.describe

end Subject

end LearningStore.Schema
