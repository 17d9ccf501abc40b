/-!
# The grammar of schema files

One rule per structural element says which attributes and children it may have,
which children may stand in it once only, which ones may be outside the schema
namespace, and whether it may hold text.
-/

namespace LearningStore.Schema

/-- The shape that an element may have. -/
structure ElementRule where
  name : String
  required : List String := []
  optional : List String := []
  children : List String := []
  single : List String := []
  unqualified : List String := []
  text : Bool := false
deriving DecidableEq, Repr

namespace ElementRule

def allowsAttribute (rule : ElementRule) (name : String) : Bool :=
  rule.required.contains name || rule.optional.contains name

/-- Whether a child may stand in the element.  `qualified` says that the child is
in the schema namespace. -/
def allowsChild (rule : ElementRule) (name : String) (qualified : Bool) : Bool :=
  rule.children.contains name && (qualified || rule.unqualified.contains name)

/-- An element that holds children only. -/
def container (name : String) (children : List String) : ElementRule :=
  { name, children }

/-- An element that holds text only. -/
def textOnly (name : String) : ElementRule :=
  { name, text := true }

def storeSchema : ElementRule :=
  container "StoreSchema"
    ["Enum", "ItemType", "View", "Right", "ExtendItemType", "ExtendView", "ExtendRight",
      "SqlBefore", "SqlAfter"]

def documentation : ElementRule :=
  { name := "Documentation"
    children := ["Summary", "Remarks"]
    single := ["Summary", "Remarks"]
    unqualified := ["Summary", "Remarks"] }

def enum : ElementRule :=
  { name := "Enum"
    required := ["Name"]
    children := ["Documentation", "Values"]
    single := ["Documentation", "Values"] }

def values : ElementRule := container "Values" ["Value"]

def value : ElementRule :=
  { name := "Value"
    required := ["Name", "Value"]
    children := ["Documentation"]
    single := ["Documentation"]
    unqualified := ["Documentation"] }

def itemTypeChildren : List String :=
  ["Documentation", "GrantQueryRight", "GrantAddRight", "GrantUpdateRight",
    "GrantDeleteRight", "Properties", "Indexes", "SqlAfter"]

def itemType : ElementRule :=
  { name := "ItemType"
    required := ["Name"]
    children := itemTypeChildren
    single := ["Documentation", "Properties", "Indexes"] }

def extendItemType : ElementRule :=
  { name := "ExtendItemType"
    required := ["Name"]
    optional := ["ReplaceIndexes"]
    children := itemTypeChildren
    single := ["Documentation", "Properties", "Indexes"] }

/-- The elements that hold grant expressions. -/
def grant (name : String) : ElementRule := container name ["Expression"]

def expression : ElementRule := textOnly "Expression"

def properties : ElementRule := container "Properties" ["Property"]

def extendProperties : ElementRule := container "Properties" ["Property", "ExtendProperty"]

def property : ElementRule :=
  { name := "Property"
    required := ["Name", "Type"]
    optional :=
      ["ReferencedItemTypeName", "EnumName", "Length", "Nullable", "RowGuid", "CascadeDelete"]
    children := ["Documentation", "Default", "Constraints"]
    single := ["Documentation", "Default", "Constraints"] }

def default : ElementRule :=
  { name := "Default", optional := ["IsFunction", "Null"], text := true }

def constraints : ElementRule := container "Constraints" ["Constraint"]

def constraint : ElementRule := textOnly "Constraint"

def indexes : ElementRule := container "Indexes" ["Index"]

def index : ElementRule := textOnly "Index"

def sqlBefore : ElementRule := textOnly "SqlBefore"

def sqlAfter : ElementRule := textOnly "SqlAfter"

def implementation : ElementRule := textOnly "Implementation"

/-- The elements that extend a property or a parameter. -/
def extendMember (name : String) : ElementRule :=
  { name
    required := ["Name"]
    children := ["Documentation"]
    single := ["Documentation"] }

def view : ElementRule :=
  { name := "View"
    required := ["Name"]
    children := ["Documentation", "GrantQueryRight", "Columns", "Parameters", "Implementation"]
    single := ["Documentation", "Columns", "Parameters", "Implementation"] }

def extendView : ElementRule :=
  { name := "ExtendView"
    required := ["Name"]
    children := ["Documentation", "GrantQueryRight"]
    single := ["Documentation"] }

def columns : ElementRule := container "Columns" ["Column"]

/-- Columns and parameters. -/
def typedMember (name : String) : ElementRule :=
  { name
    required := ["Name", "Type"]
    optional := ["ReferencedItemTypeName", "EnumName"]
    children := ["Documentation"]
    single := ["Documentation"] }

def parameters : ElementRule := container "Parameters" ["Parameter"]

def extendParameters : ElementRule :=
  container "Parameters" ["Parameter", "ExtendParameter"]

def right : ElementRule :=
  { name := "Right"
    required := ["Name"]
    children := ["Documentation", "Grant", "Parameters"]
    single := ["Documentation", "Parameters"] }

def extendRight : ElementRule :=
  { name := "ExtendRight"
    required := ["Name"]
    children := ["Documentation", "Grant", "Parameters"]
    single := ["Documentation", "Parameters"] }

end ElementRule

end LearningStore.Schema
