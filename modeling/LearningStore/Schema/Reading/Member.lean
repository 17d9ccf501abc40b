import LearningStore.Schema.Declaration
import LearningStore.Schema.Reading.Attribute

/-!
# Reading members

Properties with their defaults and constraints, columns, parameters, and the
extensions of properties and parameters.  A member without a valid value type is
reported and left out.
-/

namespace LearningStore.Schema

open LearningStore.Text
open LearningStore.Value
open LearningStore.Xml

namespace Source

/-- The declared length of a property, if its type accepts one. -/
def length (s : Source) (e : Element) (subject : Subject) (type : ValueType) :
    Checked (Option Int) := do
  let length ← s.integer e "Length"
  match length, type.lengthLimit with
  | some n, some limit =>
      .reportIf (n < 1 || limit < n) (s.problem e (.lengthOutOfRange subject limit))
  | some _, none => .report [s.problem e (.lengthNotAllowed subject)]
  | none, _ => pure ()
  pure (length.filter fun _ => type.acceptsLength)

/-- The default in a default element: the null value, an expression or a literal. -/
def defaultValue (s : Source) (e : Element) (subject : Subject) (type : ValueType)
    (nullable : Bool) : Checked (Option DefaultValue) := do
  s.check e .default
  let isFunction := (← s.boolean e "IsFunction").getD false
  let isNull := (← s.boolean e "Null").getD false
  if isNull then
    .reportIf (!nullable) (s.problem e (.nullDefault subject))
    pure (some .null)
  else if e.text.isEmpty then
    .report [s.problem e (.defaultEmpty subject)]
    pure none
  else if isFunction then pure (some (.function e.text))
  else
    match Literal.read type e.text with
    | .ok literal => pure (some (.literal literal))
    | .error error =>
        .report [s.problem e (.defaultInvalid subject error)]
        pure none

/-- The default of a property, if it has one. -/
def default? (s : Source) (e : Element) (subject : Subject) (type : ValueType)
    (nullable : Bool) : Checked (Option DefaultValue) :=
  match e.first? "Default" with
  | some d => s.defaultValue d subject type nullable
  | none => pure none

/-- The constraints of a property. -/
def constraints (s : Source) (e : Element) : Checked (List String) := do
  match e.first? "Constraints" with
  | none => pure []
  | some c =>
      s.check c .constraints
      s.statements c .constraint

/-- A property of an item type. -/
def property (s : Source) (owner : String) (e : Element) :
    Checked (Option (Declared Property)) := do
  s.check e .property
  let name ← s.name e
  let subject := Subject.property owner name
  .reportIf (name == "Id") (s.problem e (.reservedId subject))
  match ← s.valueType e with
  | none => pure none
  | some type =>
      let (itemTypeName, enumName) ← s.references e subject type
      let length ← s.length e subject type
      let nullable := (← s.boolean e "Nullable").getD false
      let rowGuid := (← s.boolean e "RowGuid").getD false
      .reportIf (rowGuid && type != .guid) (s.problem e (.rowGuidNotAllowed subject))
      let cascade ← s.boolean e "CascadeDelete"
      .reportIf (cascade.isSome && type != .itemIdentifier)
        (s.problem e (.cascadeNotAllowed subject))
      let default ← s.default? e subject type nullable
      let constraints ← s.constraints e
      let documentation ← s.documentation e
      let item : Property :=
        { name, valueType := type, itemTypeName, enumName, documentation, inBase := s.inBase
          owner, nullable, length, cascadeDelete := cascade.getD false, rowGuid, default
          constraints }
      pure (some ⟨item, s.location e⟩)

/-- An extension of a property or a parameter. -/
def memberExtension (s : Source) (element : String) (e : Element) :
    Checked MemberExtension := do
  s.check e (.extendMember element)
  let name ← s.name e
  let documentation ← s.documentation e
  pure ⟨name, s.location e, documentation⟩

/-- A column of a view. -/
def column (s : Source) (owner : String) (e : Element) : Checked (Option Column) := do
  s.check e (.typedMember "Column")
  let name ← s.name e
  match ← s.valueType e with
  | none => pure none
  | some type =>
      let (itemTypeName, enumName) ← s.references e (.column owner name) type
      let documentation ← s.documentation e
      pure (some
        { name, valueType := type, itemTypeName, enumName, documentation, inBase := s.inBase
          owner })

/-- A parameter of a view or a right. -/
def parameter (s : Source) (owner : Owner) (e : Element) :
    Checked (Option (Declared Parameter)) := do
  s.check e (.typedMember "Parameter")
  let name ← s.name e
  match ← s.valueType e with
  | none => pure none
  | some type =>
      let (itemTypeName, enumName) ← s.references e (.parameter owner name) type
      let documentation ← s.documentation e
      let item : Parameter :=
        { name, valueType := type, itemTypeName, enumName, documentation, inBase := s.inBase
          owner }
      pure (some ⟨item, s.location e⟩)

/-- The properties of an item type and the extensions of properties that an
extension may hold, after those in `before`. -/
def propertyList (s : Source) (owner : String) (extending : Bool)
    (before : List (Declared Property) × List MemberExtension) :
    List Element → Checked (List (Declared Property) × List MemberExtension)
  | [] => pure before
  | e :: rest => do
      if e.name = "Property" then
        match ← s.property owner e with
        | none => propertyList s owner extending before rest
        | some declared =>
            if before.1.any fun p => p.item.name == declared.item.name then
              .report [s.problem e (.propertyRepeated owner declared.item.name)]
              propertyList s owner extending before rest
            else propertyList s owner extending (before.1 ++ [declared], before.2) rest
      else if e.name = "ExtendProperty" && extending then
        let extension ← s.memberExtension "ExtendProperty" e
        propertyList s owner extending (before.1, before.2 ++ [extension]) rest
      else propertyList s owner extending before rest

/-- What stands in the element of properties, if there is one. -/
def properties (s : Source) (owner : String) (extending : Bool) (e : Element) :
    Checked (List (Declared Property) × List MemberExtension) := do
  match e.first? "Properties" with
  | none => pure ([], [])
  | some p =>
      s.check p (if extending then .extendProperties else .properties)
      s.propertyList owner extending ([], []) p.elements

/-- Whether a parameter of one name may not stand beside another: in a right it
may not, in a view it may. -/
def isRepeated (owner : Owner) (before : List (Declared Parameter)) (name : String) : Bool :=
  match owner with
  | .view _ => false
  | .right _ => before.any fun p => p.item.name == name

/-- The parameters of a view or a right and the extensions of parameters that an
extension may hold, after those in `before`. -/
def parameterList (s : Source) (owner : Owner) (extending : Bool)
    (before : List (Declared Parameter) × List MemberExtension) :
    List Element → Checked (List (Declared Parameter) × List MemberExtension)
  | [] => pure before
  | e :: rest => do
      if e.name = "Parameter" then
        match ← s.parameter owner e with
        | none => parameterList s owner extending before rest
        | some declared =>
            if isRepeated owner before.1 declared.item.name then
              .report [s.problem e (.parameterRepeated owner.name declared.item.name)]
              parameterList s owner extending before rest
            else parameterList s owner extending (before.1 ++ [declared], before.2) rest
      else if e.name = "ExtendParameter" && extending then
        let extension ← s.memberExtension "ExtendParameter" e
        parameterList s owner extending (before.1, before.2 ++ [extension]) rest
      else parameterList s owner extending before rest

/-- What stands in the element of parameters, if there is one. -/
def parameters (s : Source) (owner : Owner) (extending : Bool) (e : Element) :
    Checked (List (Declared Parameter) × List MemberExtension) := do
  match e.first? "Parameters" with
  | none => pure ([], [])
  | some p =>
      s.check p (if extending then .extendParameters else .parameters)
      s.parameterList owner extending ([], []) p.elements

end Source

end LearningStore.Schema
