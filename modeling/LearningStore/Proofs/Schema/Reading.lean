import LearningStore.Proofs.Schema.Checked
import LearningStore.Proofs.Schema.Soundness

/-!
# Reading gives sound declarations

Reading an element goes on after a problem, so what it gives is sound only if the pass
over the element was clean.  A file is handed on only after a clean pass over all of it,
hence all its declarations are sound.
-/

namespace LearningStore.Value

/-- A literal that is read for a value type is of that type. -/
theorem Literal.valueType_of_read {type : ValueType} {text : String} {l : Literal}
    (accepted : Literal.read type text = .ok l) : l.valueType = type := by
  unfold Literal.read at accepted
  cases type with
  | itemIdentifier => cases accepted
  | string => cases accepted; rfl
  | xml => cases accepted; rfl
  | byteArray =>
      simp only at accepted
      split at accepted
      · cases accepted; rfl
      · cases accepted
  | _ =>
      simp only at accepted
      split at accepted
      next found =>
        obtain ⟨value, -, rfl⟩ := Option.map_eq_some_iff.mp found
        cases accepted
        rfl
      · cases accepted

end LearningStore.Value

namespace LearningStore.Schema

open LearningStore.Value
open LearningStore.Xml

namespace Source

variable {s : Source} {e : Element}

@[simp] theorem clean_check {rule : ElementRule} :
    (s.check e rule).Clean ↔ s.violations e rule = [] := Iff.rfl

/-! ## Attributes -/

@[simp] theorem value_name (s : Source) (e : Element) :
    (s.name e).value = (e.attribute? "Name").getD "" := by
  unfold name
  cases e.attribute? "Name" <;> rfl

/-- An element that its rule forbids nothing of has the attributes that the rule
requires. -/
theorem attribute_isSome {rule : ElementRule} {name : String}
    (conforms : s.violations e rule = []) (required : name ∈ rule.required) :
    (e.attribute? name).isSome := by
  have none_missing : s.missingAttributes e rule = [] :=
    (List.append_eq_nil_iff.mp (List.append_eq_nil_iff.mp conforms).1).2
  have present := List.filter_eq_nil_iff.mp (List.map_eq_nil_iff.mp none_missing) name required
  cases found : e.attribute? name with
  | none => simp [found] at present
  | some value => rfl

/-- The rule of every named element requires the name, and reading it admits
identifiers only. -/
theorem isIdentifier_name {rule : ElementRule} (conforms : s.violations e rule = [])
    (required : "Name" ∈ rule.required) (named : (s.name e).Clean) :
    IsIdentifier (s.name e).value := by
  obtain ⟨name, found⟩ := Option.isSome_iff_exists.mp (attribute_isSome conforms required)
  rw [value_name, found]
  simp only [Source.name, found, Checked.clean_bind, Checked.clean_reportIf] at named
  exact isName_iff.mp (by simpa using named.1)

/-- A reference is there exactly if the value type is the one that asks for it. -/
theorem isSome_reference_iff {subject : Subject} {type : ValueType} {name : String}
    {expected : ValueType} (clean : (s.reference e subject type name expected).Clean) :
    (e.attribute? name).isSome ↔ type = expected := by
  simp only [reference, Checked.clean_bind, Checked.clean_reportIf] at clean
  obtain ⟨not_missing, not_excess, -⟩ := clean
  by_cases same : type = expected
  · cases found : e.attribute? name with
    | none => simp [same, found] at not_missing
    | some value => simp [same]
  · cases found : e.attribute? name with
    | none => simp [same]
    | some value => simp [same, found] at not_excess

@[simp] theorem value_references (s : Source) (e : Element) (subject : Subject)
    (type : ValueType) :
    (s.references e subject type).value =
      (e.attribute? "ReferencedItemTypeName", e.attribute? "EnumName") := rfl

/-- What is common to properties, columns and parameters is sound. -/
theorem sound_member {rule : ElementRule} {subject : Subject} {type : ValueType}
    {documentation : Documentation} {inBase : Bool}
    (conforms : s.violations e rule = []) (required : "Name" ∈ rule.required)
    (named : (s.name e).Clean) (referring : (s.references e subject type).Clean) :
    Member.Sound ⟨(s.name e).value, type, e.attribute? "ReferencedItemTypeName",
      e.attribute? "EnumName", documentation, inBase⟩ := by
  simp only [references, Checked.clean_bind] at referring
  exact ⟨isIdentifier_name conforms required named, isSome_reference_iff referring.1,
    isSome_reference_iff referring.2.1⟩

/-! ## Properties -/

/-- A length that is handed on lies between one and the limit of its type. -/
theorem length_bounds {subject : Subject} {type : ValueType} {n : Int}
    (clean : (s.length e subject type).Clean)
    (found : (s.length e subject type).value = some n) :
    ∃ limit, type.lengthLimit = some limit ∧ 1 ≤ n ∧ n ≤ limit := by
  simp only [length, Checked.clean_bind] at clean found
  cases declared : (s.integer e "Length").value with
  | none => simp [declared] at found
  | some m =>
      cases limited : type.lengthLimit with
      | none => simp [declared, limited] at clean
      | some limit =>
          simp [declared, limited] at clean found
          obtain ⟨rfl, -⟩ := found
          exact ⟨limit, rfl, by omega, by omega⟩

/-- A null default belongs to a property that may be null, and a literal default has
the type of its property. -/
theorem defaultValue_fits {subject : Subject} {type : ValueType} {nullable : Bool}
    {d : DefaultValue} (clean : (s.defaultValue e subject type nullable).Clean)
    (found : (s.defaultValue e subject type nullable).value = some d) :
    (d = .null → nullable = true) ∧ ∀ l, d = .literal l → l.valueType = type := by
  simp only [defaultValue, Checked.clean_bind] at clean found
  obtain ⟨-, -, -, clean⟩ := clean
  simp only [Checked.value_bind] at found
  split at clean
  next isNull =>
    simp [isNull] at clean found
    subst found
    constructor
    · exact fun _ => clean
    · intro l other
      cases other
  next notNull =>
    simp only [notNull] at found
    split at clean
    next empty => simp at clean
    next nonempty =>
      simp only [nonempty] at found
      split at clean
      next isFunction =>
        simp [isFunction] at found
        subst found
        constructor
        · intro other
          cases other
        · intro l other
          cases other
      next notFunction =>
        simp only [notFunction] at found
        split at clean
        next literal accepted =>
          simp [accepted] at found
          subst found
          constructor
          · intro other
            cases other
          · intro l same
            cases same
            exact Literal.valueType_of_read accepted
        next => simp at clean

theorem default_fits {subject : Subject} {type : ValueType} {nullable : Bool}
    {d : DefaultValue} (clean : (s.default? e subject type nullable).Clean)
    (found : (s.default? e subject type nullable).value = some d) :
    (d = .null → nullable = true) ∧ ∀ l, d = .literal l → l.valueType = type := by
  unfold default? at clean found
  split at clean
  next child present => exact defaultValue_fits clean (by simpa [present] using found)
  next missing => simp [missing] at found

/-- A property that is read without problems is sound for the item type it stands in. -/
theorem sound_property {owner : String} {d : Declared Property}
    (clean : (s.property owner e).Clean) (found : (s.property owner e).value = some d) :
    d.item.Sound owner := by
  simp only [property, Checked.clean_bind, Checked.value_bind] at clean found
  obtain ⟨conforms, named, notId, -, clean⟩ := clean
  cases typed : (s.valueType e).value with
  | none =>
      rw [typed] at found
      cases found
  | some type =>
      rw [typed] at clean found
      simp only [Checked.clean_bind, Checked.clean_reportIf, value_references,
        Bool.and_eq_false_imp, bne_eq_false_iff_eq] at clean
      obtain ⟨referring, measured, -, -, guid, -, cascading, defaulted, -⟩ := clean
      cases found
      refine ⟨sound_member conforms (by decide) named referring, rfl, ?_, ?_, guid, ?_, ?_, ?_⟩
      · exact beq_eq_false_iff_ne.mp (Checked.clean_reportIf.mp notId)
      · exact fun n declared => length_bounds measured declared
      · intro cascades
        apply cascading
        cases asked : (s.boolean e "CascadeDelete").value with
        | none => simp [asked] at cascades
        | some cascade => rfl
      · exact fun isNull => (default_fits defaulted isNull).1 rfl
      · exact fun l isLiteral => (default_fits defaulted isLiteral).2 l rfl

/-! ## Columns and parameters -/

theorem sound_column {owner : String} {c : Column} (clean : (s.column owner e).Clean)
    (found : (s.column owner e).value = some c) : c.Sound owner := by
  simp only [column, Checked.clean_bind, Checked.value_bind] at clean found
  obtain ⟨conforms, named, -, clean⟩ := clean
  cases typed : (s.valueType e).value with
  | none =>
      rw [typed] at found
      cases found
  | some type =>
      rw [typed] at clean found
      simp only [Checked.clean_bind] at clean
      cases found
      exact ⟨sound_member conforms (List.mem_cons_self ..) named clean.1, rfl⟩

theorem sound_parameter {owner : Owner} {d : Declared Parameter}
    (clean : (s.parameter owner e).Clean) (found : (s.parameter owner e).value = some d) :
    d.item.Sound owner := by
  simp only [parameter, Checked.clean_bind, Checked.value_bind] at clean found
  obtain ⟨conforms, named, -, clean⟩ := clean
  cases typed : (s.valueType e).value with
  | none =>
      rw [typed] at found
      cases found
  | some type =>
      rw [typed] at clean found
      simp only [Checked.clean_bind] at clean
      cases found
      exact ⟨sound_member conforms (List.mem_cons_self ..) named clean.1, rfl⟩

/-! ## Lists of members -/

/-- Properties that are read one after the other are sound, and their names do not
repeat. -/
theorem sound_propertyList {owner : String} {extending : Bool}
    {before : List (Declared Property) × List MemberExtension} {es : List Element}
    (clean : (s.propertyList owner extending before es).Clean)
    (sound : ∀ d ∈ before.1, d.item.Sound owner)
    (distinct : (before.1.map fun d => d.item.name).Nodup) :
    (∀ d ∈ (s.propertyList owner extending before es).value.1, d.item.Sound owner) ∧
      ((s.propertyList owner extending before es).value.1.map fun d => d.item.name).Nodup := by
  induction es generalizing before with
  | nil => exact ⟨sound, distinct⟩
  | cons e rest ih =>
      unfold propertyList at clean ⊢
      split at clean
      next isProperty =>
        rw [if_pos isProperty]
        simp only [Checked.clean_bind] at clean
        simp only [Checked.value_bind]
        obtain ⟨cleanRead, clean⟩ := clean
        cases read : (s.property owner e).value with
        | none =>
            rw [read] at clean
            exact ih clean sound distinct
        | some d =>
            simp only [read] at clean ⊢
            split at clean
            next taken => simp at clean
            next fresh =>
              rw [if_neg fresh]
              have added := forall_mem_concat sound (sound_property cleanRead read)
              exact ih clean added (nodup_names_concat distinct fresh)
      next notProperty =>
        rw [if_neg notProperty]
        split at clean
        next isExtension =>
          rw [if_pos isExtension]
          simp only [Checked.clean_bind] at clean
          exact ih clean.2 sound distinct
        next other =>
          rw [if_neg other]
          exact ih clean sound distinct

/-- Parameters that are read one after the other are sound, and in a right their names
do not repeat. -/
theorem sound_parameterList {owner : Owner} {extending : Bool}
    {before : List (Declared Parameter) × List MemberExtension} {es : List Element}
    (clean : (s.parameterList owner extending before es).Clean)
    (sound : ∀ d ∈ before.1, d.item.Sound owner)
    (distinct : ∀ name, owner = .right name → (before.1.map fun d => d.item.name).Nodup) :
    (∀ d ∈ (s.parameterList owner extending before es).value.1, d.item.Sound owner) ∧
      ∀ name, owner = .right name →
        ((s.parameterList owner extending before es).value.1.map fun d => d.item.name).Nodup := by
  induction es generalizing before with
  | nil => exact ⟨sound, distinct⟩
  | cons e rest ih =>
      unfold parameterList at clean ⊢
      split at clean
      next isParameter =>
        rw [if_pos isParameter]
        simp only [Checked.clean_bind] at clean
        simp only [Checked.value_bind]
        obtain ⟨cleanRead, clean⟩ := clean
        cases read : (s.parameter owner e).value with
        | none =>
            rw [read] at clean
            exact ih clean sound distinct
        | some d =>
            simp only [read] at clean ⊢
            split at clean
            next taken => simp at clean
            next fresh =>
              rw [if_neg fresh]
              have added := forall_mem_concat sound (sound_parameter cleanRead read)
              refine ih clean added ?_
              rintro name rfl
              exact nodup_names_concat (distinct name rfl) fresh
      next notParameter =>
        rw [if_neg notParameter]
        split at clean
        next isExtension =>
          rw [if_pos isExtension]
          simp only [Checked.clean_bind] at clean
          exact ih clean.2 sound distinct
        next other =>
          rw [if_neg other]
          exact ih clean sound distinct

theorem sound_properties {owner : String} {extending : Bool}
    (clean : (s.properties owner extending e).Clean) :
    (∀ d ∈ (s.properties owner extending e).value.1, d.item.Sound owner) ∧
      ((s.properties owner extending e).value.1.map fun d => d.item.name).Nodup := by
  unfold properties at clean ⊢
  split at clean
  next => simp
  next =>
    simp only [Checked.clean_bind, Checked.value_bind] at clean ⊢
    exact sound_propertyList clean.2 (by simp) (by simp)

theorem sound_parameters {owner : Owner} {extending : Bool}
    (clean : (s.parameters owner extending e).Clean) :
    (∀ d ∈ (s.parameters owner extending e).value.1, d.item.Sound owner) ∧
      ∀ name, owner = .right name →
        ((s.parameters owner extending e).value.1.map fun d => d.item.name).Nodup := by
  unfold parameters at clean ⊢
  split at clean
  next => simp
  next =>
    simp only [Checked.clean_bind, Checked.value_bind] at clean ⊢
    exact sound_parameterList clean.2 (by simp) (by simp)

/-- The values of an enum have identifiers for names, which do not repeat. -/
theorem sound_enumValues {enum : String} {before : List EnumValue} {es : List Element}
    (clean : (s.enumValues enum before es).Clean)
    (named : ∀ v ∈ before, IsIdentifier v.name)
    (distinct : (before.map EnumValue.name).Nodup) :
    (∀ v ∈ (s.enumValues enum before es).value, IsIdentifier v.name) ∧
      ((s.enumValues enum before es).value.map EnumValue.name).Nodup := by
  induction es generalizing before with
  | nil => exact ⟨named, distinct⟩
  | cons e rest ih =>
      unfold enumValues at clean ⊢
      simp only [Checked.clean_bind] at clean
      simp only [Checked.value_bind]
      obtain ⟨conforms, isNamed, -, clean⟩ := clean
      cases read : (s.integer e "Value").value with
      | none =>
          rw [read] at clean
          exact ih clean named distinct
      | some value =>
          simp only [read] at clean ⊢
          split at clean
          next taken => simp at clean
          next fresh =>
            rw [if_neg fresh]
            have name := isIdentifier_name conforms (List.mem_cons_self ..) isNamed
            exact ih clean (forall_mem_concat named name) (nodup_names_concat distinct fresh)

theorem sound_values {enum : String} (clean : (s.values enum e).Clean) :
    (∀ v ∈ (s.values enum e).value, IsIdentifier v.name) ∧
      ((s.values enum e).value.map EnumValue.name).Nodup := by
  unfold values at clean ⊢
  split at clean
  next => simp
  next =>
    simp only [Checked.clean_bind, Checked.value_bind] at clean ⊢
    exact sound_enumValues clean.2 (by simp) (by simp)

theorem sound_columns {view : String} (clean : (s.columns view e).Clean) :
    ∀ c ∈ (s.columns view e).value, c.Sound view := by
  unfold columns at clean ⊢
  split at clean
  next => simp
  next =>
    simp only [Checked.clean_bind, Checked.clean_eachSome, Checked.value_bind,
      Checked.value_eachSome] at clean ⊢
    intro c member
    obtain ⟨child, listed, read⟩ := List.mem_filterMap.mp member
    exact sound_column (clean.2 child listed) read

/-! ## Elements -/

theorem sound_enumType (clean : (s.enumType e).Clean) : (s.enumType e).value.item.Sound := by
  simp only [enumType, Checked.clean_bind] at clean
  obtain ⟨conforms, named, -, clean, -⟩ := clean
  have values := sound_values clean
  exact ⟨isIdentifier_name conforms (List.mem_cons_self ..) named, values.1, values.2⟩

/-- The properties of an item type, or those that an extension of it adds. -/
theorem sound_itemTypeBody {name : String} {extending : Bool}
    (clean : (s.itemTypeBody name extending e).Clean) :
    (∀ d ∈ (s.itemTypeBody name extending e).value.properties, d.item.Sound name) ∧
      ((s.itemTypeBody name extending e).value.properties.map fun d => d.item.name).Nodup := by
  simp only [itemTypeBody, Checked.clean_bind] at clean
  obtain ⟨-, -, clean, -⟩ := clean
  exact sound_properties clean

theorem sound_itemType (clean : (s.itemType e).Clean) : (s.itemType e).value.item.Sound := by
  simp only [itemType, Checked.clean_bind] at clean
  obtain ⟨conforms, named, clean, -⟩ := clean
  obtain ⟨sound, distinct⟩ := sound_itemTypeBody clean
  refine ⟨isIdentifier_name conforms (List.mem_cons_self ..) named, ?_, ?_⟩
  · intro p member
    obtain ⟨d, listed, rfl⟩ := List.mem_map.mp member
    exact sound d listed
  · simpa [itemType, Function.comp_def] using distinct

theorem sound_itemTypeExtension (clean : (s.itemTypeExtension e).Clean) :
    ∀ d ∈ (s.itemTypeExtension e).value.body.properties,
      d.item.Sound (s.itemTypeExtension e).value.name := by
  simp only [itemTypeExtension, Checked.clean_bind] at clean
  obtain ⟨-, -, -, clean, -⟩ := clean
  exact (sound_itemTypeBody clean).1

theorem sound_view (clean : (s.view e).Clean) : (s.view e).value.item.Sound := by
  simp only [view, Checked.clean_bind] at clean
  obtain ⟨conforms, named, columns, parameters, -⟩ := clean
  refine ⟨isIdentifier_name conforms (List.mem_cons_self ..) named, sound_columns columns, ?_⟩
  intro p member
  obtain ⟨d, listed, rfl⟩ := List.mem_map.mp member
  exact (sound_parameters parameters).1 d listed

theorem sound_right (clean : (s.right e).Clean) : (s.right e).value.item.Sound := by
  simp only [right, Checked.clean_bind] at clean
  obtain ⟨conforms, named, parameters, -⟩ := clean
  obtain ⟨sound, distinct⟩ := sound_parameters parameters
  refine ⟨isIdentifier_name conforms (List.mem_cons_self ..) named, ?_, ?_⟩
  · intro p member
    obtain ⟨d, listed, rfl⟩ := List.mem_map.mp member
    exact sound d listed
  · simpa [right, Function.comp_def] using distinct _ rfl

theorem sound_rightExtension (clean : (s.rightExtension e).Clean) :
    ∀ d ∈ (s.rightExtension e).value.parameters,
      d.item.Sound (.right (s.rightExtension e).value.name) := by
  simp only [rightExtension, Checked.clean_bind] at clean
  obtain ⟨-, -, clean, -⟩ := clean
  exact (sound_parameters clean).1

/-! ## Files -/

/-- Each child of the root adds at most one element to those read before it, and that
one is sound. -/
theorem sound_declaration {file : SchemaFile} (clean : (s.declaration file e).Clean)
    (sound : file.Sound) : (s.declaration file e).value.Sound := by
  unfold declaration at clean ⊢
  split at clean <;> simp only [Checked.clean_bind, Checked.clean_pure, and_true] at clean
  case h_1 => exact { sound with enums := forall_mem_concat sound.enums (sound_enumType clean) }
  case h_2 =>
    exact { sound with itemTypes := forall_mem_concat sound.itemTypes (sound_itemType clean) }
  case h_3 => exact { sound with views := forall_mem_concat sound.views (sound_view clean) }
  case h_4 => exact { sound with rights := forall_mem_concat sound.rights (sound_right clean) }
  case h_5 =>
    have added := forall_mem_concat (a := (s.itemTypeExtension e).value)
      sound.itemTypeExtensions (sound_itemTypeExtension clean)
    exact { sound with itemTypeExtensions := added }
  case h_6 => exact { sound with }
  case h_7 =>
    have added := forall_mem_concat (a := (s.rightExtension e).value)
      sound.rightExtensions (sound_rightExtension clean)
    exact { sound with rightExtensions := added }
  case h_8 => exact { sound with }
  case h_9 => exact { sound with }
  case h_10 => exact sound

theorem sound_declarations {file : SchemaFile} {es : List Element}
    (clean : (s.declarations file es).Clean) (sound : file.Sound) :
    (s.declarations file es).value.Sound := by
  induction es generalizing file with
  | nil => exact sound
  | cons e rest ih =>
      unfold declarations at clean ⊢
      rw [Checked.clean_bind] at clean
      exact ih clean.2 (sound_declaration clean.1 sound)

theorem sound_file (clean : s.file.Clean) : s.file.value.Sound := by
  dsimp only [file] at clean ⊢
  split
  next rooted =>
    rw [if_pos rooted, Checked.clean_bind] at clean
    exact sound_declarations clean.2 (.empty _)
  next => exact .empty _

end Source

/-- The declarations of every file that is accepted are sound. -/
theorem SchemaFile.sound_of_read {text fileName : String} {inBase : Bool} {file : SchemaFile}
    (accepted : SchemaFile.read text fileName inBase = .ok file) : file.Sound := by
  obtain ⟨document, -, clean, rfl⟩ := SchemaFile.read_eq_ok_iff.mp accepted
  exact Source.sound_file clean

end LearningStore.Schema
