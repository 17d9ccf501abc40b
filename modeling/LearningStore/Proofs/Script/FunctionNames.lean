import LearningStore.Proofs.Schema.Validity
import LearningStore.Script.Function
import Mathlib.Data.List.Nodup
import Mathlib.Data.List.Perm.Basic

/-!
# The names of functions

The name of a function is that of an element, with or without an ending, and an ending
begins with a sign that no identifier holds.  Hence a name tells the element and the
ending, and two functions of a schema never share one, even without regard to case.
-/

namespace LearningStore.Text

theorem lowerLetter_eq_dollar_iff {c : Char} : lowerLetter c = '$' ↔ c = '$' := by
  unfold lowerLetter
  split
  next capital =>
    have low : 65 ≤ c.toNat := capital.1
    have high : c.toNat ≤ 90 := capital.2
    constructor
    · intro same
      have valid : (c.toNat + 32).isValidChar := .inl (by omega)
      have number := congrArg Char.toNat same
      rw [Char.ofNat, dif_pos valid] at number
      have raised : (Char.ofNatAux (c.toNat + 32) valid).toNat = c.toNat + 32 := rfl
      have dollar : '$'.toNat = 36 := rfl
      omega
    · rintro rfl
      exact absurd low (by decide)
  next => exact Iff.rfl

@[simp] theorem toList_lowered (s : String) :
    (lowered s).toList = s.toList.map lowerLetter :=
  String.toList_ofList

theorem lowered_append (a b : String) : lowered (a ++ b) = lowered a ++ lowered b := by
  simp [lowered]

theorem dollar_mem_lowered_iff {s : String} : '$' ∈ (lowered s).toList ↔ '$' ∈ s.toList := by
  rw [toList_lowered, List.mem_map]
  constructor
  · rintro ⟨c, inside, low⟩
    exact lowerLetter_eq_dollar_iff.mp low ▸ inside
  · intro inside
    exact ⟨'$', inside, lowerLetter_eq_dollar_iff.mpr rfl⟩

end LearningStore.Text

namespace LearningStore.Script

open LearningStore.Schema
open LearningStore.Text

/-! ## Owners and endings -/

/-- What can follow the name of an element: nothing, or something behind the sign. -/
def IsEnding (ending : String) : Prop :=
  (ending.toList.head?.all fun c => c == '$') = true

instance (ending : String) : Decidable (IsEnding ending) :=
  inferInstanceAs (Decidable (_ = true))

theorem takeWhile_name {name ending : List Char} (plain : '$' ∉ name)
    (marked : ∀ c ∈ ending.head?, c = '$') :
    (name ++ ending).takeWhile (fun c => c != '$') = name := by
  rw [List.takeWhile_append_of_pos]
  · cases ending with
    | nil => simp
    | cons c rest => simp [marked c rfl]
  · intro c member
    exact bne_iff_ne.mpr fun same => plain (same ▸ member)

/-- Without regard to case, a name of an element with an ending tells both apart. -/
theorem owner_and_ending_eq {a b x y : String} (ha : '$' ∉ a.toList) (hb : '$' ∉ b.toList)
    (hx : IsEnding x) (hy : IsEnding y) (same : lowered (a ++ x) = lowered (b ++ y)) :
    lowered a = lowered b ∧ lowered x = lowered y := by
  have plain {name : String} (h : '$' ∉ name.toList) : '$' ∉ (lowered name).toList :=
    mt dollar_mem_lowered_iff.mp h
  have marked {ending : String} (h : IsEnding ending) :
      ∀ c ∈ (lowered ending).toList.head?, c = '$' := by
    unfold IsEnding at h
    rw [toList_lowered]
    cases spelled : ending.toList with
    | nil => simp
    | cons c rest =>
        rw [spelled] at h
        rintro _ ⟨rfl⟩
        exact lowerLetter_eq_dollar_iff.mpr (beq_iff_eq.mp h)
  rw [lowered_append, lowered_append] at same
  have characters := congrArg String.toList same
  rw [String.toList_append, String.toList_append] at characters
  have owners := congrArg (List.takeWhile fun c => c != '$') characters
  rw [takeWhile_name (plain ha) (marked hx), takeWhile_name (plain hb) (marked hy)] at owners
  rw [owners] at characters
  exact ⟨String.toList_inj.mp owners, String.toList_inj.mp (List.append_cancel_left characters)⟩

/-- Pairs with distinct first parts and, for each of these, distinct second parts. -/
theorem nodup_pairs {α β : Type} {ks : List (α × List β)} (owners : (ks.map Prod.fst).Nodup)
    (endings : ∀ k ∈ ks, k.2.Nodup) :
    (ks.flatMap fun k => k.2.map fun e => (k.1, e)).Nodup := by
  induction ks with
  | nil => exact .nil
  | cons k rest ih =>
      rw [List.map_cons, List.nodup_cons] at owners
      rw [List.flatMap_cons, List.nodup_append]
      refine ⟨?_, ih owners.2 fun other inside => ?_, ?_⟩
      · exact (endings k List.mem_cons_self).map fun _ _ same => (Prod.mk.inj same).2
      · exact endings other (List.mem_cons_of_mem k inside)
      · rintro pair here _ later rfl
        obtain ⟨e, -, rfl⟩ := List.mem_map.mp here
        obtain ⟨other, inside, found⟩ := List.mem_flatMap.mp later
        obtain ⟨e', -, same⟩ := List.mem_map.mp found
        exact owners.1 (List.mem_map.mpr ⟨other, inside, (Prod.mk.inj same).1⟩)

/-! ## Slots -/

/-- A place for one function at most: the owner and the ending of the name, and the
function if there is one. -/
structure Slot where
  owner : String
  ending : String
  functions : List Described

namespace Slot

def name (x : Slot) : String :=
  x.owner ++ x.ending

/-- The slot holds one function at most, which has the name of the slot. -/
def Fits (x : Slot) : Prop :=
  (x.functions.map fun d => d.function.name).Sublist [x.name]

/-- The slot holds a function exactly if there are expressions, and the function tells
whether one of them grants. -/
structure Guards (x : Slot) (expressions : List String) : Prop where
  nonempty_iff : x.functions ≠ [] ↔ expressions ≠ []
  body : ∀ d ∈ x.functions, d.function.body = .granted expressions

end Slot

def itemRightSlot (i : ItemType) (right : ItemRight) : Slot :=
  ⟨i.name, right.functionSuffix, itemRightFunction i right⟩

def defaultViewSlot (withDefaultViews : Bool) (i : ItemType) : Slot :=
  ⟨i.name, "$DefaultView", if withDefaultViews then [defaultViewFunction i] else []⟩

def viewSlot (v : View) : Slot :=
  ⟨v.name, "", [viewFunction v]⟩

def viewSecuritySlot (v : View) : Slot :=
  ⟨v.name, "$Security", viewSecurityFunction v⟩

def rightSlot (r : Right) : Slot :=
  ⟨r.name, "", rightSecurityFunction r⟩

def itemTypeSlots (withDefaultViews : Bool) (i : ItemType) : List Slot :=
  [itemRightSlot i .delete, itemRightSlot i .update, itemRightSlot i .add,
    defaultViewSlot withDefaultViews i, itemRightSlot i .query]

def viewSlots (v : View) : List Slot :=
  [viewSlot v, viewSecuritySlot v]

/-- The slots of a schema, element by element. -/
def slots (s : Schema) (withDefaultViews : Bool) : List Slot :=
  s.itemTypes.flatMap (itemTypeSlots withDefaultViews) ++ s.views.flatMap viewSlots ++
    s.rights.map rightSlot

variable {s : Schema} {withDefaultViews : Bool}

/-- The functions of a schema are those in its slots, in another order. -/
theorem functions_perm :
    (functions s withDefaultViews).Perm ((slots s withDefaultViews).flatMap Slot.functions) := by
  let guards := s.itemTypes.flatMap fun i =>
    itemRightFunction i .delete ++ itemRightFunction i .update ++ itemRightFunction i .add
  let others := s.views.flatMap (fun v => viewFunction v :: viewSecurityFunction v) ++
    s.rights.flatMap rightSecurityFunction
  let defaults := s.itemTypes.flatMap fun i =>
    (if withDefaultViews then [defaultViewFunction i] else []) ++ itemRightFunction i .query
  have listed : functions s withDefaultViews = guards ++ (others ++ defaults) := by
    simp [functions, guards, others, defaults]
  have bySlots : (slots s withDefaultViews).flatMap Slot.functions =
      s.itemTypes.flatMap (fun i =>
        (itemRightFunction i .delete ++ itemRightFunction i .update ++
          itemRightFunction i .add) ++
        ((if withDefaultViews then [defaultViewFunction i] else []) ++
          itemRightFunction i .query)) ++ others := by
    simp [slots, others, List.flatMap_assoc, List.flatMap_map, itemTypeSlots, viewSlots,
      itemRightSlot, defaultViewSlot, viewSlot, viewSecuritySlot, rightSlot]
  rw [listed, bySlots]
  refine (List.perm_append_comm.append_left guards).trans ?_
  rw [← List.append_assoc]
  exact (List.flatMap_append_perm ..).append_right others

/-! ## What slots hold -/

/-- The functions of a guard: none without expressions, else one. -/
def guardFunctions (expressions : List String) (name : String)
    (make : String → Described) : List Described :=
  (if expressions.isEmpty then none else some name).toList.map make

theorem guardFunctions_fits {owner ending name : String} (expressions : List String)
    {make : String → Described} (spelled : name = owner ++ ending)
    (named : (make name).function.name = name) :
    (Slot.mk owner ending (guardFunctions expressions name make)).Fits := by
  unfold Slot.Fits guardFunctions Slot.name
  rw [← spelled]
  split
  next => simp
  next => simp [named]

theorem guardFunctions_guards {owner ending name : String} {expressions : List String}
    {make : String → Described} (granted : (make name).function.body = .granted expressions) :
    (Slot.mk owner ending (guardFunctions expressions name make)).Guards expressions := by
  unfold guardFunctions
  split
  next empty =>
    rw [List.isEmpty_iff.mp empty]
    exact ⟨by simp, by simp⟩
  next nonempty =>
    have some_expression : expressions ≠ [] := mt List.isEmpty_iff.mpr nonempty
    exact ⟨by simp [some_expression], by simp [granted]⟩

theorem itemRightSlot_fits (i : ItemType) (right : ItemRight) : (itemRightSlot i right).Fits :=
  guardFunctions_fits (i.expressions right) rfl rfl

theorem itemRightSlot_guards (i : ItemType) (right : ItemRight) :
    (itemRightSlot i right).Guards (i.expressions right) :=
  guardFunctions_guards rfl

theorem defaultViewSlot_fits (i : ItemType) : (defaultViewSlot withDefaultViews i).Fits := by
  cases withDefaultViews with
  | false => exact List.nil_sublist _
  | true => exact List.Sublist.refl _

theorem viewSlot_fits (v : View) : (viewSlot v).Fits := by
  unfold Slot.Fits Slot.name viewSlot
  rw [String.append_empty]
  exact List.Sublist.refl _

theorem viewSecuritySlot_fits (v : View) : (viewSecuritySlot v).Fits :=
  guardFunctions_fits v.expressions rfl rfl

theorem viewSecuritySlot_guards (v : View) : (viewSecuritySlot v).Guards v.expressions :=
  guardFunctions_guards rfl

theorem rightSlot_fits (r : Right) : (rightSlot r).Fits :=
  guardFunctions_fits r.expressions String.append_empty.symm rfl

theorem rightSlot_guards (r : Right) : (rightSlot r).Guards r.expressions :=
  guardFunctions_guards rfl

/-- A slot of a schema belongs to an item type, a view or a right. -/
theorem mem_slots_iff {x : Slot} : x ∈ slots s withDefaultViews ↔
    (∃ i ∈ s.itemTypes,
      x = defaultViewSlot withDefaultViews i ∨ ∃ right, x = itemRightSlot i right) ∨
      (∃ v ∈ s.views, x = viewSlot v ∨ x = viewSecuritySlot v) ∨
        ∃ r ∈ s.rights, x = rightSlot r := by
  simp only [slots, itemTypeSlots, viewSlots, List.mem_append, List.mem_flatMap, List.mem_map,
    List.mem_cons, List.not_mem_nil, or_false, or_assoc, eq_comm (b := x)]
  refine or_congr_left (exists_congr fun i => and_congr_right fun _ => ?_)
  constructor
  · rintro (h | h | h | h | h)
    · exact .inr ⟨_, h⟩
    · exact .inr ⟨_, h⟩
    · exact .inr ⟨_, h⟩
    · exact .inl h
    · exact .inr ⟨_, h⟩
  · rintro (h | ⟨right, h⟩)
    · simp [h]
    · cases right <;> simp [h]

theorem slot_fits {x : Slot} (h : x ∈ slots s withDefaultViews) : x.Fits := by
  rcases mem_slots_iff.mp h with ⟨i, -, rfl | ⟨right, rfl⟩⟩ | ⟨v, -, rfl | rfl⟩ | ⟨r, -, rfl⟩
  · exact defaultViewSlot_fits i
  · exact itemRightSlot_fits i right
  · exact viewSlot_fits v
  · exact viewSecuritySlot_fits v
  · exact rightSlot_fits r

/-! ## Distinct names -/

theorem slot_owner_mem {x : Slot} (h : x ∈ slots s withDefaultViews) :
    x.owner ∈ s.elementNames := by
  simp only [Schema.elementNames, List.mem_append, List.mem_map]
  rcases mem_slots_iff.mp h with ⟨i, inside, rfl | ⟨right, rfl⟩⟩ | ⟨v, inside, rfl | rfl⟩ |
    ⟨r, inside, rfl⟩
  · exact .inl (.inl (.inr ⟨i, inside, rfl⟩))
  · exact .inl (.inl (.inr ⟨i, inside, rfl⟩))
  · exact .inl (.inr ⟨v, inside, rfl⟩)
  · exact .inl (.inr ⟨v, inside, rfl⟩)
  · exact .inr ⟨r, inside, rfl⟩

theorem isEnding_functionSuffix (right : ItemRight) : IsEnding right.functionSuffix := by
  cases right <;> decide

theorem slot_isEnding {x : Slot} (h : x ∈ slots s withDefaultViews) : IsEnding x.ending := by
  rcases mem_slots_iff.mp h with ⟨i, -, rfl | ⟨right, rfl⟩⟩ | ⟨v, -, rfl | rfl⟩ | ⟨r, -, rfl⟩
  · exact (by decide : IsEnding "$DefaultView")
  · exact isEnding_functionSuffix right
  · exact (by decide : IsEnding "")
  · exact (by decide : IsEnding "$Security")
  · exact (by decide : IsEnding "")

/-- The endings for the functions of an item type. -/
def itemTypeEndings : List String :=
  ["$DeleteSecurity", "$UpdateSecurity", "$AddSecurity", "$DefaultView",
    "$DefaultViewSecurity"]

/-- The owners of slots, each with the endings of its slots. -/
def ownerEndings (s : Schema) : List (String × List String) :=
  s.itemTypes.map (fun i => (lowered i.name, itemTypeEndings.map lowered)) ++
    s.views.map (fun v => (lowered v.name, ["", "$Security"].map lowered)) ++
    s.rights.map fun r => (lowered r.name, [""].map lowered)

theorem slots_pairs (s : Schema) (withDefaultViews : Bool) :
    (slots s withDefaultViews).map (fun x => (lowered x.owner, lowered x.ending)) =
      (ownerEndings s).flatMap fun k => k.2.map fun e => (k.1, e) := by
  simp [slots, ownerEndings, itemTypeSlots, viewSlots, itemTypeEndings, List.map_flatMap,
    List.flatMap_map, itemRightSlot, defaultViewSlot, viewSlot, viewSecuritySlot, rightSlot,
    ItemRight.functionSuffix, ← List.map_eq_flatMap]

/-- No two slots of a schema have names that differ in case alone. -/
theorem slots_distinct (h : s.Named) :
    ((slots s withDefaultViews).map fun x => lowered x.name).Nodup := by
  have owners : ((ownerEndings s).map Prod.fst).Nodup := by
    refine h.distinct.sublist ?_
    simp [ownerEndings, Schema.elementNames, Function.comp_def]
  have endings : ∀ k ∈ ownerEndings s, k.2.Nodup := by
    intro k member
    simp only [ownerEndings, List.mem_append, List.mem_map] at member
    rcases member with (⟨i, -, rfl⟩ | ⟨v, -, rfl⟩) | ⟨r, -, rfl⟩
    · exact (by decide : (itemTypeEndings.map lowered).Nodup)
    · exact (by decide : (["", "$Security"].map lowered).Nodup)
    · exact List.nodup_singleton _
  have pairs := nodup_pairs owners endings
  rw [← slots_pairs s withDefaultViews] at pairs
  unfold List.Nodup at pairs ⊢
  rw [List.pairwise_map] at pairs ⊢
  refine pairs.imp_of_mem fun {x y} hx hy different same => different ?_
  have plain {z : Slot} (member : z ∈ slots s withDefaultViews) : '$' ∉ z.owner.toList :=
    (h.identifiers z.owner (slot_owner_mem member)).dollar_notMem
  obtain ⟨owner, ending⟩ := owner_and_ending_eq (plain hx) (plain hy) (slot_isEnding hx)
    (slot_isEnding hy) same
  rw [owner, ending]

theorem slot_eq_of_name_eq (h : s.Named) {x y : Slot} (hx : x ∈ slots s withDefaultViews)
    (hy : y ∈ slots s withDefaultViews) (same : x.name = y.name) : x = y :=
  List.inj_on_of_nodup_map (slots_distinct h) hx hy (congrArg lowered same)

theorem names_sublist {xs : List Slot} (fits : ∀ x ∈ xs, x.Fits) :
    ((xs.flatMap Slot.functions).map fun d => d.function.name).Sublist (xs.map Slot.name) := by
  induction xs with
  | nil => exact List.Sublist.refl _
  | cons x rest ih =>
      rw [List.flatMap_cons, List.map_append, List.map_cons, ← List.singleton_append]
      exact (fits x List.mem_cons_self).append
        (ih fun y inside => fits y (List.mem_cons_of_mem x inside))

/-- No two functions of a schema have names that differ in case alone. -/
theorem functions_distinct (h : s.Named) (withDefaultViews : Bool) :
    ((functions s withDefaultViews).map fun d => lowered d.function.name).Nodup := by
  have names := names_sublist fun x (inside : x ∈ slots s withDefaultViews) => slot_fits inside
  have lowerings := names.map lowered
  rw [List.map_map, List.map_map] at lowerings
  exact (functions_perm.map _).nodup_iff.mpr ((slots_distinct h).sublist lowerings)

/-- No two functions of a schema have one name. -/
theorem functions_names_distinct (h : s.Named) (withDefaultViews : Bool) :
    ((functions s withDefaultViews).map fun d => d.function.name).Nodup := by
  have lowerings := functions_distinct h withDefaultViews
  refine List.Nodup.of_map lowered ?_
  rwa [List.map_map]

/-- A function with the name of a slot is in the slot. -/
theorem mem_slot_of_name_eq (h : s.Named) {x : Slot} (hx : x ∈ slots s withDefaultViews)
    {d : Described} (hd : d ∈ functions s withDefaultViews)
    (same : d.function.name = x.name) : d ∈ x.functions := by
  obtain ⟨y, hy, inside⟩ := List.mem_flatMap.mp (functions_perm.mem_iff.mp hd)
  have named := (slot_fits hy).subset (List.mem_map.mpr ⟨d, inside, rfl⟩)
  rw [List.mem_singleton, same] at named
  exact slot_eq_of_name_eq h hx hy named ▸ inside

theorem mem_functions_of_slot {x : Slot} (hx : x ∈ slots s withDefaultViews) {d : Described}
    (inside : d ∈ x.functions) :
    d ∈ functions s withDefaultViews ∧ d.function.name = x.name := by
  refine ⟨functions_perm.mem_iff.mpr (List.mem_flatMap.mpr ⟨x, hx, inside⟩), ?_⟩
  exact List.mem_singleton.mp ((slot_fits hx).subset (List.mem_map.mpr ⟨d, inside, rfl⟩))

end LearningStore.Script
