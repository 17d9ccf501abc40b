import LearningStore.Proofs.Schema.Lookup
import LearningStore.Proofs.Schema.Merging

/-!
# Splitting a schema over files

Where two files are accepted one after the other, the one file that holds the declarations of
both is accepted as well and makes the same drafts.  The extensions of the first file are then
merged after the elements of the second have been entered, and not before.  They find what
they found before, since new elements are put behind the old ones; and each kind of element is
extended by itself.
-/

namespace LearningStore.Schema

open LearningStore.Text

/-! ## Entering names -/

/-- Entries that a registry takes one after the other: no key is taken, by the registry or
among themselves. -/
structure Enterable (names entries : List (String × Location)) : Prop where
  free : ∀ e ∈ entries, e.1 ∉ names.map Prod.fst
  distinct : (entries.map Prod.fst).Nodup

section Enterable

variable {names entries : List (String × Location)}

theorem enterable_cons {e : String × Location} : Enterable names (e :: entries) ↔
    e.1 ∉ names.map Prod.fst ∧ Enterable (names ++ [e]) entries := by
  constructor
  · rintro ⟨free, distinct⟩
    obtain ⟨fresh, others⟩ := List.nodup_cons.mp distinct
    refine ⟨free e List.mem_cons_self, ?_, others⟩
    intro x inside taken
    rw [List.map_append, List.mem_append, List.map_singleton, List.mem_singleton] at taken
    rcases taken with before | same
    · exact free x (List.mem_cons_of_mem e inside) before
    · exact fresh (same ▸ List.mem_map_of_mem inside)
  · rintro ⟨fresh, free, distinct⟩
    simp only [List.map_append, List.mem_append, not_or, List.map_singleton,
      List.mem_singleton] at free
    refine ⟨List.forall_mem_cons.mpr ⟨fresh, fun x inside => (free x inside).1⟩, ?_⟩
    rw [List.map_cons, List.nodup_cons]
    refine ⟨?_, distinct⟩
    intro repeated
    obtain ⟨x, inside, same⟩ := List.mem_map.mp repeated
    exact (free x inside).2 same

theorem enterable_nil : Enterable names [] :=
  ⟨nofun, .nil⟩

theorem enterable_append {more : List (String × Location)} :
    Enterable names (entries ++ more) ↔
      Enterable names entries ∧ Enterable (names ++ entries) more := by
  induction entries generalizing names with
  | nil =>
      rw [List.nil_append, List.append_nil]
      exact ⟨fun h => ⟨⟨nofun, .nil⟩, h⟩, And.right⟩
  | cons e rest ih =>
      rw [List.cons_append, enterable_cons, ih, enterable_cons, and_assoc, List.append_assoc,
        List.singleton_append]

theorem Enterable.perm {others : List (String × Location)} (h : Enterable names entries)
    (same : entries.Perm others) : Enterable names others :=
  ⟨fun e inside => h.free e (same.mem_iff.mpr inside), (same.map _).nodup_iff.mp h.distinct⟩

/-- Keys that are distinct are found in whatever order they were entered. -/
theorem find?_entry_perm {others : List (String × Location)} (distinct : (entries.map
    Prod.fst).Nodup) (same : entries.Perm others) (key : String) :
    (names ++ entries).find? (fun e => e.1 == key) =
      (names ++ others).find? fun e => e.1 == key := by
  have found : entries.find? (fun e => e.1 == key) = others.find? fun e => e.1 == key := by
    refine Option.ext fun e => ?_
    rw [find?_eq_some_iff distinct, find?_eq_some_iff ((same.map _).nodup_iff.mp distinct),
      same.mem_iff]
  rw [List.find?_append, List.find?_append, found]

end Enterable

/-- A pass that enters entries if it can, and reports a problem if it cannot.  Where it can,
it makes certain drafts. -/
structure Enters (d : Drafts) (entries : List (String × Location)) (e : Drafts)
    (c : Checked Drafts) : Prop where
  clean : c.Clean ↔ Enterable d.names entries
  value : c.Clean → c.value = e
  names : e.names = d.names ++ entries

theorem Enters.bind {d e e' : Drafts} {entries more : List (String × Location)}
    {c : Checked Drafts} {g : Drafts → Checked Drafts} (first : Enters d entries e c)
    (second : Enters e more e' (g e)) : Enters d (entries ++ more) e' (c >>= g) where
  clean := by
    rw [Checked.clean_bind, enterable_append, ← first.names, ← second.clean, ← first.clean]
    refine and_congr_right fun clean => ?_
    rw [first.value clean]
  value := by
    intro both
    obtain ⟨clean, others⟩ := Checked.clean_bind.mp both
    rw [Checked.value_bind, first.value clean]
    exact second.value (first.value clean ▸ others)
  names := by rw [second.names, first.names, List.append_assoc]

/-! ## Kinds of elements -/

/-- One kind of element, with the list in which drafts keep it. -/
structure ElementKind (α : Type) where
  nameOf : α → String
  get : Drafts → List α
  set : List α → Drafts → Drafts
  get_set : ∀ l d, get (set l d) = l := by intros; rfl
  set_get : ∀ d, set (get d) d = d := by intros; rfl
  set_set : ∀ l m d, set l (set m d) = set l d := by intros; rfl
  names_set : ∀ l d, (set l d).names = d.names := by intros; rfl
  get_names : ∀ d names, get { d with names := names } = get d := by intros; rfl
  set_names : ∀ l d names, { set l d with names := names } = set l { d with names := names } := by
    intros; rfl

def enumKind : ElementKind EnumType where
  nameOf := EnumType.name
  get := Drafts.enums
  set l d := { d with enums := l }

def itemTypeKind : ElementKind ItemType where
  nameOf := ItemType.name
  get := Drafts.itemTypes
  set l d := { d with itemTypes := l }

def viewKind : ElementKind View where
  nameOf := View.name
  get := Drafts.views
  set l d := { d with views := l }

def rightKind : ElementKind Right where
  nameOf := Right.name
  get := Drafts.rights
  set l d := { d with rights := l }

namespace ElementKind

variable {α : Type} (k : ElementKind α)

/-- Enter a declaration of the kind. -/
def enter (d : Drafts) (x : Declared α) : Checked Drafts :=
  d.register (k.nameOf x.item) x.location fun d => k.set (k.get d ++ [x.item]) d

/-- What declarations of the kind enter into the registry. -/
def entries (xs : List (Declared α)) : List (String × Location) :=
  xs.map fun x => (lowered (k.nameOf x.item), x.location)

theorem entries_cons (x : Declared α) (xs : List (Declared α)) :
    k.entries (x :: xs) = (lowered (k.nameOf x.item), x.location) :: k.entries xs := rfl

theorem entries_append (xs ys : List (Declared α)) :
    k.entries (xs ++ ys) = k.entries xs ++ k.entries ys :=
  List.map_append

/-- Declarations whose entries are distinct have distinct names. -/
theorem distinct_of_entries {k : ElementKind α} {xs : List (Declared α)}
    {entries : List (String × Location)} (distinct : (entries.map Prod.fst).Nodup)
    (listed : (k.entries xs).Sublist entries) : ((xs.map Declared.item).map k.nameOf).Nodup := by
  have spelled : (k.entries xs).map Prod.fst =
      ((xs.map Declared.item).map k.nameOf).map lowered := by
    rw [ElementKind.entries, List.map_map, List.map_map, List.map_map]
    rfl
  have keys := distinct.sublist (listed.map Prod.fst)
  rw [spelled] at keys
  exact keys.of_map lowered

/-- Drafts with declarations of the kind behind what they hold. -/
def put (d : Drafts) (xs : List (Declared α)) : Drafts :=
  k.set (k.get d ++ xs.map Declared.item) { d with names := d.names ++ k.entries xs }

variable {k} {d : Drafts}

theorem names_put {xs : List (Declared α)} : (k.put d xs).names = d.names ++ k.entries xs :=
  k.names_set _ _

theorem put_nil : k.put d [] = d := by
  unfold put
  rw [List.map_nil, List.append_nil]
  exact (congrArg (k.set (k.get d)) (congrArg _ (List.append_nil d.names))).trans (k.set_get d)

theorem put_put {x : Declared α} {rest : List (Declared α)} :
    k.put (k.put d [x]) rest = k.put d (x :: rest) := by
  unfold put
  rw [k.get_set, k.names_set, k.set_names, k.set_set, List.append_assoc, List.append_assoc]
  rfl

theorem enters_enter {x : Declared α} : Enters d (k.entries [x]) (k.put d [x]) (k.enter d x) := by
  have entry : Enterable d.names (k.entries [x]) ↔ d.user? (k.nameOf x.item) = none := by
    rw [k.entries_cons, enterable_cons, Drafts.user?_eq_none_iff]
    exact and_iff_left enterable_nil
  rw [enter, Drafts.register]
  cases taken : d.user? (k.nameOf x.item) with
  | none =>
      refine ⟨iff_of_true rfl (entry.mpr taken), fun _ => ?_, names_put⟩
      exact congrArg (fun l => k.set (l ++ [x.item]) _) (k.get_names d _)
  | some previous =>
      have refused : ¬Enterable d.names (k.entries [x]) := by rw [entry, taken]; nofun
      exact ⟨iff_of_false nofun refused, nofun, names_put⟩

/-- Declarations are entered in order, each behind the ones before it. -/
theorem enters_through (xs : List (Declared α)) :
    Enters d (k.entries xs) (k.put d xs) (Checked.through k.enter d xs) := by
  induction xs generalizing d with
  | nil =>
      rw [put_nil]
      exact ⟨iff_of_true rfl enterable_nil, fun _ => rfl, (List.append_nil d.names).symm⟩
  | cons x rest ih => exact put_put (k := k) ▸ enters_enter.bind ih

end ElementKind

/-! ## Merging extensions into a list -/

section Merging

variable {α ξ : Type}

theorem updateFirst_append {p : α → Bool} {f : α → α} {l : List α} (found : ∃ a ∈ l, p a = true)
    (more : List α) : updateFirst p f (l ++ more) = updateFirst p f l ++ more := by
  induction l with
  | nil => obtain ⟨a, inside, -⟩ := found; cases inside
  | cons a rest ih =>
      rw [List.cons_append, updateFirst, updateFirst]
      split
      next => rfl
      next other =>
        obtain ⟨b, inside, chosen⟩ := found
        rcases List.mem_cons.mp inside with here | later
        · exact absurd (here ▸ chosen) other
        · rw [ih ⟨b, later, chosen⟩, List.cons_append]

/-- Where the first member that is chosen gives more than before, so does the whole list. -/
theorem flatMap_updateFirst_perm {γ : Type} {p : α → Bool} {g : α → List γ} {a b : α}
    {more : List γ} {l : List α} (found : l.find? p = some a) (grown : g b = g a ++ more) :
    ((updateFirst p (fun _ => b) l).flatMap g).Perm (l.flatMap g ++ more) := by
  induction l with
  | nil => cases found
  | cons c rest ih =>
      unfold updateFirst
      cases chosen : p c with
      | true =>
          rw [List.find?_cons_of_pos chosen] at found
          cases found
          rw [if_pos rfl, List.flatMap_cons, List.flatMap_cons, grown, List.append_assoc,
            List.append_assoc]
          exact List.perm_append_comm.append_left _
      | false =>
          rw [List.find?_cons_of_neg (by simp [chosen])] at found
          rw [if_neg Bool.false_ne_true, List.flatMap_cons, List.flatMap_cons, List.append_assoc]
          exact (ih found).append_left _

/-- How extensions are merged into a list: each into the first element that it names. -/
structure Merge (α ξ : Type) where
  nameOf : α → String
  target : ξ → String
  extend : α → ξ → Checked α
  missing : ξ → Problem

namespace Merge

variable (m : Merge α ξ)

/-- Merge an extension into the element that it names. -/
def into (l : List α) (x : ξ) : Checked (List α) :=
  match l.find? fun a => m.nameOf a == m.target x with
  | none => ⟨l, [m.missing x]⟩
  | some a =>
      ⟨updateFirst (fun a => m.nameOf a == m.target x) (fun _ => (m.extend a x).value) l,
        (m.extend a x).problems⟩

/-- Merge extensions in order. -/
def all (l : List α) (xs : List ξ) : Checked (List α) :=
  Checked.through m.into l xs

variable {m}

theorem into_of_none {l : List α} {x : ξ}
    (found : (l.find? fun a => m.nameOf a == m.target x) = none) :
    m.into l x = ⟨l, [m.missing x]⟩ := by
  rw [into, found]

theorem into_of_some {l : List α} {x : ξ} {a : α}
    (found : (l.find? fun a => m.nameOf a == m.target x) = some a) :
    m.into l x =
      ⟨updateFirst (fun a => m.nameOf a == m.target x) (fun _ => (m.extend a x).value) l,
        (m.extend a x).problems⟩ := by
  rw [into, found]

/-- An extension that finds what it names finds it also where there are more elements behind
it. -/
theorem into_append {l : List α} {x : ξ} (clean : (m.into l x).Clean) (more : List α) :
    (m.into (l ++ more) x).Clean ∧ (m.into (l ++ more) x).value = (m.into l x).value ++ more := by
  unfold into at clean ⊢
  rw [List.find?_append]
  cases found : l.find? fun a => m.nameOf a == m.target x with
  | none =>
      rw [found] at clean
      cases clean
  | some a =>
      rw [found] at clean
      refine ⟨clean, updateFirst_append ⟨a, List.mem_of_find?_eq_some found, ?_⟩ more⟩
      exact List.find?_some (p := fun a => m.nameOf a == m.target x) found

theorem all_append {l : List α} {xs : List ξ} (clean : (m.all l xs).Clean) (more : List α) :
    (m.all (l ++ more) xs).Clean ∧ (m.all (l ++ more) xs).value = (m.all l xs).value ++ more := by
  induction xs generalizing l with
  | nil => exact ⟨rfl, rfl⟩
  | cons x rest ih =>
      obtain ⟨first, others⟩ := Checked.clean_bind.mp clean
      obtain ⟨again, value⟩ := into_append first more
      obtain ⟨others, result⟩ := ih others
      rw [← value] at others result
      exact ⟨Checked.clean_bind.mpr ⟨again, others⟩, result⟩

/-- Elements may be added before all extensions, and not between them, if the extensions in
front of them find what they name without them. -/
theorem all_split {l new : List α} {xs ys : List ξ} (first : (m.all l xs).Clean)
    (second : (m.all ((m.all l xs).value ++ new) ys).Clean) :
    (m.all (l ++ new) (xs ++ ys)).Clean ∧
      (m.all (l ++ new) (xs ++ ys)).value = (m.all ((m.all l xs).value ++ new) ys).value := by
  obtain ⟨clean, value⟩ := all_append first new
  unfold all at *
  rw [Checked.clean_through_append, Checked.value_through_append, value]
  exact ⟨⟨clean, second⟩, rfl⟩

/-- Extensions that keep the name of what they extend keep all names, in order. -/
theorem names_all (keeps : ∀ a x, m.nameOf (m.extend a x).value = m.nameOf a) (l : List α)
    (xs : List ξ) : (m.all l xs).value.map m.nameOf = l.map m.nameOf := by
  refine Checked.through_preserves (P := fun k : List α => k.map m.nameOf = l.map m.nameOf)
    (fun k x _ kept => ?_) rfl
  unfold into
  cases found : k.find? fun a => m.nameOf a == m.target x with
  | none => exact kept
  | some a =>
      have named : m.nameOf a = m.target x := by
        simpa using List.find?_some (p := fun a => m.nameOf a == m.target x) found
      rw [← kept]
      exact map_updateFirst fun b _ chosen =>
        (keeps a x).trans (named.trans (beq_iff_eq.mp chosen).symm)

/-- What clean extensions add to the elements is in the end behind what was there, up to the
order. -/
theorem flatMap_all_perm {γ : Type} {g : α → List γ} {h : ξ → List γ}
    (each : ∀ a x, (m.extend a x).Clean → g (m.extend a x).value = g a ++ h x) {l : List α}
    {xs : List ξ} (clean : (m.all l xs).Clean) :
    ((m.all l xs).value.flatMap g).Perm (l.flatMap g ++ xs.flatMap h) := by
  induction xs generalizing l with
  | nil =>
      rw [List.flatMap_nil, List.append_nil]
      exact .refl _
  | cons x rest ih =>
      obtain ⟨first, others⟩ := Checked.clean_bind.mp clean
      have passed := ih others
      unfold into at first passed
      cases found : l.find? fun a => m.nameOf a == m.target x with
      | none =>
          rw [found] at first
          cases first
      | some a =>
          rw [found] at first passed
          have step := flatMap_updateFirst_perm found (each a x first)
          rw [List.flatMap_cons, ← List.append_assoc, all, Checked.through, Checked.bind_eq,
            Checked.value_bind, into, found]
          exact passed.trans (step.append_right _)

end Merge

end Merging

def itemTypeMerge : Merge ItemType ItemTypeExtension :=
  ⟨ItemType.name, ItemTypeExtension.name, ItemType.extend,
    fun x => ⟨some x.location, .noItemTypeToExtend x.name⟩⟩

def viewMerge : Merge View ViewExtension :=
  ⟨View.name, ViewExtension.name, fun v x => .pure (v.extend x),
    fun x => ⟨some x.location, .noViewToExtend x.name⟩⟩

def rightMerge : Merge Right RightExtension :=
  ⟨Right.name, RightExtension.name, Right.extend,
    fun x => ⟨some x.location, .noRightToExtend x.name⟩⟩

/-! ## Kinds and extensions of drafts -/

/-- A step that changes the elements of a kind as a step on their list does, and nothing
else. -/
def ElementKind.Lifts {α ξ : Type} (k : ElementKind α) (step : Drafts → ξ → Checked Drafts)
    (on : List α → ξ → Checked (List α)) : Prop :=
  ∀ d x, step d x = ⟨k.set (on (k.get d) x).value d, (on (k.get d) x).problems⟩

/-- A pass of such steps changes the elements as the pass over their list does. -/
theorem ElementKind.Lifts.through {α ξ : Type} {k : ElementKind α}
    {step : Drafts → ξ → Checked Drafts} {on : List α → ξ → Checked (List α)}
    (lifts : k.Lifts step on) (d : Drafts) (xs : List ξ) :
    Checked.through step d xs = ⟨k.set (Checked.through on (k.get d) xs).value d,
      (Checked.through on (k.get d) xs).problems⟩ := by
  induction xs generalizing d with
  | nil => rw [Checked.through, Checked.through, Checked.pure, Checked.pure, k.set_get]
  | cons x rest ih =>
      rw [Checked.through, Checked.through, lifts d x, Checked.bind, Checked.bind, ih, k.get_set,
        k.set_set]

theorem lifts_extendItemType : itemTypeKind.Lifts Drafts.extendItemType itemTypeMerge.into := by
  intro d x
  cases found : d.itemTypes.find? fun i => i.name == x.name with
  | none =>
      rw [Drafts.extendItemType, found, itemTypeMerge.into_of_none (l := itemTypeKind.get d) found]
      rfl
  | some i =>
      rw [Drafts.extendItemType, found, itemTypeMerge.into_of_some (l := itemTypeKind.get d) found]
      rfl

theorem lifts_extendView : viewKind.Lifts Drafts.extendView viewMerge.into := by
  intro d x
  have listed : (d.views.any fun v => v.name == x.name) =
      (d.views.find? fun v => v.name == x.name).isSome := List.isSome_find?.symm
  cases found : d.views.find? fun v => v.name == x.name with
  | none =>
      rw [Drafts.extendView, listed, found, viewMerge.into_of_none (l := viewKind.get d) found]
      rfl
  | some v =>
      have replaced := updateFirst_of_find? (f := fun v : View => v.extend x) found
      rw [Drafts.extendView, listed, found, viewMerge.into_of_some (l := viewKind.get d) found,
        Option.isSome_some, if_pos rfl, ← replaced]
      rfl

theorem lifts_extendRight : rightKind.Lifts Drafts.extendRight rightMerge.into := by
  intro d x
  cases found : d.rights.find? fun r => r.name == x.name with
  | none =>
      rw [Drafts.extendRight, found, rightMerge.into_of_none (l := rightKind.get d) found]
      rfl
  | some r =>
      rw [Drafts.extendRight, found, rightMerge.into_of_some (l := rightKind.get d) found]
      rfl

/-! ## A file that is accepted -/

namespace SchemaFile

/-- What the declarations of a file enter into the registry. -/
def entries (f : SchemaFile) : List (String × Location) :=
  enumKind.entries f.enums ++ (itemTypeKind.entries f.itemTypes ++
    (viewKind.entries f.views ++ rightKind.entries f.rights))

/-- The declarations of two files in one, each list of the second behind that of the first. -/
def joined (f g : SchemaFile) (fileName : String) : SchemaFile where
  fileName := fileName
  enums := f.enums ++ g.enums
  itemTypes := f.itemTypes ++ g.itemTypes
  views := f.views ++ g.views
  rights := f.rights ++ g.rights
  itemTypeExtensions := f.itemTypeExtensions ++ g.itemTypeExtensions
  viewExtensions := f.viewExtensions ++ g.viewExtensions
  rightExtensions := f.rightExtensions ++ g.rightExtensions
  sqlBefore := f.sqlBefore ++ g.sqlBefore
  sqlAfter := f.sqlAfter ++ g.sqlAfter

/-- The declarations of several files in one. -/
def joinAll (fileName : String) : List SchemaFile → SchemaFile
  | [] => .empty fileName
  | f :: rest => f.joined (joinAll fileName rest) fileName

/-- One kind of content of several files in one. -/
theorem flatMap_joinAll {α : Type} {content : SchemaFile → List α}
    (joins : ∀ f g fileName, content (f.joined g fileName) = content f ++ content g)
    (fileName : String) (nothing : content (.empty fileName) = []) (files : List SchemaFile) :
    content (joinAll fileName files) = files.flatMap content := by
  induction files with
  | nil => exact nothing
  | cons f rest ih => rw [joinAll, joins, ih, List.flatMap_cons]

theorem itemTypes_joinAll (fileName : String) (files : List SchemaFile) :
    (joinAll fileName files).itemTypes = files.flatMap itemTypes :=
  flatMap_joinAll (fun _ _ _ => rfl) fileName rfl files

end SchemaFile

namespace Drafts

variable {d : Drafts} {f : SchemaFile}

/-- Drafts with the declarations of a file entered, and none of its extensions merged. -/
def entered (d : Drafts) (f : SchemaFile) : Drafts :=
  { d with
    enums := d.enums ++ f.enums.map Declared.item
    itemTypes := d.itemTypes ++ f.itemTypes.map Declared.item
    views := d.views ++ f.views.map Declared.item
    rights := d.rights ++ f.rights.map Declared.item
    names := d.names ++ f.entries }

/-- The passes over the declarations of a file. -/
def enterAll (d : Drafts) (f : SchemaFile) : Checked Drafts := do
  let d ← Checked.through addEnum d f.enums
  let d ← Checked.through addItemType d f.itemTypes
  let d ← Checked.through addView d f.views
  Checked.through addRight d f.rights

theorem enters_enterAll : Enters d f.entries (d.entered f) (d.enterAll f) := by
  have views (d : Drafts) := (viewKind.enters_through f.views (d := d)).bind
    (g := fun d => Checked.through addRight d f.rights) (rightKind.enters_through f.rights)
  have itemTypes (d : Drafts) := (itemTypeKind.enters_through f.itemTypes (d := d)).bind
    (g := fun d => Checked.through addView d f.views >>= _) (views _)
  have enums := (enumKind.enters_through f.enums (d := d)).bind
    (g := fun d => Checked.through addItemType d f.itemTypes >>= _) (itemTypes _)
  have made : rightKind.put (viewKind.put (itemTypeKind.put (enumKind.put d f.enums) f.itemTypes)
      f.views) f.rights = d.entered f := by
    simp only [ElementKind.put, entered, SchemaFile.entries, ← List.append_assoc]
    rfl
  exact made ▸ enums

/-- The passes over the extensions of a file. -/
def mergeAll (d : Drafts) (f : SchemaFile) : Checked Drafts := do
  let d ← Checked.through extendItemType d f.itemTypeExtensions
  let d ← Checked.through extendView d f.viewExtensions
  Checked.through extendRight d f.rightExtensions

theorem clean_mergeAll_iff : (d.mergeAll f).Clean ↔
    (itemTypeMerge.all d.itemTypes f.itemTypeExtensions).Clean ∧
      (viewMerge.all d.views f.viewExtensions).Clean ∧
        (rightMerge.all d.rights f.rightExtensions).Clean := by
  rw [mergeAll, Checked.clean_bind, Checked.clean_bind, lifts_extendItemType.through,
    lifts_extendView.through, lifts_extendRight.through]
  rfl

theorem value_mergeAll : (d.mergeAll f).value =
    { d with
      itemTypes := (itemTypeMerge.all d.itemTypes f.itemTypeExtensions).value
      views := (viewMerge.all d.views f.viewExtensions).value
      rights := (rightMerge.all d.rights f.rightExtensions).value } := by
  rw [mergeAll, Checked.value_bind, Checked.value_bind, lifts_extendItemType.through,
    lifts_extendView.through, lifts_extendRight.through]
  rfl

/-- A file is accepted if its names are free, and each of its extensions merges into the
element that it names. -/
structure Accepts (d : Drafts) (f : SchemaFile) : Prop where
  names : Enterable d.names f.entries
  itemTypes : (itemTypeMerge.all (d.entered f).itemTypes f.itemTypeExtensions).Clean
  views : (viewMerge.all (d.entered f).views f.viewExtensions).Clean
  rights : (rightMerge.all (d.entered f).rights f.rightExtensions).Clean

/-- The drafts that an accepted file makes. -/
def merged (d : Drafts) (f : SchemaFile) : Drafts where
  enums := (d.entered f).enums
  itemTypes := (itemTypeMerge.all (d.entered f).itemTypes f.itemTypeExtensions).value
  views := (viewMerge.all (d.entered f).views f.viewExtensions).value
  rights := (rightMerge.all (d.entered f).rights f.rightExtensions).value
  sqlBefore := d.sqlBefore ++ f.sqlBefore
  sqlAfter := d.sqlAfter ++ f.sqlAfter
  names := (d.entered f).names

theorem clean_apply_iff : (d.apply f).Clean ↔ d.Accepts f := by
  have passes : (d.apply f).Clean ↔
      (d.enterAll f).Clean ∧ ((d.enterAll f).value.mergeAll f).Clean := by
    simp only [apply, enterAll, mergeAll, Checked.clean_bind, Checked.value_bind,
      Checked.clean_pure, and_true, and_assoc]
  rw [passes]
  constructor
  · rintro ⟨entering, merging⟩
    rw [enters_enterAll.value entering] at merging
    obtain ⟨itemTypes, views, rights⟩ := clean_mergeAll_iff.mp merging
    exact ⟨enters_enterAll.clean.mp entering, itemTypes, views, rights⟩
  · rintro ⟨names, itemTypes, views, rights⟩
    have entering := enters_enterAll.clean.mpr names
    refine ⟨entering, ?_⟩
    rw [enters_enterAll.value entering]
    exact clean_mergeAll_iff.mpr ⟨itemTypes, views, rights⟩

theorem value_apply (accepted : d.Accepts f) : (d.apply f).value = d.merged f := by
  have entering := enters_enterAll.clean.mpr accepted.names
  have passes : (d.apply f).value =
      { ((d.enterAll f).value.mergeAll f).value with
        sqlBefore := ((d.enterAll f).value.mergeAll f).value.sqlBefore ++ f.sqlBefore
        sqlAfter := ((d.enterAll f).value.mergeAll f).value.sqlAfter ++ f.sqlAfter } := rfl
  rw [passes, enters_enterAll.value entering, value_mergeAll]
  rfl

/-- A file is applied without problems exactly if it is accepted, and then makes the merged
drafts. -/
theorem apply_eq_pure_iff {e : Drafts} :
    d.apply f = .pure e ↔ d.Accepts f ∧ d.merged f = e := by
  constructor
  · intro applied
    have accepted : d.Accepts f := clean_apply_iff.mp (by rw [applied]; rfl)
    rw [← value_apply accepted, applied]
    exact ⟨accepted, rfl⟩
  · rintro ⟨accepted, rfl⟩
    rw [← value_apply accepted, ← Checked.eq_pure_of_clean (clean_apply_iff.mpr accepted)]

/-! ## Two files and one -/

/-- Drafts that differ at most in the order in which their names were entered: they hold the
same elements and statements, and every name is taken in both, at the same place, or free in
both. -/
structure Agrees (d e : Drafts) : Prop where
  enums : d.enums = e.enums
  itemTypes : d.itemTypes = e.itemTypes
  views : d.views = e.views
  rights : d.rights = e.rights
  sqlBefore : d.sqlBefore = e.sqlBefore
  sqlAfter : d.sqlAfter = e.sqlAfter
  names : d.names.Perm e.names
  user : ∀ name, d.user? name = e.user? name

variable {g : SchemaFile}

/-- The entries of two files in one are the entries of both, kind by kind. -/
theorem entries_joined (fileName : String) :
    (f.entries ++ g.entries).Perm (f.joined g fileName).entries := by
  rw [List.perm_iff_count]
  intro e
  simp only [SchemaFile.entries, SchemaFile.joined, ElementKind.entries_append, List.count_append]
  omega

/-- The elements of two files in one are those of the first with those of the second behind. -/
theorem map_item_append {α : Type} (l : List α) (xs ys : List (Declared α)) :
    l ++ (xs ++ ys).map Declared.item =
      (l ++ xs.map Declared.item) ++ ys.map Declared.item := by
  rw [List.map_append, List.append_assoc]

/-- The extensions of the first file are merged with the elements of the second behind, and
change nothing in those. -/
theorem all_joined {α ξ : Type} {m : Merge α ξ} {l : List α} {xs ys : List (Declared α)}
    {more others : List ξ} (first : (m.all (l ++ xs.map Declared.item) more).Clean)
    (second : (m.all ((m.all (l ++ xs.map Declared.item) more).value ++ ys.map Declared.item)
      others).Clean) :
    (m.all (l ++ (xs ++ ys).map Declared.item) (more ++ others)).Clean ∧
      (m.all (l ++ (xs ++ ys).map Declared.item) (more ++ others)).value =
        (m.all ((m.all (l ++ xs.map Declared.item) more).value ++ ys.map Declared.item)
          others).value := by
  rw [map_item_append]
  exact Merge.all_split first second

theorem Accepts.joined (first : d.Accepts f) (second : (d.merged f).Accepts g)
    (fileName : String) : d.Accepts (f.joined g fileName) where
  names := (enterable_append.mpr ⟨first.names, second.names⟩).perm (entries_joined fileName)
  itemTypes := (all_joined first.itemTypes second.itemTypes).1
  views := (all_joined first.views second.views).1
  rights := (all_joined first.rights second.rights).1

theorem Accepts.agrees (first : d.Accepts f) (second : (d.merged f).Accepts g)
    (fileName : String) : (d.merged (f.joined g fileName)).Agrees ((d.merged f).merged g) where
  enums := map_item_append d.enums f.enums g.enums
  itemTypes := (all_joined first.itemTypes second.itemTypes).2
  views := (all_joined first.views second.views).2
  rights := (all_joined first.rights second.rights).2
  sqlBefore := (List.append_assoc d.sqlBefore f.sqlBefore g.sqlBefore).symm
  sqlAfter := (List.append_assoc d.sqlAfter f.sqlAfter g.sqlAfter).symm
  names := by
    have both := (entries_joined (f := f) (g := g) fileName).symm.append_left d.names
    rw [← List.append_assoc] at both
    exact both
  user := by
    intro name
    have distinct := (enterable_append.mpr ⟨first.names, second.names⟩).distinct
    have found : (d.names ++ (f.entries ++ g.entries)).find? (fun e => e.1 == lowered name) =
        (d.names ++ (f.joined g fileName).entries).find? fun e => e.1 == lowered name :=
      find?_entry_perm distinct (entries_joined fileName) (lowered name)
    rw [← List.append_assoc] at found
    exact congrArg (Option.map Prod.snd) found.symm

/-- What finishing makes of drafts, a schema or problems, does not depend on the order of
their names. -/
theorem Agrees.finish {e : Drafts} (h : d.Agrees e) : d.finish = e.finish := by
  obtain ⟨enums, itemTypes, views, rights, _, _, _⟩ := d
  obtain ⟨_, _, _, _, _, _, _⟩ := e
  obtain ⟨rfl, rfl, rfl, rfl, rfl, rfl, -, -⟩ := h
  rfl

theorem Agrees.refl (d : Drafts) : d.Agrees d :=
  ⟨rfl, rfl, rfl, rfl, rfl, rfl, .refl _, fun _ => rfl⟩

theorem Agrees.trans {e e' : Drafts} (first : d.Agrees e) (second : e.Agrees e') :
    d.Agrees e' where
  enums := first.enums.trans second.enums
  itemTypes := first.itemTypes.trans second.itemTypes
  views := first.views.trans second.views
  rights := first.rights.trans second.rights
  sqlBefore := first.sqlBefore.trans second.sqlBefore
  sqlAfter := first.sqlAfter.trans second.sqlAfter
  names := first.names.trans second.names
  user name := (first.user name).trans (second.user name)

theorem accepts_empty (fileName : String) : d.Accepts (.empty fileName) :=
  ⟨enterable_nil, rfl, rfl, rfl⟩

theorem merged_empty (fileName : String) : d.merged (.empty fileName) = d := by
  have entered : d.entered (.empty fileName) = d := by
    simp only [Drafts.entered, SchemaFile.empty, SchemaFile.entries, ElementKind.entries,
      List.map_nil, List.append_nil]
  unfold merged
  rw [entered]
  simp only [SchemaFile.empty, List.append_nil]
  rfl

/-- Files that are accepted in a row may be joined to one, however many they are. -/
theorem apply_joinAll (fileName : String) {files : List SchemaFile} {e : Drafts}
    (applied : Checked.through apply d files = .pure e) :
    ∃ e', d.apply (SchemaFile.joinAll fileName files) = .pure e' ∧ e'.Agrees e := by
  induction files generalizing d with
  | nil =>
      cases applied
      exact ⟨_, apply_eq_pure_iff.mpr ⟨accepts_empty fileName, merged_empty fileName⟩, .refl _⟩
  | cons f rest ih =>
      have clean : (Checked.through apply d (f :: rest)).Clean := by rw [applied]; rfl
      obtain ⟨first, others⟩ := Checked.clean_bind.mp clean
      have accepted := clean_apply_iff.mp first
      rw [value_apply accepted] at others
      have made : (Checked.through apply (d.merged f) rest).value = e := by
        rw [← value_apply accepted]
        exact congrArg Checked.value applied
      obtain ⟨e', joined, agrees⟩ := ih ((Checked.eq_pure_of_clean others).trans (made ▸ rfl))
      obtain ⟨second, rfl⟩ := apply_eq_pure_iff.mp joined
      exact ⟨_, apply_eq_pure_iff.mpr ⟨accepted.joined second fileName, rfl⟩,
        (accepted.agrees second fileName).trans agrees⟩

/-- Where two files are accepted one after the other, the file that holds the declarations of
both is accepted and makes the same of the drafts; and a file that declares nothing changes
nothing.  How a schema is split over files is invisible in what is made of it. -/
theorem apply_joined (d : Drafts) :
    (∀ f g e e', d.apply f = .pure e → e.apply g = .pure e' → ∀ fileName,
      ∃ e'', d.apply (f.joined g fileName) = .pure e'' ∧ e''.Agrees e' ∧
        e''.finish = e'.finish) ∧
      ∀ fileName, d.apply (.empty fileName) = .pure d := by
  constructor
  · intro f g e e' first second fileName
    obtain ⟨accepted, rfl⟩ := apply_eq_pure_iff.mp first
    obtain ⟨again, rfl⟩ := apply_eq_pure_iff.mp second
    have agrees := accepted.agrees again fileName
    exact ⟨_, apply_eq_pure_iff.mpr ⟨accepted.joined again fileName, rfl⟩, agrees, agrees.finish⟩
  · intro fileName
    exact apply_eq_pure_iff.mpr ⟨accepts_empty fileName, merged_empty fileName⟩

/-- Two files of which the second extends what the first declares. -/
theorem apply_joined_sample : (({} : Drafts).apply Sample.baseContent).Clean ∧
    ((({} : Drafts).apply Sample.baseContent).value.apply Sample.derivedContent).Clean ∧
    ∃ e, ({} : Drafts).apply (Sample.baseContent.joined Sample.derivedContent "all.xml") =
      .pure e ∧ e.finish = .ok Sample.schema := by
  have first : (({} : Drafts).apply Sample.baseContent).problems = [] := by decide +kernel
  have second : ((({} : Drafts).apply Sample.baseContent).value.apply
      Sample.derivedContent).problems = [] := by decide +kernel
  obtain ⟨e, applied, -, finished⟩ := (apply_joined {}).1 _ _ _ _
    (Checked.eq_pure_of_clean first) (Checked.eq_pure_of_clean second) "all.xml"
  exact ⟨first, second, e, applied, finished.trans Sample.finish_contents⟩

end Drafts

end LearningStore.Schema
