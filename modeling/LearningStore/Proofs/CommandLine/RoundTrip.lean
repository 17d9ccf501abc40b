import LearningStore.CommandLine.Arguments
import LearningStore.Proofs.Results
import Mathlib.Data.List.Duplicate
import Mathlib.Data.List.Induction
import Mathlib.Data.List.Perm.Basic

/-!
# Options written as arguments

Options are written by naming each of them once, in any order: a flag by its name behind two dashes
or by its slash spelling in any case, with its value behind it, and the input by itself.  Reading
these arguments gives the options back.  Arguments that name something twice are refused, and the
refusal is about something that is there twice.
-/

namespace LearningStore.CommandLine

open LearningStore.Compile
open LearningStore.Text

/-! ## Settings -/

/-- One thing that options set. -/
inductive Setting where
  | value (target : Target) (text : String)
  | verbose
deriving DecidableEq, Repr

/-- A text that is read as a value: it does not begin with a dash, and it is no slash spelling of a
flag. -/
structure IsValue (text : String) : Prop where
  noDash : text.toList.head? ≠ some '-'
  noSlash : ∀ f : Flag, lowered text ≠ lowered f.descriptor.slashName

def Target.all : List Target :=
  .input :: Flag.all.map .flag

theorem Target.mem_all (t : Target) : t ∈ Target.all := by
  cases t with
  | input => exact List.mem_cons_self
  | flag f => cases f <;> decide

/-- The settings of some options. -/
def settingsOf (o : Options) : List Setting :=
  (Target.all.filterMap fun t => (t.get o).map (Setting.value t)) ++
    if o.verbose then [.verbose] else []

namespace Setting

/-- What is set: a target, or nothing else than the switch. -/
def key : Setting → Option Target
  | value t _ => some t
  | verbose => none

/-- How messages show what is set. -/
def label : Option Target → String
  | some t => t.label
  | none => Switch.verbose.label

/-- A setting that can be written: paths are not empty. -/
def Writable : Setting → Prop
  | value t text => IsValue text ∧ (t.isPath = true → text ≠ "")
  | verbose => True

def apply (o : Options) : Setting → Options
  | value t text => t.set text o
  | verbose => { o with verbose := true }

end Setting

/-- A setting as it is written on the command line. -/
inductive Item where
  | input (path : String)
  | flag (f : Flag) (spelling value : String)
  | verbose (spelling : String)
deriving DecidableEq, Repr

namespace Item

def arguments : Item → List String
  | input path => [path]
  | flag _ spelling value => [spelling, value]
  | verbose spelling => [spelling]

def setting : Item → Setting
  | input path => .value .input path
  | flag f _ value => .value (.flag f) value
  | verbose _ => .verbose

def key (i : Item) : Option Target :=
  i.setting.key

/-- A spelling of what the item sets. -/
def Spelled : Item → Prop
  | input _ => True
  | flag f spelling _ => spelling = f.long ∨ lowered spelling = lowered f.descriptor.slashName
  | verbose spelling => spelling = Switch.verbose.label ∨ spelling = "-v"

/-- An item that is spelled right, with a setting that can be written. -/
structure Written (i : Item) : Prop where
  spelled : i.Spelled
  writable : i.setting.Writable

/-- Read the setting of an item. -/
def read (s : Progress) : Item → Except Stop Progress
  | input path => s.readInput path
  | flag f _ value => s.await (.flag f) (some value)
  | verbose _ => s.readSwitch .verbose

end Item

/-- The arguments that items are written as. -/
def argumentsOf (items : List Item) : List String :=
  items.flatMap Item.arguments

/-- The options that items set, one after the other. -/
def optionsOf (items : List Item) : Options :=
  items.foldl (fun o i => i.setting.apply o) {}

/-! ## Arguments of items -/

section Arguments

variable {f : Flag} {text spelling value : String} {s : Progress}

theorem sameLetters_iff {a b : String} : sameLetters a b = true ↔ lowered a = lowered b := by
  rw [sameLetters, beq_iff_eq, lowered, lowered, String.ofList_inj]

theorem ofSlash?_congr (same : lowered text = lowered spelling) :
    Flag.ofSlash? text = Flag.ofSlash? spelling := by
  have letters : ∀ f : Flag, sameLetters f.descriptor.slashName text =
      sameLetters f.descriptor.slashName spelling := by
    intro f
    rw [Bool.eq_iff_iff, sameLetters_iff, sameLetters_iff, same]
  rw [Flag.ofSlash?, Flag.ofSlash?, funext letters]

/-- The slash spellings of the flags are told apart. -/
theorem ofSlash?_slashName (f : Flag) : Flag.ofSlash? f.descriptor.slashName = some f := by
  cases f <;> decide

theorem ofSlash?_long (f : Flag) : Flag.ofSlash? f.long = none := by
  cases f <;> decide

theorem normalized_spelling (spelled : (Item.flag f spelling value).Spelled) :
    normalized spelling = f.long := by
  unfold normalized
  rcases spelled with rfl | slash
  · rw [ofSlash?_long]
  · rw [ofSlash?_congr slash, ofSlash?_slashName]

theorem normalized_value (isValue : IsValue text) : normalized text = text := by
  have none_fits : Flag.ofSlash? text = none := by
    rw [Flag.ofSlash?, List.find?_eq_none]
    intro f _
    rw [sameLetters_iff]
    exact (isValue.noSlash f).symm
  rw [normalized, none_fits]

/-- The names of the flags are told apart, from each other and from those of the switches. -/
theorem ofText_long (f : Flag) : Argument.ofText f.long = .long f.descriptor.name none := by
  cases f <;> decide

theorem ofName?_name (f : Flag) : Parameter.ofName? f.descriptor.name = some (.flag f) := by
  cases f <;> decide

theorem ofText_value (isValue : IsValue text) : Argument.ofText text = .plain text := by
  have noDash := isValue.noDash
  unfold Argument.ofText
  split
  next dashes => exact absurd (by rw [dashes]; rfl) noDash
  next dashes => exact absurd (by rw [dashes]; rfl) noDash
  next dash => exact absurd (by rw [dash]; rfl) noDash
  next => rfl

end Arguments

/-! ## Options of items -/

section Options

variable {a b o : Options} {t u : Target} {text : String} {items : List Item} {i : Item}

theorem get_set (t u : Target) (text : String) (o : Options) :
    t.get (u.set text o) = if t = u then some text else t.get o := by
  cases t with
  | input =>
      cases u with
      | input => rfl
      | flag g => cases g <;> rfl
  | flag f =>
      cases u with
      | input => cases f <;> rfl
      | flag g => cases f <;> cases g <;> rfl

theorem verbose_set (t : Target) (text : String) (o : Options) :
    (t.set text o).verbose = o.verbose := by
  cases t with
  | input => rfl
  | flag f => cases f <;> rfl

/-- Options are the values of their targets and the switch. -/
theorem options_ext (values : ∀ t : Target, t.get a = t.get b) (verbose : a.verbose = b.verbose) :
    a = b := by
  have flags (f : Flag) : f.get a = f.get b := values (.flag f)
  cases a
  cases b
  congr 1
  · exact values .input
  · exact flags .baseSchema
  · exact flags .outputInit
  · exact flags .outputUpgrade
  · exact flags .outputHelper
  · exact flags .enumNamespace
  · exact flags .schemaNamespace
  · exact flags .outputComponentsHelper
  · exact flags .outputStorageHelper
  · exact flags .outputBaseInit

theorem optionsOf_concat (items : List Item) (i : Item) :
    optionsOf (items ++ [i]) = i.setting.apply (optionsOf items) := by
  rw [optionsOf, List.foldl_append]
  rfl

theorem key_mem_of_setting_mem (inside : .value t text ∈ items.map Item.setting) :
    some t ∈ items.map Item.key := by
  obtain ⟨i, member, same⟩ := List.mem_map.mp inside
  refine List.mem_map.mpr ⟨i, member, ?_⟩
  rw [Item.key, same]
  rfl

theorem nodup_concat :
    ((items ++ [i]).map Item.key).Nodup ↔
      (items.map Item.key).Nodup ∧ i.key ∉ items.map Item.key := by
  rw [List.map_append, List.map_singleton, List.nodup_append_comm, List.singleton_append,
    List.nodup_cons, and_comm]

/-- Items that set everything once give each target the value that is set. -/
theorem get_optionsOf (once : (items.map Item.key).Nodup) :
    t.get (optionsOf items) = some text ↔ .value t text ∈ items.map Item.setting := by
  induction items using List.reverseRecOn with
  | nil =>
      refine iff_of_false ?_ (List.not_mem_nil)
      cases t with
      | input => exact nofun
      | flag f => cases f <;> exact nofun
  | append_singleton items i ih =>
      obtain ⟨before, fresh⟩ := nodup_concat.mp once
      rw [optionsOf_concat, List.map_append, List.map_singleton, List.mem_append,
        List.mem_singleton, ← ih before]
      rw [Item.key] at fresh
      cases found : i.setting with
      | value u other =>
          rw [found] at fresh
          rw [Setting.apply, get_set]
          split
          next same =>
            subst same
            have unset : t.get (optionsOf items) ≠ some text := fun set =>
              fresh (key_mem_of_setting_mem ((ih before).mp set))
            rw [or_iff_right unset, Option.some_inj, Setting.value.injEq, and_iff_right rfl]
            exact eq_comm
          next apart =>
            rw [Setting.value.injEq]
            exact (or_iff_left fun both => apart both.1).symm
      | verbose =>
          have kept : t.get { optionsOf items with verbose := true } = t.get (optionsOf items) := by
            cases t with
            | input => rfl
            | flag f => cases f <;> rfl
          rw [Setting.apply, kept]
          exact (or_iff_left nofun).symm

theorem verbose_optionsOf :
    (optionsOf items).verbose = true ↔ .verbose ∈ items.map Item.setting := by
  induction items using List.reverseRecOn with
  | nil => exact iff_of_false nofun List.not_mem_nil
  | append_singleton items i ih =>
      rw [optionsOf_concat, List.map_append, List.map_singleton, List.mem_append,
        List.mem_singleton, ← ih]
      cases i.setting with
      | value u text =>
          rw [Setting.apply, verbose_set]
          exact (or_iff_left nofun).symm
      | verbose => exact iff_of_true rfl (.inr rfl)

/-- What is set so far, by the items that set it. -/
theorem taken_iff (once : (items.map Item.key).Nodup) :
    t.get (optionsOf items) ≠ none ↔ some t ∈ items.map Item.key := by
  rw [Option.ne_none_iff_exists']
  constructor
  · rintro ⟨text, set⟩
    exact key_mem_of_setting_mem ((get_optionsOf once).mp set)
  · intro inside
    obtain ⟨i, member, same⟩ := List.mem_map.mp inside
    rw [Item.key] at same
    cases found : i.setting with
    | value u text =>
        rw [found] at same
        cases same
        exact ⟨text, (get_optionsOf once).mpr (List.mem_map.mpr ⟨i, member, found⟩)⟩
    | verbose =>
        rw [found] at same
        cases same

theorem verbose_iff : (optionsOf items).verbose = true ↔ none ∈ items.map Item.key := by
  rw [verbose_optionsOf]
  constructor
  · intro inside
    obtain ⟨i, member, same⟩ := List.mem_map.mp inside
    exact List.mem_map.mpr ⟨i, member, by rw [Item.key, same]; rfl⟩
  · intro inside
    obtain ⟨i, member, same⟩ := List.mem_map.mp inside
    rw [Item.key] at same
    cases found : i.setting with
    | value u text =>
        rw [found] at same
        cases same
    | verbose => exact List.mem_map.mpr ⟨i, member, found⟩

theorem mem_settingsOf : .value t text ∈ settingsOf o ↔ t.get o = some text := by
  have switch : Setting.value t text ∉ if o.verbose then [Setting.verbose] else [] := by
    split
    next => exact fun inside => nomatch List.mem_singleton.mp inside
    next => exact List.not_mem_nil
  rw [settingsOf, List.mem_append, or_iff_left switch, List.mem_filterMap]
  constructor
  · rintro ⟨u, -, set⟩
    obtain ⟨other, found, same⟩ := Option.map_eq_some_iff.mp set
    cases same
    exact found
  · intro found
    exact ⟨t, t.mem_all, by rw [found]; rfl⟩

theorem verbose_mem_settingsOf : .verbose ∈ settingsOf o ↔ o.verbose = true := by
  have noValue :
      Setting.verbose ∉ Target.all.filterMap fun t => (t.get o).map (Setting.value t) := by
    intro inside
    obtain ⟨u, -, set⟩ := List.mem_filterMap.mp inside
    obtain ⟨other, -, same⟩ := Option.map_eq_some_iff.mp set
    cases same
  rw [settingsOf, List.mem_append, or_iff_right noValue]
  split
  next on => exact iff_of_true List.mem_cons_self on
  next off => exact iff_of_false List.not_mem_nil off

/-- Options set nothing twice. -/
theorem nodup_settingsOf (o : Options) : ((settingsOf o).map Setting.key).Nodup := by
  have values (ts : List Target) :
      ((ts.filterMap fun t => (t.get o).map (Setting.value t)).map Setting.key).Sublist
        (ts.map some) := by
    induction ts with
    | nil => exact .slnil
    | cons t ts ih =>
        rw [List.filterMap_cons, List.map_cons]
        cases t.get o with
        | none => exact ih.cons _
        | some text => exact ih.cons_cons _
  have switch : ((if o.verbose then [Setting.verbose] else []).map Setting.key).Sublist [none] := by
    split
    next => exact .refl _
    next => exact List.nil_sublist _
  have all : (Target.all.map some ++ [none]).Nodup := by decide
  rw [settingsOf, List.map_append]
  exact ((values Target.all).append switch).nodup all

/-- Items that set what some options set give these options. -/
theorem optionsOf_of_perm (same : (items.map Item.setting).Perm (settingsOf o)) :
    (items.map Item.key).Nodup ∧ optionsOf items = o := by
  have keys : ((items.map Item.setting).map Setting.key).Perm ((settingsOf o).map Setting.key) :=
    same.map _
  have once : (items.map Item.key).Nodup := by
    rw [List.map_map] at keys
    exact keys.nodup_iff.mpr (nodup_settingsOf o)
  refine ⟨once, options_ext (fun t => Option.ext fun text => ?_) ?_⟩
  · rw [get_optionsOf once, same.mem_iff, mem_settingsOf]
  · rw [Bool.eq_iff_iff, verbose_optionsOf, same.mem_iff, verbose_mem_settingsOf]

end Options

/-! ## Reading items -/

/-- A complaint about something that is there twice. -/
inductive Complains (keys : List (Option Target)) : UsageError → Prop
  | repeated {k : Option Target} (twice : List.Duplicate k keys) :
      Complains keys (.repeated (Setting.label k))
  | input {path : String} (twice : List.Duplicate (some .input) keys) :
      Complains keys (.unexpectedArgument path false)

/-- What stands in two lists stands twice in both together. -/
theorem duplicate_append_cons {α : Type} {k : α} {front back : List α} (inside : k ∈ front) :
    List.Duplicate k (front ++ k :: back) := by
  induction front with
  | nil => cases inside
  | cons x front ih =>
      rcases List.mem_cons.mp inside with rfl | later
      · exact (List.mem_append_right front List.mem_cons_self).duplicate_cons_self
      · exact (ih later).duplicate_cons x

namespace Progress

variable {s s' : Progress} {t : Target} {value : String} {o : Options} {items done : List Item}
  {i : Item} {e : UsageError}

/-- No flag waits for its value. -/
def Ready (s : Progress) : Prop :=
  ∀ t, s.pending ≠ some ⟨t, none⟩

/-- Once the value that is still to be looked at is taken, some options are there. -/
def Gives (s : Progress) (o : Options) : Prop :=
  ∃ s', s.settled = .ok s' ∧ s'.options = o

theorem readPlain_of_ready (ready : s.Ready) (text : String) :
    s.readPlain text = s.readInput text := by
  unfold readPlain
  split
  next target waits => exact absurd waits (ready target)
  next => rfl

theorem ready_of_await (reached : s.await t (some value) = .ok s') : s'.Ready := by
  obtain ⟨between, -, rfl⟩ := map_eq_ok.mp reached
  rintro u ⟨⟩

theorem ready_of_read (reached : i.read s = .ok s') : s'.Ready := by
  cases i with
  | input path =>
      rw [Item.read, readInput] at reached
      split at reached
      next => cases reached
      next => exact ready_of_await reached
  | flag f spelling value => exact ready_of_await reached
  | verbose spelling =>
      obtain ⟨between, -, switched⟩ := bind_eq_ok.mp reached
      dsimp only at switched
      split at switched
      next => cases switched
      next =>
        cases switched
        exact nofun

theorem readLong_name (s : Progress) (f : Flag) :
    s.readLong f.descriptor.name none = s.await (.flag f) none := by
  unfold readLong
  rw [ofName?_name]

/-- The flag that waits takes the value behind it. -/
theorem read_await (s : Progress) (f : Flag) (isValue : IsValue value) (rest : List String) :
    (s.await (.flag f) none >>= fun s => s.read (value :: rest)) =
      s.await (.flag f) (some value) >>= fun s => s.read rest := by
  rw [await, await]
  cases s.settled with
  | error stop => rfl
  | ok settled =>
      have valued : read { settled with pending := some ⟨.flag f, none⟩ } (value :: rest) =
          read { settled with pending := some ⟨.flag f, some value⟩ } rest := by
        rw [read, ofText_value isValue]
        rfl
      exact valued

theorem readLong_verbose (s : Progress) : s.readLong "verbose" none = s.readSwitch .verbose := by
  have found : Parameter.ofName? "verbose" = some (.switch .verbose) := by decide
  unfold readLong
  rw [found]

theorem readLetters_verbose (s : Progress) : s.readLetters ['v'] = s.readSwitch .verbose := by
  have found : Switch.ofLetter? 'v' = some .verbose := by decide
  rw [readLetters, found]
  change s.readSwitch .verbose >>= (fun s => s.readLetters []) = _
  cases s.readSwitch .verbose <;> rfl

/-- The arguments of an item are read as what it sets. -/
theorem read_arguments (ready : s.Ready) (written : i.Written) (rest : List String) :
    s.read (i.arguments.map normalized ++ rest) = i.read s >>= fun s => s.read rest := by
  obtain ⟨spelled, writable⟩ := written
  cases i with
  | input path =>
      have isValue : IsValue path := writable.1
      rw [Item.arguments, List.map_singleton, List.singleton_append, normalized_value isValue, read,
        ofText_value isValue]
      dsimp only
      rw [readPlain_of_ready ready]
      rfl
  | flag f spelling value =>
      have isValue : IsValue value := writable.1
      rw [Item.arguments, List.map_cons, List.map_singleton, List.cons_append,
        List.singleton_append, normalized_spelling spelled, normalized_value isValue, read,
        ofText_long]
      dsimp only
      rw [readLong_name, read_await s f isValue rest]
      rfl
  | verbose spelling =>
      rcases spelled with rfl | rfl
      · have label : normalized Switch.verbose.label = Switch.verbose.label := by decide
        have form : Argument.ofText Switch.verbose.label = .long "verbose" none := by decide
        rw [Item.arguments, List.map_singleton, List.singleton_append, label, read, form]
        dsimp only
        rw [readLong_verbose]
        rfl
      · have letter : normalized "-v" = "-v" := by decide
        have form : Argument.ofText "-v" = .letters ['v'] := by decide
        rw [Item.arguments, List.map_singleton, List.singleton_append, letter, read, form]
        dsimp only
        rw [readLetters_verbose]
        rfl

theorem read_argumentsOf (ready : s.Ready) (written : ∀ i ∈ items, i.Written) :
    s.read ((argumentsOf items).map normalized) = items.foldlM Item.read s := by
  induction items generalizing s with
  | nil => rfl
  | cons i rest ih =>
      obtain ⟨here, later⟩ := List.forall_mem_cons.mp written
      rw [argumentsOf, List.flatMap_cons, List.map_append, read_arguments ready here,
        List.foldlM_cons]
      cases reached : i.read s with
      | error stop => rfl
      | ok next => exact ih (ready_of_read reached) later

/-! ### One more setting -/

/-- There is an input exactly where the options will have one. -/
theorem hasInput_of_gives (gives : s.Gives o) : s.hasInput = o.input.isSome := by
  obtain ⟨s', settled, rfl⟩ := gives
  unfold Progress.settled at settled
  split at settled
  next empty =>
    cases settled
    rw [hasInput, empty, Bool.or_false]
  next p waiting =>
    obtain ⟨target, value⟩ := p
    unfold take at settled
    split at settled
    next => cases settled
    next text found =>
      split at settled
      next => cases settled
      next =>
        split at settled
        next => cases settled
        next =>
          cases settled
          rw [hasInput, waiting]
          cases target with
          | input => exact Bool.or_true _
          | flag f => cases f <;> exact Bool.or_false _

/-- A target that has no value yet takes one. -/
theorem exists_await (gives : s.Gives o) (free : t.get o = none)
    (filled : t.isPath = true → value ≠ "") :
    ∃ s', s.await t (some value) = .ok s' ∧ s'.Gives (t.set value o) := by
  obtain ⟨next, settled, rfl⟩ := gives
  refine ⟨{ next with pending := some ⟨t, some value⟩ }, ?_, ?_⟩
  · rw [await, settled]
    rfl
  · have room : (t.isPath && value.isEmpty) = false := by
      rw [Bool.and_eq_false_imp]
      intro isPath
      rw [Bool.eq_false_iff, ne_eq, String.isEmpty_iff]
      exact filled isPath
    refine ⟨⟨t.set value next.options, next.given ++ t.parameter?.toList, none⟩, ?_, rfl⟩
    rw [Progress.settled]
    dsimp only
    rw [take]
    dsimp only
    rw [free, room]
    rfl

/-- A target that has a value already refuses the next one when it is looked at. -/
theorem exists_await_repeated (gives : s.Gives o) (taken : t.get o ≠ none) (value : String) :
    ∃ s', s.await t (some value) = .ok s' ∧
      s'.settled = .error (.failure (.repeated t.label)) ∧
      s'.hasInput = (o.input.isSome || t == .input) := by
  obtain ⟨next, settled, rfl⟩ := gives
  refine ⟨{ next with pending := some ⟨t, some value⟩ }, ?_, ?_, ?_⟩
  · rw [await, settled]
    rfl
  · rw [Progress.settled]
    dsimp only
    rw [take]
    dsimp only
    rw [if_pos (Option.isSome_iff_ne_none.mpr taken)]
  · cases t with
    | input => rfl
    | flag f => cases f <;> rfl

/-- An item that sets something new is read. -/
theorem exists_read (gives : s.Gives (optionsOf done)) (once : (done.map Item.key).Nodup)
    (written : i.Written) (fresh : i.key ∉ done.map Item.key) :
    ∃ s', i.read s = .ok s' ∧ s'.Gives (optionsOf (done ++ [i])) := by
  have free {t : Target} (same : i.key = some t) : t.get (optionsOf done) = none := by
    by_contra taken
    rw [same] at fresh
    exact fresh ((taken_iff once).mp taken)
  rw [optionsOf_concat]
  cases i with
  | input path =>
      have without : s.hasInput = false := by
        rw [hasInput_of_gives gives, Option.isSome_eq_false_iff, Option.isNone_iff_eq_none]
        exact free (t := .input) rfl
      rw [Item.read, readInput, if_neg (ne_true_of_eq_false without)]
      exact exists_await gives (free rfl) written.writable.2
  | flag f spelling value => exact exists_await gives (free rfl) written.writable.2
  | verbose spelling =>
      obtain ⟨next, settled, options⟩ := gives
      have quiet : next.options.verbose = false := by
        rw [options, Bool.eq_false_iff]
        exact fun on => fresh (verbose_iff.mp on)
      refine ⟨⟨{ next.options with verbose := true }, next.given ++ [.switch .verbose], none⟩,
        ?_, ⟨_, rfl, ?_⟩⟩
      · rw [Item.read, readSwitch, settled]
        exact if_neg (ne_true_of_eq_false quiet)
      · rw [options]
        rfl

/-- A refusal that is due comes with the next item or at the end, unless that item is refused
itself. -/
theorem refused_of_settled (refused : s.settled = .error (.failure e)) (items : List Item) :
    ∃ e', (items.foldlM Item.read s >>= settled) = .error (.failure e') ∧
      (e' = e ∨ s.hasInput = true ∧ some .input ∈ items.map Item.key ∧
        ∃ path, e' = .unexpectedArgument path false) := by
  cases items with
  | nil => exact ⟨e, refused, .inl rfl⟩
  | cons i rest =>
      rw [List.foldlM_cons]
      cases i with
      | input path =>
          rw [Item.read, readInput]
          split
          next has => exact ⟨_, rfl, .inr ⟨has, List.mem_cons_self, path, rfl⟩⟩
          next =>
            rw [await, refused]
            exact ⟨e, rfl, .inl rfl⟩
      | flag f spelling value =>
          rw [Item.read, await, refused]
          exact ⟨e, rfl, .inl rfl⟩
      | verbose spelling =>
          rw [Item.read, readSwitch, refused]
          exact ⟨e, rfl, .inl rfl⟩

/-- Items are refused from the first one on that sets something again. -/
theorem refused_of_mem (gives : s.Gives (optionsOf done)) (once : (done.map Item.key).Nodup)
    (again : i.key ∈ done.map Item.key) (rest : List Item) :
    ∃ e, ((i :: rest).foldlM Item.read s >>= settled) = .error (.failure e) ∧
      Complains ((done ++ i :: rest).map Item.key) e := by
  have twice : List.Duplicate i.key ((done ++ i :: rest).map Item.key) := by
    rw [List.map_append, List.map_cons]
    exact duplicate_append_cons again
  rw [List.foldlM_cons]
  cases i with
  | input path =>
      have has : s.hasInput = true := by
        rw [hasInput_of_gives gives]
        exact Option.isSome_iff_ne_none.mpr ((taken_iff (t := .input) once).mpr again)
      rw [Item.read, readInput, if_pos has]
      exact ⟨_, rfl, .input twice⟩
  | flag f spelling value =>
      obtain ⟨next, reached, refused, has⟩ :=
        exists_await_repeated gives ((taken_iff once).mpr again) value
      obtain ⟨e, ended, same | ⟨input, inside, path, same⟩⟩ := refused_of_settled refused rest
      · rw [Item.read, reached]
        exact ⟨e, ended, same ▸ .repeated twice⟩
      · have before : some .input ∈ done.map Item.key := by
          have apart : ¬(Target.flag f == .input) = true := fun same => nomatch beq_iff_eq.mp same
          rw [has, Bool.or_eq_true, or_iff_left apart] at input
          exact (taken_iff (t := .input) once).mp (Option.isSome_iff_ne_none.mp input)
        obtain ⟨front, back, split⟩ := List.append_of_mem inside
        rw [Item.read, reached]
        refine ⟨e, ended, same ▸ .input ?_⟩
        rw [List.map_append, List.map_cons, split, ← List.cons_append, ← List.append_assoc]
        exact duplicate_append_cons (List.mem_append_left _ before)
  | verbose spelling =>
      obtain ⟨next, settled, options⟩ := gives
      have on : next.options.verbose = true := by
        rw [options]
        exact verbose_iff.mpr again
      refine ⟨_, ?_, .repeated twice⟩
      rw [Item.read, readSwitch, settled]
      simp only [bind, Except.bind, on]
      rfl

/-- Items that set everything once are read, and give their options. -/
theorem exists_of_nodup (gives : s.Gives (optionsOf done)) (written : ∀ i ∈ items, i.Written)
    (once : ((done ++ items).map Item.key).Nodup) :
    ∃ s', (items.foldlM Item.read s >>= settled) = .ok s' ∧
      s'.options = optionsOf (done ++ items) := by
  induction items generalizing s done with
  | nil =>
      rw [List.append_nil]
      exact gives
  | cons i rest ih =>
      obtain ⟨here, later⟩ := List.forall_mem_cons.mp written
      rw [List.append_cons] at once ⊢
      have front : ((done ++ [i]).map Item.key).Nodup := by
        rw [List.map_append] at once
        exact (List.nodup_append.mp once).1
      obtain ⟨before, fresh⟩ := nodup_concat.mp front
      obtain ⟨next, reached, gives'⟩ := exists_read gives before here fresh
      rw [List.foldlM_cons, reached]
      exact ih gives' later once

/-- Items that set something twice are refused, with a complaint about such a thing. -/
theorem refused_of_duplicate (gives : s.Gives (optionsOf done))
    (once : (done.map Item.key).Nodup) (written : ∀ i ∈ items, i.Written)
    (twice : ¬((done ++ items).map Item.key).Nodup) :
    ∃ e, (items.foldlM Item.read s >>= settled) = .error (.failure e) ∧
      Complains ((done ++ items).map Item.key) e := by
  induction items generalizing s done with
  | nil =>
      rw [List.append_nil] at twice
      exact absurd once twice
  | cons i rest ih =>
      obtain ⟨here, later⟩ := List.forall_mem_cons.mp written
      by_cases again : i.key ∈ done.map Item.key
      · exact refused_of_mem gives once again rest
      · obtain ⟨next, reached, gives'⟩ := exists_read gives once here again
        rw [List.append_cons] at twice ⊢
        rw [List.foldlM_cons, reached]
        exact ih gives' (nodup_concat.mpr ⟨once, again⟩) later twice

end Progress

/-! ## Reading arguments -/

theorem parse_argumentsOf {items : List Item} (written : ∀ i ∈ items, i.Written) :
    parse (argumentsOf items) =
      ((items.foldlM Item.read {}) >>= Progress.settled).map Progress.options := by
  have ready : ({} : Progress).Ready := nofun
  rw [parse, Progress.read_argumentsOf ready written]
  cases items.foldlM Item.read {} with
  | error stop => rfl
  | ok s =>
      simp only [bind, Except.bind]
      cases s.settled <;> rfl

/-- Options are read back from arguments that name each of them once, in whatever order and with
whatever spellings.  Arguments that name something twice are refused with a complaint about it. -/
theorem parse_written :
    (∀ o : Options, (∀ x ∈ settingsOf o, x.Writable) →
      ∀ items : List Item, (∀ i ∈ items, i.Spelled) →
        (items.map Item.setting).Perm (settingsOf o) → parse (argumentsOf items) = .ok o) ∧
    ∀ items : List Item, (∀ i ∈ items, i.Written) → ¬(items.map Item.key).Nodup →
      ∃ e, parse (argumentsOf items) = .error (.failure e) ∧
        Complains (items.map Item.key) e := by
  have start : ({} : Progress).Gives (optionsOf []) := ⟨{}, rfl, rfl⟩
  constructor
  · intro o writable items spelled same
    obtain ⟨once, rfl⟩ := optionsOf_of_perm same
    have written : ∀ i ∈ items, i.Written := fun i inside =>
      ⟨spelled i inside, writable _ (same.mem_iff.mp (List.mem_map_of_mem inside))⟩
    obtain ⟨s, ended, options⟩ := Progress.exists_of_nodup start written once
    rw [parse_argumentsOf written, ended, Except.map, options]
    rfl
  · intro items written twice
    obtain ⟨e, ended, complains⟩ :=
      Progress.refused_of_duplicate start List.nodup_nil written twice
    refine ⟨e, ?_, complains⟩
    rw [parse_argumentsOf written, ended]
    rfl

namespace Sample

/-- Some options in an order and with spellings of their own. -/
def items : List Item :=
  [.flag .schemaNamespace "/SCHEMAnamespace" "", .verbose "-v", .input "/tmp/pets.xml",
    .flag .outputInit "--output-init" "out/init.sql", .flag .baseSchema "/BaseSchema" "base.xml"]

def options : Options :=
  { input := some "/tmp/pets.xml", baseSchema := some "base.xml"
    outputInit := some "out/init.sql", schemaNamespace := some "", verbose := true }

/-- The same, and the first of it again at the end. -/
def repeated : List Item :=
  items ++ [.flag .schemaNamespace "--schema-namespace" "Pets"]

theorem isValue {text : String} (noDash : text.toList.head? ≠ some '-')
    (noSlash : ∀ f ∈ Flag.all, lowered text ≠ lowered f.descriptor.slashName) : IsValue text := by
  refine ⟨noDash, fun f => noSlash f ?_⟩
  cases f <;> decide

theorem written : ∀ i ∈ repeated, i.Written := by
  simp only [repeated, items, List.cons_append, List.nil_append, List.forall_mem_cons]
  refine ⟨⟨.inr (by decide), isValue (by decide) (by decide), nofun⟩, ⟨.inr rfl, trivial⟩,
    ⟨trivial, isValue (by decide) (by decide), fun _ => by decide⟩,
    ⟨.inl (by decide), isValue (by decide) (by decide), fun _ => by decide⟩,
    ⟨.inr (by decide), isValue (by decide) (by decide), fun _ => by decide⟩,
    ⟨.inl (by decide), isValue (by decide) (by decide), nofun⟩, nofun⟩

theorem perm : (items.map Item.setting).Perm (settingsOf options) := by
  decide

end Sample

theorem parse_written_sample :
    parse ["/SCHEMAnamespace", "", "-v", "/tmp/pets.xml", "--output-init", "out/init.sql",
      "/BaseSchema", "base.xml"] = .ok Sample.options ∧
    ∃ e, parse (argumentsOf Sample.repeated) = .error (.failure e) ∧
      Complains (Sample.repeated.map Item.key) e := by
  have written (i : Item) (inside : i ∈ Sample.items) : i.Written :=
    Sample.written i (List.mem_append_left _ inside)
  refine ⟨parse_written.1 Sample.options ?_ Sample.items
    (fun i inside => (written i inside).spelled) Sample.perm,
    parse_written.2 Sample.repeated Sample.written (by decide)⟩
  intro x inside
  have same := Sample.perm
  obtain ⟨i, member, rfl⟩ := List.mem_map.mp (same.mem_iff.mpr inside)
  exact (written i member).writable

end LearningStore.CommandLine
