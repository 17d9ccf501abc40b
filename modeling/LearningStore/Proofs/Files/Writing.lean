import LearningStore.Files.Tree

/-!
# Writing files

Directories stay where they are, so a path that leads somewhere goes on to lead there.  What a
sequence of writes leaves behind is then told by the last one that leads to each place.
-/

namespace LearningStore.Files

namespace FileTree

variable {t t' : FileTree} {here place : Place} {path : String}

/-! ## Entries -/

/-- The bytes of the file at a place, if a file stands there. -/
def file? (t : FileTree) (place : Place) : Option (List UInt8) :=
  match t.entry? place with
  | some (.file bytes) => some bytes
  | _ => none

theorem lookup_filter_ne {entries : List (Place × Entry)} {other : Place}
    (apart : other ≠ place) :
    (entries.filter fun e => e.1 != place).lookup other = entries.lookup other := by
  induction entries with
  | nil => rfl
  | cons e rest ih =>
      obtain ⟨at', entry⟩ := e
      by_cases same : at' = place
      · subst same
        rw [List.filter_cons_of_neg (by simp), ih, List.lookup_cons, beq_eq_false_iff_ne.mpr apart]
      · rw [List.filter_cons_of_pos (by simpa using same), List.lookup_cons, List.lookup_cons, ih]

/-- Outside the root, an entry that is put stands where it was put and nothing else changes. -/
theorem entry?_put (t : FileTree) (entry : Entry) (outer : place ≠ []) (other : Place) :
    FileTree.entry? (t.put place entry) other =
      if other = place then some entry else t.entry? other := by
  cases other with
  | nil => rw [if_neg (Ne.symm outer)]; rfl
  | cons name rest =>
      by_cases same : name :: rest = place
      · subst same
        simp [put, entry?]
      · rw [if_neg same]
        simp only [put, entry?, List.lookup_cons, beq_eq_false_iff_ne.mpr same]
        exact lookup_filter_ne same

theorem ne_nil_of_ne_directory (other : t.entry? place ≠ some .directory) : place ≠ [] := by
  rintro rfl
  exact other rfl

/-! ## Trees that keep their directories -/

/-- Relative paths lead from the same place and all directories are still there. -/
structure Keeps (t t' : FileTree) : Prop where
  working : t'.working = t.working
  directories : ∀ place, t.entry? place = some .directory → t'.entry? place = some .directory

theorem Keeps.refl (t : FileTree) : t.Keeps t :=
  ⟨rfl, fun _ standing => standing⟩

theorem Keeps.trans {a b c : FileTree} (first : a.Keeps b) (second : b.Keeps c) : a.Keeps c :=
  ⟨second.working.trans first.working, fun place standing =>
    second.directories place (first.directories place standing)⟩

theorem keeps_put (t : FileTree) (entry : Entry) (other : t.entry? place ≠ some .directory) :
    t.Keeps (t.put place entry) := by
  refine ⟨rfl, fun standing found => ?_⟩
  have apart : standing ≠ place := fun same => other (same ▸ found)
  rw [entry?_put t entry (ne_nil_of_ne_directory other), if_neg apart, found]

theorem step_eq_ok {name : String} (led : t.step here name = .ok place) :
    t.entry? here = some .directory ∧ name.utf8ByteSize ≤ maxNameBytes ∧
      place = next here name := by
  unfold step at led
  split at led
  next => cases led
  next => cases led
  next found =>
    split at led
    next => cases led
    next short => exact ⟨found, Nat.le_of_not_lt short, (Except.ok.inj led).symm⟩

theorem Keeps.step (h : t.Keeps t') {name : String} (led : t.step here name = .ok place) :
    t'.step here name = .ok place := by
  obtain ⟨found, short, rfl⟩ := step_eq_ok led
  simp [FileTree.step, h.directories here found, Nat.not_lt.mpr short]

theorem Keeps.walk (h : t.Keeps t') {names : List String}
    (led : t.walk here names = .ok place) : t'.walk here names = .ok place := by
  induction names generalizing here with
  | nil => exact led
  | cons name rest ih =>
      simp only [FileTree.walk] at led ⊢
      cases first : t.step here name with
      | error e => simp [first] at led
      | ok next =>
          rw [first] at led
          rw [h.step first]
          exact ih led

theorem Keeps.locate (h : t.Keeps t') (led : t.locate path = .ok place) :
    t'.locate path = .ok place := by
  unfold FileTree.locate at led ⊢
  cases spelled : readPath path with
  | error e => simp [spelled, bind, Except.bind] at led
  | ok p =>
      rw [spelled] at led
      have same : t'.origin p = t.origin p := by rw [origin, origin, h.working]
      simp only [bind, Except.bind, same] at led ⊢
      exact h.walk led

/-! ## Sequences of writes -/

/-- A text that was written to the end of a path. -/
structure Write where
  path : String
  text : String
deriving DecidableEq, Repr

namespace Write

def bytes (x : Write) : List UInt8 :=
  x.text.toUTF8.data.toList

end Write

/-- What the last write that leads to a place leaves there. -/
def lastAt? (t : FileTree) (writes : List Write) (place : Place) : Option (List UInt8) :=
  ((writes.filter fun x => (t.locate x.path).toOption == some place).getLast?).map Write.bytes

/-- A tree changed by some writes: each of them led to a file, which has the bytes of the last
one, and every other file is as it was.  Directories may be new. -/
structure Written (before : FileTree) (writes : List Write) (after : FileTree) : Prop where
  keeps : before.Keeps after
  located : ∀ x ∈ writes, ∃ place, after.locate x.path = .ok place
  named : ∀ x ∈ writes, (Path.ofText x.path).endsInSlash = false
  files : ∀ place, after.file? place = (after.lastAt? writes place).or (before.file? place)

theorem written_of_same {before after : FileTree} (keeps : before.Keeps after)
    (same : ∀ place, after.file? place = before.file? place) : before.Written [] after where
  keeps := keeps
  located := fun _ inside => nomatch inside
  named := fun _ inside => nomatch inside
  files := same

theorem Written.refl (t : FileTree) : t.Written [] t :=
  written_of_same (.refl t) fun _ => rfl

theorem lastAt?_append (t : FileTree) (xs ys : List Write) (place : Place) :
    t.lastAt? (xs ++ ys) place = (t.lastAt? ys place).or (t.lastAt? xs place) := by
  rw [lastAt?, lastAt?, lastAt?, List.filter_append, List.getLast?_append, Option.map_or]

/-- Paths that led somewhere before lead to the same places. -/
theorem Keeps.lastAt? (h : t.Keeps t') {writes : List Write}
    (located : ∀ x ∈ writes, ∃ place, t.locate x.path = .ok place) (place : Place) :
    t'.lastAt? writes place = t.lastAt? writes place := by
  unfold FileTree.lastAt?
  congr 2
  refine List.filter_congr fun x inside => ?_
  obtain ⟨led, found⟩ := located x inside
  rw [found, h.locate found]

theorem Written.trans {a b c : FileTree} {xs ys : List Write} (first : a.Written xs b)
    (second : b.Written ys c) : a.Written (xs ++ ys) c where
  keeps := first.keeps.trans second.keeps
  located := by
    refine fun x inside => (List.mem_append.mp inside).elim (fun early => ?_) (second.located x)
    obtain ⟨place, found⟩ := first.located x early
    exact ⟨place, second.keeps.locate found⟩
  named := fun x inside => (List.mem_append.mp inside).elim (first.named x) (second.named x)
  files := fun place => by
    rw [second.files, first.files, lastAt?_append, second.keeps.lastAt? first.located,
      Option.or_assoc]

/-- A file has the text of the last write that leads to it. -/
theorem Written.read {before after : FileTree} {earlier later : List Write} {x : Write}
    (h : before.Written (earlier ++ x :: later) after)
    (last : ∀ y ∈ later, after.locate y.path ≠ after.locate x.path) :
    after.read x.path = .ok x.bytes := by
  have inside : x ∈ earlier ++ x :: later := List.mem_append_right _ List.mem_cons_self
  obtain ⟨place, found⟩ := h.located x inside
  have none_later : (later.filter fun y => (after.locate y.path).toOption == some place) = [] := by
    refine List.filter_eq_nil_iff.mpr fun y listed leads => last y listed ?_
    cases led : after.locate y.path with
    | error e => simp [led, Except.toOption] at leads
    | ok other =>
        rw [led] at leads
        rw [found, Option.some.inj (beq_iff_eq.mp leads)]
  have final : after.lastAt? (earlier ++ x :: later) place = some x.bytes := by
    have self : ((after.locate x.path).toOption == some place) = true := by
      rw [found]
      exact beq_self_eq_true _
    rw [lastAt?_append]
    simp [FileTree.lastAt?, self, none_later]
  have standing := h.files place
  rw [final, Option.some_or, file?] at standing
  have entry : after.entry? place = some (.file x.bytes) := by
    split at standing
    next bytes stands => rw [stands, Option.some.inj standing]
    next => cases standing
  simp [FileTree.read, found, entry, h.named x inside, bind, Except.bind, pure, Except.pure]

/-! ## Single operations -/

/-- The text of the file at the end of a path. -/
def readText (t : FileTree) (path : String) : Except FileError String :=
  match t.read path with
  | .error e => .error e
  | .ok bytes => (Text.textOfBytes bytes).mapError .undecodable

theorem makeDirectory_eq_ok (made : t.makeDirectory path = .ok t') : t.Written [] t' := by
  unfold makeDirectory at made
  cases found : t.locate path with
  | error e => simp [found, bind, Except.bind] at made
  | ok place =>
      simp only [found, bind, Except.bind] at made
      split at made
      next missing =>
        obtain rfl := Except.ok.inj made
        have other : t.entry? place ≠ some .directory := by simp [missing]
        refine written_of_same (keeps_put t .directory other) fun standing => ?_
        rw [file?, file?, entry?_put t .directory (ne_nil_of_ne_directory other)]
        by_cases same : standing = place
        · rw [if_pos same, same, missing]
        · rw [if_neg same]
      next => cases made

/-- A place cannot be written to behind a slash: the name in front of the slash stands for the
directory around it. -/
theorem entry?_of_walk_concat {names : List String}
    (led : t.walk here (names ++ ["."]) = .ok place) : t.entry? place = some .directory := by
  induction names generalizing here with
  | nil =>
      simp only [List.nil_append, walk] at led
      cases first : t.step here "." with
      | error e => simp [first] at led
      | ok next =>
          rw [first] at led
          obtain ⟨found, -, rfl⟩ := step_eq_ok first
          rw [← Except.ok.inj led]
          exact found
  | cons name rest ih =>
      simp only [List.cons_append, walk] at led
      cases first : t.step here name with
      | error e => simp [first] at led
      | ok next =>
          rw [first] at led
          exact ih led

theorem write_eq_ok {bytes : List UInt8} (written : t.write path bytes = .ok t') :
    ∃ place, t.locate path = .ok place ∧ t.entry? place ≠ some .directory ∧
      (Path.ofText path).endsInSlash = false ∧ t' = t.put place (.file bytes) := by
  unfold write at written
  cases spelled : readPath path with
  | error e => simp [spelled, bind, Except.bind] at written
  | ok p =>
      have whole : p = Path.ofText path := by
        unfold readPath at spelled
        split at spelled
        next => cases spelled
        next =>
          split at spelled
          next => cases spelled
          next =>
            split at spelled
            next => cases spelled
            next => exact (Except.ok.inj spelled).symm
      subst whole
      simp only [spelled, bind, Except.bind] at written
      cases slash : (Path.ofText path).endsInSlash with
      | true =>
          simp only [slash, if_true] at written
          split at written
          next => cases written
          next place led => simp [entry?_of_walk_concat led, throw, throwThe] at written
      | false =>
          simp only [slash] at written
          split at written
          next => cases written
          next place led =>
            refine ⟨place, ?_, ?_⟩
            · simpa [locate, spelled, bind, Except.bind] using led
            · split at written
              next => cases written
              next other => exact ⟨other, rfl, (Except.ok.inj written).symm⟩

theorem written_of_write {x : Write} (written : t.write x.path x.bytes = .ok t') :
    t.Written [x] t' := by
  obtain ⟨place, found, other, named, rfl⟩ := write_eq_ok written
  have keeps := keeps_put t (.file x.bytes) other
  have led := keeps.locate found
  refine ⟨keeps, ?_, ?_, fun standing => ?_⟩
  · exact fun y inside => ⟨place, List.mem_singleton.mp inside ▸ led⟩
  · exact fun y inside => List.mem_singleton.mp inside ▸ named
  · rw [file?, file?, lastAt?, entry?_put t _ (ne_nil_of_ne_directory other)]
    by_cases same : standing = place
    · subst same
      simp [led, Except.toOption]
    · simp [led, Except.toOption, same, Ne.symm same]

end FileTree

/-! ## Operations on a workspace -/

namespace Workspace

variable {α β : Type}

/-- An operation on files that gives nothing, but may fail. -/
abbrev Operation :=
  StateM Workspace (Except FileError Unit)

theorem run_bind (x : StateM Workspace α) (f : α → StateM Workspace β) (w : Workspace) :
    (x >>= f).run w = (f (x.run w).1).run (x.run w).2 := rfl

/-- Reading a text looks at the tree only. -/
theorem run_readText (path : String) (w : Workspace) :
    (readText path : StateM Workspace (Except FileError String)).run w =
      (w.files.readText path, w) := by
  unfold readText
  rw [run_bind]
  have read : (FileAccess.read path : StateM Workspace (Except FileError (List UInt8))).run w =
      (w.files.read path, w) := rfl
  rw [read, FileTree.readText]
  cases w.files.read path with
  | error e => rfl
  | ok bytes =>
      dsimp only
      cases Text.textOfBytes bytes <;> rfl

/-- A change that fails leaves the workspace alone. -/
theorem written_change {f : FileTree → Except FileError FileTree} {writes : List FileTree.Write}
    (w : Workspace) (made : ∀ files, f w.files = .ok files → w.files.Written writes files) :
    w.files.Written (if ((change f).run w).1.isOk then writes else [])
      ((change f).run w).2.files := by
  unfold change
  cases changed : f w.files with
  | ok files => simpa [StateT.run, changed, Except.isOk, Except.toBool] using made files changed
  | error e =>
      simpa [StateT.run, changed, Except.isOk, Except.toBool] using FileTree.Written.refl w.files

theorem written_makeDirectory (path : String) (w : Workspace) :
    w.files.Written [] ((FileAccess.makeDirectory path : Operation).run w).2.files := by
  have made : w.files.Written (if ((FileAccess.makeDirectory path : Operation).run w).1.isOk
      then [] else []) ((FileAccess.makeDirectory path : Operation).run w).2.files :=
    written_change w fun _ => FileTree.makeDirectory_eq_ok
  rwa [ite_self] at made

theorem written_settleDirectory (path : String) (w : Workspace) :
    w.files.Written [] ((settleDirectory path : Operation).run w).2.files := by
  have made := written_makeDirectory path w
  unfold settleDirectory
  rw [run_bind]
  split
  next =>
    rw [run_bind]
    split <;> exact made
  next => exact made

theorem written_makeDirectories (paths : List String) (w : Workspace) :
    w.files.Written [] ((makeDirectories paths : Operation).run w).2.files := by
  induction paths generalizing w with
  | nil => exact .refl w.files
  | cons nearest outer ih =>
      have first := written_settleDirectory nearest w
      unfold makeDirectories
      rw [run_bind]
      split
      next =>
        have around := first.trans (ih _)
        rw [run_bind]
        split
        next => exact around.trans (written_settleDirectory nearest _)
        next => exact around
      next => exact first

/-- Writing a text writes one file or none, and makes directories on the way. -/
theorem written_writeText (x : FileTree.Write) (w : Workspace) :
    w.files.Written (if ((writeText x.path x.text : Operation).run w).1.isOk then [x] else [])
      ((writeText x.path x.text : Operation).run w).2.files := by
  unfold writeText
  rw [run_bind]
  have around := written_makeDirectories ((Path.ofText x.path).parents.map Path.text) w
  split
  next => exact around.trans (written_change _ fun files => FileTree.written_of_write)
  next => exact around

end Workspace

end LearningStore.Files
