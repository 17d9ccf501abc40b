import LearningStore.Compile.Basic
import LearningStore.Proofs.Compile.Generation
import LearningStore.Proofs.Compile.Loading

/-!
# How compilations end

A compilation that ends well has written every output that was asked for, in order.  One that
fails has written the outputs before the step that failed, each with the complete text of its
artifact, and has changed no other file.
-/

namespace LearningStore.Compile

open LearningStore.Files
open LearningStore.Schema

/-- The paths of the outputs that are asked for, in the order of their writing. -/
def Options.requested (o : Options) : List String :=
  [o.outputBaseInit, o.outputComponentsHelper, o.outputStorageHelper, o.outputInit,
    o.outputUpgrade, o.outputHelper].filterMap id

/-- A write of an output with the text that its artifact has for a schema. -/
structure Renders (s : Schema) (output : Output) (x : FileTree.Write) : Prop where
  path : x.path = output.path
  text : output.artifact.text s = .ok x.text

/-! ## Reports -/

theorem files_note (verbose : Bool) (text : String) (w : Workspace) :
    ∃ v, outcome (note verbose text) w = (.ok (), v) ∧ v.files = w.files := by
  cases verbose with
  | false => exact ⟨w, rfl, rfl⟩
  | true => exact ⟨_, rfl, rfl⟩

/-- A line of a report changes no file and does not fail. -/
theorem outcome_note_bind {α : Type} (verbose : Bool) (text : String)
    (next : ExceptT CompileError (StateM Workspace) α) (w : Workspace) :
    ∃ v, v.files = w.files ∧ outcome (note verbose text >>= fun _ => next) w = outcome next v := by
  obtain ⟨v, noted, same⟩ := files_note verbose text w
  exact ⟨v, same, by rw [outcome_bind, noted]⟩

/-- Loading with a report gives what loading gives and changes no file. -/
theorem outcome_loadNoting (o : Options) (title : String) (derived : Option String)
    (w : Workspace) :
    ∃ v, v.files = w.files ∧ outcome (loadNoting o title derived) w =
      (loadFrom w.files (.ofPath o.baseSchema) derived, v) := by
  unfold loadNoting
  obtain ⟨v, same, noted⟩ := outcome_note_bind o.verbose title (do
    let s ← load (.ofPath o.baseSchema) derived
    note o.verbose (counts s)
    pure s) w
  rw [noted, outcome_bind, outcome_load, same]
  cases loadFrom w.files (.ofPath o.baseSchema) derived with
  | error e => exact ⟨v, same, rfl⟩
  | ok s =>
      obtain ⟨v', kept, counted⟩ := outcome_note_bind o.verbose (counts s) (pure s) v
      exact ⟨v', kept.trans same, counted⟩

/-! ## Outputs -/

/-- How the writing of outputs ends: all of them are written, or one cannot be written and those
before it are. -/
inductive Wrote (s : Schema) (outputs : List Output) (before : FileTree) :
    Except CompileError (List String) → FileTree → Prop
  | all {writes : List FileTree.Write} {after : FileTree}
      (rendered : List.Forall₂ (Renders s) outputs writes)
      (written : before.Written writes after) :
      Wrote s outputs before (.ok (outputs.map Output.path)) after
  | failed {done rest : List Output} {failing : Output} {fault : FileError}
      {writes : List FileTree.Write} {after : FileTree}
      (split : outputs = done ++ failing :: rest)
      (rendered : List.Forall₂ (Renders s) done writes)
      (written : before.Written writes after) :
      Wrote s outputs before (.error (.unwritable failing.path fault)) after

/-- An output is written in full, or it cannot be written and no file changes. -/
theorem outcome_writeOutput {s : Schema} (valid : s.Valid) (verbose : Bool) (output : Output)
    (w : Workspace) : ∃ v,
      (outcome (writeOutput verbose s output) w = (.ok output.path, v) ∧
          ∃ x, Renders s output x ∧ w.files.Written [x] v.files) ∨
        ∃ fault, outcome (writeOutput verbose s output) w =
            (.error (.unwritable output.path fault), v) ∧ w.files.Written [] v.files := by
  obtain ⟨text, rendered⟩ := output.artifact.succeeds_text valid
  unfold writeOutput
  obtain ⟨v, same, noted⟩ := outcome_note_bind verbose
    ("Writing " ++ output.artifact.title ++ ": " ++ output.path) (do
      let text ← (output.artifact.text s).mapError CompileError.lookup
      attempt (.unwritable output.path) (writeText output.path text)
      pure output.path) w
  have written := Workspace.written_writeText ⟨output.path, text⟩ v
  rw [same] at written
  rw [noted, outcome_bind, outcome_lift, rendered]
  dsimp only [Except.mapError]
  rw [outcome_bind, outcome_attempt]
  cases ended : (writeText output.path text : Workspace.Operation).run v with
  | mk result v' =>
      rw [ended] at written
      refine ⟨v', ?_⟩
      cases result with
      | ok _ => exact .inl ⟨rfl, ⟨output.path, text⟩, ⟨rfl, rendered⟩, written⟩
      | error fault => exact .inr ⟨fault, rfl, written⟩

theorem wrote_outputs {s : Schema} (valid : s.Valid) (verbose : Bool) (outputs : List Output)
    (w : Workspace) :
    Wrote s outputs w.files (outcome (outputs.mapM (writeOutput verbose s)) w).1
      (outcome (outputs.mapM (writeOutput verbose s)) w).2.files := by
  induction outputs generalizing w with
  | nil => exact .all .nil (.refl w.files)
  | cons output rest ih =>
      rw [List.mapM_cons, outcome_bind]
      obtain ⟨v, ⟨ended, x, renders, written⟩ | ⟨fault, ended, written⟩⟩ :=
        outcome_writeOutput valid verbose output w
      · rw [ended]
        dsimp only
        rw [outcome_bind]
        have others := ih v
        cases ended : outcome (rest.mapM (writeOutput verbose s)) v with
        | mk result v' =>
            rw [ended] at others
            cases others with
            | all rendered later => exact .all (.cons renders rendered) (written.trans later)
            | failed split rendered later =>
                exact .failed (congrArg (output :: ·) split) (.cons renders rendered)
                  (written.trans later)
      · rw [ended]
        exact .failed (List.nil_append _).symm .nil written

/-! ## Phases -/

/-- How one phase of a compilation ends, which loads a schema and writes outputs of it if the
options want that. -/
inductive Phase (o : Options) (wanted : Bool) (derived : Option String) (outputs : List Output)
    (before : FileTree) : Except CompileError (List String) → FileTree → Prop
  | skipped (unwanted : wanted = false) : Phase o wanted derived outputs before (.ok []) before
  | refused {e : CompileError} (asked : wanted = true)
      (refusal : loadFrom before (.ofPath o.baseSchema) derived = .error e) :
      Phase o wanted derived outputs before (.error e) before
  | wrote {s : Schema} {result : Except CompileError (List String)} {after : FileTree}
      (asked : wanted = true)
      (loaded : loadFrom before (.ofPath o.baseSchema) derived = .ok s)
      (wrote : Wrote s outputs before result after) :
      Phase o wanted derived outputs before result after

theorem phase_loaded {o : Options} {wanted : Bool} (asked : wanted = true) (title : String)
    (derived : Option String) (outputs : List Output) (w : Workspace) :
    Phase o wanted derived outputs w.files
      (outcome (do
        let s ← loadNoting o title derived
        outputs.mapM (writeOutput o.verbose s)) w).1
      (outcome (do
        let s ← loadNoting o title derived
        outputs.mapM (writeOutput o.verbose s)) w).2.files := by
  obtain ⟨v, same, ended⟩ := outcome_loadNoting o title derived w
  rw [outcome_bind, ended]
  cases loaded : loadFrom w.files (.ofPath o.baseSchema) derived with
  | error e =>
      dsimp only
      rw [same]
      exact .refused asked loaded
  | ok s =>
      have outputs := wrote_outputs (valid_of_finished (finished_of_loadFrom loaded)) o.verbose
        outputs v
      rw [same] at outputs
      exact .wrote asked loaded outputs

theorem phase_compileBase (o : Options) (w : Workspace) :
    Phase o (!o.baseOutputs.isEmpty) none o.baseOutputs w.files
      (outcome (compileBase o) w).1 (outcome (compileBase o) w).2.files := by
  unfold compileBase
  split
  next empty => exact .skipped (by rw [empty]; rfl)
  next wanted => exact phase_loaded (by simpa using wanted) _ none o.baseOutputs w

theorem phase_compileDerived (o : Options) (w : Workspace) :
    Phase o o.input.isSome o.input o.derivedOutputs w.files
      (outcome (compileDerived o) w).1 (outcome (compileDerived o) w).2.files := by
  unfold compileDerived
  split
  next missing => exact .skipped (by rw [missing]; rfl)
  next input found =>
    rw [found]
    exact phase_loaded rfl _ (some input) o.derivedOutputs w

/-- How a compilation ends, by the ends of its phases. -/
inductive Ends (o : Options) (before : FileTree) :
    Except CompileError (List String) → FileTree → Prop
  | options {fault : OptionsError} (refusal : o.validate = .error fault) :
      Ends o before (.error (.options fault)) before
  | base {e : CompileError} {after : FileTree} (accepted : o.validate = .ok ())
      (failed : Phase o (!o.baseOutputs.isEmpty) none o.baseOutputs before (.error e) after) :
      Ends o before (.error e) after
  | derived {first : List String} {between after : FileTree} {e : CompileError}
      (accepted : o.validate = .ok ())
      (done : Phase o (!o.baseOutputs.isEmpty) none o.baseOutputs before (.ok first) between)
      (failed : Phase o o.input.isSome o.input o.derivedOutputs between (.error e) after) :
      Ends o before (.error e) after
  | all {first second : List String} {between after : FileTree}
      (accepted : o.validate = .ok ())
      (done : Phase o (!o.baseOutputs.isEmpty) none o.baseOutputs before (.ok first) between)
      (written : Phase o o.input.isSome o.input o.derivedOutputs between (.ok second) after) :
      Ends o before (.ok (first ++ second)) after

/-- A compilation ends well with options that are accepted only. -/
theorem Ends.accepted {o : Options} {before after : FileTree} {paths : List String}
    (ends : Ends o before (.ok paths) after) : o.validate = .ok () := by
  cases ends with
  | all accepted _ _ => exact accepted

theorem ends_compile (o : Options) (w : Workspace) :
    Ends o w.files (outcome (compile o) w).1 (outcome (compile o) w).2.files := by
  unfold compile
  rw [outcome_bind, outcome_lift]
  cases checked : o.validate with
  | error fault => exact .options checked
  | ok _ =>
      dsimp only [Except.mapError]
      rw [outcome_bind]
      have first := phase_compileBase o w
      rcases ended : outcome (compileBase o) w with ⟨_ | base, between⟩
      · rw [ended] at first
        exact .base checked first
      · rw [ended] at first
        dsimp only
        rw [outcome_bind]
        have second := phase_compileDerived o between
        rcases ended : outcome (compileDerived o) between with ⟨_ | derived, v⟩
        · rw [ended] at second
          exact .derived checked first second
        · rw [ended] at second
          obtain ⟨v', same, noted⟩ := outcome_note_bind o.verbose
            ("Wrote " ++ toString (base ++ derived).length ++ " file(s)")
            (pure (base ++ derived)) v
          have last : outcome (do
              note o.verbose ("Wrote " ++ toString (base ++ derived).length ++ " file(s)")
              pure (base ++ derived)) v = (.ok (base ++ derived), v') := noted
          dsimp only
          rw [last]
          dsimp only
          rw [same]
          exact .all checked first second

/-! ## Options that are accepted -/

section Accepted

variable {o : Options}

theorem path_toPath (artifact : Artifact) (path : Option String) :
    (artifact.toPath path).map Output.path = path.toList := by
  cases path <;> rfl

/-- Options that are accepted ask for something. -/
theorem asks_of_accepted (accepted : o.validate = .ok ()) :
    (o.wantsDerived = true → o.input ≠ none) ∧
      (o.outputHelper ≠ none → o.enumNamespace ≠ none ∧ o.schemaNamespace ≠ none) ∧
      (o.baseOutputs ≠ [] ∨ o.input ≠ none) := by
  unfold Options.validate at accepted
  split at accepted
  next => cases accepted
  next input =>
    split at accepted
    next => cases accepted
    next namespaces =>
      split at accepted
      next => cases accepted
      next something =>
        refine ⟨by simpa using input, by simpa [Option.ne_none_iff_isSome] using namespaces, ?_⟩
        by_cases missing : o.input = none
        · have unwanted : o.wantsDerived = false := by simpa [missing] using input
          exact .inl (by simpa [missing, unwanted] using something)
        · exact .inr missing

/-- No helper that is asked for is left out for want of a namespace. -/
theorem path_helperOutput (accepted : o.validate = .ok ()) :
    o.helperOutput.map Output.path = o.outputHelper.toList := by
  have named := (asks_of_accepted accepted).2.1
  unfold Options.helperOutput
  split
  next => exact path_toPath _ o.outputHelper
  next unnamed =>
    cases asked : o.outputHelper with
    | none => rfl
    | some path =>
        obtain ⟨enums, schema⟩ := named (by simp [asked])
        obtain ⟨enums, isEnums⟩ := Option.ne_none_iff_exists'.mp enums
        obtain ⟨schema, isSchema⟩ := Option.ne_none_iff_exists'.mp schema
        exact absurd isSchema (unnamed enums schema isEnums)

/-- Every output that is asked for is written, in the order of the options. -/
theorem path_outputs (accepted : o.validate = .ok ()) :
    (o.baseOutputs ++ o.derivedOutputs).map Output.path = o.requested := by
  simp only [Options.baseOutputs, Options.derivedOutputs, List.map_append, path_toPath,
    path_helperOutput accepted, Options.requested, List.append_assoc]
  cases o.outputBaseInit <;> cases o.outputComponentsHelper <;> cases o.outputStorageHelper <;>
    cases o.outputInit <;> cases o.outputUpgrade <;> cases o.outputHelper <;> rfl

/-- Without an input no output of a derived schema is asked for. -/
theorem derivedOutputs_eq_nil (accepted : o.validate = .ok ()) (missing : o.input = none) :
    o.derivedOutputs = [] := by
  have unwanted : o.wantsDerived = false := by simpa [missing] using (asks_of_accepted accepted).1
  simp only [Options.wantsDerived, Bool.or_eq_false_iff, Option.isSome_eq_false_iff,
    Option.isNone_iff_eq_none] at unwanted
  obtain ⟨⟨init, upgrade⟩, helper⟩ := unwanted
  have path := path_helperOutput accepted
  rw [helper, Option.toList_none, List.map_eq_nil_iff] at path
  rw [Options.derivedOutputs, init, upgrade, path]
  rfl

end Accepted

/-! ## Accounts -/

/-- A write that completes an output: it has the whole text of the artifact for a finished
schema. -/
def Completes (output : Output) (x : FileTree.Write) : Prop :=
  ∃ s : Schema, s.Finished ∧ Renders s output x

/-- What a compilation has to show for its end: which step failed, if one did, and what was
written by then.  Every other file is as it was. -/
inductive Accounted (o : Options) (before : FileTree) :
    Except CompileError (List String) → FileTree → Prop
  | options {fault : OptionsError} (refusal : o.validate = .error fault) :
      Accounted o before (.error (.options fault)) before
  | baseSchema {e : CompileError} (wanted : o.baseOutputs ≠ [])
      (refusal : loadFrom before (.ofPath o.baseSchema) none = .error e) :
      Accounted o before (.error e) before
  | baseOutput {done rest : List Output} {failing : Output} {fault : FileError}
      {writes : List FileTree.Write} {after : FileTree}
      (order : o.baseOutputs = done ++ failing :: rest)
      (complete : List.Forall₂ Completes done writes) (written : before.Written writes after) :
      Accounted o before (.error (.unwritable failing.path fault)) after
  | derivedSchema {input : String} {e : CompileError} {writes : List FileTree.Write}
      {after : FileTree} (asked : o.input = some input)
      (complete : List.Forall₂ Completes o.baseOutputs writes)
      (written : before.Written writes after)
      (refusal : loadFrom after (.ofPath o.baseSchema) (some input) = .error e) :
      Accounted o before (.error e) after
  | derivedOutput {done rest : List Output} {failing : Output} {fault : FileError}
      {writes : List FileTree.Write} {after : FileTree}
      (order : o.derivedOutputs = done ++ failing :: rest)
      (complete : List.Forall₂ Completes (o.baseOutputs ++ done) writes)
      (written : before.Written writes after) :
      Accounted o before (.error (.unwritable failing.path fault)) after
  | all {writes : List FileTree.Write} {after : FileTree}
      (complete : List.Forall₂ Completes (o.baseOutputs ++ o.derivedOutputs) writes)
      (written : before.Written writes after) :
      Accounted o before (.ok o.requested) after

section Accounts

variable {o : Options} {before after : FileTree} {result : Except CompileError (List String)}

theorem complete_of_renders {s : Schema} {derived : Option String} {outputs : List Output}
    {writes : List FileTree.Write}
    (loaded : loadFrom before (.ofPath o.baseSchema) derived = .ok s)
    (rendered : List.Forall₂ (Renders s) outputs writes) :
    List.Forall₂ Completes outputs writes :=
  rendered.imp fun _ _ renders => ⟨s, finished_of_loadFrom loaded, renders⟩

/-- A phase that ends well has written all of its outputs. -/
theorem writes_of_phase {wanted : Bool} {derived : Option String} {outputs : List Output}
    {paths : List String} (none_left : wanted = false → outputs = [])
    (done : Phase o wanted derived outputs before (.ok paths) after) :
    paths = outputs.map Output.path ∧ ∃ writes, List.Forall₂ Completes outputs writes ∧
      before.Written writes after := by
  cases done with
  | skipped unwanted =>
      rw [none_left unwanted]
      exact ⟨rfl, [], .nil, .refl before⟩
  | wrote _ loaded wrote =>
      cases wrote with
      | all rendered written =>
          exact ⟨rfl, _, complete_of_renders loaded rendered, written⟩

theorem accounted_of_ends (ends : Ends o before result after) :
    Accounted o before result after := by
  have base_left : (!o.baseOutputs.isEmpty) = false → o.baseOutputs = [] := by simp
  cases ends with
  | options refusal => exact .options refusal
  | base accepted failed =>
      cases failed with
      | refused asked refusal => exact .baseSchema (by simpa using asked) refusal
      | wrote _ loaded wrote =>
          cases wrote with
          | failed split rendered written =>
              exact .baseOutput split (complete_of_renders loaded rendered) written
  | derived accepted done failed =>
      obtain ⟨-, writes, complete, written⟩ := writes_of_phase base_left done
      cases failed with
      | refused asked refusal =>
          obtain ⟨input, found⟩ := Option.isSome_iff_exists.mp asked
          exact .derivedSchema found complete written (found ▸ refusal)
      | wrote _ loaded wrote =>
          cases wrote with
          | failed split rendered later =>
              have more := complete_of_renders loaded rendered
              exact .derivedOutput split (List.rel_append complete more) (written.trans later)
  | all accepted done written =>
      have derived_left : o.input.isSome = false → o.derivedOutputs = [] := fun missing =>
        derivedOutputs_eq_nil accepted (by simpa using missing)
      obtain ⟨rfl, writes, complete, earlier⟩ := writes_of_phase base_left done
      obtain ⟨rfl, more, completed, later⟩ := writes_of_phase derived_left written
      rw [← List.map_append, path_outputs accepted]
      exact .all (List.rel_append complete completed) (earlier.trans later)

theorem loadFrom_of_baseDrafts {t : FileTree} {base : SchemaSource} {e : CompileError}
    (refusal : baseDrafts t base = .error e) (derived : Option String) :
    loadFrom t base derived = .error e := by
  rw [loadFrom, refusal]
  rfl

/-- Nothing happens to the files where the base schema cannot be read or is refused. -/
theorem unchanged_of_baseDrafts {e : CompileError}
    (refusal : baseDrafts before (.ofPath o.baseSchema) = .error e)
    (ends : Ends o before result after) : (∃ e', result = .error e') ∧ after = before := by
  have unloaded {derived : Option String} {s : Schema}
      (loaded : loadFrom before (.ofPath o.baseSchema) derived = .ok s) : False := by
    rw [loadFrom_of_baseDrafts refusal] at loaded
    cases loaded
  cases ends with
  | options => exact ⟨⟨_, rfl⟩, rfl⟩
  | base _ failed =>
      cases failed with
      | refused => exact ⟨⟨_, rfl⟩, rfl⟩
      | wrote _ loaded => exact (unloaded loaded).elim
  | derived _ done failed =>
      cases done with
      | skipped =>
          cases failed with
          | refused => exact ⟨⟨_, rfl⟩, rfl⟩
          | wrote _ loaded => exact (unloaded loaded).elim
      | wrote _ loaded => exact (unloaded loaded).elim
  | all accepted done written =>
      cases done with
      | skipped unwanted =>
          cases written with
          | skipped missing =>
              have asks := (asks_of_accepted accepted).2.2
              simp at unwanted missing
              simp [unwanted, missing] at asks
          | wrote _ loaded => exact (unloaded loaded).elim
      | wrote _ loaded => exact (unloaded loaded).elim

end Accounts

/-- Options that are refused change nothing at all. -/
theorem outcome_compile_refused {o : Options} {fault : OptionsError}
    (refusal : o.validate = .error fault) (w : Workspace) :
    outcome (compile o) w = (.error (.options fault), w) := by
  unfold compile
  rw [outcome_bind, outcome_lift, refusal]
  rfl

/-- A compilation accounts for its end, whatever the options ask for and whatever files there
are.  If the options are refused nothing changes, and if the base schema cannot be read or is
refused no file does. -/
theorem accounted_compile (o : Options) (w : Workspace) :
    Accounted o w.files (outcome (compile o) w).1 (outcome (compile o) w).2.files ∧
      (∀ fault, o.validate = .error fault →
        outcome (compile o) w = (.error (.options fault), w)) ∧
      ∀ e, baseDrafts w.files (.ofPath o.baseSchema) = .error e →
        (∃ e', (outcome (compile o) w).1 = .error e') ∧
          (outcome (compile o) w).2.files = w.files := by
  have ends := ends_compile o w
  exact ⟨accounted_of_ends ends, fun _ refusal => outcome_compile_refused refusal w,
    fun _ refusal => unchanged_of_baseDrafts refusal ends⟩

end LearningStore.Compile
