import LearningStore.Proofs.Compile.Endings
import LearningStore.Proofs.Text.SourceLines

/-!
# What outputs hold

A compilation loads schema files between its writes, and an output may lead to the place of a
schema file.  An artifact begins with a comment of its language and is no document, so a
compilation that gets past such a load has read what stood there before.  In the end every output
holds its artifact, unless a later output leads to the same file.
-/

namespace LearningStore.Text

/-! ## Texts and their bytes -/

theorem decode?_toUTF8 (text : String) :
    Encoding.utf8.decode? text.toUTF8.data.toList = some text := by
  simp only [Encoding.decode?, String.fromUTF8?]
  exact dif_pos text.isValidUTF8

/-- A character of ASCII is one byte. -/
theorem toUTF8_cons {first : Char} (plain : first.toNat ≤ 127) (rest : List Char) :
    (String.ofList (first :: rest)).toUTF8.data.toList =
      UInt8.ofNat first.toNat :: (String.ofList rest).toUTF8.data.toList := by
  have one : String.utf8EncodeChar first = [UInt8.ofNat first.toNat] := if_pos plain
  rw [String.toUTF8_eq_toByteArray, String.toUTF8_eq_toByteArray, String.toByteArray_ofList,
    String.toByteArray_ofList, List.utf8Encode_cons]
  simp [List.utf8Encode, one]

/-- No byte order mark begins with a character of ASCII. -/
theorem marked?_eq_none {first : UInt8} {rest : List UInt8} (plain : first.toNat ≤ 127) :
    Encoding.marked? (first :: rest) = none := by
  unfold Encoding.marked?
  split
  next same => cases same; exact absurd plain (by decide)
  next same => cases same; exact absurd plain (by decide)
  next same => cases same; exact absurd plain (by decide)
  next => rfl

/-- A text that begins with a character of ASCII is read back as it was written. -/
theorem textOfBytes_toUTF8 {text : String} {first : Char} {rest : List Char}
    (begins : text.toList = first :: rest) (plain : first.toNat ≤ 127) :
    textOfBytes text.toUTF8.data.toList = .ok text := by
  have decoded := decode?_toUTF8 text
  have whole : text = String.ofList (first :: rest) := by rw [← begins, String.ofList_toList]
  have small : (UInt8.ofNat first.toNat).toNat ≤ 127 := by
    rw [UInt8.toNat_ofNat']
    exact Nat.le_trans (Nat.mod_le ..) plain
  rw [whole, toUTF8_cons plain] at decoded ⊢
  rw [textOfBytes, marked?_eq_none small, decoded]

end LearningStore.Text

namespace LearningStore.Compile

open LearningStore.Files
open LearningStore.Schema
open LearningStore.Text
open LearningStore.Xml

/-! ## Artifacts are no documents -/

/-- A text that begins as comments of SQL or of C# do. -/
def BeginsAsComment (text : String) : Prop :=
  ∃ first rest, text.toList = first :: rest ∧ (first = '-' ∨ first = '/')

theorem toList_renderLines_cons {l : Line} {first : Char} (begins : l.shown.head? = some first)
    (ls : List Line) : ∃ rest, (renderLines (l :: ls)).toList = first :: rest := by
  obtain ⟨own, shown⟩ := List.head?_eq_some_iff.mp begins
  refine ⟨own ++ ['\n'] ++ (renderLines ls).toList, ?_⟩
  rw [renderLines_cons, String.toList_append, Line.toList_render, shown]
  rfl

theorem toList_scriptText (script : List Script.Statement) :
    ∃ rest, (Script.scriptText (Script.header ++ script)).toList = '-' :: rest :=
  toList_renderLines_cons (by decide) _

theorem toList_fileText (blocks : List Helper.NamespaceBlock) :
    ∃ rest, (Helper.fileText blocks).toList = '/' :: rest :=
  toList_renderLines_cons (by decide) _

/-- Every script begins with the header. -/
theorem exists_header {s : Schema} {script : List Script.Statement}
    (made : Script.init s = .ok script ∨ Script.upgrade s = .ok script) :
    ∃ rest, script = Script.header ++ rest := by
  rcases made with made | made
  · obtain ⟨document, -, made⟩ := bind_eq_ok.mp made
    obtain ⟨constraints, -, made⟩ := bind_eq_ok.mp made
    rw [← Except.ok.inj made]
    simp only [List.append_assoc]
    exact ⟨_, rfl⟩
  · obtain ⟨document, -, made⟩ := bind_eq_ok.mp made
    rw [← Except.ok.inj made]
    simp only [List.append_assoc]
    exact ⟨_, rfl⟩

theorem Artifact.beginsAsComment {artifact : Artifact} {s : Schema} {text : String}
    (rendered : artifact.text s = .ok text) : BeginsAsComment text := by
  have script {statements : List Script.Statement}
      (made : Script.init s = .ok statements ∨ Script.upgrade s = .ok statements) :
      BeginsAsComment (Script.scriptText statements) := by
    obtain ⟨others, rfl⟩ := exists_header made
    obtain ⟨rest, begins⟩ := toList_scriptText others
    exact ⟨'-', rest, begins, .inl rfl⟩
  have file (blocks : List Helper.NamespaceBlock) : BeginsAsComment (Helper.fileText blocks) := by
    obtain ⟨rest, begins⟩ := toList_fileText blocks
    exact ⟨'/', rest, begins, .inr rfl⟩
  cases artifact with
  | baseInit | init =>
      obtain ⟨statements, made, rfl⟩ := map_eq_ok.mp rendered
      exact script (.inl made)
  | upgrade =>
      obtain ⟨statements, made, rfl⟩ := map_eq_ok.mp rendered
      exact script (.inr made)
  | componentsHelper =>
      rw [← Except.ok.inj rendered]
      exact file _
  | storageHelper | helper enumNamespace schemaNamespace =>
      obtain ⟨blocks, -, rfl⟩ := map_eq_ok.mp rendered
      exact file blocks

theorem BeginsAsComment.textOfBytes {text : String} (h : BeginsAsComment text) :
    textOfBytes text.toUTF8.data.toList = .ok text := by
  obtain ⟨first, rest, begins, comment⟩ := h
  refine textOfBytes_toUTF8 begins ?_
  rcases comment with rfl | rfl <;> decide

theorem rootOf_of_comment {first : Char} (comment : first = '-' ∨ first = '/')
    (rest : List Char) : ∃ e, Document.rootOf (first :: rest) = .error e := by
  have mark : Cursor.skipMark ⟨0, first :: rest⟩ = ⟨0, first :: rest⟩ := by
    rcases comment with rfl | rfl <;> rfl
  have undeclared : Cursor.skipDeclaration ⟨0, first :: rest⟩ = .ok ⟨0, first :: rest⟩ := by
    rcases comment with rfl | rfl <;> rfl
  have stuck : Step.next .prologue ⟨0, first :: rest⟩ = .failed ⟨.unknownToken, 0⟩ := by
    rcases comment with rfl | rfl <;> rfl
  refine ⟨⟨.unknownToken, 0⟩, ?_⟩
  simp [Document.rootOf, Token.scan, mark, undeclared, Token.scanFrom, stuck, Partial.run]

/-- What begins as a comment is no schema file. -/
theorem BeginsAsComment.read_ne_ok {text : String} (h : BeginsAsComment text) (fileName : String)
    (inBase : Bool) (file : SchemaFile) : SchemaFile.read text fileName inBase ≠ .ok file := by
  obtain ⟨first, rest, begins, comment⟩ := h
  obtain ⟨e, refused⟩ := rootOf_of_comment comment rest
  simp [SchemaFile.read, Document.parse, begins, refused]

/-! ## Schema files as they stood -/

/-- The text of the schema file to which a path leads in the end, as it stood at first.  The path
need not lead anywhere at first, if directories on the way are made. -/
def Stood (before after : FileTree) (path text : String) : Prop :=
  ∃ place bytes, after.locate path = .ok place ∧ before.entry? place = some (.file bytes) ∧
    Text.textOfBytes bytes = .ok text

/-- The text of a base schema as it stood at first.  The one that is built in does not change. -/
def SourceStood (before after : FileTree) : SchemaSource → String → Prop
  | .builtIn, text => text = baseText
  | .file path, text => Stood before after path text

/-- A file that is read stands at the place of its path, and its bytes give the text. -/
theorem stood_of_textAt {t : FileTree} {path text : String} (read : textAt t path = .ok text) :
    Stood t t path text := by
  have found := mapError_eq_ok.mp read
  unfold FileTree.readText at found
  cases bytes : t.read path with
  | error e => simp [bytes] at found
  | ok bytes' =>
      rw [bytes] at found
      have decoded := mapError_eq_ok.mp found
      unfold FileTree.read at bytes
      obtain ⟨place, led, standing⟩ := bind_eq_ok.mp bytes
      refine ⟨place, bytes', led, ?_, decoded⟩
      split at standing
      next => cases standing
      next => cases standing
      next own stands =>
        split at standing
        next => cases standing
        next => rw [stands, Except.ok.inj standing]

variable {before after : FileTree} {writes : List FileTree.Write}

/-- The last write to a place is one of the writes. -/
theorem exists_write_of_lastAt? {place : Files.Place} {bytes : List UInt8}
    (last : after.lastAt? writes place = some bytes) : ∃ x ∈ writes, x.bytes = bytes := by
  obtain ⟨x, final, rfl⟩ := Option.map_eq_some_iff.mp last
  exact ⟨x, (List.mem_filter.mp (List.mem_of_getLast? final)).1, rfl⟩

theorem entry?_of_file? {t : FileTree} {place : Files.Place} {bytes : List UInt8}
    (standing : t.file? place = some bytes) : t.entry? place = some (.file bytes) := by
  unfold FileTree.file? at standing
  split at standing
  next own stands => rw [stands, Option.some.inj standing]
  next => cases standing

/-- A schema file that is accepted after some artifacts were written is none of them: it stood
there before. -/
theorem stood_of_written (written : before.Written writes after)
    (artifacts : ∀ x ∈ writes, BeginsAsComment x.text) {path text : String}
    (read : textAt after path = .ok text) {fileName : String} {inBase : Bool}
    (accepted : ∃ file, SchemaFile.read text fileName inBase = .ok file) :
    Stood before after path text := by
  obtain ⟨place, bytes, led, standing, decoded⟩ := stood_of_textAt read
  refine ⟨place, bytes, led, ?_, decoded⟩
  have found := written.files place
  rw [FileTree.file?, standing] at found
  cases last : after.lastAt? writes place with
  | none =>
      rw [last, Option.none_or] at found
      exact entry?_of_file? found.symm
  | some own =>
      rw [last, Option.some_or] at found
      obtain ⟨x, inside, same⟩ := exists_write_of_lastAt? last
      have bytes_eq : bytes = x.bytes := by rw [same]; exact Option.some.inj found
      rw [bytes_eq, FileTree.Write.bytes, (artifacts x inside).textOfBytes] at decoded
      obtain ⟨file, accepted⟩ := accepted
      rw [← Except.ok.inj decoded] at accepted
      exact ((artifacts x inside).read_ne_ok fileName inBase file accepted).elim

/-- More writes do not change where a schema file stood at first. -/
theorem Stood.keeps {between : FileTree} {path text : String} (h : Stood before between path text)
    (keeps : between.Keeps after) : Stood before after path text := by
  obtain ⟨place, bytes, led, rest⟩ := h
  exact ⟨place, bytes, keeps.locate led, rest⟩

theorem SourceStood.keeps {between : FileTree} {base : SchemaSource} {text : String}
    (h : SourceStood before between base text) (keeps : between.Keeps after) :
    SourceStood before after base text := by
  cases base with
  | builtIn => exact h
  | file path => exact Stood.keeps h keeps

theorem sourceStood_of_written (written : before.Written writes after)
    (artifacts : ∀ x ∈ writes, BeginsAsComment x.text) {base : SchemaSource} {text : String}
    (read : sourceText after base = .ok text)
    (accepted : ∃ file, SchemaFile.read text base.name true = .ok file) :
    SourceStood before after base text := by
  cases base with
  | builtIn => exact (Except.ok.inj read).symm
  | file path => exact stood_of_written written artifacts read accepted

/-! ## Outputs that stand -/

/-- Whether an artifact is one of the base schema alone. -/
def Artifact.ofBase : Artifact → Bool
  | baseInit | componentsHelper | storageHelper => true
  | init | upgrade | helper _ _ => false

/-- The schema of an artifact: that of the base schema alone, or that of the base schema with the
derived one, from the schema files as they stood at first. -/
def SchemaFor (o : Options) (before after : FileTree) (artifact : Artifact) (s : Schema) : Prop :=
  ∃ base, SourceStood before after (.ofPath o.baseSchema) base ∧
    if artifact.ofBase then schemaOf (.ofPath o.baseSchema) base none = .ok s
    else ∃ input derived, o.input = some input ∧ Stood before after input derived ∧
      schemaOf (.ofPath o.baseSchema) base (some (input, derived)) = .ok s

/-- A write of an output with the text of its artifact for its own schema. -/
def Holds (o : Options) (before after : FileTree) (output : Output) (x : FileTree.Write) : Prop :=
  ∃ s, SchemaFor o before after output.artifact s ∧ Renders s output x

theorem beginsAsComment_of_renders {s : Schema} {outputs : List Output}
    (rendered : List.Forall₂ (Renders s) outputs writes) :
    ∀ x ∈ writes, BeginsAsComment x.text := by
  induction rendered with
  | nil => exact fun _ inside => nomatch inside
  | cons renders _ ih => exact List.forall_mem_cons.mpr ⟨Artifact.beginsAsComment renders.text, ih⟩

theorem mem_toPath {artifact : Artifact} {path : Option String} {output : Output}
    (inside : output ∈ artifact.toPath path) : output.artifact = artifact := by
  obtain ⟨_, -, rfl⟩ := List.mem_map.mp inside
  rfl

theorem ofBase_of_baseOutputs {o : Options} {output : Output} (inside : output ∈ o.baseOutputs) :
    output.artifact.ofBase = true := by
  simp only [Options.baseOutputs, List.mem_append] at inside
  rcases inside with (inside | inside) | inside <;> rw [mem_toPath inside] <;> rfl

theorem ofBase_of_derivedOutputs {o : Options} {output : Output}
    (inside : output ∈ o.derivedOutputs) : output.artifact.ofBase = false := by
  simp only [Options.derivedOutputs, List.mem_append] at inside
  rcases inside with (inside | inside) | inside
  · rw [mem_toPath inside]; rfl
  · rw [mem_toPath inside]; rfl
  · unfold Options.helperOutput at inside
    split at inside
    next => rw [mem_toPath inside]; rfl
    next => cases inside

section Phases

variable {o : Options} {between : FileTree} {outputs : List Output} {paths : List String}

/-- In the first phase the base schema is read as it stands at first. -/
theorem holds_base
    (done : Phase o (!o.baseOutputs.isEmpty) none o.baseOutputs before (.ok paths) between)
    (keeps : between.Keeps after) :
    ∃ writes, List.Forall₂ (Holds o before after) o.baseOutputs writes ∧
      before.Written writes between ∧ ∀ x ∈ writes, BeginsAsComment x.text := by
  cases done with
  | skipped unwanted =>
      have empty : o.baseOutputs = [] := by simpa using unwanted
      rw [empty]
      exact ⟨[], .nil, .refl before, nofun⟩
  | wrote _ loaded wrote =>
      cases wrote with
      | all rendered written =>
          obtain ⟨text, read, made⟩ := loadFrom_none_eq_ok loaded
          obtain ⟨drafts, applied, -⟩ := bind_eq_ok.mp made
          have stood := sourceStood_of_written (.refl before) nofun read (applyFile_eq_ok applied).1
          have tagged := (List.forall₂_and_left _ _).mpr ⟨fun _ => ofBase_of_baseOutputs, rendered⟩
          refine ⟨_, tagged.imp fun output x ⟨ofBase, renders⟩ => ?_, written,
            beginsAsComment_of_renders rendered⟩
          refine ⟨_, ⟨text, stood.keeps (written.keeps.trans keeps), ?_⟩, renders⟩
          rw [if_pos ofBase]
          exact made

/-- In the second phase both schema files are read as they stood at first, whatever the outputs
of the first phase lead to. -/
theorem holds_derived (accepted : o.validate = .ok ()) (earlier : before.Written writes between)
    (artifacts : ∀ x ∈ writes, BeginsAsComment x.text)
    (done : Phase o o.input.isSome o.input o.derivedOutputs between (.ok paths) after) :
    ∃ more, List.Forall₂ (Holds o before after) o.derivedOutputs more ∧
      between.Written more after := by
  cases done with
  | skipped missing =>
      rw [derivedOutputs_eq_nil accepted (by simpa using missing)]
      exact ⟨[], .nil, .refl _⟩
  | wrote asked loaded wrote =>
      cases wrote with
      | all rendered written =>
          obtain ⟨input, found⟩ := Option.isSome_iff_exists.mp asked
          rw [found] at loaded
          obtain ⟨text, derived, readBase, readInput, made⟩ := loadFrom_some_eq_ok loaded
          obtain ⟨isBase, isInput⟩ := exists_file_of_schemaOf made
          have base := sourceStood_of_written earlier artifacts readBase isBase
          have stood := stood_of_written earlier artifacts readInput isInput
          have tagged := (List.forall₂_and_left _ _).mpr
            ⟨fun _ => ofBase_of_derivedOutputs, rendered⟩
          refine ⟨_, tagged.imp fun output x ⟨ofDerived, renders⟩ => ?_, written⟩
          refine ⟨_, ⟨text, base.keeps written.keeps, ?_⟩, renders⟩
          rw [if_neg (ne_true_of_eq_false ofDerived)]
          exact ⟨input, derived, found, stood.keeps written.keeps, made⟩

end Phases

/-- A member in the middle of one list belongs to one in the middle of the other. -/
theorem exists_split_of_forall₂ {α β : Type} {R : α → β → Prop} {earlier later : List α} {a : α}
    {bs : List β} (related : List.Forall₂ R (earlier ++ a :: later) bs) :
    ∃ first b others, bs = first ++ b :: others ∧ R a b ∧ List.Forall₂ R later others := by
  induction earlier generalizing bs with
  | nil =>
      obtain ⟨b, others, here, rest, rfl⟩ := List.forall₂_cons_left_iff.mp related
      exact ⟨[], b, others, rfl, here, rest⟩
  | cons _ _ ih =>
      obtain ⟨c, others, -, rest, rfl⟩ := List.forall₂_cons_left_iff.mp related
      obtain ⟨first, b, later, rfl, here, tail⟩ := ih rest
      exact ⟨c :: first, b, later, rfl, here, tail⟩

/-- A compilation that ends well has written every output with its own artifact. -/
theorem holds_of_ends {o : Options} {paths : List String}
    (ends : Ends o before (.ok paths) after) :
    ∃ writes, List.Forall₂ (Holds o before after) (o.baseOutputs ++ o.derivedOutputs) writes ∧
      before.Written writes after := by
  cases ends with
  | all accepted first second =>
      obtain ⟨_, -, earlier, artifacts⟩ := holds_base first (.refl _)
      obtain ⟨more, holdsDerived, later⟩ := holds_derived accepted earlier artifacts second
      obtain ⟨writes, holdsBase, written, -⟩ := holds_base first later.keeps
      exact ⟨writes ++ more, List.rel_append holdsBase holdsDerived, written.trans later⟩

/-- What was asked for at a path is what stands there in the end, unless a later output leads to
the same file: the artifact of the base schema, or of the base schema with the derived one, as
their files stood before anything was written. -/
theorem outputs_of_compile {o : Options} {w : Workspace} {paths : List String}
    (done : (outcome (compile o) w).1 = .ok paths) :
    (o.baseOutputs ++ o.derivedOutputs).map Output.path = o.requested ∧
      ∀ earlier output later, o.baseOutputs ++ o.derivedOutputs = earlier ++ output :: later →
        (∀ x ∈ later, (outcome (compile o) w).2.files.locate x.path ≠
          (outcome (compile o) w).2.files.locate output.path) →
        ∃ s text, SchemaFor o w.files (outcome (compile o) w).2.files output.artifact s ∧
          output.artifact.text s = .ok text ∧
          (outcome (compile o) w).2.files.read output.path = .ok text.toUTF8.data.toList := by
  have ends := ends_compile o w
  rw [done] at ends
  refine ⟨path_outputs ends.accepted, fun earlier output later order last => ?_⟩
  obtain ⟨writes, holds, written⟩ := holds_of_ends ends
  rw [order] at holds
  obtain ⟨firsts, x, others, rfl, ⟨s, made, renders⟩, rest⟩ := exists_split_of_forall₂ holds
  refine ⟨s, x.text, made, renders.text, ?_⟩
  rw [← renders.path]
  refine written.read fun y inside => ?_
  obtain ⟨other, listed, _, -, renders'⟩ := exists_left_of_forall₂ rest inside
  rw [renders'.path, renders.path]
  exact last other listed

namespace Sample

/-- A schema file that declares nothing. -/
def emptyFile : List Char :=
  (Schema.Sample.opening ++ ["</StoreSchema>"]).flatMap String.toList

/-- A schema file with a right. -/
def rightFile : List Char :=
  (Schema.Sample.opening ++ ["<Right Name=\"Feed\">", "</Right>", "</StoreSchema>"]).flatMap
    String.toList

/-- A workspace with two schema files. -/
def workspace : Workspace :=
  { files := { entries :=
      [(["base.xml"], .file (String.ofList emptyFile).toUTF8.data.toList),
        (["derived.xml"], .file (String.ofList rightFile).toUTF8.data.toList)] } }

/-- Options with an output of the base schema, and one of both schemas behind it. -/
def options : Options :=
  { input := some "derived.xml", baseSchema := some "base.xml"
    outputComponentsHelper := some "components.cs", outputHelper := some "helper.cs"
    enumNamespace := some "N", schemaNamespace := some "N.Schema" }

/-- Options with two outputs to one file. -/
def coinciding : Options :=
  { baseSchema := some "base.xml", outputBaseInit := some "out.txt"
    outputComponentsHelper := some "out.txt" }

theorem compile_coinciding :
    (outcome (compile coinciding) workspace).1.toOption = some ["out.txt", "out.txt"] ∧
      ((outcome (compile coinciding) workspace).2.files.read "out.txt").toOption.bind
        List.head? = some 47 := by
  decide +kernel

end Sample

theorem outputs_of_compile_sample :
    (outcome (compile Sample.options) Sample.workspace).1 =
        .ok ["components.cs", "helper.cs"] ∧
      ∃ s text, SchemaFor Sample.options Sample.workspace.files
          (outcome (compile Sample.options) Sample.workspace).2.files (.helper "N" "N.Schema") s ∧
        (Artifact.helper "N" "N.Schema").text s = .ok text ∧
        (outcome (compile Sample.options) Sample.workspace).2.files.read "helper.cs" =
          .ok text.toUTF8.data.toList := by
  have done : (outcome (compile Sample.options) Sample.workspace).1 =
      .ok ["components.cs", "helper.cs"] := eq_ok_of_toOption (by decide +kernel)
  exact ⟨done, (outputs_of_compile done).2 [⟨.componentsHelper, "components.cs"⟩]
    ⟨.helper "N" "N.Schema", "helper.cs"⟩ [] rfl nofun⟩

/-- Of two outputs to one file only the later one is there in the end. -/
theorem coinciding_outputs : ¬ ∀ (o : Options) (w : Workspace) (paths : List String),
    (outcome (compile o) w).1 = .ok paths → ∀ output ∈ o.baseOutputs ++ o.derivedOutputs,
      ∃ s text, SchemaFor o w.files (outcome (compile o) w).2.files output.artifact s ∧
        output.artifact.text s = .ok text ∧
        (outcome (compile o) w).2.files.read output.path = .ok text.toUTF8.data.toList := by
  intro claim
  obtain ⟨finished, head⟩ := Sample.compile_coinciding
  have listed : (⟨.baseInit, "out.txt"⟩ : Output) ∈
      Sample.coinciding.baseOutputs ++ Sample.coinciding.derivedOutputs := List.mem_cons_self
  obtain ⟨s, text, -, rendered, read⟩ := claim Sample.coinciding Sample.workspace
    ["out.txt", "out.txt"] (eq_ok_of_toOption finished) ⟨.baseInit, "out.txt"⟩ listed
  obtain ⟨statements, made, rfl⟩ := map_eq_ok.mp rendered
  obtain ⟨others, rfl⟩ := exists_header (.inl made)
  obtain ⟨rest, begins⟩ := toList_scriptText others
  have whole : Script.scriptText (Script.header ++ others) = String.ofList ('-' :: rest) := by
    rw [← begins, String.ofList_toList]
  rw [read, whole, toUTF8_cons (by decide)] at head
  exact absurd (Option.some.inj head) (by decide)

end LearningStore.Compile
