import LearningStore.Schema.Drafts

/-!
# Passes without problems

What the operations on checked values compute, for the value and for the problems
apart.  A pass is clean if it reports nothing; a sequence of steps is clean exactly
if every step is.
-/

namespace LearningStore.Schema

namespace Problems

theorem ofList?_eq_none_iff {ps : List Problem} : ofList? ps = none ↔ ps = [] := by
  cases ps with
  | nil => exact ⟨fun _ => rfl, fun _ => rfl⟩
  | cons first others => simp [ofList?]

end Problems

namespace Checked

variable {α β : Type}

/-- No problem was found while the value was made. -/
def Clean (x : Checked α) : Prop :=
  x.problems = []

@[simp] theorem pure_eq (a : α) : Checked.pure a = (Pure.pure a : Checked α) := rfl

@[simp] theorem bind_eq (x : Checked α) (f : α → Checked β) : Checked.bind x f = x >>= f := rfl

@[simp] theorem value_pure (a : α) : (Pure.pure a : Checked α).value = a := rfl

@[simp] theorem value_bind (x : Checked α) (f : α → Checked β) :
    (x >>= f).value = (f x.value).value := rfl

@[simp] theorem clean_pure (a : α) : (Pure.pure a : Checked α).Clean := rfl

@[simp] theorem clean_bind {x : Checked α} {f : α → Checked β} :
    (x >>= f).Clean ↔ x.Clean ∧ (f x.value).Clean :=
  List.append_eq_nil_iff

theorem eq_pure_of_clean {x : Checked α} (clean : x.Clean) : x = .pure x.value := by
  rw [Checked.pure, ← clean]

theorem bind_of_pure {x : Checked α} {a : α} (made : x = .pure a) {g : α → Checked β} :
    x >>= g = g a := by
  rw [made]
  rfl

@[simp] theorem clean_report {ps : List Problem} : (report ps).Clean ↔ ps = [] := Iff.rfl

@[simp] theorem clean_reportIf {condition : Bool} {p : Problem} :
    (reportIf condition p).Clean ↔ condition = false := by
  cases condition with
  | false => exact ⟨fun _ => rfl, fun _ => rfl⟩
  | true => simp [reportIf]

/-- A value is handed on exactly if its pass was clean. -/
theorem toExcept_eq_ok_iff {x : Checked α} {a : α} :
    x.toExcept = .ok a ↔ x.Clean ∧ x.value = a := by
  unfold toExcept Clean
  cases found : Problems.ofList? x.problems with
  | none => simp [Problems.ofList?_eq_none_iff.mp found]
  | some problems =>
      have dirty : x.problems ≠ [] := fun clean => by
        rw [Problems.ofList?_eq_none_iff.mpr clean] at found
        cases found
      simp [dirty]

/-! ## Passes over lists -/

@[simp] theorem value_each (f : α → Checked β) (xs : List α) :
    (each f xs).value = xs.map fun a => (f a).value := by
  induction xs with
  | nil => rfl
  | cons a rest ih => simp [each, ih]

@[simp] theorem clean_each {f : α → Checked β} {xs : List α} :
    (each f xs).Clean ↔ ∀ a ∈ xs, (f a).Clean := by
  induction xs with
  | nil => simp [each]
  | cons a rest ih => simp [each, ih]

@[simp] theorem value_eachSome (f : α → Checked (Option β)) (xs : List α) :
    (eachSome f xs).value = xs.filterMap fun a => (f a).value := by
  simp [eachSome, List.filterMap_map]

@[simp] theorem clean_eachSome {f : α → Checked (Option β)} {xs : List α} :
    (eachSome f xs).Clean ↔ ∀ a ∈ xs, (f a).Clean := by
  simp [eachSome]

/-- What every step of a pass keeps holds of its value, whether or not steps report
problems. -/
theorem through_preserves {P : β → Prop} {f : β → α → Checked β} {l : List α} {b : β}
    (step : ∀ b, ∀ a ∈ l, P b → P (f b a).value) (start : P b) :
    P (through f b l).value := by
  induction l generalizing b with
  | nil => exact start
  | cons a rest ih =>
      have first : P (f b a).value := step b a List.mem_cons_self start
      exact ih (fun b x member => step b x (List.mem_cons_of_mem a member)) first

/-! ### Two passes in a row -/

theorem value_through_append (f : β → α → Checked β) (b : β) (xs ys : List α) :
    (through f b (xs ++ ys)).value = (through f (through f b xs).value ys).value := by
  induction xs generalizing b with
  | nil => rfl
  | cons x rest ih => exact ih (f b x).value

theorem clean_through_append {f : β → α → Checked β} {b : β} {xs ys : List α} :
    (through f b (xs ++ ys)).Clean ↔
      (through f b xs).Clean ∧ (through f (through f b xs).value ys).Clean := by
  induction xs generalizing b with
  | nil => exact ⟨fun clean => ⟨rfl, clean⟩, And.right⟩
  | cons x rest ih =>
      rw [List.cons_append, through, through, bind_eq, bind_eq, clean_bind, clean_bind, ih,
        value_bind, and_assoc]

theorem through_singleton (step : β → α → Checked β) (b : β) (a : α) :
    through step b [a] = step b a :=
  congrArg (mk (step b a).value) (List.append_nil (step b a).problems)

/-- Where a pass begins without problems, it goes on from the state that it has reached. -/
theorem through_append_of_pure {step : β → α → Checked β} {b c : β} {xs : List α}
    (first : through step b xs = .pure c) (ys : List α) :
    through step b (xs ++ ys) = through step c ys := by
  induction xs generalizing b with
  | nil =>
      cases first
      rfl
  | cons x rest ih =>
      have clean : (through step b (x :: rest)).Clean := by rw [first]; rfl
      obtain ⟨stepClean, restClean⟩ := clean_bind.mp clean
      have restValue : (through step (step b x).value rest).value = c :=
        congrArg value first
      have others := ih ((eq_pure_of_clean restClean).trans (restValue ▸ rfl))
      rw [List.cons_append, through, eq_pure_of_clean stepClean]
      exact others

end Checked

/-- A text is accepted if it is a document that is read without problems. -/
theorem SchemaFile.read_eq_ok_iff {text fileName : String} {inBase : Bool} {file : SchemaFile} :
    SchemaFile.read text fileName inBase = .ok file ↔
      ∃ d, Xml.Document.parse text = .ok d ∧ (Source.file ⟨fileName, inBase, d⟩).Clean ∧
        (Source.file ⟨fileName, inBase, d⟩).value = file := by
  unfold SchemaFile.read
  cases parsed : Xml.Document.parse text with
  | error e => exact ⟨nofun, nofun⟩
  | ok d =>
      rw [Checked.toExcept_eq_ok_iff]
      exact ⟨fun read => ⟨d, rfl, read⟩, fun ⟨_, same, read⟩ => by cases same; exact read⟩

end LearningStore.Schema
