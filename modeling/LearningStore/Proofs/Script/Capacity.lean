import LearningStore.Proofs.Script.Evaluation
import Mathlib.Algebra.Order.BigOperators.Group.List

/-!
# Sums of texts are cut

A server gives every text one of two types: the large one holds any text, the other one 8000
bytes.  A literal is of the large type only if it has to be, and a variable is if it is declared
so, which all variables here are.  A sum is put together from the left.  It is of the large type
if one of the two texts is; otherwise what does not fit is cut off, and no large text behind it
brings that back.
-/

namespace LearningStore.Script.Sql

/-- How many bytes there are in a text that is not of the large type. -/
def capacity : Nat := 8000

/-- A text with its type. -/
structure Sized where
  text : String
  large : Bool
deriving DecidableEq, Repr

/-- What is left of a text that is not of the large type.  Every character is taken for one
byte, as those of plain ASCII are. -/
def kept (text : String) : String :=
  String.ofList (text.toList.take capacity)

theorem length_kept_le (text : String) : (kept text).length ≤ capacity := by
  rw [kept, String.length_ofList]
  exact List.length_take_le capacity text.toList

theorem kept_eq_self {text : String} (fits : text.length ≤ capacity) : kept text = text := by
  rw [kept, List.take_of_length_le (String.length_toList.trans_le fits), String.ofList_toList]

/-- What was cut off once makes no difference to the next cut. -/
theorem kept_append_kept (a b : String) : kept (kept a ++ b) = kept (a ++ b) := by
  by_cases fits : a.length ≤ capacity
  · rw [kept_eq_self fits]
  · have long : capacity ≤ a.toList.length := by
      rw [String.length_toList]
      omega
    have short : (a.toList.take capacity).length = capacity := List.length_take_of_le long
    simp only [kept, String.toList_append, String.toList_ofList]
    rw [List.take_append_of_le_length short.ge, List.take_append_of_le_length long,
      List.take_take, Nat.min_self]

namespace Sized

def literal (text : String) : Sized :=
  ⟨text, decide (capacity < text.length)⟩

def add (a b : Sized) : Sized :=
  if a.large || b.large then ⟨a.text ++ b.text, true⟩ else ⟨kept (a.text ++ b.text), false⟩

theorem add_of_large {a : Sized} (large : a.large = true) (b : Sized) :
    a.add b = ⟨a.text ++ b.text, true⟩ := by
  rw [add, large, Bool.true_or, if_pos rfl]

/-- Literals added to a text, one after the other. -/
def addLiterals (a : Sized) (texts : List String) : Sized :=
  texts.foldl (fun sum text => sum.add (literal text)) a

theorem addLiterals_cons (a : Sized) (text : String) (rest : List String) :
    a.addLiterals (text :: rest) = (a.add (literal text)).addLiterals rest := rfl

/-- Behind a large text nothing is cut off. -/
theorem addLiterals_of_large {a : Sized} (large : a.large = true) (texts : List String) :
    a.addLiterals texts = ⟨a.text ++ String.join texts, true⟩ := by
  induction texts generalizing a with
  | nil =>
      obtain ⟨text, type⟩ := a
      cases large
      rw [addLiterals, List.foldl_nil, String.join_nil, String.append_empty]
  | cons text rest ih =>
      have first : a.add (literal text) = ⟨a.text ++ text, true⟩ :=
        add_of_large large (literal text)
      have others := ih (a := a.add (literal text)) (by rw [first])
      rw [first] at others
      rw [addLiterals_cons, first, others, String.join_cons, String.append_assoc]

end Sized

/-! ## Sums of literals -/

/-- How much room texts take. -/
def totalLength (texts : List String) : Nat :=
  (texts.map String.length).sum

/-- The texts in front of the first one that has to be of the large type. -/
def smallFront (texts : List String) : List String :=
  texts.takeWhile fun text => decide (text.length ≤ capacity)

/-- Whether no text has to be of the large type. -/
def AllSmall (texts : List String) : Prop :=
  ∀ text ∈ texts, text.length ≤ capacity

instance (texts : List String) : Decidable (AllSmall texts) :=
  inferInstanceAs (Decidable (∀ text ∈ texts, text.length ≤ capacity))

theorem smallFront_eq_self {texts : List String} (small : AllSmall texts) :
    smallFront texts = texts :=
  List.takeWhile_eq_self_iff.mpr fun text inside => decide_eq_true (small text inside)

theorem totalLength_smallFront_cons {text : String} (small : text.length ≤ capacity)
    (rest : List String) : totalLength (smallFront (text :: rest)) =
      text.length + totalLength (smallFront rest) := by
  simp [smallFront, small, totalLength]

theorem smallFront_cons_of_large {text : String} (large : ¬ text.length ≤ capacity)
    (rest : List String) : smallFront (text :: rest) = [] := by
  simp [smallFront, large]

/-- Texts that fit together fit each. -/
theorem allSmall_of_totalLength_le {texts : List String} (fits : totalLength texts ≤ capacity) :
    AllSmall texts := by
  intro text inside
  exact (List.le_sum_of_mem (List.mem_map_of_mem inside)).trans fits

/-- The texts of a sum of literals joined, as far as a server does not cut them. -/
def sumOfLiterals : List String → Sized
  | [] => .literal ""
  | first :: rest => (Sized.literal first).addLiterals rest

namespace Sized

theorem length_addLiterals_le (a : Sized) (texts : List String) :
    (a.addLiterals texts).text.length ≤ a.text.length + totalLength texts := by
  induction texts generalizing a with
  | nil => exact Nat.le_refl _
  | cons text rest ih =>
      have shorter : (a.add (literal text)).text.length ≤ a.text.length + text.length := by
        rw [← String.length_append, add]
        split
        next => exact Nat.le_refl _
        next =>
          rw [kept, String.length_ofList, ← String.length_toList]
          exact List.length_take_le' capacity _
      have others := ih (a.add (literal text))
      rw [totalLength] at others
      rw [addLiterals_cons, totalLength, List.map_cons, List.sum_cons]
      omega

theorem add_of_small {a : Sized} (type : a.large = false) {text : String}
    (small : text.length ≤ capacity) :
    a.add (literal text) = ⟨kept (a.text ++ text), false⟩ := by
  have other : (literal text).large = false := decide_eq_false (by omega)
  rw [add, type, other]
  rfl

/-- A sum without a large text is what fits of its texts joined. -/
theorem addLiterals_of_allSmall {a : Sized} (type : a.large = false)
    (fits : a.text.length ≤ capacity) {texts : List String} (small : AllSmall texts) :
    a.addLiterals texts = ⟨kept (a.text ++ String.join texts), false⟩ := by
  induction texts generalizing a with
  | nil =>
      obtain ⟨text, large⟩ := a
      cases type
      rw [String.join_nil, String.append_empty, kept_eq_self fits]
      rfl
  | cons text rest ih =>
      obtain ⟨first, others⟩ := List.forall_mem_cons.mp small
      have added := add_of_small type first
      have later := ih (a := a.add (literal text)) (by rw [added])
        (by rw [added]; exact length_kept_le _) others
      rw [added, kept_append_kept, String.append_assoc] at later
      rw [addLiterals_cons, added, later, String.join_cons]

/-- A sum is whole if the texts in front of the first large one fit together, and only then. -/
theorem text_addLiterals_eq_iff {a : Sized} (type : a.large = false)
    (fits : a.text.length ≤ capacity) (texts : List String) :
    (a.addLiterals texts).text = a.text ++ String.join texts ↔
      a.text.length + totalLength (smallFront texts) ≤ capacity := by
  induction texts generalizing a with
  | nil => simpa [addLiterals, smallFront, totalLength] using fits
  | cons text rest ih =>
      rw [addLiterals_cons, String.join_cons, ← String.append_assoc]
      by_cases small : text.length ≤ capacity
      · have added := add_of_small type small
        rw [totalLength_smallFront_cons small, ← Nat.add_assoc, ← String.length_append]
        by_cases together : (a.text ++ text).length ≤ capacity
        · rw [kept_eq_self together] at added
          rw [added]
          exact ih rfl together
        · -- Once something is cut off, the sum stays shorter than its texts.
          have shorter := length_addLiterals_le (a.add (literal text)) rest
          have bounded : (a.add (literal text)).text.length ≤ capacity := by
            rw [added]
            exact length_kept_le _
          refine iff_of_false (fun whole => ?_) (by omega)
          rw [whole, String.length_append _ (String.join rest), String.length_join] at shorter
          rw [totalLength] at shorter
          omega
      · have large : (literal text).large = true := decide_eq_true (by omega)
        have added : a.add (literal text) = ⟨a.text ++ text, true⟩ := by
          rw [add, large, Bool.or_true, if_pos rfl]
          rfl
        rw [added, addLiterals_of_large rfl, smallFront_cons_of_large small]
        exact iff_of_true rfl fits

end Sized

theorem text_sumOfLiterals_eq_iff (texts : List String) :
    (sumOfLiterals texts).text = String.join texts ↔
      totalLength (smallFront texts) ≤ capacity := by
  cases texts with
  | nil => exact iff_of_true rfl (Nat.zero_le _)
  | cons first rest =>
      rw [sumOfLiterals, String.join_cons]
      by_cases small : first.length ≤ capacity
      · rw [totalLength_smallFront_cons small]
        exact Sized.text_addLiterals_eq_iff (decide_eq_false (by omega)) small rest
      · have large : (Sized.literal first).large = true := decide_eq_true (by omega)
        rw [Sized.addLiterals_of_large large, smallFront_cons_of_large small]
        exact iff_of_true rfl (Nat.zero_le _)

/-- Without a large text among them, literals are cut as their texts joined are. -/
theorem text_sumOfLiterals_of_allSmall {texts : List String} (small : AllSmall texts) :
    (sumOfLiterals texts).text = kept (String.join texts) := by
  cases texts with
  | nil => rfl
  | cons first rest =>
      obtain ⟨fits, others⟩ := List.forall_mem_cons.mp small
      have sum := Sized.addLiterals_of_allSmall (a := .literal first)
        (decide_eq_false (by omega)) fits others
      rw [sumOfLiterals, String.join_cons, sum]
      rfl

/-- Literals fit together if none of them has to be large and their sum is whole. -/
theorem totalLength_le_iff (texts : List String) : totalLength texts ≤ capacity ↔
    AllSmall texts ∧ (sumOfLiterals texts).text = String.join texts := by
  rw [text_sumOfLiterals_eq_iff]
  constructor
  · intro fits
    have small := allSmall_of_totalLength_le fits
    rw [smallFront_eq_self small]
    exact ⟨small, fits⟩
  · rintro ⟨small, fits⟩
    rwa [smallFront_eq_self small] at fits

/-! ## Batches -/

/-- The value of an operand with its type. -/
def Operand.sized? (vs : Variables) : Operand → Option (Option Sized)
  | .literal text => some (some (.literal text))
  | .word name => (vs.lookup name).map fun value => value.map fun text => ⟨text, true⟩

/-- A sum to which operands are added, or null if one of them is. -/
def addOperands? (vs : Variables) (sum : Option Sized) : List Operand → Option (Option Sized)
  | [] => some sum
  | o :: rest => do
      let next ← o.sized? vs
      addOperands? vs (sum.bind fun a => next.map a.add) rest

/-- The value of a sum with its type. -/
def sizedSum? (vs : Variables) : List Operand → Option (Option Sized)
  | [] => some (some (.literal ""))
  | o :: rest => do
      let first ← o.sized? vs
      addOperands? vs first rest

/-- Run a command on a server that cuts sums. -/
def Command.runSized (vs : Variables) : Command → Option (Variables × List Effect)
  | .assign name sum => do
      let value ← sizedSum? vs sum
      if (vs.lookup name).isSome then some (vs.set name (value.map Sized.text), []) else none
  | c => c.run vs

/-- Run commands in order on a server that cuts sums. -/
def runSizedCommands (vs : Variables) : List Command → Option (Variables × List Effect)
  | [] => some (vs, [])
  | c :: rest =>
      match c.runSized vs with
      | none => none
      | some (vs, effects) =>
          (runSizedCommands vs rest).map fun after => (after.1, effects ++ after.2)

/-- Run the text of a batch on a server that cuts sums. -/
def evaluateSized (vs : Variables) (text : String) : Option (Variables × List Effect) :=
  ((tokens? text).bind commands?).bind (runSizedCommands vs)

theorem sizedSum?_literals (vs : Variables) (texts : List String) :
    sizedSum? vs (texts.map .literal) = some (some (sumOfLiterals texts)) := by
  have added (a : Sized) (rest : List String) :
      addOperands? vs (some a) (rest.map .literal) = some (some (a.addLiterals rest)) := by
    induction rest generalizing a with
    | nil => rfl
    | cons text rest ih => exact ih (a.add (.literal text))
  cases texts with
  | nil => rfl
  | cons first rest => exact added (.literal first) rest

/-- What is added to a large text, or to null, is added whole. -/
theorem addOperands?_of_large (vs : Variables) {sum : Option Sized}
    (large : ∀ a ∈ sum, a.large = true) (os : List Operand) :
    (addOperands? vs sum os).map (Option.map Sized.text) =
      (sum? vs os).map fun others => sum.bind fun a => others.map (a.text ++ ·) := by
  induction os generalizing sum with
  | nil => cases sum <;> simp [addOperands?, sum?]
  | cons o rest ih =>
      have value : o.value? vs = (o.sized? vs).map (Option.map Sized.text) := by
        cases o with
        | literal text => rfl
        | word name =>
            simp [Operand.value?, Operand.sized?, Function.comp_def]
      rw [sum?, value, addOperands?]
      cases o.sized? vs with
      | none => rfl
      | some next =>
          have still : ∀ a ∈ sum.bind fun a => next.map a.add, a.large = true := by
            intro b inside
            obtain ⟨a, held, found⟩ := Option.bind_eq_some_iff.mp inside
            obtain ⟨c, -, rfl⟩ := Option.map_eq_some_iff.mp found
            rw [Sized.add_of_large (large a held)]
          have later := ih still
          simp only [Option.bind_eq_bind, Option.bind_some, Option.map_some, Option.pure_def]
          rw [later]
          cases sum? vs rest with
          | none => rfl
          | some others =>
              cases sum with
              | none => rfl
              | some a =>
                  have joined := Sized.add_of_large (large a rfl)
                  cases next with
                  | none => rfl
                  | some b => cases others <;> simp [joined, String.append_assoc]

/-- A sum that starts from a variable is whole. -/
theorem sizedSum?_word (vs : Variables) (name : String) (os : List Operand) :
    (sizedSum? vs (.word name :: os)).map (Option.map Sized.text) =
      sum? vs (.word name :: os) := by
  rw [sizedSum?, sum?, Operand.sized?, Operand.value?]
  cases vs.lookup name with
  | none => rfl
  | some value =>
      have large : ∀ a ∈ value.map fun text => (⟨text, true⟩ : Sized), a.large = true := by
        intro a inside
        obtain ⟨text, -, rfl⟩ := Option.map_eq_some_iff.mp inside
        rfl
      simp only [Option.map_some, Option.bind_eq_bind, Option.bind_some, Option.pure_def]
      rw [addOperands?_of_large vs large]
      cases sum? vs os with
      | none => rfl
      | some others => cases value <;> rfl

/-- A command that nothing is cut off of. -/
def Command.Uncut (c : Command) : Prop :=
  ∀ vs, c.runSized vs = c.run vs

/-- An assignment is not cut if its sum is not. -/
theorem uncut_assign {name : String} {sum : List Operand}
    (whole : ∀ vs, (sizedSum? vs sum).map (Option.map Sized.text) = sum? vs sum) :
    (Command.assign name sum).Uncut := by
  intro vs
  have value := whole vs
  rw [Command.runSized, Command.run, ← value]
  cases sizedSum? vs sum with
  | none => rfl
  | some sized => rfl

theorem runSizedCommands_eq {commands : List Command} (uncut : ∀ c ∈ commands, c.Uncut)
    (vs : Variables) : runSizedCommands vs commands = runCommands vs commands := by
  induction commands generalizing vs with
  | nil => rfl
  | cons c rest ih =>
      obtain ⟨first, others⟩ := List.forall_mem_cons.mp uncut
      rw [runSizedCommands, runCommands, first vs]
      cases c.run vs with
      | none => rfl
      | some after =>
          simp only
          rw [ih others after.1]

/-- A text is run by its tokens and its commands. -/
theorem evaluateSized_of_commands {vs : Variables} {text : String} {ts : List Token}
    {commands : List Command} (scanned : Mode.between.scan text.toList = (ts, .between))
    (parsed : commands? ts = some commands) :
    evaluateSized vs text = runSizedCommands vs commands := by
  rw [evaluateSized, tokens?_eq_some scanned, Option.bind_some, parsed, Option.bind_some]

/-- A text without a cut is run as on a server that does not cut. -/
theorem evaluateSized_eq {vs : Variables} {text : String} {ts : List Token}
    {commands : List Command} (scanned : Mode.between.scan text.toList = (ts, .between))
    (parsed : commands? ts = some commands) (uncut : ∀ c ∈ commands, c.Uncut) :
    evaluateSized vs text = evaluate vs text := by
  rw [evaluateSized_of_commands scanned parsed, evaluate, tokens?_eq_some scanned,
    Option.bind_some, parsed, Option.bind_some, runSizedCommands_eq uncut]

/-- A variable that is declared holds what it is given. -/
theorem Variables.lookup_set {vs : Variables} {name : String} (value : Option String)
    (declared : (vs.lookup name).isSome = true) :
    (vs.set name value).lookup name = some value := by
  induction vs with
  | nil => cases declared
  | cons v rest ih =>
      obtain ⟨key, held⟩ := v
      by_cases here : key = name
      · subst here
        simp [Variables.set]
      · have other : (name == key) = false := beq_eq_false_iff_ne.mpr (Ne.symm here)
        rw [List.lookup_cons, other] at declared
        simpa [Variables.set, here, other, List.lookup_cons] using ih declared

/-- An assignment asks for nothing. -/
theorem Command.silent_assign {vs : Variables} {name : String} {sum : List Operand}
    {after : Variables × List Effect} (run : (assign name sum).run vs = some after) :
    after.2 = [] := by
  obtain ⟨value, -, given⟩ := Option.bind_eq_some_iff.mp run
  split at given
  next =>
    cases given
    rfl
  next => cases given

/-- Commands ask for nothing if none of them does. -/
theorem effects_eq_nil {commands : List Command} {vs later : Variables} {effects : List Effect}
    (silent : ∀ c ∈ commands, ∀ vs after, c.run vs = some after → after.2 = [])
    (run : runCommands vs commands = some (later, effects)) : effects = [] := by
  induction commands generalizing vs effects with
  | nil =>
      cases run
      rfl
  | cons c rest ih =>
      obtain ⟨first, others⟩ := List.forall_mem_cons.mp silent
      rw [runCommands] at run
      cases here : c.run vs with
      | none =>
          rw [here] at run
          cases run
      | some after =>
          rw [here] at run
          obtain ⟨last, ran, same⟩ := Option.map_eq_some_iff.mp run
          cases same
          rw [first vs after here, List.nil_append]
          exact ih others ran

end LearningStore.Script.Sql
