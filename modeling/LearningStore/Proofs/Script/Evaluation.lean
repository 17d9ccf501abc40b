import LearningStore.Proofs.Script.Records
import LearningStore.Script.Statement

/-!
# Evaluating script texts

The statements that put texts together are read as a server reads them: token by token,
where an apostrophe inside a literal is written twice, then command by command, where a sum
of texts goes on behind a plus sign.  A command that is put together in a variable is a text
of its own, in which everything is quoted once more.
-/

namespace LearningStore.Script.Sql

open LearningStore.Text

/-! ## Tokens -/

/-- A word or a text literal, with the apostrophes in it as they are meant. -/
inductive Operand where
  | word (text : String)
  | literal (text : String)
deriving DecidableEq, Repr

inductive Token where
  | operand (o : Operand)
  | sign (c : Char)
deriving DecidableEq, Repr

/-- What a scan is inside of, with what it has read of that.  Behind an apostrophe in a
literal it is open whether the literal has ended. -/
inductive Mode where
  | between
  | word (read : List Char)
  | literal (read : List Char)
  | closing (read : List Char)
deriving DecidableEq, Repr

def isSeparator (c : Char) : Bool :=
  " \t\r\n".toList.contains c

def isSign (c : Char) : Bool :=
  "()=+,;".toList.contains c

namespace Mode

/-- A character that is not inside of anything. -/
def outside (c : Char) : List Token × Mode :=
  if isSeparator c then ([], between)
  else if isSign c then ([.sign c], between)
  else if c = '\'' then ([], literal [])
  else ([], word [c])

/-- Whether a character ends a word. -/
def endsWord (c : Char) : Bool :=
  isSeparator c || isSign c || c == '\''

/-- The tokens that a character completes, and where it leaves the scan. -/
def next : Mode → Char → List Token × Mode
  | between, c => outside c
  | word read, c =>
      if endsWord c then
        (.operand (.word (String.ofList read)) :: (outside c).1, (outside c).2)
      else ([], word (read ++ [c]))
  | literal read, c => if c = '\'' then ([], closing read) else ([], literal (read ++ [c]))
  | closing read, c =>
      if c = '\'' then ([], literal (read ++ ['\'']))
      else (.operand (.literal (String.ofList read)) :: (outside c).1, (outside c).2)

/-- The tokens of a stretch of text. -/
def scan (mode : Mode) : List Char → List Token × Mode
  | [] => ([], mode)
  | c :: rest =>
      ((mode.next c).1 ++ (scan (mode.next c).2 rest).1, (scan (mode.next c).2 rest).2)

/-- What the end of a text completes.  It may not end inside a literal. -/
def finish : Mode → Option (List Token)
  | between => some []
  | word read => some [.operand (.word (String.ofList read))]
  | closing read => some [.operand (.literal (String.ofList read))]
  | literal _ => none

theorem scan_append (mode : Mode) (a b : List Char) :
    mode.scan (a ++ b) =
      ((mode.scan a).1 ++ ((mode.scan a).2.scan b).1, ((mode.scan a).2.scan b).2) := by
  induction a generalizing mode with
  | nil => rfl
  | cons c rest ih => simp [scan, ih]

/-- Stretches of text are scanned one after the other. -/
theorem scan_trans {mode middle last : Mode} {a b : List Char} {ts us : List Token}
    (first : mode.scan a = (ts, middle)) (second : middle.scan b = (us, last)) :
    mode.scan (a ++ b) = (ts ++ us, last) := by
  rw [scan_append, first, second]

theorem scan_doubleApostrophes (read text : List Char) :
    (literal read).scan (doubleApostrophes text) = ([], literal (read ++ text)) := by
  induction text generalizing read with
  | nil => simp [doubleApostrophes, scan]
  | cons c rest ih =>
      by_cases apostrophe : c = '\''
      · simp [doubleApostrophes, apostrophe, scan, next, ih]
      · simp [doubleApostrophes, apostrophe, scan, next, ih]

/-- A quoted text is scanned up to the apostrophe at its end. -/
theorem scan_sqlString (text : String) :
    between.scan (sqlString text).toList = ([], closing text.toList) := by
  have inside : (literal []).scan (doubleApostrophes text.toList ++ ['\'']) =
      ([] ++ [], closing text.toList) :=
    scan_trans (scan_doubleApostrophes [] text.toList) rfl
  rw [sqlString, String.toList_ofList, List.cons_append, scan]
  simpa [next, outside, isSeparator, isSign] using inside

/-- Text without an apostrophe goes on inside a literal. -/
theorem scan_literal (read : List Char) {text : List Char} (plain : '\'' ∉ text) :
    (literal read).scan text = ([], literal (read ++ text)) := by
  induction text generalizing read with
  | nil => simp [scan]
  | cons c rest ih =>
      rw [List.mem_cons, not_or] at plain
      simp [scan, next, Ne.symm plain.1, ih _ plain.2]

end Mode

/-- The tokens of a text that does not end inside a literal. -/
def tokens? (text : String) : Option (List Token) :=
  ((Mode.between.scan text.toList).2.finish).map ((Mode.between.scan text.toList).1 ++ ·)

theorem tokens?_eq_some {text : String} {ts : List Token}
    (scanned : Mode.between.scan text.toList = (ts, .between)) : tokens? text = some ts := by
  simp [tokens?, scanned, Mode.finish]

/-! ## Commands -/

inductive Command where
  | declare (name : String)
  | assign (name : String) (sum : List Operand)
  | execute (name : String)
  | modify (query : String)
deriving DecidableEq, Repr

/-- The operands of a sum behind its first one. -/
def sumRest : List Token → List Operand × List Token
  | .sign '+' :: .operand o :: rest => (o :: (sumRest rest).1, (sumRest rest).2)
  | rest => ([], rest)

/-- The first command of a text. -/
def command? : List Token → Option (Command × List Token)
  | .operand (.word "DECLARE") :: .operand (.word name) :: .operand (.word "varchar") ::
      .sign '(' :: .operand (.word "max") :: .sign ')' :: rest => some (.declare name, rest)
  | .operand (.word "SET") :: .operand (.word name) :: .sign '=' :: .operand first :: rest =>
      some (.assign name (first :: (sumRest rest).1), (sumRest rest).2)
  | .operand (.word "EXEC") :: .sign '(' :: .operand (.word name) :: .sign ')' :: rest =>
      some (.execute name, rest)
  | .operand (.word "UPDATE") :: .operand (.word "Configuration") :: .operand (.word "SET") ::
      .operand (.word "SchemaDefinition.modify") :: .sign '(' :: .operand (.literal query) ::
      .sign ')' :: rest => some (.modify query, rest)
  | _ => none

theorem length_sumRest_le (ts : List Token) : (sumRest ts).2.length ≤ ts.length := by
  fun_induction sumRest ts with
  | case1 o rest ih => exact Nat.le_trans ih (Nat.le_add_right _ 2)
  | case2 rest => exact Nat.le_refl _

theorem length_lt_of_command? {ts rest : List Token} {c : Command}
    (read : command? ts = some (c, rest)) : rest.length < ts.length := by
  unfold command? at read
  split at read
  next =>
    cases read
    simp
    omega
  next name first tail =>
    have shorter := length_sumRest_le tail
    cases read
    simp
    omega
  next =>
    cases read
    simp
    omega
  next =>
    cases read
    simp
    omega
  next => cases read

/-- The commands of a text. -/
def commands? (ts : List Token) : Option (List Command) :=
  match ts with
  | [] => some []
  | t :: rest =>
      match _read : command? (t :: rest) with
      | none => none
      | some (c, later) => (commands? later).map (c :: ·)
termination_by ts.length
decreasing_by exact length_lt_of_command? _read

theorem commands?_of_command? {ts rest : List Token} {c : Command}
    (read : command? ts = some (c, rest)) : commands? ts = (commands? rest).map (c :: ·) := by
  cases ts with
  | nil => cases read
  | cons t others =>
      rw [commands?]
      split
      next none => rw [read] at none; cases none
      next d later found =>
        rw [read] at found
        cases found
        rfl

theorem sumRest_append {os : List Operand} {rest : List Token}
    (ended : ∀ t ∈ rest.head?, t ≠ .sign '+') :
    sumRest ((os.flatMap fun o => [.sign '+', .operand o]) ++ rest) = (os, rest) := by
  induction os with
  | nil =>
      rw [List.flatMap_nil, List.nil_append]
      unfold sumRest
      split
      next => exact absurd rfl (ended _ rfl)
      next => rfl
  | cons o others ih =>
      rw [List.flatMap_cons, List.append_assoc]
      simp [sumRest, ih]

/-- The tokens of a sum. -/
def sumTokens (first : Operand) (others : List Operand) : List Token :=
  .operand first :: others.flatMap fun o => [.sign '+', .operand o]

/-- An assignment reaches as far as its sum. -/
theorem commands?_assign (name : String) (first : Operand) (others : List Operand)
    {rest : List Token} (ended : ∀ t ∈ rest.head?, t ≠ .sign '+') :
    commands? ([.operand (.word "SET"), .operand (.word name), .sign '='] ++
      sumTokens first others ++ rest) =
        (commands? rest).map (.assign name (first :: others) :: ·) := by
  have read : command? ([.operand (.word "SET"), .operand (.word name), .sign '='] ++
      sumTokens first others ++ rest) = some (.assign name
        (first :: (sumRest ((others.flatMap fun o => [.sign '+', .operand o]) ++ rest)).1),
        (sumRest ((others.flatMap fun o => [.sign '+', .operand o]) ++ rest)).2) := rfl
  rw [sumRest_append ended] at read
  exact commands?_of_command? read

/-! ## Variables -/

/-- The declared variables of a batch.  A variable without a value is null. -/
abbrev Variables := List (String × Option String)

/-- What running a batch asks for: a change of the stored document, or that a text is run. -/
inductive Effect where
  | modify (query : String)
  | execute (command : String)
deriving DecidableEq, Repr

/-- Give a declared variable a value. -/
def Variables.set (vs : Variables) (name : String) (value : Option String) : Variables :=
  vs.map fun v => if v.1 = name then (name, value) else v

/-- The value of an operand.  A word has to be a declared variable. -/
def Operand.value? (vs : Variables) : Operand → Option (Option String)
  | .literal text => some (some text)
  | .word name => vs.lookup name

/-- The texts of a sum joined, or null if one of them is. -/
def sum? (vs : Variables) : List Operand → Option (Option String)
  | [] => some (some "")
  | o :: rest => do
      let first ← o.value? vs
      let others ← sum? vs rest
      pure (first.bind fun text => others.map (text ++ ·))

/-- Run a command: the variables after it, and what it asks for.  No variable may be
declared twice, and no other may be used. -/
def Command.run (vs : Variables) : Command → Option (Variables × List Effect)
  | .declare name => if (vs.lookup name).isSome then none else some (vs ++ [(name, none)], [])
  | .assign name sum => do
      let value ← sum? vs sum
      if (vs.lookup name).isSome then some (vs.set name value, []) else none
  | .execute name => (vs.lookup name).map fun value => (vs, value.toList.map .execute)
  | .modify query => some (vs, [.modify query])

/-- Run commands in order. -/
def runCommands (vs : Variables) : List Command → Option (Variables × List Effect)
  | [] => some (vs, [])
  | c :: rest =>
      match c.run vs with
      | none => none
      | some (vs, effects) =>
          (runCommands vs rest).map fun after => (after.1, effects ++ after.2)

/-- Run the text of a batch. -/
def evaluate (vs : Variables) (text : String) : Option (Variables × List Effect) :=
  ((tokens? text).bind commands?).bind (runCommands vs)

theorem runCommands_cons {vs later last : Variables} {c : Command} {rest : List Command}
    {effects more : List Effect} (first : c.run vs = some (later, effects))
    (others : runCommands later rest = some (last, more)) :
    runCommands vs (c :: rest) = some (last, effects ++ more) := by
  simp [runCommands, first, others]

/-- A sum of literals is their texts joined. -/
theorem sum?_literals (vs : Variables) (texts : List String) :
    sum? vs (texts.map .literal) = some (some (String.join texts)) := by
  induction texts with
  | nil => rfl
  | cons text rest ih =>
      rw [List.map_cons, sum?, ih, String.join_cons]
      rfl

/-- A text is run by its tokens and its commands. -/
theorem evaluate_of_tokens {vs later : Variables} {text : String} {ts : List Token}
    {commands : List Command} {effects : List Effect}
    (scanned : Mode.between.scan text.toList = (ts, .between))
    (parsed : commands? ts = some commands)
    (run : runCommands vs commands = some (later, effects)) :
    evaluate vs text = some (later, effects) := by
  rw [evaluate, tokens?_eq_some scanned, Option.bind_some, parsed, Option.bind_some, run]

end LearningStore.Script.Sql
