import LearningStore.Schema.Problem

/-!
# Checked values

Reading goes on after a problem, so that a pass can report all of them.  A checked
value comes with the problems that were found on the way, in order.
-/

namespace LearningStore.Schema

/-- A value and the problems found while it was made. -/
structure Checked (α : Type) where
  value : α
  problems : List Problem
deriving Repr

namespace Checked

def pure {α : Type} (value : α) : Checked α := ⟨value, []⟩

def bind {α β : Type} (x : Checked α) (f : α → Checked β) : Checked β :=
  let y := f x.value
  ⟨y.value, x.problems ++ y.problems⟩

instance : Monad Checked where
  pure := pure
  bind := bind

/-- Report problems and go on. -/
def report (problems : List Problem) : Checked Unit := ⟨(), problems⟩

/-- Report a problem if a condition holds. -/
def reportIf (condition : Bool) (problem : Problem) : Checked Unit :=
  report (if condition then [problem] else [])

/-- Make a value from every member of a list, in order. -/
def each {α β : Type} (f : α → Checked β) : List α → Checked (List β)
  | [] => pure []
  | a :: rest => bind (f a) fun b => bind (each f rest) fun bs => pure (b :: bs)

/-- Make a value from the members of a list that give one. -/
def eachSome {α β : Type} (f : α → Checked (Option β)) (xs : List α) : Checked (List β) :=
  bind (each f xs) fun bs => pure (bs.filterMap id)

/-- The value, if no problem was found. -/
def toExcept {α : Type} (x : Checked α) : Except Problems α :=
  match Problems.ofList? x.problems with
  | some problems => .error problems
  | none => .ok x.value

end Checked

end LearningStore.Schema
