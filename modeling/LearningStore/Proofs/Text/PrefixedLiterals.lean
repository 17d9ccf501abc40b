import LearningStore.Proofs.Text.Literals
import LearningStore.Text.Letters
import LearningStore.Text.Quoted

/-!
# Literals and code pages

A string literal of T-SQL that has the prefix `N` keeps its characters.  One without it is
converted to the code page of the database, which has the characters of ASCII and need not have
any other.  The scan here tells the literals of a text with their prefixes.
-/

namespace LearningStore.Text

/-! ## Code pages -/

/-- A text of ASCII. -/
def Ascii (t : List Char) : Prop :=
  ∀ c ∈ t, c.toNat < 128

instance (t : List Char) : Decidable (Ascii t) :=
  inferInstanceAs (Decidable (∀ c ∈ t, c.toNat < 128))

theorem ascii_append {a b : List Char} : Ascii (a ++ b) ↔ Ascii a ∧ Ascii b :=
  List.forall_mem_append

theorem ascii_cons {c : Char} {t : List Char} : Ascii (c :: t) ↔ c.toNat < 128 ∧ Ascii t :=
  List.forall_mem_cons

/-- What becomes of characters in a code page. -/
structure CodePage where
  convert : Char → Char
  ascii : ∀ c, c.toNat < 128 → convert c = c

/-- The smallest code page, with question marks for all other characters. -/
def CodePage.smallest : CodePage where
  convert c := if c.toNat < 128 then c else '?'
  ascii _ small := if_pos small

/-- A string literal: whether it has the prefix, and its content. -/
structure SqlLiteral where
  national : Bool
  content : List Char
deriving DecidableEq, Repr

namespace SqlLiteral

variable {l : SqlLiteral}

/-- What a database with a code page makes of a literal. -/
def stored (l : SqlLiteral) (page : CodePage) : List Char :=
  if l.national then l.content else l.content.map page.convert

/-- No database loses a character of the literal. -/
def Kept (l : SqlLiteral) : Prop :=
  ∀ page, l.stored page = l.content

/-- The literal has the prefix or does without it. -/
def Safe (l : SqlLiteral) : Prop :=
  l.national = true ∨ Ascii l.content

instance (l : SqlLiteral) : Decidable l.Safe :=
  inferInstanceAs (Decidable (l.national = true ∨ Ascii l.content))

theorem kept_iff : l.Kept ↔ l.Safe := by
  constructor
  · intro kept
    refine (Bool.eq_false_or_eq_true l.national).imp_right fun plain c inside => ?_
    have same := kept .smallest
    rw [stored, plain, if_neg Bool.false_ne_true] at same
    have unchanged : CodePage.smallest.convert c = c :=
      List.map_inj_left.mp (same.trans (List.map_id _).symm) c inside
    by_contra large
    have lost : CodePage.smallest.convert c = '?' := if_neg large
    rw [unchanged] at lost
    exact large (lost ▸ (by decide : '?'.toNat < 128))
  · rintro (national | ascii) page
    · exact if_pos national
    · rw [stored]
      split
      next => rfl
      next =>
        exact (List.map_congr_left fun c inside => page.ascii c (ascii c inside)).trans
          (List.map_id _)

/-- A literal with one character more. -/
def add (l : SqlLiteral) (c : Char) : SqlLiteral :=
  { l with content := l.content ++ [c] }

end SqlLiteral

/-! ## The scan -/

/-- The characters of names, in which an `N` is no prefix. -/
def isNameChar (c : Char) : Bool :=
  isLetter c || isDigit c || "_@#$".toList.contains c || decide (128 ≤ c.toNat)

/-- Whether a text, given from its end, ends with the prefix of a literal. -/
def endsInPrefix : List Char → Bool
  | ['N'] => true
  | 'N' :: c :: _ => !isNameChar c
  | _ => false

/-- The literals that end in a text, where the scan stands at `m` behind `before`, which is given
from its end, and `l` is the literal there so far. -/
def scanLiterals : SqlMode → List Char → SqlLiteral → List Char → List SqlLiteral
  | .quote, _, l, [] => [l]
  | _, _, _, [] => []
  | .literal, before, l, c :: t =>
      if c = '\'' then scanLiterals .quote (c :: before) l t
      else scanLiterals .literal (c :: before) (l.add c) t
  | .quote, before, l, c :: t =>
      if c = '\'' then scanLiterals .literal (c :: before) (l.add c) t
      else l :: scanLiterals (SqlMode.inCode c) (c :: before) ⟨false, []⟩ t
  | m, before, _, c :: t => scanLiterals (m.after c) (c :: before) ⟨endsInPrefix before, []⟩ t

/-- The string literals of a text, from the first to the last. -/
def sqlLiterals (t : List Char) : List SqlLiteral :=
  scanLiterals .code [] ⟨false, []⟩ t

section Scan

variable {m : SqlMode} {before held t : List Char} {l : SqlLiteral}

theorem scanLiterals_plain_cons (plain : m.Plain) (c : Char) :
    scanLiterals m before l (c :: t) =
      scanLiterals (m.after c) (c :: before) ⟨endsInPrefix before, []⟩ t := by
  cases m with
  | literal => exact absurd rfl plain.noLiteral
  | quote => exact absurd rfl plain.noQuote
  | _ => rfl

/-- The contents are those that the scan without prefixes tells. -/
theorem content_scanLiterals (m : SqlMode) (before : List Char) (l : SqlLiteral) (t : List Char) :
    (scanLiterals m before l t).map SqlLiteral.content = literalsFrom m l.content t := by
  induction t generalizing m before l with
  | nil => cases m <;> rfl
  | cons c t ih =>
      rcases m.eq_or_plain with rfl | rfl | plain
      · rw [scanLiterals, literalsFrom]
        split
        next => exact ih ..
        next => exact ih ..
      · rw [scanLiterals, literalsFrom]
        split
        next => exact ih ..
        next => exact congrArg (l.content :: ·) (ih ..)
      · rw [scanLiterals_plain_cons plain, literalsFrom_plain_cons plain]
        exact ih ..

theorem content_sqlLiterals (t : List Char) :
    (sqlLiterals t).map SqlLiteral.content = literals t :=
  content_scanLiterals .code [] ⟨false, []⟩ t

/-- The literals of a text are made of its characters. -/
theorem mem_or_mem_of_mem_literalsFrom {content : List Char}
    (member : content ∈ literalsFrom m held t) {c : Char} (inside : c ∈ content) :
    c ∈ held ∨ c ∈ t := by
  induction t generalizing m held with
  | nil =>
      cases m with
      | quote => exact .inl (List.mem_singleton.mp member ▸ inside)
      | _ => cases member
  | cons d t ih =>
      have later {held' : List Char} (shorter : c ∈ held' ∨ c ∈ t)
          (held'_subset : c ∈ held' → c ∈ held ∨ c = d) : c ∈ held ∨ c ∈ d :: t := by
        rcases shorter with here | there
        · rcases held'_subset here with early | rfl
          · exact .inl early
          · exact .inr List.mem_cons_self
        · exact .inr (List.mem_cons_of_mem d there)
      have longer (here : c ∈ held ++ [d]) : c ∈ held ∨ c = d := by
        simpa using here
      have empty (here : c ∈ []) : c ∈ held ∨ c = d :=
        absurd here List.not_mem_nil
      rcases m.eq_or_plain with rfl | rfl | plain
      · rw [literalsFrom] at member
        split at member
        next => exact later (ih member) .inl
        next => exact later (ih member) longer
      · rw [literalsFrom] at member
        split at member
        next => exact later (ih member) longer
        next =>
          rcases List.mem_cons.mp member with rfl | member
          · exact .inl inside
          · exact later (ih member) empty
      · rw [literalsFrom_plain_cons plain] at member
        exact later (ih member) empty

theorem ascii_of_mem_sqlLiterals (ascii : Ascii t) (member : l ∈ sqlLiterals t) :
    Ascii l.content := by
  intro c inside
  have listed : l.content ∈ literals t :=
    content_sqlLiterals t ▸ List.mem_map_of_mem member
  rcases mem_or_mem_of_mem_literalsFrom listed inside with impossible | there
  · cases impossible
  · exact ascii c there

/-- A quoted text is one literal, with the prefix that stands in front of it. -/
theorem scanLiterals_doubleApostrophes (before : List Char) (l : SqlLiteral) (value : List Char) :
    scanLiterals .literal before l (doubleApostrophes value ++ ['\'']) =
      [{ l with content := l.content ++ value }] := by
  induction value generalizing before l with
  | nil =>
      rw [List.append_nil]
      rfl
  | cons c value ih =>
      have longer : l.content ++ [c] ++ value = l.content ++ c :: value := by simp
      rw [doubleApostrophes]
      split
      next apostrophe =>
        subst apostrophe
        exact (ih _ (l.add '\'')).trans (by rw [SqlLiteral.add, longer])
      next other =>
        rw [List.cons_append, scanLiterals, if_neg other, ih, SqlLiteral.add, longer]

end Scan

example : sqlLiterals "PRINT(N'it''s' + 'x')".toList =
    [⟨true, "it's".toList⟩, ⟨false, ['x']⟩] := by
  decide +kernel

end LearningStore.Text
