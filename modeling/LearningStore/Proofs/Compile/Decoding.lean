import LearningStore.Proofs.Compile.Loading
import LearningStore.Proofs.Text.Encodings

/-!
# Reading texts back

A schema file is read as the text that it holds, whichever way it holds it.
-/

namespace LearningStore.Compile

open LearningStore.Files
open LearningStore.Text

section Reading

variable {w : Workspace} {path : String} {bytes : List UInt8}

theorem textAt_of_read (read : w.files.read path = .ok bytes) :
    textAt w.files path = match textOfBytes bytes with
      | .ok t => .ok t
      | .error e => .error (.unreadable path (.undecodable e)) := by
  rw [textAt, FileTree.readText, read]
  dsimp only
  cases textOfBytes bytes <;> rfl

/-- Reading a schema file gives a text exactly if the file holds that text. -/
theorem outcome_readSchema_eq_ok_iff (read : w.files.read path = .ok bytes) {t : String} :
    outcome (readSchema path) w = (.ok t, w) ↔ Holds bytes t := by
  rw [outcome_readSchema, textAt_of_read read, ← textOfBytes_eq_ok_iff]
  cases textOfBytes bytes with
  | ok t' => simp only [Prod.mk.injEq, and_true, Except.ok.injEq]
  | error e => simp only [Prod.mk.injEq, and_true, reduceCtorEq]

/-- Reading fails only over bytes that are not valid in the encoding of their mark. -/
theorem outcome_readSchema_eq_error_iff (read : w.files.read path = .ok bytes)
    {failure : CompileError} : outcome (readSchema path) w = (.error failure, w) ↔
      ∃ (e : Encoding) (rest : List UInt8), failure = .unreadable path (.undecodable e) ∧
        bytes = e.mark ++ rest ∧ ∀ t, rest ≠ e.encode t := by
  rw [outcome_readSchema, textAt_of_read read]
  constructor
  · intro failed
    cases made : textOfBytes bytes with
    | ok t =>
        rw [made] at failed
        cases failed
    | error e =>
        rw [made] at failed
        cases failed
        obtain ⟨rest, spelled, other⟩ := textOfBytes_eq_error_iff.mp made
        exact ⟨e, rest, rfl, spelled, other⟩
  · rintro ⟨e, rest, rfl, spelled, other⟩
    rw [textOfBytes_eq_error_iff.mpr ⟨rest, spelled, other⟩]

/-- A text is read back from a file that holds it behind a byte order mark, in the encoding of the
mark, and from a file that holds it in UTF-8 without a mark, unless it begins with U+FEFF.  Every
other file without a mark is read as one character for each of its bytes, so that reading fails only
over bytes behind a mark that are not valid in its encoding. -/
theorem outcome_readSchema_of_read (read : w.files.read path = .ok bytes) :
    (∀ (e : Encoding) (t : String), bytes = e.mark ++ e.encode t →
      outcome (readSchema path) w = (.ok t, w)) ∧
    (∀ t : String, t.toList.head? ≠ some '\uFEFF' → bytes = Encoding.utf8.encode t →
      outcome (readSchema path) w = (.ok t, w)) ∧
    (Encoding.Unmarked bytes → (∀ t, bytes ≠ Encoding.utf8.encode t) →
      ∃ t, outcome (readSchema path) w = (.ok t, w) ∧
        t.toList = bytes.map Windows1252.charOf ∧ t.length = bytes.length) ∧
    (∀ failure, outcome (readSchema path) w = (.error failure, w) ↔
      ∃ (e : Encoding) (rest : List UInt8), failure = .unreadable path (.undecodable e) ∧
        bytes = e.mark ++ rest ∧ ∀ t, rest ≠ e.encode t) := by
  refine ⟨?_, ?_, ?_, fun _ => outcome_readSchema_eq_error_iff read⟩
  · rintro e t rfl
    exact (outcome_readSchema_eq_ok_iff read).mpr (.marked e t)
  · rintro t plain rfl
    exact (outcome_readSchema_eq_ok_iff read).mpr (.plain plain)
  · intro unmarked other
    have holds := Holds.single unmarked other
    refine ⟨_, (outcome_readSchema_eq_ok_iff read).mpr holds, String.toList_ofList, ?_⟩
    rw [String.length_ofList, List.length_map]

/-- A workspace with files that hold texts in different ways. -/
def Sample.encodedFiles : Workspace where
  files.entries :=
    [(["low.xml"], .file (Encoding.utf16LowFirst.mark ++ Encoding.utf16LowFirst.encode "é𝄞")),
      (["high.xml"], .file (Encoding.utf16HighFirst.mark ++ Encoding.utf16HighFirst.encode "é𝄞")),
      (["marked.xml"], .file (Encoding.utf8.mark ++ Encoding.utf8.encode "\uFEFFé")),
      (["plain.xml"], .file (Encoding.utf8.encode "é𝄞")),
      (["single.xml"], .file [0x63, 0x61, 0x66, 0xE9])]

theorem outcome_readSchema_encodedFiles :
    outcome (readSchema "low.xml") Sample.encodedFiles = (.ok "é𝄞", Sample.encodedFiles) ∧
    outcome (readSchema "high.xml") Sample.encodedFiles = (.ok "é𝄞", Sample.encodedFiles) ∧
    outcome (readSchema "marked.xml") Sample.encodedFiles =
      (.ok "\uFEFFé", Sample.encodedFiles) ∧
    outcome (readSchema "plain.xml") Sample.encodedFiles = (.ok "é𝄞", Sample.encodedFiles) ∧
    ∃ t, outcome (readSchema "single.xml") Sample.encodedFiles = (.ok t, Sample.encodedFiles) ∧
      t.toList = "café".toList ∧ t.length = 4 := by
  refine ⟨?_, ?_, ?_, ?_, ?_⟩
  · exact (outcome_readSchema_of_read (by decide +kernel)).1 .utf16LowFirst _ rfl
  · exact (outcome_readSchema_of_read (by decide +kernel)).1 .utf16HighFirst _ rfl
  · exact (outcome_readSchema_of_read (by decide +kernel)).1 .utf8 _ rfl
  · exact (outcome_readSchema_of_read (by decide +kernel)).2.1 _ (by decide) rfl
  · have unmarked : Encoding.Unmarked [0x63, 0x61, 0x66, 0xE9] :=
      Encoding.marked?_eq_none_iff.mp rfl
    have other : ∀ t, [0x63, 0x61, 0x66, 0xE9] ≠ Encoding.utf8.encode t :=
      Encoding.decode?_eq_none_iff.mp (by decide +kernel)
    have shown : [0x63, 0x61, 0x66, 0xE9].map Windows1252.charOf = "café".toList := by decide
    have read : Sample.encodedFiles.files.read "single.xml" = .ok [0x63, 0x61, 0x66, 0xE9] := by
      decide +kernel
    obtain ⟨t, ended, chars, length⟩ := (outcome_readSchema_of_read read).2.2.1 unmarked other
    exact ⟨t, ended, chars.trans shown, length⟩

end Reading

end LearningStore.Compile
