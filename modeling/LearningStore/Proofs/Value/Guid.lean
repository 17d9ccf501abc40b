import LearningStore.Proofs.Value.OneLine
import LearningStore.Value.Guid
import Mathlib.Data.List.Induction
import Mathlib.Data.Nat.Digits.Defs

/-!
# Spellings of an identifier

An identifier is a number below 2 to the power 128.  The texts that are read as one are the
spellings of its 32 hexadecimal digits, with or without hyphens, braces and the name of the scheme,
in letters of either case.  It is written with hyphens and small letters, so that the written form
depends on the number alone.
-/

namespace LearningStore.Value.Guid

open LearningStore.Text

/-! ## Spellings -/

/-- Thirty-two digits in groups of 8, 4, 4, 4 and 12. -/
def hyphenate (digits : List Char) : List Char :=
  digits.take 8 ++ '-' :: ((digits.drop 8).take 4 ++ '-' :: ((digits.drop 12).take 4 ++
    '-' :: ((digits.drop 16).take 4 ++ '-' :: (digits.drop 20).take 12)))

/-- The ways to spell hexadecimal digits as an identifier. -/
inductive Spells : List Char → List Char → Prop where
  | plain (digits : List Char) : Spells digits digits
  | hyphens (digits : List Char) : Spells (hyphenate digits) digits
  | braces (digits : List Char) : Spells ('\x7b' :: hyphenate digits ++ ['\x7d']) digits
  | scheme (name digits : List Char) (named : name.map lowerLetter = "urn:uuid:".toList) :
      Spells (name ++ hyphenate digits) digits

/-- Thirty-two hexadecimal digits. -/
structure AreDigits (digits : List Char) : Prop where
  length : digits.length = 32
  each : ∀ c ∈ digits, (hexValue? c).isSome = true

/-- The value of a character as a hexadecimal digit. -/
def digitOf (c : Char) : Nat :=
  (hexValue? c).getD 0

/-- The number that hexadecimal digits denote. -/
def number (digits : List Char) : Nat :=
  Nat.ofDigits 16 (digits.map digitOf).reverse

/-- The last hexadecimal digits of a number, in small letters. -/
def lastDigits : Nat → Nat → List Char
  | 0, _ => []
  | count + 1, n => lastDigits count (n / 16) ++ [Nat.digitChar (n % 16)]

/-- The written form of a number below 2 to the power 128. -/
def form (n : Nat) : List Char :=
  hyphenate (lastDigits 32 n)

example : form 0x6f9619ff8b86d011b42d00c04fc964ff =
    "6f9619ff-8b86-d011-b42d-00c04fc964ff".toList := by decide

/-! ## Reading -/

theorem hexDigits?_eq_some {s : List Char} (each : ∀ c ∈ s, (hexValue? c).isSome = true) :
    hexDigits? s = some (s.map digitOf) := by
  induction s with
  | nil => rfl
  | cons c rest ih =>
      obtain ⟨here, others⟩ := List.forall_mem_cons.mp each
      obtain ⟨n, found⟩ := Option.isSome_iff_exists.mp here
      rw [hexDigits?, found, ih others, List.map_cons, digitOf, found]
      rfl

theorem hexDigits?_eq_some_iff {s : List Char} {ns : List Nat} :
    hexDigits? s = some ns ↔ (∀ c ∈ s, (hexValue? c).isSome = true) ∧ ns = s.map digitOf := by
  constructor
  · intro read
    have each : ∀ c ∈ s, (hexValue? c).isSome = true := by
      induction s generalizing ns with
      | nil => simp
      | cons c rest ih =>
          rw [hexDigits?] at read
          split at read
          next n ms here others =>
            exact List.forall_mem_cons.mpr ⟨by rw [here]; rfl, ih others⟩
          next => cases read
    rw [hexDigits?_eq_some each] at read
    exact ⟨each, (Option.some.inj read).symm⟩
  · rintro ⟨each, rfl⟩
    exact hexDigits?_eq_some each

/-- Groups that are read are runs of digits with a hyphen between each two. -/
theorem exists_of_grouped {lengths : List Nat} {s : List Char} {ns : List Nat}
    (read : grouped? lengths s = some ns) :
    ∃ parts, parts.map List.length = lengths ∧ s = List.intercalate ['-'] parts ∧
      hexDigits? parts.flatten = some ns := by
  fun_induction grouped? lengths s generalizing ns with
  | case1 s empty =>
      cases read
      exact ⟨[], rfl, List.isEmpty_iff.mp empty, rfl⟩
  | case2 => cases read
  | case3 s =>
      exact ⟨[s], rfl, by simp, by simpa using read⟩
  | case4 => cases read
  | case5 n rest s more tail found front back readBack readFront ih =>
      cases read
      obtain ⟨parts, lengths, same, digits⟩ := ih readBack
      have long : n < s.length := by
        have some_left := congrArg List.length found
        rw [List.length_drop, List.length_cons] at some_left
        omega
      have whole : s = s.take n ++ '-' :: tail := by rw [← found, List.take_append_drop]
      cases parts with
      | nil => exact absurd lengths.symm more
      | cons part parts =>
          refine ⟨s.take n :: part :: parts, ?_, ?_, ?_⟩
          · rw [List.map_cons, lengths, List.length_take, Nat.min_eq_left (Nat.le_of_lt long)]
          · rw [List.intercalate_cons_cons, ← same, List.append_assoc]
            exact whole
          · obtain ⟨first, rfl⟩ := hexDigits?_eq_some_iff.mp readFront
            obtain ⟨others, rfl⟩ := hexDigits?_eq_some_iff.mp digits
            rw [List.flatten_cons, ← List.map_append]
            exact hexDigits?_eq_some (List.forall_mem_append.mpr ⟨first, others⟩)
  | case6 => cases read
  | case7 => cases read

/-- Runs of digits with hyphens between them are read. -/
theorem grouped?_intercalate {parts : List (List Char)} (some_part : parts ≠ [])
    (each : ∀ c ∈ parts.flatten, (hexValue? c).isSome = true) :
    grouped? (parts.map List.length) (List.intercalate ['-'] parts) =
      some (parts.flatten.map digitOf) := by
  induction parts with
  | nil => exact absurd rfl some_part
  | cons part parts ih =>
      rw [List.flatten_cons, List.forall_mem_append] at each
      obtain ⟨first, others⟩ := each
      cases parts with
      | nil => simp [grouped?, hexDigits?_eq_some first]
      | cons next parts =>
          have here (rest : List Char) : (part ++ '-' :: rest).take part.length = part :=
            List.take_left
          have later := ih (List.cons_ne_nil _ _) others
          rw [List.map_cons] at later
          rw [List.intercalate_cons_cons, List.append_assoc, List.singleton_append, List.map_cons,
            List.map_cons, grouped?, List.drop_left]
          · simp only [here, hexDigits?_eq_some first, later]
            rw [List.flatten_cons (l := part), List.map_append]
          · simp

/-- The groups of an identifier are its digits with hyphens. -/
theorem intercalate_eq_hyphenate {parts : List (List Char)}
    (lengths : parts.map List.length = groups) :
    parts.flatten.length = 32 ∧ List.intercalate ['-'] parts = hyphenate parts.flatten := by
  match parts with
  | [a, b, c, d, e] =>
      simp only [groups, List.map_cons, List.map_nil, List.cons.injEq, and_true] at lengths
      obtain ⟨ha, hb, hc, hd, he⟩ := lengths
      have whole : [a, b, c, d, e].flatten = a ++ (b ++ (c ++ (d ++ e))) := by simp
      have third : a ++ (b ++ (c ++ (d ++ e))) = (a ++ b) ++ (c ++ (d ++ e)) := by simp
      have fourth : a ++ (b ++ (c ++ (d ++ e))) = (a ++ b ++ c) ++ (d ++ e) := by simp
      have fifth : a ++ (b ++ (c ++ (d ++ e))) = (a ++ b ++ c ++ d) ++ e := by simp
      rw [whole]
      refine ⟨by simp [ha, hb, hc, hd, he], ?_⟩
      rw [hyphenate, List.take_left' ha, List.drop_left' ha, List.take_left' hb, third,
        List.drop_left' (by simp [ha, hb]), List.take_left' hc, ← third, fourth,
        List.drop_left' (by simp [ha, hb, hc]), List.take_left' hd, ← fourth, fifth,
        List.drop_left' (by simp [ha, hb, hc, hd]), List.take_of_length_le he.le]
      simp
  | [] | [_] | [_, _] | [_, _, _] | [_, _, _, _] => simp [groups] at lengths
  | _ :: _ :: _ :: _ :: _ :: _ :: _ => simp [groups] at lengths

theorem exists_of_grouped_groups {s : List Char} {ns : List Nat}
    (read : grouped? groups s = some ns) :
    ∃ digits, AreDigits digits ∧ s = hyphenate digits ∧ ns = digits.map digitOf := by
  obtain ⟨parts, lengths, same, found⟩ := exists_of_grouped read
  obtain ⟨length, hyphens⟩ := intercalate_eq_hyphenate lengths
  obtain ⟨each, rfl⟩ := hexDigits?_eq_some_iff.mp found
  exact ⟨parts.flatten, ⟨length, each⟩, same.trans hyphens, rfl⟩

theorem eq_of_unbraced {s inner : List Char} (read : unbraced? s = some inner) :
    s = '{' :: inner ++ ['}'] := by
  unfold unbraced? at read
  split at read
  next rest =>
    split at read
    next ended =>
      cases read
      obtain ⟨front, rfl⟩ := List.getLast?_eq_some_iff.mp ended
      rw [List.dropLast_concat]
      rfl
    next => cases read
  next => cases read

theorem exists_of_afterScheme {s inner : List Char} (read : afterScheme? s = some inner) :
    ∃ name, name.map lowerLetter = "urn:uuid:".toList ∧ s = name ++ inner := by
  unfold afterScheme? at read
  dsimp only at read
  split at read
  next named =>
    cases read
    exact ⟨_, named, (List.take_append_drop _ s).symm⟩
  next => cases read

/-- A text that is read as an identifier spells its digits. -/
theorem exists_of_read {s : List Char} {g : Guid} (read : read? s = some g) :
    ∃ digits, AreDigits digits ∧ Spells s digits ∧ g.digits = digits.map digitOf := by
  obtain ⟨ns, found, rfl⟩ := Option.map_eq_some_iff.mp read
  split at found
  next long =>
    obtain ⟨each, rfl⟩ := hexDigits?_eq_some_iff.mp found
    exact ⟨s, ⟨long, each⟩, .plain s, rfl⟩
  split at found
  next inner braced =>
    obtain ⟨digits, are, rfl, rfl⟩ := exists_of_grouped_groups found
    exact ⟨digits, are, eq_of_unbraced braced ▸ .braces digits, rfl⟩
  split at found
  next inner scheme =>
    obtain ⟨digits, are, rfl, rfl⟩ := exists_of_grouped_groups found
    obtain ⟨name, named, rfl⟩ := exists_of_afterScheme scheme
    exact ⟨digits, are, .scheme name digits named, rfl⟩
  next =>
    obtain ⟨digits, are, rfl, rfl⟩ := exists_of_grouped_groups found
    exact ⟨digits, are, .hyphens digits, rfl⟩

theorem AreDigits.flatten_cut {digits : List Char} (are : AreDigits digits) :
    (cut groups digits).flatten = digits ∧ (cut groups digits).map List.length = groups := by
  have long := are.length
  constructor
  · have last : ((((digits.drop 8).drop 4).drop 4).drop 4).take 12 =
        (((digits.drop 8).drop 4).drop 4).drop 4 :=
      List.take_of_length_le (by simp only [List.length_drop]; omega)
    simp only [cut, groups, List.flatten_cons, List.flatten_nil, List.append_nil, last,
      List.take_append_drop]
  · simp only [cut, groups, List.map_cons, List.map_nil, List.length_take, List.length_drop, long]
    decide

theorem intercalate_cut_groups (s : List Char) :
    List.intercalate ['-'] (cut groups s) = hyphenate s := by
  simp [cut, groups, hyphenate, List.intercalate, List.drop_drop]

/-- Digits with hyphens are read as these digits. -/
theorem AreDigits.grouped?_hyphenate {digits : List Char} (are : AreDigits digits) :
    grouped? groups (hyphenate digits) = some (digits.map digitOf) := by
  obtain ⟨whole, lengths⟩ := are.flatten_cut
  have some_part : cut groups digits ≠ [] := by simp [cut, groups]
  have read := grouped?_intercalate some_part (by rw [whole]; exact are.each)
  rwa [lengths, intercalate_cut_groups, whole] at read

theorem AreDigits.length_hyphenate {digits : List Char} (are : AreDigits digits) :
    (hyphenate digits).length = 36 := by
  have long := are.length
  simp only [hyphenate, List.length_append, List.length_cons, List.length_take, List.length_drop]
  omega

theorem AreDigits.exists_cons_hyphenate {digits : List Char} (are : AreDigits digits) :
    ∃ c rest, hyphenate digits = c :: rest ∧ (hexValue? c).isSome = true := by
  have long := are.length
  have each := are.each
  cases digits with
  | nil => cases long
  | cons c rest =>
      refine ⟨c, _, by rw [hyphenate, List.take_succ_cons]; rfl, each c List.mem_cons_self⟩

theorem afterScheme?_eq_some {name : List Char} (rest : List Char)
    (named : name.map lowerLetter = "urn:uuid:".toList) :
    afterScheme? (name ++ rest) = some rest := by
  have long : "urn:uuid:".toList.length = name.length := by rw [← named, List.length_map]
  unfold afterScheme?
  simp only [long, List.take_left, List.drop_left, named]
  rfl

theorem toNat_lt_of_digit {c : Char} (digit : (hexValue? c).isSome = true) : c.toNat < 103 := by
  unfold hexValue? at digit
  split at digit
  next decimal =>
    have high : c.toNat ≤ 57 := of_decide_eq_true (Bool.and_eq_true_iff.mp decimal).2
    omega
  split at digit
  next small => exact Nat.lt_succ_of_le (show c.toNat ≤ 102 from small.2)
  split at digit
  next capital =>
    have high : c.toNat ≤ 70 := capital.2
    omega
  next => cases digit

/-- What begins with a digit begins with no brace and with no name of the scheme. -/
theorem ne_of_digit {c : Char} (digit : (hexValue? c).isSome = true) :
    c ≠ '{' ∧ lowerLetter c ≠ 'u' := by
  have all : ∀ n < 103, (hexValue? (Char.ofNat n)).isSome = true →
      Char.ofNat n ≠ '{' ∧ lowerLetter (Char.ofNat n) ≠ 'u' := by decide +kernel
  have here := all c.toNat (toNat_lt_of_digit digit)
  rw [Char.ofNat_toNat] at here
  exact here digit

theorem unbraced?_eq_none {c : Char} (rest : List Char) (other : c ≠ '{') :
    unbraced? (c :: rest) = none := by
  unfold unbraced?
  split
  next same => exact absurd (List.cons.inj same).1 other
  next => rfl

theorem afterScheme?_eq_none {c : Char} (rest : List Char) (other : lowerLetter c ≠ 'u') :
    afterScheme? (c :: rest) = none := by
  refine if_neg fun same => other ?_
  exact (List.cons.inj same).1

/-- A spelling is read as the digits that it spells. -/
theorem read?_of_spells {s digits : List Char} (are : AreDigits digits) (spells : Spells s digits) :
    read? s = some ⟨digits.map digitOf⟩ := by
  have long := are.length_hyphenate
  have grouped := are.grouped?_hyphenate
  cases spells with
  | plain => simp only [read?, are.length, if_true, hexDigits?_eq_some are.each, Option.map_some]
  | hyphens =>
      obtain ⟨c, rest, begins, digit⟩ := are.exists_cons_hyphenate
      have other := ne_of_digit digit
      have short : ¬ (hyphenate digits).length = 32 := by omega
      have noBrace : unbraced? (hyphenate digits) = none := by
        rw [begins]
        exact unbraced?_eq_none rest other.1
      have noScheme : afterScheme? (hyphenate digits) = none := by
        rw [begins]
        exact afterScheme?_eq_none rest other.2
      simp only [read?, if_neg short, noBrace, noScheme, grouped, Option.map_some]
  | braces =>
      have inner : unbraced? ('{' :: hyphenate digits ++ ['}']) = some (hyphenate digits) := by
        simp [unbraced?]
      have short : ¬ ('{' :: hyphenate digits ++ ['}']).length = 32 := by simp [long]
      simp only [read?, if_neg short, inner, grouped, Option.map_some]
  | scheme name _ named =>
      have count : name.length = 9 := by simpa using congrArg List.length named
      have short : ¬ (name ++ hyphenate digits).length = 32 := by simp [long, count]
      have noBrace : unbraced? (name ++ hyphenate digits) = none := by
        match name, named with
        | c :: rest, named =>
            refine unbraced?_eq_none _ ?_
            rintro rfl
            exact absurd (List.cons.inj named).1 (by decide)
      have scheme := afterScheme?_eq_some (hyphenate digits) named
      simp only [read?, if_neg short, noBrace, scheme, grouped, Option.map_some]

/-- The texts that are read are the spellings of digits. -/
theorem read?_eq_some_iff {s : List Char} {g : Guid} :
    read? s = some g ↔
      ∃ digits, AreDigits digits ∧ Spells s digits ∧ g.digits = digits.map digitOf := by
  refine ⟨exists_of_read, ?_⟩
  rintro ⟨digits, are, spells, same⟩
  rw [read?_of_spells are spells, ← same]

/-! ## Writing -/
theorem digitOf_lt (c : Char) : digitOf c < 16 := by
  unfold digitOf hexValue?
  split
  next digit =>
    have high : c.toNat ≤ 57 := of_decide_eq_true (Bool.and_eq_true_iff.mp digit).2
    simp only [Option.getD_some]
    omega
  split
  next small =>
    have high : c.toNat ≤ 102 := small.2
    simp only [Option.getD_some]
    omega
  split
  next capital =>
    have high : c.toNat ≤ 70 := capital.2
    simp only [Option.getD_some]
    omega
  next => decide

theorem number_concat (front : List Char) (c : Char) :
    number (front ++ [c]) = digitOf c + 16 * number front := by
  rw [number, List.map_append, List.reverse_append]
  exact Nat.ofDigits_cons ..

theorem number_lt (digits : List Char) : number digits < 16 ^ digits.length := by
  have below : ∀ n ∈ (digits.map digitOf).reverse, n < 16 := by
    intro n inside
    obtain ⟨c, -, rfl⟩ := List.mem_map.mp (List.mem_reverse.mp inside)
    exact digitOf_lt c
  simpa [number] using Nat.ofDigits_lt_base_pow_length (by decide) below

/-- The digits of a number are those that denote it. -/
theorem lastDigits_number (digits : List Char) :
    lastDigits digits.length (number digits) = digits.map fun c => hexChar (digitOf c) := by
  induction digits using List.reverseRecOn with
  | nil => rfl
  | append_singleton front c ih =>
      have low := digitOf_lt c
      have quotient : (digitOf c + 16 * number front) / 16 = number front := by omega
      have rest : (digitOf c + 16 * number front) % 16 = digitOf c := by omega
      rw [List.length_append, List.length_singleton, lastDigits, number_concat, quotient, rest,
        ih, List.map_append]
      rfl

/-- An identifier is written by its number. -/
theorem hyphenated_eq {digits : List Char} (are : AreDigits digits) {g : Guid}
    (read : g.digits = digits.map digitOf) :
    g.hyphenated = String.ofList (form (number digits)) := by
  have written := lastDigits_number digits
  rw [are.length] at written
  rw [hyphenated, intercalate_cut_groups, form, written, read, List.map_map]
  rfl

end LearningStore.Value.Guid
