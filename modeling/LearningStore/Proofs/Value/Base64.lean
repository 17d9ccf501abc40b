import LearningStore.Value.Base64
import Mathlib.Data.List.Basic

/-!
# Base64 has one written form

The written form of bytes puts four symbols for each three of them, and fills up a last group
that is shorter.  Reading accepts the written forms and nothing else, and gives back the bytes
that were written.
-/

namespace LearningStore.Value.Base64

/-! ## Writing -/

/-- The symbols in the order of the six bits that they stand for. -/
def alphabet : List Char :=
  "ABCDEFGHIJKLMNOPQRSTUVWXYZabcdefghijklmnopqrstuvwxyz0123456789+/".toList

/-- The symbol for six bits. -/
def symbol (n : Nat) : Char :=
  alphabet.getD n '='

/-- The written form of bytes. -/
def encode : List UInt8 → List Char
  | [] => []
  | [a] => [symbol (a.toNat / 4), symbol (a.toNat % 4 * 16), '=', '=']
  | [a, b] =>
      [symbol (a.toNat / 4), symbol (a.toNat % 4 * 16 + b.toNat / 16),
        symbol (b.toNat % 16 * 4), '=']
  | a :: b :: c :: rest =>
      symbol (a.toNat / 4) :: symbol (a.toNat % 4 * 16 + b.toNat / 16) ::
        symbol (b.toNat % 16 * 4 + c.toNat / 64) :: symbol (c.toNat % 64) :: encode rest

example : encode [1, 2, 10] = "AQIK".toList := by decide

/-- A character of a written form as a byte. -/
def byteOf (c : Char) : UInt8 :=
  UInt8.ofNat c.toNat

/-! ## Symbols -/

theorem sextet?_byteOf_symbol {n : Nat} (small : n < 64) :
    sextet? (byteOf (symbol n)) = some n := by
  have all : ∀ n < 64, sextet? (byteOf (symbol n)) = some n := by decide +kernel
  exact all n small

theorem symbol_ne_fill {n : Nat} (small : n < 64) : byteOf (symbol n) ≠ fill := by
  have all : ∀ n < 64, byteOf (symbol n) ≠ fill := by decide +kernel
  exact all n small

theorem eq_of_sextet?_eq_some {b : UInt8} {n : Nat} (read : sextet? b = some n) :
    b = byteOf (symbol n) ∧ n < 64 := by
  have all : ∀ m < 256, ∀ n ∈ sextet? (UInt8.ofNat m),
      UInt8.ofNat m = byteOf (symbol n) ∧ n < 64 := by decide +kernel
  have found := all b.toNat b.toNat_lt n
  rw [UInt8.ofNat_toNat] at found
  exact found read

/-- The bytes of symbols. -/
def symbols (ns : List Nat) : List UInt8 :=
  ns.map fun n => byteOf (symbol n)

theorem sextets_eq_ok_iff {offset : Nat} {s : List UInt8} {ns : List Nat} :
    sextets offset s = .ok ns ↔ s = symbols ns ∧ ∀ n ∈ ns, n < 64 := by
  induction s generalizing offset ns with
  | nil =>
      constructor
      · rintro ⟨rfl⟩
        exact ⟨rfl, by simp⟩
      · rintro ⟨empty, -⟩
        rw [List.map_eq_nil_iff.mp empty.symm]
        rfl
  | cons b rest ih =>
      rw [sextets]
      constructor
      · intro read
        split at read
        next => cases read
        next n found =>
          cases others : sextets (offset + 1) rest with
          | error e =>
              rw [others] at read
              cases read
          | ok ms =>
              rw [others] at read
              cases read
              obtain ⟨spelled, small⟩ := eq_of_sextet?_eq_some found
              obtain ⟨same, each⟩ := ih.mp others
              exact ⟨by rw [spelled, same]; rfl, List.forall_mem_cons.mpr ⟨small, each⟩⟩
      · rintro ⟨spelled, small⟩
        cases ns with
        | nil => cases spelled
        | cons n ms =>
            obtain ⟨here, same⟩ := List.cons.inj spelled
            obtain ⟨low, each⟩ := List.forall_mem_cons.mp small
            rw [here, sextet?_byteOf_symbol low, ih.mpr ⟨same, each⟩]
            rfl

/-! ## The last group -/

/-- A last group that is read consists of symbols and of filling behind them. -/
theorem eq_of_lastGroup_eq_ok {start place : Nat} {before group : LastGroup} {s : List UInt8}
    (read : lastGroup start place before s = .ok group) :
    ∃ ns k, s = symbols ns ++ List.replicate k fill ∧ (∀ n ∈ ns, n < 64) ∧
      group = ⟨before.sextets ++ ns, before.fills + k⟩ ∧ (0 < before.fills → ns = []) := by
  induction s generalizing place before with
  | nil =>
      cases read
      exact ⟨[], 0, rfl, by simp, by simp, fun _ => rfl⟩
  | cons b rest ih =>
      rw [lastGroup] at read
      split at read
      next isFill =>
        split at read
        next => cases read
        next =>
          obtain ⟨ns, k, same, -, grown, filled⟩ := ih read
          have none_left : ns = [] := filled (Nat.succ_pos _)
          subst none_left
          refine ⟨[], k + 1, by rw [isFill, same]; rfl, by simp, ?_, fun _ => rfl⟩
          rw [grown, Nat.add_assoc, Nat.add_comm 1 k]
      next notFill =>
        split at read
        next => cases read
        next unfilled =>
          split at read
          next => cases read
          next n found =>
            obtain ⟨spelled, small⟩ := eq_of_sextet?_eq_some found
            obtain ⟨ns, k, same, each, grown, filled⟩ := ih read
            refine ⟨n :: ns, k, by rw [spelled, same]; rfl, List.forall_mem_cons.mpr ⟨small, each⟩,
              ?_, fun some_fill => absurd some_fill unfilled⟩
            rw [grown, List.append_assoc]
            rfl

theorem lastGroup_fills (start : Nat) {place : Nat} (far : 2 ≤ place) (before : LastGroup)
    (k : Nat) :
    lastGroup start place before (List.replicate k fill) =
      .ok ⟨before.sextets, before.fills + k⟩ := by
  induction k generalizing place before with
  | zero => rfl
  | succ k ih =>
      rw [List.replicate_succ, lastGroup, if_pos rfl, if_neg (by omega), ih (by omega),
        Nat.add_assoc, Nat.add_comm 1 k]

/-- Symbols and the filling behind them are read, if there are two symbols at least. -/
theorem lastGroup_symbols (start : Nat) {place k : Nat} {before ns : List Nat}
    (small : ∀ n ∈ ns, n < 64) (far : 2 ≤ place + ns.length) :
    lastGroup start place ⟨before, 0⟩ (symbols ns ++ List.replicate k fill) =
      .ok ⟨before ++ ns, k⟩ := by
  induction ns generalizing place before with
  | nil =>
      rw [List.append_nil]
      simpa [symbols] using lastGroup_fills start far ⟨before, 0⟩ k
  | cons n rest ih =>
      obtain ⟨low, each⟩ := List.forall_mem_cons.mp small
      rw [List.length_cons] at far
      have later : lastGroup start (place + 1) ⟨before ++ [n], 0⟩
          (symbols rest ++ List.replicate k fill) = .ok ⟨before ++ [n] ++ rest, k⟩ :=
        ih each (by omega)
      rw [List.append_assoc, List.singleton_append] at later
      rw [symbols, List.map_cons, List.cons_append, lastGroup, if_neg (symbol_ne_fill low),
        if_neg (Nat.lt_irrefl 0), sextet?_byteOf_symbol low]
      exact later

/-! ## Groups -/

theorem toNat_byte {n : Nat} (small : n < 256) : (UInt8.ofNat n).toNat = n :=
  UInt8.toNat_ofNat_of_lt' small

/-- The written form of the three bytes of a whole group. -/
theorem encode_three {a b c d : Nat} (ha : a < 64) (hb : b < 64) (hc : c < 64) (hd : d < 64)
    (rest : List UInt8) :
    encode (UInt8.ofNat (a * 4 + b / 16) :: UInt8.ofNat (b % 16 * 16 + c / 4) ::
        UInt8.ofNat (c % 4 * 64 + d) :: rest) =
      symbol a :: symbol b :: symbol c :: symbol d :: encode rest := by
  have second : (a * 4 + b / 16) % 4 * 16 + (b % 16 * 16 + c / 4) / 16 = b := by omega
  have third : (b % 16 * 16 + c / 4) % 16 * 4 + (c % 4 * 64 + d) / 64 = c := by omega
  rw [encode, toNat_byte (by omega), toNat_byte (by omega), toNat_byte (by omega), second, third,
    show (a * 4 + b / 16) / 4 = a by omega, show (c % 4 * 64 + d) % 64 = d by omega]

/-- The written form of two bytes, where the bits that they do not use are zero. -/
theorem encode_two {a b c : Nat} (ha : a < 64) (hb : b < 64) (hc : c < 64) (unused : c % 4 = 0) :
    encode [UInt8.ofNat (a * 4 + b / 16), UInt8.ofNat (b % 16 * 16 + c / 4)] =
      [symbol a, symbol b, symbol c, '='] := by
  have second : (a * 4 + b / 16) % 4 * 16 + (b % 16 * 16 + c / 4) / 16 = b := by omega
  have third : (b % 16 * 16 + c / 4) % 16 * 4 = c := by omega
  rw [encode, toNat_byte (by omega), toNat_byte (by omega), second, third,
    show (a * 4 + b / 16) / 4 = a by omega]

theorem encode_one {a b : Nat} (ha : a < 64) (hb : b < 64) (unused : b % 16 = 0) :
    encode [UInt8.ofNat (a * 4 + b / 16)] = [symbol a, symbol b, '=', '='] := by
  have second : (a * 4 + b / 16) % 4 * 16 = b := by omega
  rw [encode, toNat_byte (by omega), second, show (a * 4 + b / 16) / 4 = a by omega]

/-- Whole groups of symbols are the written form of their bytes, whatever comes behind them. -/
theorem encode_bytesOf_append {ns : List Nat} (whole : ns.length % 4 = 0)
    (small : ∀ n ∈ ns, n < 64) (rest : List UInt8) :
    encode (bytesOf ns ++ rest) = ns.map symbol ++ encode rest := by
  fun_induction bytesOf ns with
  | case1 a b c d more ih =>
      simp only [List.forall_mem_cons] at small
      obtain ⟨ha, hb, hc, hd, each⟩ := small
      have fewer : more.length % 4 = 0 := by
        simp only [List.length_cons] at whole
        omega
      rw [List.cons_append, List.cons_append, List.cons_append, encode_three ha hb hc hd,
        ih fewer each]
      rfl
  | case2 => simp at whole
  | case3 => simp at whole
  | case4 ns noFour noThree noTwo =>
      cases ns with
      | nil => rfl
      | cons a more =>
          have one : more.length % 4 = 3 := by
            simp only [List.length_cons] at whole
            omega
          match more, one with
          | b :: c :: d :: more, _ => exact absurd rfl (noFour a b c d more)

/-- The symbols and the filling of a last group. -/
def closing (group : LastGroup) : List Char :=
  group.sextets.map symbol ++ List.replicate group.fills '='

/-- A last group that is filled up is the written form of its bytes. -/
theorem encode_closing {group : LastGroup} (small : ∀ n ∈ group.sextets, n < 64)
    (some_symbols : 2 ≤ group.sextets.length) (filled : group.sextets.length + group.fills = 4)
    (unused : unusedBitsZero group.sextets = true) :
    encode (bytesOf group.sextets) = closing group := by
  obtain ⟨ns, k⟩ := group
  dsimp only at small some_symbols filled unused ⊢
  match ns with
  | [] | [_] => simp at some_symbols
  | [a, b] =>
      obtain rfl : k = 2 := Nat.add_left_cancel filled
      simp only [List.forall_mem_cons] at small
      exact encode_one small.1 small.2.1 (beq_iff_eq.mp unused)
  | [a, b, c] =>
      obtain rfl : k = 1 := Nat.add_left_cancel filled
      simp only [List.forall_mem_cons] at small
      exact encode_two small.1 small.2.1 small.2.2.1 (beq_iff_eq.mp unused)
  | [a, b, c, d] =>
      obtain rfl : k = 0 := Nat.add_left_cancel filled
      simp only [List.forall_mem_cons] at small
      exact encode_three small.1 small.2.1 small.2.2.1 small.2.2.2.1 []
  | _ :: _ :: _ :: _ :: _ :: _ =>
      simp only [List.length_cons] at filled
      omega

/-! ## Reading -/

/-- A last group that can be read: two symbols at least, filled up to four, with zeros for the
bits that no byte uses. -/
structure Closes (group : LastGroup) : Prop where
  small : ∀ n ∈ group.sextets, n < 64
  some_symbols : 2 ≤ group.sextets.length
  filled : group.sextets.length + group.fills = 4
  unused : unusedBitsZero group.sextets = true

/-- A text with the bytes that it stands for, either nothing or whole groups and a last one. -/
inductive Grouped : List UInt8 → List UInt8 → Prop where
  | nothing : Grouped [] []
  | groups {ns : List Nat} {group : LastGroup} (whole : ns.length % 4 = 0)
      (small : ∀ n ∈ ns, n < 64) (closes : Closes group) :
      Grouped (symbols ns ++ (symbols group.sextets ++ List.replicate group.fills fill))
        (bytesOf ns ++ bytesOf group.sextets)

/-- One group by itself. -/
theorem Closes.grouped {group : LastGroup} (closes : Closes group) :
    Grouped (symbols group.sextets ++ List.replicate group.fills fill)
      (bytesOf group.sextets) :=
  @Grouped.groups [] group rfl nofun closes

theorem Grouped.eq_encode {s bytes : List UInt8} (h : Grouped s bytes) :
    s = (encode bytes).map byteOf := by
  cases h with
  | nothing => rfl
  | groups whole small closes =>
      rw [encode_bytesOf_append whole small, encode_closing closes.small closes.some_symbols
        closes.filled closes.unused, closing, List.map_append, List.map_append, List.map_map,
        List.map_map, List.map_replicate]
      rfl

theorem grouped_of_decode {s bytes : List UInt8} (read : decode s = .ok bytes) :
    Grouped s bytes := by
  simp only [decode, bind, Except.bind] at read
  split at read
  next => cases read
  split at read
  next => cases read
  next front readFront =>
    split at read
    next => cases read
    next group readLast =>
      obtain ⟨spelled, small⟩ := sextets_eq_ok_iff.mp readFront
      obtain ⟨ns, k, ending, each, rfl, -⟩ := eq_of_lastGroup_eq_ok readLast
      have parts := List.take_append_drop (frontLength s.length) s
      split at read
      next isEmpty =>
        -- There is no last group in the empty text only.
        have long := List.drop_eq_nil_iff.mp (List.isEmpty_iff.mp isEmpty)
        rw [frontLength] at long
        have none_left : s = [] := List.eq_nil_of_length_eq_zero (by omega)
        cases read
        rw [none_left]
        exact .nothing
      split at read
      next => cases read
      next some_symbols =>
        split at read
        next => cases read
        next filled =>
          split at read
          next => cases read
          next unused =>
            have taken := congrArg List.length spelled
            rw [List.length_take, symbols, List.length_map, frontLength] at taken
            have closes : Closes ⟨[] ++ ns, 0 + k⟩ :=
              ⟨each, Nat.le_of_not_lt some_symbols, not_not.mp filled, by simpa using unused⟩
            cases read
            rw [← parts, spelled, ending, ← Nat.zero_add k]
            exact .groups (by omega) small closes

theorem decode_of_grouped {s bytes : List UInt8} (h : Grouped s bytes) :
    decode s = .ok bytes := by
  cases h with
  | nothing => rfl
  | @groups ns group whole small closes =>
      obtain ⟨each, some_symbols, filled, unused⟩ := closes
      have tail : (symbols group.sextets ++ List.replicate group.fills fill).length = 4 := by
        rw [List.length_append, symbols, List.length_map, List.length_replicate, filled]
      have front : frontLength (symbols ns ++
          (symbols group.sextets ++ List.replicate group.fills fill)).length =
            (symbols ns).length := by
        rw [List.length_append, tail, symbols, List.length_map, frontLength]
        omega
      have noStray : strayEnd? (symbols ns ++
          (symbols group.sextets ++ List.replicate group.fills fill)) = none := by
        rw [strayEnd?, List.length_append, tail, symbols, List.length_map, if_neg (by omega)]
      have readFront : sextets 0 (symbols ns) = .ok ns := sextets_eq_ok_iff.mpr ⟨rfl, small⟩
      have readLast : lastGroup (symbols ns).length 0 ⟨[], 0⟩
          (symbols group.sextets ++ List.replicate group.fills fill) =
            .ok ⟨group.sextets, group.fills⟩ :=
        lastGroup_symbols _ each (by omega)
      have present : (symbols group.sextets ++ List.replicate group.fills fill).isEmpty = false :=
        List.isEmpty_eq_false_iff.mpr (List.ne_nil_of_length_pos (by omega))
      simp only [decode, noStray, front, List.take_left, List.drop_left, readFront, readLast,
        present, bind, Except.bind, pure, Except.pure]
      rw [if_neg Bool.false_ne_true, if_neg (Nat.not_lt.mpr some_symbols),
        if_neg (by simpa using filled), if_neg (by simpa using unused)]

/-- The sextets of three bytes. -/
def sextetsOf (a b c : UInt8) : List Nat :=
  [a.toNat / 4, a.toNat % 4 * 16 + b.toNat / 16, b.toNat % 16 * 4 + c.toNat / 64, c.toNat % 64]

theorem bytesOf_sextetsOf (a b c : UInt8) (ns : List Nat) :
    bytesOf (sextetsOf a b c ++ ns) = a :: b :: c :: bytesOf ns := by
  have ha := a.toNat_lt
  have hb := b.toNat_lt
  have hc := c.toNat_lt
  have first : a.toNat / 4 * 4 + (a.toNat % 4 * 16 + b.toNat / 16) / 16 = a.toNat := by omega
  have second : (a.toNat % 4 * 16 + b.toNat / 16) % 16 * 16 +
      (b.toNat % 16 * 4 + c.toNat / 64) / 4 = b.toNat := by omega
  have third : (b.toNat % 16 * 4 + c.toNat / 64) % 4 * 64 + c.toNat % 64 = c.toNat := by omega
  simp only [sextetsOf, List.cons_append, List.nil_append, bytesOf, first, second, third,
    UInt8.ofNat_toNat]

theorem sextetsOf_small (a b c : UInt8) : ∀ n ∈ sextetsOf a b c, n < 64 := by
  have ha := a.toNat_lt
  have hb := b.toNat_lt
  have hc := c.toNat_lt
  simp only [sextetsOf, List.forall_mem_cons]
  exact ⟨by omega, by omega, by omega, by omega, by simp⟩

/-- Any bytes can be put in groups. -/
theorem exists_grouped (bytes : List UInt8) : ∃ s, Grouped s bytes := by
  have byte (b : UInt8) : UInt8.ofNat b.toNat = b := UInt8.ofNat_toNat
  fun_induction encode bytes with
  | case1 => exact ⟨_, .nothing⟩
  | case2 a =>
      have ha := a.toNat_lt
      have closes : Closes ⟨[a.toNat / 4, a.toNat % 4 * 16], 2⟩ :=
        ⟨by simp; omega, by simp, rfl, by simp [unusedBitsZero]⟩
      have grouped := closes.grouped
      have first : a.toNat / 4 * 4 + a.toNat % 4 * 16 / 16 = a.toNat := by omega
      simp only [bytesOf, first, byte] at grouped
      exact ⟨_, grouped⟩
  | case3 a b =>
      have ha := a.toNat_lt
      have hb := b.toNat_lt
      have closes : Closes ⟨[a.toNat / 4, a.toNat % 4 * 16 + b.toNat / 16, b.toNat % 16 * 4], 1⟩ :=
        ⟨by simp; omega, by simp, rfl, by simp [unusedBitsZero]⟩
      have grouped := closes.grouped
      have first : a.toNat / 4 * 4 + (a.toNat % 4 * 16 + b.toNat / 16) / 16 = a.toNat := by omega
      have second : (a.toNat % 4 * 16 + b.toNat / 16) % 16 * 16 + b.toNat % 16 * 4 / 4 =
          b.toNat := by omega
      simp only [bytesOf, first, second, byte] at grouped
      exact ⟨_, grouped⟩
  | case4 a b c rest ih =>
      obtain ⟨s, grouped⟩ := ih
      have small := sextetsOf_small a b c
      cases grouped with
      | nothing =>
          have closes : Closes ⟨sextetsOf a b c, 0⟩ := ⟨small, by simp [sextetsOf], rfl, rfl⟩
          have grouped := closes.grouped
          rw [← List.append_nil (sextetsOf a b c), bytesOf_sextetsOf] at grouped
          exact ⟨_, grouped⟩
      | @groups ns group whole others closes =>
          have more : (sextetsOf a b c ++ ns).length % 4 = 0 := by
            simp only [sextetsOf, List.length_append, List.length_cons, List.length_nil]
            omega
          have grouped := Grouped.groups more (List.forall_mem_append.mpr ⟨small, others⟩) closes
          rw [bytesOf_sextetsOf] at grouped
          exact ⟨_, grouped⟩

/-- Reading accepts the written forms and nothing else. -/
theorem decode_eq_ok_iff {s bytes : List UInt8} :
    decode s = .ok bytes ↔ s = (encode bytes).map byteOf := by
  refine ⟨fun read => (grouped_of_decode read).eq_encode, ?_⟩
  rintro rfl
  obtain ⟨s, grouped⟩ := exists_grouped bytes
  rw [← grouped.eq_encode]
  exact decode_of_grouped grouped

/-! ## Texts -/

theorem symbol_is_ascii (n : Nat) : (symbol n).toNat < 128 := by
  have all : ∀ n < 64, (symbol n).toNat < 128 := by decide +kernel
  rcases Nat.lt_or_ge n 64 with small | large
  · exact all n small
  · have outside : alphabet[n]? = none := List.getElem?_eq_none large
    rw [symbol, List.getD_eq_getElem?_getD, outside]
    decide

theorem encode_is_ascii (bytes : List UInt8) : ∀ c ∈ encode bytes, c.toNat < 128 := by
  fun_induction encode bytes with
  | case1 => simp
  | case2 => simp [symbol_is_ascii]
  | case3 => simp [symbol_is_ascii]
  | case4 a b c rest ih =>
      simp only [List.forall_mem_cons]
      exact ⟨symbol_is_ascii _, symbol_is_ascii _, symbol_is_ascii _, symbol_is_ascii _, ih⟩

/-- Characters below 128 are single bytes. -/
theorem toUTF8_of_ascii {s : List Char} (ascii : ∀ c ∈ s, c.toNat < 128) :
    (String.ofList s).toUTF8.data.toList = s.map byteOf := by
  have single {c : Char} (small : c.toNat < 128) : String.utf8EncodeChar c = [byteOf c] := by
    exact if_pos (Nat.le_of_lt_succ small)
  have bytes : (String.ofList s).toUTF8.data.toList = s.flatMap String.utf8EncodeChar := by
    simp [List.utf8Encode]
  rw [bytes, ← List.flatMap_pure_eq_map]
  exact List.flatMap_congr fun c inside => single (ascii c inside)

/-- A text that is read is the written form of its bytes. -/
theorem toList_of_decode {s : String} {bytes : List UInt8}
    (read : decode s.toUTF8.data.toList = .ok bytes) : s.toList = encode bytes := by
  have spelled := decode_eq_ok_iff.mp read
  rw [← toUTF8_of_ascii (encode_is_ascii bytes)] at spelled
  have same : s.toUTF8 = (String.ofList (encode bytes)).toUTF8 :=
    ByteArray.ext (Array.toList_inj.mp spelled)
  rw [String.toByteArray_inj.mp same, String.toList_ofList]

end LearningStore.Value.Base64
