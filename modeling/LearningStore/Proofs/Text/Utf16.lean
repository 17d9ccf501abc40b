import LearningStore.Text.Utf16
import Mathlib.Data.List.Basic

/-!
# Texts in UTF-16

Every text has one sequence of 16-bit units, and only that sequence is decoded to it.  Every
sequence of 16-bit units has one sequence of bytes in either order.
-/

namespace LearningStore.Text.Utf16

/-! ## Units -/

theorem toNat_ofNat {n : Nat} (valid : n.isValidChar) : (Char.ofNat n).toNat = n := by
  rw [Char.ofNat, dif_pos valid]
  rfl

/-- The high surrogate of a character beyond the 16-bit ones. -/
def highUnit (c : Char) : Nat :=
  0xD800 + (c.toNat - 0x10000) / 0x400

/-- The low surrogate of a character beyond the 16-bit ones. -/
def lowUnit (c : Char) : Nat :=
  0xDC00 + (c.toNat - 0x10000) % 0x400

/-- The units of a character. -/
def charUnits (c : Char) : List Nat :=
  if c.toNat < 0x10000 then [c.toNat] else [highUnit c, lowUnit c]

/-- The units of a text. -/
def units (s : List Char) : List Nat :=
  s.flatMap charUnits

/-- A sequence of 16-bit units. -/
def Wide (us : List Nat) : Prop :=
  ∀ u ∈ us, u < 0x10000

section Surrogates

variable {u high low : Nat}

theorem isHighSurrogate_iff : isHighSurrogate u = true ↔ 0xD800 ≤ u ∧ u ≤ 0xDBFF := by
  simp only [isHighSurrogate, Bool.and_eq_true, decide_eq_true_iff]

theorem isLowSurrogate_iff : isLowSurrogate u = true ↔ 0xDC00 ≤ u ∧ u ≤ 0xDFFF := by
  simp only [isLowSurrogate, Bool.and_eq_true, decide_eq_true_iff]

/-- The number of the character of a surrogate pair. -/
theorem toNat_pairedChar (highs : isHighSurrogate high = true) (lows : isLowSurrogate low = true) :
    (pairedChar high low).toNat = 0x10000 + (high - 0xD800) * 0x400 + (low - 0xDC00) := by
  rw [isHighSurrogate_iff] at highs
  rw [isLowSurrogate_iff] at lows
  exact toNat_ofNat (.inr ⟨by omega, by omega⟩)

/-- A 16-bit unit that is no surrogate is the number of a character. -/
theorem toNat_ofNat_of_unpaired (wide : u < 0x10000) (notHigh : isHighSurrogate u = false)
    (notLow : isLowSurrogate u = false) : (Char.ofNat u).toNat = u := by
  rw [Bool.eq_false_iff, ne_eq, isHighSurrogate_iff] at notHigh
  rw [Bool.eq_false_iff, ne_eq, isLowSurrogate_iff] at notLow
  refine toNat_ofNat ?_
  by_cases below : u < 0xD800
  · exact .inl below
  · exact .inr ⟨by omega, by omega⟩

/-- No character has the number of a surrogate. -/
theorem unpaired_toNat (c : Char) :
    isHighSurrogate c.toNat = false ∧ isLowSurrogate c.toNat = false := by
  have valid : c.toNat < 0xD800 ∨ 0xDFFF < c.toNat ∧ c.toNat < 0x110000 := c.valid
  rw [Bool.eq_false_iff, Bool.eq_false_iff, ne_eq, ne_eq, isHighSurrogate_iff, isLowSurrogate_iff]
  constructor <;> omega

end Surrogates

section Beyond

variable {c : Char}

/-- A character beyond the 16-bit ones has a high and a low surrogate. -/
theorem surrogates_of_beyond (beyond : 0x10000 ≤ c.toNat) :
    isHighSurrogate (highUnit c) = true ∧ isLowSurrogate (lowUnit c) = true := by
  have valid : c.toNat < 0xD800 ∨ 0xDFFF < c.toNat ∧ c.toNat < 0x110000 := c.valid
  have rest : (c.toNat - 0x10000) % 0x400 < 0x400 := Nat.mod_lt _ (by decide)
  rw [isHighSurrogate_iff, isLowSurrogate_iff, highUnit, lowUnit]
  constructor <;> omega

theorem pairedChar_units (beyond : 0x10000 ≤ c.toNat) :
    pairedChar (highUnit c) (lowUnit c) = c := by
  obtain ⟨highs, lows⟩ := surrogates_of_beyond beyond
  rw [← Char.toNat_inj, toNat_pairedChar highs lows, highUnit, lowUnit, Nat.add_sub_cancel_left,
    Nat.add_sub_cancel_left, Nat.mul_comm, Nat.add_assoc, Nat.div_add_mod]
  omega

end Beyond

/-- A pair is the units of its character. -/
theorem charUnits_pairedChar {high low : Nat} (highs : isHighSurrogate high = true)
    (lows : isLowSurrogate low = true) : charUnits (pairedChar high low) = [high, low] := by
  have number := toNat_pairedChar highs lows
  rw [isHighSurrogate_iff] at highs
  rw [isLowSurrogate_iff] at lows
  have beyond : ¬ (pairedChar high low).toNat < 0x10000 := by omega
  have front : highUnit (pairedChar high low) = high := by
    rw [highUnit, number]
    omega
  have back : lowUnit (pairedChar high low) = low := by
    rw [lowUnit, number]
    omega
  rw [charUnits, if_neg beyond, front, back]

theorem charUnits_ofNat {u : Nat} (wide : u < 0x10000) (notHigh : isHighSurrogate u = false)
    (notLow : isLowSurrogate u = false) : charUnits (Char.ofNat u) = [u] := by
  have number := toNat_ofNat_of_unpaired wide notHigh notLow
  rw [charUnits, number, if_pos wide]

theorem wide_charUnits (c : Char) : Wide (charUnits c) := by
  have valid : c.toNat < 0xD800 ∨ 0xDFFF < c.toNat ∧ c.toNat < 0x110000 := c.valid
  unfold charUnits
  split
  next small => exact List.forall_mem_singleton.mpr small
  next =>
    have rest : (c.toNat - 0x10000) % 0x400 < 0x400 := Nat.mod_lt _ (by decide)
    refine List.forall_mem_cons.mpr ⟨?_, List.forall_mem_singleton.mpr ?_⟩
    · rw [highUnit]; omega
    · rw [lowUnit]; omega

theorem wide_units (s : List Char) : Wide (units s) := fun u member => by
  obtain ⟨c, -, inside⟩ := List.mem_flatMap.mp member
  exact wide_charUnits c u inside

/-! ## Decoding units -/

theorem decodeUnits_unpaired {u : Nat} (notHigh : isHighSurrogate u = false)
    (notLow : isLowSurrogate u = false) (us : List Nat) :
    decodeUnits (u :: us) = (decodeUnits us).map (Char.ofNat u :: ·) := by
  cases us with
  | nil => simp only [decodeUnits, notHigh, notLow, Bool.or_self, Bool.false_eq_true, if_false,
      Option.map_some]
  | cons next rest => simp only [decodeUnits, notHigh, notLow, Bool.false_eq_true, if_false]

theorem decodeUnits_pair {high low : Nat} (highs : isHighSurrogate high = true)
    (lows : isLowSurrogate low = true) (us : List Nat) :
    decodeUnits (high :: low :: us) = (decodeUnits us).map (pairedChar high low :: ·) := by
  rw [decodeUnits, if_pos highs, if_pos lows]

/-- The units of a character are decoded to it, whatever comes behind. -/
theorem decodeUnits_charUnits (c : Char) (us : List Nat) :
    decodeUnits (charUnits c ++ us) = (decodeUnits us).map (c :: ·) := by
  unfold charUnits
  split
  next =>
    obtain ⟨notHigh, notLow⟩ := unpaired_toNat c
    rw [List.singleton_append, decodeUnits_unpaired notHigh notLow, Char.ofNat_toNat]
  next small =>
    have beyond : 0x10000 ≤ c.toNat := Nat.le_of_not_lt small
    obtain ⟨highs, lows⟩ := surrogates_of_beyond beyond
    rw [List.cons_append, List.singleton_append, decodeUnits_pair highs lows,
      pairedChar_units beyond]

theorem decodeUnits_units (s : List Char) : decodeUnits (units s) = some s := by
  induction s with
  | nil => rfl
  | cons c rest ih => rw [units, List.flatMap_cons, decodeUnits_charUnits, ← units, ih]; rfl

/-- What is decoded to a text are its units.  The cases are those of the decoder. -/
theorem eq_units_of_decodeUnits {us : List Nat} (wide : Wide us) :
    ∀ {s : List Char}, decodeUnits us = some s → us = units s := by
  induction us using decodeUnits.induct with
  | case1 =>
      rintro s ⟨⟩
      rfl
  | case2 u surrogate =>
      intro s decoded
      rw [decodeUnits, if_pos surrogate] at decoded
      cases decoded
  | case3 u unpaired =>
      intro s decoded
      obtain ⟨notHigh, notLow⟩ := Bool.or_eq_false_iff.mp (Bool.eq_false_iff.mpr unpaired)
      rw [decodeUnits, if_neg unpaired] at decoded
      cases decoded
      rw [units, List.flatMap_singleton,
        charUnits_ofNat (wide u (List.mem_singleton_self u)) notHigh notLow]
  | case4 high low rest highs lows ih =>
      intro s decoded
      rw [decodeUnits_pair highs lows] at decoded
      obtain ⟨s', decoded', rfl⟩ := Option.map_eq_some_iff.mp decoded
      have behind : Wide rest := fun v member =>
        wide v (List.mem_cons_of_mem _ (List.mem_cons_of_mem _ member))
      rw [units, List.flatMap_cons, charUnits_pairedChar highs lows, ← units,
        ← ih behind decoded']
      rfl
  | case5 high low rest highs notLow =>
      intro s decoded
      rw [decodeUnits, if_pos highs, if_neg notLow] at decoded
      cases decoded
  | case6 u next rest notHigh lows =>
      intro s decoded
      rw [decodeUnits, if_neg notHigh, if_pos lows] at decoded
      cases decoded
  | case7 u next rest notHigh notLow ih =>
      intro s decoded
      have unpaired := Bool.eq_false_iff.mpr notHigh
      have unpaired' := Bool.eq_false_iff.mpr notLow
      rw [decodeUnits_unpaired unpaired unpaired'] at decoded
      obtain ⟨s', decoded', rfl⟩ := Option.map_eq_some_iff.mp decoded
      obtain ⟨first, behind⟩ := List.forall_mem_cons.mp wide
      rw [units, List.flatMap_cons, charUnits_ofNat first unpaired unpaired', ← units,
        ← ih behind decoded']
      rfl

theorem decodeUnits_eq_some_iff {us : List Nat} {s : List Char} (wide : Wide us) :
    decodeUnits us = some s ↔ us = units s := by
  constructor
  · exact eq_units_of_decodeUnits wide
  · rintro rfl
    exact decodeUnits_units s

/-! ## Bytes -/

/-- The bytes of units, low byte first. -/
def bytesLowFirst (us : List Nat) : List UInt8 :=
  us.flatMap fun u => [UInt8.ofNat (u % 256), UInt8.ofNat (u / 256)]

/-- The bytes of units, high byte first. -/
def bytesHighFirst (us : List Nat) : List UInt8 :=
  us.flatMap fun u => [UInt8.ofNat (u / 256), UInt8.ofNat (u % 256)]

section Bytes

variable {u : Nat} {us : List Nat}

theorem bytesLowFirst_cons : bytesLowFirst (u :: us) =
    UInt8.ofNat (u % 256) :: UInt8.ofNat (u / 256) :: bytesLowFirst us := rfl

theorem bytesHighFirst_cons : bytesHighFirst (u :: us) =
    UInt8.ofNat (u / 256) :: UInt8.ofNat (u % 256) :: bytesHighFirst us := rfl

theorem unit_of_bytes (wide : u < 0x10000) :
    (UInt8.ofNat (u / 256)).toNat * 256 + (UInt8.ofNat (u % 256)).toNat = u := by
  rw [UInt8.toNat_ofNat_of_lt' (by omega : u / 256 < 256),
    UInt8.toNat_ofNat_of_lt' (Nat.mod_lt u (by decide)), Nat.div_add_mod']

theorem bytes_of_unit (high low : UInt8) :
    UInt8.ofNat ((high.toNat * 256 + low.toNat) / 256) = high ∧
      UInt8.ofNat ((high.toNat * 256 + low.toNat) % 256) = low := by
  have small : low.toNat < 256 := low.toNat_lt
  constructor
  · rw [Nat.add_comm, Nat.add_mul_div_right _ _ (by decide), Nat.div_eq_of_lt small, Nat.zero_add,
      UInt8.ofNat_toNat]
  · rw [Nat.mul_add_mod_self_right, Nat.mod_eq_of_lt small, UInt8.ofNat_toNat]

theorem wide_unit (high low : UInt8) : high.toNat * 256 + low.toNat < 0x10000 := by
  have := high.toNat_lt
  have := low.toNat_lt
  omega

end Bytes

theorem unitsLowFirst_eq_some_iff {bytes : List UInt8} {us : List Nat} :
    unitsLowFirst bytes = some us ↔ Wide us ∧ bytes = bytesLowFirst us := by
  constructor
  · intro read
    induction bytes using unitsLowFirst.induct generalizing us with
    | case1 =>
        cases read
        exact ⟨List.forall_mem_nil _, rfl⟩
    | case2 => cases read
    | case3 low high rest ih =>
        obtain ⟨us', read', rfl⟩ := Option.map_eq_some_iff.mp read
        obtain ⟨wide, rfl⟩ := ih read'
        obtain ⟨front, back⟩ := bytes_of_unit high low
        refine ⟨List.forall_mem_cons.mpr ⟨wide_unit high low, wide⟩, ?_⟩
        rw [bytesLowFirst_cons, front, back]
  · rintro ⟨wide, rfl⟩
    induction us with
    | nil => rfl
    | cons u rest ih =>
        obtain ⟨first, behind⟩ := List.forall_mem_cons.mp wide
        rw [bytesLowFirst_cons, unitsLowFirst, ih behind, unit_of_bytes first]
        rfl

theorem unitsHighFirst_eq_some_iff {bytes : List UInt8} {us : List Nat} :
    unitsHighFirst bytes = some us ↔ Wide us ∧ bytes = bytesHighFirst us := by
  constructor
  · intro read
    induction bytes using unitsHighFirst.induct generalizing us with
    | case1 =>
        cases read
        exact ⟨List.forall_mem_nil _, rfl⟩
    | case2 => cases read
    | case3 high low rest ih =>
        obtain ⟨us', read', rfl⟩ := Option.map_eq_some_iff.mp read
        obtain ⟨wide, rfl⟩ := ih read'
        obtain ⟨front, back⟩ := bytes_of_unit high low
        refine ⟨List.forall_mem_cons.mpr ⟨wide_unit high low, wide⟩, ?_⟩
        rw [bytesHighFirst_cons, front, back]
  · rintro ⟨wide, rfl⟩
    induction us with
    | nil => rfl
    | cons u rest ih =>
        obtain ⟨first, behind⟩ := List.forall_mem_cons.mp wide
        rw [bytesHighFirst_cons, unitsHighFirst, ih behind, unit_of_bytes first]
        rfl

end LearningStore.Text.Utf16
