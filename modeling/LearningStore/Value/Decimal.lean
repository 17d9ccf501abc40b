import LearningStore.Text.Letters

/-!
# Binary numbers written in decimal

A `Binary` is a finite number `significand * 2 ^ exponent` with a sign.  Reading
a decimal text gives the nearest number of a format, with a tie going to the even
significand.  Printing gives the shortest decimal that reads back: the first point
inside the interval of reals that round to the number, on the coarsest grid of
powers of ten that has one, and of two such points the nearer.
-/

namespace LearningStore.Value

open LearningStore.Text

/-- A binary format: the bits of a significand, and the exponents of the smallest
and of the largest numbers. -/
structure BinaryFormat where
  precision : Nat
  minExponent : Int
  maxExponent : Int
deriving DecidableEq, Repr

namespace BinaryFormat

def double : BinaryFormat := ⟨53, -1074, 971⟩

def single : BinaryFormat := ⟨24, -149, 104⟩

end BinaryFormat

/-- A finite number `significand * 2 ^ exponent`, or its negative. -/
structure Binary where
  negative : Bool
  significand : Nat
  exponent : Int
deriving DecidableEq, Repr

namespace Binary

def zero (format : BinaryFormat) (negative : Bool) : Binary :=
  ⟨negative, 0, format.minExponent⟩

/-- The bits of the number in its format, as one natural number. -/
def bits (format : BinaryFormat) (x : Binary) : Nat :=
  let hidden := Nat.pow 2 (format.precision - 1)
  let exponentBits := (format.maxExponent - format.minExponent + 2).toNat.log2 + 1
  let biased := (x.exponent - format.minExponent).toNat
  let magnitude :=
    if x.significand < hidden then x.significand
    else biased * hidden + x.significand
  if x.negative then Nat.pow 2 (exponentBits + format.precision - 1) + magnitude else magnitude

/-! ## Reading -/

/-- A quotient rounded to the nearest natural number, a tie to the even one. -/
def roundQuotient (num den : Nat) : Nat :=
  let q := num / den
  let r := num % den
  if 2 * r < den then q else if 2 * r = den then q + q % 2 else q + 1

/-- A quotient divided by a power of two and rounded. -/
def roundScaled (num den : Nat) (exponent : Int) : Nat :=
  match exponent with
  | .ofNat e => roundQuotient num (den * Nat.pow 2 e)
  | .negSucc e => roundQuotient (num * Nat.pow 2 (e + 1)) den

/-- The whole part of a quotient divided by a power of two. -/
def floorScaled (num den : Nat) (exponent : Int) : Nat :=
  match exponent with
  | .ofNat e => num / (den * Nat.pow 2 e)
  | .negSucc e => num * Nat.pow 2 (e + 1) / den

/-- The exponent of the last bit of the number nearest to a positive quotient. -/
def exponentFor (format : BinaryFormat) (num den : Nat) : Int :=
  let guess := (num.log2 : Int) - den.log2 - format.precision
  let fitting := if floorScaled num den guess < Nat.pow 2 format.precision then guess else guess + 1
  max fitting format.minExponent

/-- The number nearest to a positive quotient, unless it is too large. -/
def ofQuotient? (format : BinaryFormat) (negative : Bool) (num den : Nat) : Option Binary :=
  let exponent := exponentFor format num den
  let rounded := roundScaled num den exponent
  let result : Binary :=
    if rounded < Nat.pow 2 format.precision then ⟨negative, rounded, exponent⟩
    else ⟨negative, rounded / 2, exponent + 1⟩
  if format.maxExponent < result.exponent then none else some result

/-- How far from one the power of ten of a decimal may be before its number is
certainly too large, or certainly nearer to zero than to any other. -/
def reach : Int := 400

/-- The number nearest to `digits * 10 ^ power`, unless it is too large. -/
def ofDecimal? (format : BinaryFormat) (negative : Bool) (digits : Nat) (power : Int) :
    Option Binary :=
  if digits = 0 then some (zero format negative)
  else
    let magnitude := ((digitsOf digits).length : Int) + power
    if reach < magnitude then none
    else if magnitude < -reach then some (zero format negative)
    else
      match power with
      | .ofNat p => ofQuotient? format negative (digits * Nat.pow 10 p) 1
      | .negSucc p => ofQuotient? format negative digits (Nat.pow 10 (p + 1))

/-- The power of ten after an exponent letter. -/
def power? : List Char → Option Int
  | [] => some 0
  | c :: rest =>
      if c = 'e' ∨ c = 'E' then
        let (negative, digits) := match rest with
          | '-' :: ds => (true, ds)
          | '+' :: ds => (false, ds)
          | ds => (false, ds)
        if digits.isEmpty || !digits.all isDigit then none
        else
          let n : Int := numberOfDigits digits
          some (if negative then -n else n)
      else none

/-- The number nearest to an unsigned decimal: digits with a point among them or
at an end, at least one digit, and an optional exponent. -/
def unsigned? (format : BinaryFormat) (negative : Bool) (s : List Char) : Option Binary :=
  let whole := s.takeWhile isDigit
  let afterWhole := s.dropWhile isDigit
  let (fraction, tail) := match afterWhole with
    | '.' :: rest => (rest.takeWhile isDigit, rest.dropWhile isDigit)
    | rest => ([], rest)
  if (whole ++ fraction).isEmpty then none
  else
    match power? tail with
    | none => none
    | some power =>
        ofDecimal? format negative (numberOfDigits (whole ++ fraction))
          (power - fraction.length)

/-- The finite number of a format that a decimal text denotes. -/
def read? (format : BinaryFormat) : List Char → Option Binary
  | '-' :: rest => unsigned? format true rest
  | '+' :: rest => unsigned? format false rest
  | s => unsigned? format false s

/-! ## Printing -/

/-- A number and the ends of the interval of reals that round to it, in units of
`2 ^ (exponent - 2)`.  The interval holds its ends if the significand is even. -/
structure Interval where
  low : Nat
  middle : Nat
  high : Nat
  unit : Int
  closed : Bool

/-- The reals that round to a number.  Below a power of two the numbers are twice
as dense. -/
def interval (format : BinaryFormat) (x : Binary) : Interval :=
  let dense := x.significand = Nat.pow 2 (format.precision - 1) ∧ format.minExponent < x.exponent
  { low := 4 * x.significand - (if dense then 1 else 2)
    middle := 4 * x.significand
    high := 4 * x.significand + 2
    unit := x.exponent - 2
    closed := x.significand % 2 = 0 }

/-- The point of a grid to print, if the interval holds one.  The arguments are
the interval's ends and middle and the distance of two grid points, all in one
unit. -/
def gridPoint? (closed : Bool) (low middle high step : Nat) : Option Nat :=
  let inside (n : Nat) : Bool :=
    if closed then low ≤ n * step && n * step ≤ high
    else low < n * step && n * step < high
  let below := middle / step
  match inside below, inside (below + 1) with
  | true, true =>
      some (if 2 * (middle - below * step) < step then below else below + 1)
  | true, false => some below
  | false, true => some (below + 1)
  | false, false => none

/-- `gridPoint?` on the grid of multiples of `10 ^ power`. -/
def decimalPoint? (iv : Interval) (power : Int) : Option Nat :=
  let unitNum := Nat.pow 2 iv.unit.toNat
  let unitDen := Nat.pow 2 (-iv.unit).toNat
  let stepNum := Nat.pow 10 power.toNat
  let stepDen := Nat.pow 10 (-power).toNat
  let scale := unitNum * stepDen
  gridPoint? iv.closed (iv.low * scale) (iv.middle * scale) (iv.high * scale)
    (stepNum * unitDen)

/-- The first grid, from a power of ten downwards, with a point in the interval. -/
def coarsest (iv : Interval) : Nat → Int → Nat × Int
  | 0, power => (0, power)
  | fuel + 1, power =>
      match decimalPoint? iv power with
      | some n => (n, power)
      | none => coarsest iv fuel (power - 1)

/-- The digits and the power of ten of the shortest decimal that reads back. -/
def shortest (format : BinaryFormat) (x : Binary) : Nat × Int :=
  coarsest (interval format x) 720 330

/-- A decimal without an exponent. -/
def positional (digits : Nat) (power : Int) : List Char :=
  let ds := digitsOf digits
  match power with
  | .ofNat p => ds ++ List.replicate p '0'
  | .negSucc p =>
      let places := p + 1
      if places < ds.length then
        ds.take (ds.length - places) ++ '.' :: ds.drop (ds.length - places)
      else '0' :: '.' :: List.replicate (places - ds.length) '0' ++ ds

/-- The shortest decimal text that reads back. -/
def text (format : BinaryFormat) (x : Binary) : String :=
  let magnitude :=
    if x.significand = 0 then ['0']
    else
      let (digits, power) := shortest format x
      positional digits power
  String.ofList (if x.negative then '-' :: magnitude else magnitude)

end Binary

end LearningStore.Value
