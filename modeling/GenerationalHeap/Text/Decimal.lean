/-
Decimal text of binary fractions, in exact arithmetic on natural numbers.

* `Binary` — a float taken apart: a sign and the value `mantissa * 2 ^ exponent`.
* `Decimal.shortest` — the fewest significant digits that read back as the
  same float, and of those the nearest to it. A float can lie halfway between
  two of them; `Tie` says which one is written then.
* `Decimal.roundDiv` — a quotient rounded to the nearest number, a tie going
  to the even neighbour.
* `fixed` — a float with a given number of decimal places.
* `Style`, `Style.render` — a float in its shortest digits, laid out in the
  way of one output format.

Design notes: a float is an interval of reals, those that round to it. A
decimal reads back as the float if it lies in the interval, so the shortest
text comes from the coarsest power of ten whose grid meets it.
-/

namespace GenerationalHeap.Text

-- In this module, powers of natural numbers are those of the core library, whatever else is
-- imported.
attribute [local instance (high)] instPowNat

/-! ### Floats taken apart -/

/-- The magnitude of a float: what its bits mean without the sign. -/
inductive Magnitude where
  | nan
  | infinite
  /-- The number `mantissa * 2 ^ exponent`. The next float below is only half
  a step away if `closeBelow`. -/
  | finite (mantissa : Nat) (exponent : Int) (closeBelow : Bool)

/-- A float as a sign and a magnitude. -/
structure Binary where
  negative : Bool
  magnitude : Magnitude

namespace Binary

/-- The parts of a double-precision float: one sign bit, eleven bits of
exponent and fifty-two bits of fraction. -/
def ofFloat (x : Float) : Binary :=
  let bits := x.toBits.toNat
  let biased : Nat := bits / 2 ^ (52 : Nat) % 2 ^ (11 : Nat)
  let fraction : Nat := bits % 2 ^ (52 : Nat)
  { negative := bits / 2 ^ (63 : Nat) == 1
    magnitude :=
      if biased = 2 ^ (11 : Nat) - 1 then
        if fraction = 0 then .infinite else .nan
      else if biased = 0 then .finite fraction (-1074) false
      else .finite (2 ^ (52 : Nat) + fraction) (biased - 1075) (fraction == 0 && biased > 1) }

end Binary

/-! ### Rounding -/

namespace Decimal

/-- Which of two neighbours is taken for a number halfway between them. -/
inductive Tie where
  /-- The one whose last digit is even. -/
  | toEven
  /-- The one that is further from zero. -/
  | away
  deriving DecidableEq

/-- The neighbour of a number halfway between `count` and `count + 1`. -/
def Tie.choose (tie : Tie) (count : Nat) : Nat :=
  if tie = .toEven ∧ count % 2 = 0 then count else count + 1

/-- The quotient `num / den` rounded to the nearest number; a tie goes to the
even neighbour. -/
def roundDiv (num den : Nat) : Nat :=
  let q := num / den
  let twice := 2 * (num % den)
  if twice < den then q
  else if twice > den then q + 1
  else Tie.toEven.choose q

/-- The number of decimal digits of `n`; none for zero. -/
def digitCount (n : Nat) : Nat := if n = 0 then 0 else (Nat.toDigits 10 n).length

/-- The exponent `e` with `10 ^ e ≤ num / den < 10 ^ (e + 1)`, for a quotient
above zero. -/
def magnitude (num den : Nat) : Int :=
  if den ≤ num then digitCount (num / den) - 1
  else -(digitCount ((den - 1) / num))

/-- Decimal digits and the position of the point: `0.d₁d₂… * 10 ^ point`. The
first digit and the last are not zero, except in `0` itself. -/
structure Digits where
  digits : List Char
  point : Int

/-- The number `count * 10 ^ exponent` as digits. -/
def Digits.ofScaled (count : Nat) (exponent : Int) : Digits :=
  let all := Nat.toDigits 10 count
  { digits := (all.reverse.dropWhile (· == '0')).reverse
    point := all.length + exponent }

/-- The nearest number of the grid of multiples of `10 ^ exponent` that lies
in the interval from `low` to `high` around `num / den`, all three over the
denominator `den`; the ends belong to the interval if `closed`. -/
def onGrid? (tie : Tie) (num low high den : Nat) (closed : Bool) (exponent : Int) :
    Option Nat :=
  let up := 10 ^ (-exponent).toNat
  let den := den * 10 ^ exponent.toNat
  let count := num * up / den
  let belowFits := if closed then low * up ≤ count * den else low * up < count * den
  let aboveFits := if closed then (count + 1) * den ≤ high * up else (count + 1) * den < high * up
  if belowFits then
    if aboveFits then
      let below := num * up - count * den
      let above := (count + 1) * den - num * up
      if below < above then some count
      else if above < below then some (count + 1)
      else some (tie.choose count)
    else some count
  else if aboveFits then some (count + 1)
  else none

/-- The shortest digits of `mantissa * 2 ^ exponent`, a number above zero.
Seventeen digits always suffice for a double. -/
def shortest (tie : Tie) (mantissa : Nat) (exponent : Int) (closeBelow : Bool) : Digits :=
  let up := 2 ^ exponent.toNat
  let den := 4 * 2 ^ (-exponent).toNat
  let num := 4 * mantissa * up
  let low := (4 * mantissa - if closeBelow then 1 else 2) * up
  let high := (4 * mantissa + 2) * up
  let top := magnitude num den
  let grid (count : Nat) : Int := top - count
  let found := (List.range 17).findSome? fun n =>
    (onGrid? tie num low high den (mantissa % 2 == 0) (grid n)).map (·, grid n)
  let (count, e) := found.getD (roundDiv num den, 0)
  .ofScaled count e

end Decimal

/-! ### Layouts -/

/-- How a format lays out the digits of a float. -/
structure Style where
  /-- The text of a number that is not finite, from its sign and whether it is
  a number at all. -/
  notFinite : (negative : Bool) → (isNaN : Bool) → String
  /-- What follows the digits of a whole number. -/
  wholeEnd : String
  /-- Whether a number whose first digit stands for `10 ^ e` is written without
  an exponent. -/
  positional : Int → Bool
  /-- Which digits are written for a float halfway between two shortest ones. -/
  tie : Decimal.Tie

namespace Style

/-- The digits with the point put into its place. -/
def placePoint (s : Style) (d : Decimal.Digits) : String :=
  if d.point ≤ 0 then
    "0." ++ String.ofList (List.replicate (-d.point).toNat '0' ++ d.digits)
  else
    let whole := d.digits.take d.point.toNat
    let zeros := List.replicate (d.point.toNat - d.digits.length) '0'
    let rest := d.digits.drop d.point.toNat
    String.ofList (whole ++ zeros)
      ++ if rest.isEmpty then s.wholeEnd else "." ++ String.ofList rest

/-- The digits with a power of ten behind them, whose sign is always written. -/
def withExponent (d : Decimal.Digits) : String :=
  let e := d.point - 1
  let rest := d.digits.drop 1
  String.ofList (d.digits.take 1)
    ++ (if rest.isEmpty then "" else "." ++ String.ofList rest)
    ++ (if e < 0 then "e-" else "e+") ++ toString e.natAbs

/-- The text of a float in a style. -/
def render (s : Style) (x : Float) : String :=
  let b := Binary.ofFloat x
  let sign := if b.negative then "-" else ""
  match b.magnitude with
  | .nan => s.notFinite b.negative true
  | .infinite => s.notFinite b.negative false
  | .finite 0 _ _ => sign ++ "0" ++ s.wholeEnd
  | .finite m e close =>
    let d := Decimal.shortest s.tie m e close
    sign ++ if s.positional (d.point - 1) then s.placePoint d else withExponent d

end Style

/-! ### Fixed places -/

/-- The text of a count of `10 ^ -places`. -/
def placed (count places : Nat) : String :=
  let whole := toString (count / 10 ^ places)
  if places = 0 then whole
  else
    let digits := Nat.toDigits 10 (count % 10 ^ places)
    whole ++ "." ++ String.ofList (List.replicate (places - digits.length) '0' ++ digits)

/-- A float with a fixed number of decimal places, rounded from its exact
value with ties to even. -/
def fixed (places : Nat) (x : Float) : String :=
  let b := Binary.ofFloat x
  let sign := if b.negative then "-" else ""
  match b.magnitude with
  | .nan => "NaN"
  | .infinite => sign ++ "inf"
  | .finite m e _ =>
    let num := m * 2 ^ e.toNat * 10 ^ places
    sign ++ placed (Decimal.roundDiv num (2 ^ (-e).toNat)) places

end GenerationalHeap.Text
