import VbsCompiler.Number.Binary64

/-! The shortest decimal text of a double-precision number: the fewest digits that read back as
the same number and, of those, the nearest to it. -/

namespace VbsCompiler

/-- The numbers that round to a positive number, over the denominator `unit`: they lie between
`low` and `high`, and the ends belong to them if `closed`. -/
structure RoundingRange where
  low : Nat
  value : Nat
  high : Nat
  unit : Nat
  closed : Bool

namespace RoundingRange

/-- In quarters of the last place: half a place to each side, except a quarter of a place below a
power of two, where the numbers lie twice as close. -/
def ofBinary64 (x : Binary64) : RoundingRange :=
  let m := x.significand
  let below := if m = Binary64.fractionSize && 1 < x.exponentField then 1 else 2
  let q := x.scale - 2
  let factor := Nat.pow 2 q.toNat
  { low := (4 * m - below) * factor
    value := 4 * m * factor
    high := (4 * m + 2) * factor
    unit := Nat.pow 2 (-q).toNat
    closed := m % 2 = 0 }

def onGrid (r : RoundingRange) (k : Int) : RoundingRange :=
  let up := Nat.pow 10 (-k).toNat
  { low := r.low * up
    value := r.value * up
    high := r.high * up
    unit := r.unit * Nat.pow 10 k.toNat
    closed := r.closed }

def contains (r : RoundingRange) (n : Nat) : Bool :=
  if r.closed then r.low ≤ n * r.unit && n * r.unit ≤ r.high
  else r.low < n * r.unit && n * r.unit < r.high

/-- The multiple of the unit nearest to the value among those in the range; a tie goes up. -/
def nearest? (r : RoundingRange) : Option Nat :=
  let f := r.value / r.unit
  match r.contains f, r.contains (f + 1) with
  | true, true => some (if r.unit ≤ 2 * (r.value % r.unit) then f + 1 else f)
  | true, false => some f
  | false, true => some (f + 1)
  | false, false => none

end RoundingRange

/-- Digits and the power of ten they are multiplied with. The grids are tried from the coarsest
on; on the last one every number is exact. -/
def shortestDigits (x : Binary64) : Nat × Int :=
  let r := RoundingRange.ofBinary64 x
  let found := (List.range 1385).findSome? fun (i : Nat) =>
    let k : Int := 310 - i
    (r.onGrid k).nearest?.map (·, k)
  found.getD (0, 0)

def positional (digits : Nat) (exponent : Int) : String :=
  let ds := Nat.toDigits 10 digits
  if 0 ≤ exponent then String.ofList (ds ++ List.replicate exponent.toNat '0')
  else
    let places := (-exponent).toNat
    let padded := List.replicate (places + 1 - ds.length) '0' ++ ds
    let whole := padded.length - places
    String.ofList (padded.take whole ++ '.' :: padded.drop whole)

/-- Positional notation for every size; whole numbers have no point. -/
def Binary64.text (x : Binary64) : String :=
  if x.isNaN then "NaN"
  else
    let magnitude :=
      if !x.isFinite then "inf"
      else if x.isZero then "0"
      else
        let (digits, exponent) := shortestDigits x
        positional digits exponent
    if x.isNegative then "-" ++ magnitude else magnitude

end VbsCompiler
