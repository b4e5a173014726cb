/-! Double-precision binary numbers, kept as their 64 bits, with exact integer arithmetic for
everything that is computed from them. -/

namespace VbsCompiler

/-- The nearest whole number to a quotient; a half goes to the even neighbour. -/
def roundQuotient (num den : Nat) : Nat :=
  let q := num / den
  let r := num % den
  if 2 * r < den then q
  else if den < 2 * r then q + 1
  else if q % 2 = 0 then q
  else q + 1

structure Binary64 where
  bits : UInt64
  deriving DecidableEq, Repr

namespace Binary64

/-- The low 52 bits are the fraction, the 11 bits above them the exponent. -/
def fractionSize : Nat := 0x10000000000000

def exponentSize : Nat := 0x800

def signSize : Nat := 0x8000000000000000

def isNegative (x : Binary64) : Bool :=
  x.bits.toNat / signSize = 1

def exponentField (x : Binary64) : Nat :=
  x.bits.toNat / fractionSize % exponentSize

def fractionField (x : Binary64) : Nat :=
  x.bits.toNat % fractionSize

def isFinite (x : Binary64) : Bool :=
  x.exponentField != 2047

def isNaN (x : Binary64) : Bool :=
  x.exponentField = 2047 && x.fractionField != 0

/-- A finite number is its significand times two to its scale, up to the sign. -/
def significand (x : Binary64) : Nat :=
  if x.exponentField = 0 then x.fractionField else fractionSize + x.fractionField

def scale (x : Binary64) : Int :=
  if x.exponentField = 0 then -1074 else (x.exponentField : Int) - 1075

def isZero (x : Binary64) : Bool :=
  x.exponentField = 0 && x.fractionField = 0

/-- Equality of numbers: the two zeros are equal and a NaN equals nothing. -/
def equals (x y : Binary64) : Bool :=
  !x.isNaN && !y.isNaN && (x.bits = y.bits || (x.isZero && y.isZero))

def roundToInt (x : Binary64) : Int :=
  let magnitude :=
    if 0 ≤ x.scale then x.significand * Nat.pow 2 x.scale.toNat
    else roundQuotient x.significand (Nat.pow 2 (-x.scale).toNat)
  if x.isNegative then -(magnitude : Int) else magnitude

def ofFields (negative : Bool) (rest : Nat) : Binary64 :=
  ⟨UInt64.ofNat ((if negative then signSize else 0) + rest)⟩

def infinityField : Nat :=
  2047 * fractionSize

/-- The nearest number to a positive quotient; a half goes to the even neighbour, and what is too
large becomes infinite. A significand that rounds up to the next power of two carries into the
exponent field by itself. -/
def ofQuotient (negative : Bool) (num den : Nat) : Binary64 :=
  let low : Int := (num.log2 : Int) - den.log2 - 53
  let scaled (q : Int) : Nat × Nat :=
    if 0 ≤ q then (num, den * Nat.pow 2 q.toNat) else (num * Nat.pow 2 (-q).toNat, den)
  let fit : Int := if 2 * fractionSize ≤ (scaled low).1 / (scaled low).2 then low + 1 else low
  let q : Int := max fit (-1074)
  let m := roundQuotient (scaled q).1 (scaled q).2
  ofFields negative (min ((q + 1074).toNat * fractionSize + m) infinityField)

def ofNat (n : Nat) : Binary64 :=
  if n = 0 then ofFields false 0 else ofQuotient false n 1

def times (x y : Binary64) : Binary64 :=
  let negative := x.isNegative != y.isNegative
  let m := x.significand * y.significand
  let q := x.scale + y.scale
  if m = 0 then ofFields negative 0
  else if 0 ≤ q then ofQuotient negative (m * Nat.pow 2 q.toNat) 1
  else ofQuotient negative m (Nat.pow 2 (-q).toNat)

end Binary64

end VbsCompiler
