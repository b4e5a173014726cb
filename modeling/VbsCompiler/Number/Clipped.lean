import VbsCompiler.Number.Decimal

/-! Numerals evaluated with machine words. Only the leading digits that fit in a word count, and
they are scaled by a power of ten in double precision. Three roundings add up on the way, so next
to the largest number a numeral may be out of range although the number nearest to it is finite,
or in range although that number is infinite. -/

namespace VbsCompiler

namespace Decimal

def wordSize : Nat := 0x10000000000000000

/-- Appends decimal digits to a number as long as it fits in a word; gives the digits from the
first that does not fit as well. -/
def appendDigits (n : Nat) : List Char → Nat × List Char
  | [] => (n, [])
  | c :: rest =>
    let longer := 10 * n + (c.toNat - '0'.toNat)
    if longer < wordSize then appendDigits longer rest else (n, c :: rest)

/-- The numeral with only the digits that fit in a word. A digit left out before the point raises
the exponent by one and a digit taken after it lowers the exponent by one. Digits after the point
are tried even if some before it were left out. -/
def clipped (negative : Bool) (whole fraction : List Char) (exponent : Int) : Decimal :=
  let (n, wholeLeft) := appendDigits 0 whole
  let (m, fractionLeft) := appendDigits n fraction
  ⟨negative, m, exponent + wholeLeft.length - (fraction.length - fractionLeft.length : Nat)⟩

def maxPower : Nat := 308

/-- The digits times the power of ten are finite in double precision. Dividing by a power of ten
always stays finite. -/
def isInRange (d : Decimal) : Bool :=
  if d.digits = 0 || d.exponent < 0 then true
  else if maxPower < d.exponent then false
  else (Binary64.ofNat d.digits).times (.ofNat (Nat.pow 10 d.exponent.toNat)) |>.isFinite

end Decimal

end VbsCompiler
