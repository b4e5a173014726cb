import VbsCompiler.Number.Binary64

/-! Decimal numerals and the double-precision numbers they denote. -/

namespace VbsCompiler

/-- A numeral: `digits` times ten to the `exponent`. -/
structure Decimal where
  negative : Bool
  digits : Nat
  exponent : Int
  deriving DecidableEq, Repr

namespace Decimal

def ofDigits (cs : List Char) : Nat :=
  cs.foldl (fun n c => 10 * n + (c.toNat - '0'.toNat)) 0

/-- An exponent mark with a signed whole number, or nothing; gives the rest as well. A mark
without digits is no exponent. -/
def readExponent : List Char → Option (Int × List Char)
  | [] => some (0, [])
  | c :: rest =>
    if c = 'e' || c = 'E' then
      let (negative, body) :=
        match rest with
        | '+' :: r => (false, r)
        | '-' :: r => (true, r)
        | r => (false, r)
      let digits := body.takeWhile Char.isDigit
      if digits.isEmpty then none
      else
        let n : Int := ofDigits digits
        some (if negative then -n else n, body.dropWhile Char.isDigit)
    else some (0, c :: rest)

def readFraction : List Char → List Char × List Char
  | '.' :: rest => (rest.takeWhile Char.isDigit, rest.dropWhile Char.isDigit)
  | cs => ([], cs)

def ofParts (negative : Bool) (whole fraction : List Char) (exponent : Int) : Decimal :=
  ⟨negative, ofDigits (whole ++ fraction), exponent - fraction.length⟩

/-- The numeral that the whole text is: an optional sign, digits with an optional point and a digit
on at least one side of it, an optional exponent. -/
def read? (cs : List Char) : Option Decimal :=
  let (negative, body) :=
    match cs with
    | '+' :: r => (false, r)
    | '-' :: r => (true, r)
    | r => (false, r)
  let whole := body.takeWhile Char.isDigit
  let (fraction, rest) := readFraction (body.dropWhile Char.isDigit)
  if whole.isEmpty && fraction.isEmpty then none
  else
    match readExponent rest with
    | some (exponent, []) => some (ofParts negative whole fraction exponent)
    | _ => none

/-- The nearest double-precision number. Beyond the two limits on the exponent every numeral is
infinite or zero, so large powers of ten are never computed. -/
def toBinary64 (d : Decimal) : Binary64 :=
  if d.digits = 0 then .ofFields d.negative 0
  else if 400 < d.exponent then .ofFields d.negative Binary64.infinityField
  else if d.exponent + d.digits.log2 + 1 < -400 then .ofFields d.negative 0
  else if 0 ≤ d.exponent then .ofQuotient d.negative (d.digits * Nat.pow 10 d.exponent.toNat) 1
  else .ofQuotient d.negative d.digits (Nat.pow 10 (-d.exponent).toNat)

end Decimal

end VbsCompiler
