/-! Closed ranges of code points, the form in which character classes are tabulated. -/

namespace VbsCompiler

structure CodeRange where
  first : Nat
  last : Nat

def CodeRange.contains (r : CodeRange) (c : Char) : Bool :=
  r.first ≤ c.toNat && c.toNat ≤ r.last

def CodeRange.anyContains (rs : List CodeRange) (c : Char) : Bool :=
  rs.any (·.contains c)

end VbsCompiler
