/-! Names as the source spells them, each with the line it was read from. Two names are compared
by the identifiers they compile to, never by their spelling alone, so nothing here folds case. -/

namespace VbsCompiler

/-- A name of the source. Lines count from zero. -/
structure Name where
  content : String
  line : Nat
  deriving DecidableEq, Repr

def Name.lineNumber (n : Name) : Nat :=
  n.line + 1

inductive Location where
  | outermost
  | function
  | property
  | classBody
  deriving DecidableEq, Repr

/-- The bodies of functions and properties have locals of their own. -/
def Location.isWithinFunction : Location → Bool
  | .function => true
  | .property => true
  | .outermost => false
  | .classBody => false

structure Declaration where
  name : Name
  location : Location
  deriving DecidableEq, Repr

end VbsCompiler
