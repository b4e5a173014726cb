/-! Lines of emitted code. -/

namespace VbsCompiler

/-- A line of emitted code; the source line it comes from, if known, counts from zero. -/
structure Line where
  content : String
  depth : Nat
  origin : Option Nat := none
  deriving DecidableEq, Repr

def indentation (depth : Nat) : String :=
  String.ofList (List.replicate (4 * depth) ' ')

def Line.render (l : Line) : String :=
  indentation l.depth ++ l.content

end VbsCompiler
