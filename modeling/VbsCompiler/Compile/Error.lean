import VbsCompiler.Source.Block
import VbsCompiler.Source.ScanError

/-! Why a program does not compile. -/

namespace VbsCompiler

inductive CompileError where
  /-- The name is declared before on the same level. -/
  | nameRedefined (name : Name)
  /-- There is nothing around the statement that it could leave. -/
  | invalidExit (kind : ExitKind) (line : Nat)
  /-- The routine is not directly in the outermost level. -/
  | nestedRoutine (name : Name)
  | emptyWithTarget
  /-- The loop to leave is not the nearest and has no flag. -/
  | flaglessExit (kind : ExitKind) (line : Nat)
  /-- An ON ERROR statement outside of any error-trapping frame. -/
  | untrappedOnError (line : Nat)
  /-- An expression has no rendering; the line counts from one. -/
  | expression (reason : String) (line : Nat)
  | scan (error : ScanError)
  deriving DecidableEq, Repr

def CompileError.message : CompileError → String
  | .nameRedefined name => s!"Name redefined: '{name.content}' (line {name.lineNumber})"
  | .invalidExit kind line => s!"{kind.statement} is not valid here (line {line + 1})"
  | .nestedRoutine name =>
    s!"Invalid content: '{name.content}' must be declared in the outermost scope " ++
      s!"(line {name.lineNumber})"
  | .emptyWithTarget => "Invalid content: WITH block has an empty target"
  | .flaglessExit kind line =>
    s!"Invalid content: {kind.statement} at line {line + 1} targets a loop with no early-exit flag"
  | .untrappedOnError line =>
    s!"Invalid content: ON ERROR outside of an error-trapping scope (line {line + 1})"
  | .expression reason line => s!"Expression translation failed (line {line}): {reason}"
  | .scan error => error.message

end VbsCompiler
