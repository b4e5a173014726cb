/-! The two ways in which a source text is not a sequence of tokens. Lines count from one. -/

namespace VbsCompiler

inductive ScanError where
  /-- A continuation mark with no line break after it. -/
  | danglingContinuation (line : Nat)
  | unclosedLiteral (line : Nat)
  deriving DecidableEq, Repr

def ScanError.message : ScanError → String
  | .danglingContinuation line =>
    s!"Encountered line-return cancellation that isn't followed by a line return (line {line})"
  | .unclosedLiteral line => s!"Unterminated string literal (line {line})"

end VbsCompiler
