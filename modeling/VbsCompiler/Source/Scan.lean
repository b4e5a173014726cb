import VbsCompiler.Source.Atoms
import VbsCompiler.Source.Stretch

/-! Scanning a whole source text. Each stretch gives its own tokens, and the first stretch that
has none decides the error. -/

namespace VbsCompiler

def Stretch.tokens : Stretch → Except ScanError (List Token)
  | .code text line => breakCode text line
  | .literal text line => .ok [⟨.literal (String.ofList text), line⟩]
  | .comment text line => .ok [⟨.comment (String.ofList text), line⟩]
  | .unclosed line => .error (.unclosedLiteral (line + 1))

def tokensOfStretches : List Stretch → Except ScanError (List Token)
  | [] => .ok []
  | s :: rest => do
    let here ← s.tokens
    let later ← tokensOfStretches rest
    return here ++ later

def scan (source : String) : Except ScanError (List Token) :=
  tokensOfStretches (Stretch.ofSource source.toList)

end VbsCompiler
