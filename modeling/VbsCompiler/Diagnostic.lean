/-! Remarks about a program that do not stop its compilation. -/

namespace VbsCompiler

inductive Severity where
  | warning
  | message
  deriving DecidableEq, Repr

def Severity.name : Severity → String
  | .warning => "warning"
  | .message => "message"

/-- A remark; the line, if known, counts from one. -/
structure Diagnostic where
  severity : Severity
  text : String
  line : Option Nat
  deriving DecidableEq, Repr

namespace Diagnostic

def warning (text : String) (line : Option Nat) : Diagnostic :=
  ⟨.warning, text, line⟩

def undeclaredVariable (content : String) (line : Nat) : Diagnostic :=
  warning s!"Undeclared variable: \"{content}\" (line {line})" (some line)

def display (d : Diagnostic) : String :=
  d.severity.name ++ ": " ++ d.text

end Diagnostic

end VbsCompiler
