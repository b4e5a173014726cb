import VbsCompiler.Source.Name
import VbsCompiler.Text.Lowercase

/-! Identifiers of the emitted code and the names they come from. A naming gives every source
name its identifier; two source names mean the same thing exactly when the naming gives them the
same identifier. -/

namespace VbsCompiler

structure Ident where
  text : String
  deriving DecidableEq, Repr

abbrev Naming := Name → Ident

/-- The words an identifier of the emitted code may only spell with an escape. -/
def reservedWords : List String :=
  ["abstract", "base", "bool", "break", "byte", "case", "catch", "char", "checked", "continue",
    "decimal", "default", "delegate", "do", "double", "else", "enum", "event", "explicit",
    "extern", "false", "finally", "fixed", "float", "for", "foreach", "goto", "if", "implicit",
    "in", "int", "interface", "internal", "is", "lock", "long", "namespace", "new", "null",
    "object", "operator", "out", "override", "params", "private", "protected", "public",
    "readonly", "ref", "return", "sbyte", "sealed", "short", "sizeof", "static", "string",
    "struct", "switch", "this", "throw", "true", "try", "typeof", "uint", "ulong", "unchecked",
    "unsafe", "ushort", "using", "virtual", "void", "volatile", "while"]

/-- Source names do not distinguish case, so the identifier is in lower case; a reserved word is
escaped. -/
def caselessNaming : Naming := fun n =>
  let lower := lowercase n.content
  if reservedWords.contains lower then ⟨"@" ++ lower⟩ else ⟨lower⟩

theorem isUpper_of_mem_caselessNaming {n : Name} {d : Char}
    (h : d ∈ (caselessNaming n).text.toList) : d.isUpper = false := by
  simp only [caselessNaming] at h
  split at h
  · rw [String.toList_append] at h
    rcases List.mem_append.mp h with hescape | hlower
    · obtain rfl : d = '@' := by simpa using hescape
      decide
    · exact isUpper_of_mem_lowercase hlower
  · exact isUpper_of_mem_lowercase h

def exactNaming : Naming := fun n =>
  ⟨n.content⟩

structure OutputNames where
  /-- The support library. -/
  support : Ident := ⟨"_"⟩
  envClass : Ident := ⟨"EnvironmentReferences"⟩
  /-- The holder of what the environment provides. -/
  env : Ident := ⟨"_env"⟩
  outerClass : Ident := ⟨"GlobalReferences"⟩
  /-- The holder of what the outermost level declares. -/
  outer : Ident := ⟨"_outer"⟩
  deriving DecidableEq, Repr

/-- The names in order, each kept only where no earlier one has its identifier. -/
def distinctFrom (naming : Naming) (seen : List Ident) : List Name → List Name
  | [] => []
  | n :: rest =>
    if naming n ∈ seen then distinctFrom naming seen rest
    else n :: distinctFrom naming (naming n :: seen) rest

def distinctNames (naming : Naming) (names : List Name) : List Name :=
  distinctFrom naming [] names

end VbsCompiler
