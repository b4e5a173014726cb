/-! The errors that compiled programs meet while they run. -/

namespace VbsCompiler

inductive ErrorKind where
  | typeMismatch
  | objectVariableNotSet
  | subscriptOutOfRange
  | illegalAssignment
  | nameRedefined
  | objectRequired
  | notSupported
  | wrongNumberOfArguments
  | overflow
  | outOfMemory
  deriving DecidableEq, Repr

def ErrorKind.number : ErrorKind → Nat
  | .typeMismatch => 13
  | .objectVariableNotSet => 91
  | .subscriptOutOfRange => 9
  | .illegalAssignment => 501
  | .nameRedefined => 1041
  | .objectRequired => 424
  | .notSupported => 438
  | .wrongNumberOfArguments => 450
  | .overflow => 6
  | .outOfMemory => 7

def ErrorKind.description : ErrorKind → String
  | .typeMismatch => "Type mismatch"
  | .objectVariableNotSet => "Object variable not set"
  | .subscriptOutOfRange => "Subscript out of range"
  | .illegalAssignment => "Illegal assignment"
  | .nameRedefined => "Name redefined"
  | .objectRequired => "Object required"
  | .notSupported => "Object doesn't support this property or method"
  | .wrongNumberOfArguments => "Wrong number of arguments or invalid property assignment"
  | .overflow => "Overflow"
  | .outOfMemory => "Out of memory"

/-- Argument lists that compiled code must not build. -/
inductive ArgumentFault where
  | noProviders
  | emptyProvider (index : Nat)
  | indexOutOfRange (index count : Nat)
  deriving DecidableEq, Repr

def ArgumentFault.description : ArgumentFault → String
  | .noProviders => "there must be at least one argument provider"
  | .emptyProvider index => s!"argument provider {index} has zero arguments"
  | .indexOutOfRange index count => s!"argument index {index} is out of range for {count} arguments"

inductive ScriptError where
  | raised (kind : ErrorKind) (detail : Option String)
  | arguments (fault : ArgumentFault)
  deriving DecidableEq, Repr

namespace ScriptError

def number : ScriptError → Nat
  | .raised kind _ => kind.number
  | .arguments _ => 5

def message : ScriptError → String
  | .raised kind none => kind.description
  | .raised kind (some detail) => kind.description ++ ": " ++ detail
  | .arguments fault => "Invalid procedure call or argument: " ++ fault.description

def about (kind : ErrorKind) (detail : String) : ScriptError :=
  .raised kind (some detail)

def notSupported (member : String) : ScriptError :=
  about .notSupported s!"'{member}'"

end ScriptError

end VbsCompiler
