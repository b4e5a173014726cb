import VbsCompiler.Number.Decimal
import VbsCompiler.Number.Shortest
import VbsCompiler.Support.Error
import VbsCompiler.Text.Blank

/-! The values of running programs. Arrays and objects are references: a value holds only which
array or object it is. -/

namespace VbsCompiler

inductive MemberKind where
  | method
  | property
  deriving DecidableEq, Repr

structure Signature where
  name : String
  kind : MemberKind
  /-- The positions of the parameters that are passed by reference. -/
  byRef : List Nat := []
  deriving DecidableEq, Repr

structure ObjectRef where
  id : Nat
  typeName : String
  /-- The member that is meant when the object is indexed. -/
  defaultMember : Option String
  members : List Signature
  deriving DecidableEq, Repr

namespace ObjectRef

def member? (o : ObjectRef) (name : String) : Option Signature :=
  o.members.find? (·.name = name)

def passesByRef (o : ObjectRef) (name : String) (index : Nat) : Bool :=
  (o.member? name).any (·.byRef.contains index)

end ObjectRef

structure ArrayRef where
  id : Nat
  deriving DecidableEq, Repr

inductive Value where
  /-- The value of a variable that was never assigned. -/
  | empty
  | null
  /-- The object reference that refers to no object. -/
  | nothing
  | boolean (value : Bool)
  | long (value : Int32)
  | double (value : Binary64)
  | string (value : String)
  | array (ref : ArrayRef)
  | object (ref : ObjectRef)
  deriving DecidableEq

instance : Inhabited Value := ⟨.empty⟩

inductive Capability where
  | array
  /-- An object that can be indexed. -/
  | defaultMember
  | object
  | nothing
  | uninitialized
  | scalar
  deriving DecidableEq, Repr

namespace Value

def capability : Value → Capability
  | .array _ => .array
  | .object o => if o.defaultMember.isSome then .defaultMember else .object
  | .nothing => .nothing
  | .empty => .uninitialized
  | _ => .scalar

def isArray : Value → Bool
  | .array _ => true
  | _ => false

def describe : Value → String
  | .empty => "Empty"
  | .null => "Null"
  | .nothing => "Nothing"
  | .boolean value => if value then "[boolean: True]" else "[boolean: False]"
  | .long value => s!"[number: {value.toInt}]"
  | .double value => s!"[number: {value.text}]"
  | .string value => "[string: \"" ++ value ++ "\"]"
  | .array _ => "Array"
  | .object o => o.typeName

/-- Scalars are equal by value, arrays and objects if they are the same one. -/
def equals : Value → Value → Bool
  | .empty, .empty => true
  | .null, .null => true
  | .nothing, .nothing => true
  | .boolean a, .boolean b => a = b
  | .long a, .long b => a = b
  | .double a, .double b => a.equals b
  | .string a, .string b => a = b
  | .array a, .array b => a = b
  | .object a, .object b => a.id = b.id
  | _, _ => false

def mismatch (v : Value) : ScriptError :=
  .about .typeMismatch s!"'{v.describe}'"

def minIndex : Int := -0x80000000

def maxIndex : Int := 0x7fffffff

/-- The nearest whole number, a half to the even one, if it is a subscript. -/
def roundToIndex (x : Binary64) : Except ScriptError Int32 :=
  let n := x.roundToInt
  if n < minIndex ∨ maxIndex < n then .error (.about .overflow s!"'{x.text}'")
  else .ok (Int32.ofInt n)

def toIndex (v : Value) : Except ScriptError Int32 :=
  match v with
  | .empty => .ok 0
  | .boolean value => .ok (if value then -1 else 0)
  | .long value => .ok value
  | .double x => if x.isFinite then roundToIndex x else .error v.mismatch
  | .string s =>
    match Decimal.read? (trimBlanks s.toList) with
    | some d => if d.toBinary64.isFinite then roundToIndex d.toBinary64 else .error v.mismatch
    | none => .error v.mismatch
  | _ => .error v.mismatch

end Value

end VbsCompiler
