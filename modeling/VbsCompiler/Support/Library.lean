import VbsCompiler.Support.Access

/-! The support library that compiled code calls. -/

namespace VbsCompiler

structure Library (σ : Type) where
  access : Access σ

namespace Library

variable {σ : Type}

def call (lib : Library σ) (target : Value) (path : List String) (args : Arguments σ) :
    Action σ Value :=
  lib.access.call none target path args

def set (lib : Library σ) (value target : Value) (member : Option String) (args : Arguments σ) :
    Action σ Unit :=
  lib.access.set none value target member args

/-- The array that an array function works on: the operand, or what the default member of an
object gives, which is asked only once. -/
def resolveArray (lib : Library σ) (v : Value) (function : String) : Action σ ArrayRef := do
  let resolved ←
    match v with
    | .object object =>
      match object.defaultMember with
      | some member => lib.access.call none v [member] .none
      | none => throw (.about .typeMismatch s!"'{function}' of {v.describe}")
    | _ => pure v
  match resolved with
  | .array r => return r
  | .nothing => throw (.about .objectVariableNotSet s!"'{function}'")
  | _ => throw (.about .typeMismatch s!"'{function}' of {resolved.describe}")

def dimensionLength (lib : Library σ) (v : Value) (dimension : Nat) (function : String) :
    Action σ Nat := do
  let r ← lib.resolveArray v function
  let g ← Action.grid r
  match g.length? dimension with
  | some length => return length
  | none => throw (.about .subscriptOutOfRange s!"'{function}'")

def lowerBound (lib : Library σ) (v : Value) (dimension : Nat) : Action σ Int := do
  let _ ← lib.dimensionLength v dimension "LBound"
  return 0

/-- One less than the length, if the length itself is a subscript. -/
def upperBound (lib : Library σ) (v : Value) (dimension : Nat) : Action σ Int := do
  let length ← lib.dimensionLength v dimension "UBound"
  if (length : Int) ≤ Value.maxIndex then return (length : Int) - 1
  else throw (.about .subscriptOutOfRange s!"'{length}'")

def lengthOfBound (v : Value) : Except ScriptError Nat := do
  let bound ← v.toIndex
  let n := bound.toInt
  if n = Value.maxIndex then .error (.about .outOfMemory s!"'{n}'")
  else if n < -1 then .error (.about .subscriptOutOfRange s!"'{n}'")
  else .ok (n + 1).toNat

def shapeOfBounds (bounds : List Value) : Except ScriptError Shape :=
  bounds.mapM lengthOfBound

def newArray (bounds : List Value) : Action σ Value := do
  let shape ← ofExcept (shapeOfBounds bounds)
  let g ← ofExcept (Grid.allocate shape)
  Action.allocate g

def sameButLast (old new : Shape) : Bool :=
  old.length = new.length && old.dropLast = new.dropLast

/-- A copy of the array with new upper bounds, of which only the last may change. Anything but an
array is replaced by a new array. -/
def resizeArray (v : Value) (bounds : List Value) : Action σ Value := do
  let shape ← ofExcept (shapeOfBounds bounds)
  match v with
  | .array r =>
    let g ← Action.grid r
    if sameButLast g.shape shape then
      let copy ← ofExcept (g.resized shape)
      Action.allocate copy
    else
      throw (.about .subscriptOutOfRange "only the last dimension of an array may be resized")
  | _ =>
    let g ← ofExcept (Grid.allocate shape)
    Action.allocate g

def raise (e : ScriptError) : Action σ Value :=
  throw e

end Library

end VbsCompiler
