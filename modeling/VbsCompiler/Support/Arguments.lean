import VbsCompiler.Support.World

/-! Argument lists. A slot holds the value passed and, if the argument can be passed by reference,
how to write the callee's final value back. -/

namespace VbsCompiler

structure Slot (σ : Type) where
  value : Value
  update? : Option (Value → Action σ Unit) := none

structure Arguments (σ : Type) where
  slots : List (Slot σ) := []
  /-- The call has brackets; this matters only if there are no arguments. -/
  brackets : Bool := false

namespace Arguments

variable {σ : Type}

def none : Arguments σ :=
  {}

def count (args : Arguments σ) : Nat :=
  args.slots.length

def values (args : Arguments σ) : List Value :=
  args.slots.map (·.value)

def indices (args : Arguments σ) : Except ScriptError (List Int32) :=
  args.values.mapM Value.toIndex

/-- Writes a value back to a slot; a slot passed by value ignores it. -/
def overwrite (args : Arguments σ) (index : Nat) (v : Value) : Action σ Unit :=
  match args.slots[index]? with
  | .none => throw (.arguments (.indexOutOfRange index args.count))
  | .some slot =>
    match slot.update? with
    | .none => pure ()
    | .some update => update v

end Arguments

end VbsCompiler
