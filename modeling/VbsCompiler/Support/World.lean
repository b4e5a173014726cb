import VbsCompiler.Support.Heap

/-! What running programs act on: the heap of arrays and the state of the objects, of which the
support library knows nothing. -/

namespace VbsCompiler

structure World (σ : Type) where
  heap : Heap := {}
  objects : σ

/-- A step of a running program. What it did before an error is not undone. -/
abbrev Action (σ : Type) := ExceptT ScriptError (StateM (World σ))

namespace Action

variable {σ : Type}

def allocate (g : Grid) : Action σ Value :=
  modifyGet fun w =>
    let (r, heap) := w.heap.allocate g
    (.array r, { w with heap })

def grid (r : ArrayRef) : Action σ Grid := do
  return (← get).heap.grid r

def element (r : ArrayRef) (indices : List Int32) : Action σ Value := do
  ofExcept ((← get).heap.get r indices)

def setElement (r : ArrayRef) (indices : List Int32) (v : Value) : Action σ Unit := do
  let w ← get
  let heap ← ofExcept (w.heap.set r indices v)
  set { w with heap }

end Action

/-- The behaviour of objects. Invoking a member may change its arguments; what it leaves in them
counts even if it fails. -/
structure Host (σ : Type) where
  invoke : {n : Nat} → ObjectRef → String → Vector Value n →
    StateM (World σ) (Except ScriptError Value × Vector Value n)
  assign : ObjectRef → String → List Value → Value → Action σ Unit

end VbsCompiler
