import VbsCompiler.Support.Grid

/-! The heap of arrays. Arrays are never removed, and an array keeps its shape for good. -/

namespace VbsCompiler

structure Heap where
  arrays : Array Grid := #[]

namespace Heap

def grid (h : Heap) (r : ArrayRef) : Grid :=
  h.arrays.getD r.id default

def contains (h : Heap) (r : ArrayRef) : Bool :=
  r.id < h.arrays.size

def allocate (h : Heap) (g : Grid) : ArrayRef × Heap :=
  (⟨h.arrays.size⟩, ⟨h.arrays.push g⟩)

def get (h : Heap) (r : ArrayRef) (indices : List Int32) : Except ScriptError Value :=
  (h.grid r).get indices

def set (h : Heap) (r : ArrayRef) (indices : List Int32) (v : Value) : Except ScriptError Heap :=
  ((h.grid r).set indices v).map fun g => ⟨h.arrays.setIfInBounds r.id g⟩

end Heap

end VbsCompiler
