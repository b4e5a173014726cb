import VbsCompiler.Support.Shape
import VbsCompiler.Support.Value

/-! The content of an array. -/

namespace VbsCompiler

structure Grid where
  shape : Shape
  items : Array Value
  size_items : items.size = shape.count

namespace Grid

/-- An array without dimensions has one element. -/
instance : Inhabited Grid := ⟨⟨[], #[.empty], rfl⟩⟩

def blank (shape : Shape) : Grid :=
  ⟨shape, Array.replicate shape.count .empty, by simp⟩

def allocate (shape : Shape) : Except ScriptError Grid :=
  shape.check.map fun _ => blank shape

def ofValues (values : List Value) : Grid :=
  ⟨[values.length], values.toArray, by simp [Shape.count]⟩

def rank (g : Grid) : Nat :=
  g.shape.length

/-- The length of a dimension, counted from one. -/
def length? (g : Grid) (dimension : Nat) : Option Nat :=
  match dimension with
  | 0 => none
  | d + 1 => g.shape[d]?

def get (g : Grid) (indices : List Int32) : Except ScriptError Value :=
  match h : g.shape.offset indices with
  | .error e => .error e
  | .ok p =>
    have hp : p < g.items.size := by
      rw [g.size_items]
      exact Shape.offset_lt h
    .ok g.items[p]

def set (g : Grid) (indices : List Int32) (v : Value) : Except ScriptError Grid :=
  match h : g.shape.offset indices with
  | .error e => .error e
  | .ok p =>
    have hp : p < g.items.size := by
      rw [g.size_items]
      exact Shape.offset_lt h
    .ok ⟨g.shape, g.items.set p v, by simp [g.size_items]⟩

def put (g : Grid) (p : Nat) (v : Value) : Grid :=
  ⟨g.shape, g.items.setIfInBounds p v, by simp [g.size_items]⟩

/-- Takes one element of an array over into its copy, at the subscripts reached, and moves on to
those of the next element. What lies outside the copy is left out. -/
def takeOver (shape : Shape) : List Nat × Grid → Value → List Nat × Grid
  | (coords, copy), v =>
    (shape.next coords,
      if copy.shape.holds coords then copy.put (copy.shape.position coords) v else copy)

/-- A copy with a new shape. If the number of dimensions stays, the elements are taken over one
after the other, so that every element whose subscripts are in both shapes is kept. -/
def resized (g : Grid) (shape : Shape) : Except ScriptError Grid := do
  let copy ← allocate shape
  if copy.rank = g.rank then
    return (g.items.foldl (takeOver g.shape) (List.replicate g.rank 0, copy)).2
  else return copy

def equals (a b : Grid) : Bool :=
  a.shape = b.shape && (a.items.toList.zip b.items.toList).all fun (x, y) => x.equals y

end Grid

end VbsCompiler
