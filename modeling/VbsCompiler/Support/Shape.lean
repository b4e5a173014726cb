import VbsCompiler.Support.Error

/-! Shapes of arrays: one length for each dimension. Elements are stored in row-major order, so an
element's position is the number that its subscripts write in the mixed radix of the lengths. -/

namespace VbsCompiler

/-- The lengths of an array's dimensions. -/
abbrev Shape := List Nat

namespace Shape

def count : Shape → Nat
  | [] => 1
  | l :: ls => l * count ls

def wordSize : Nat := 0x10000000000000000

/-- The number of elements as a machine word; the running product must not leave it. -/
def wordCount? (shape : Shape) : Option Nat :=
  shape.foldlM (fun n l => if n * l < wordSize then some (n * l) else none) 1

def maxCount : Nat := 0x1000000

def text (shape : Shape) : String :=
  "[" ++ ", ".intercalate (shape.map toString) ++ "]"

def check (shape : Shape) : Except ScriptError Unit :=
  if shape.wordCount?.any (· ≤ maxCount) then .ok ()
  else .error (.about .outOfMemory s!"array dimensions {shape.text}")

/-- One more subscript: it must lie in its dimension. -/
def advance (offset : Nat) (index : Int32) (length : Nat) : Except ScriptError Nat :=
  if 0 ≤ index.toInt ∧ index.toInt < length then .ok (offset * length + index.toInt.toNat)
  else .error (.about .subscriptOutOfRange s!"'{index.toInt}'")

def offsetFrom (offset : Nat) : Shape → List Int32 → Except ScriptError Nat
  | l :: ls, i :: is => do
    let next ← advance offset i l
    offsetFrom next ls is
  | _, _ => .ok offset

/-- The position of an element. The number of subscripts is checked before the subscripts are, and
those from the left. -/
def offset (shape : Shape) (indices : List Int32) : Except ScriptError Nat :=
  if indices.length ≠ shape.length then
    .error (.about .subscriptOutOfRange
      s!"array has {shape.length} dimension(s), {indices.length} index(es) supplied")
  else offsetFrom 0 shape indices

/-- Counts the subscripts up by one, the last one first, and tells whether there is a carry out of
the first. -/
def countUp : Shape → List Nat → List Nat × Bool
  | l :: ls, c :: cs =>
    match countUp ls cs with
    | (rest, false) => (c :: rest, false)
    | (rest, true) => if c + 1 < l then ((c + 1) :: rest, false) else (0 :: rest, true)
  | _, _ => ([], true)

/-- The subscripts of the next element in row-major order; after the last they start again. -/
def next (shape : Shape) (coords : List Nat) : List Nat :=
  (shape.countUp coords).1

def holds (shape : Shape) (coords : List Nat) : Bool :=
  (coords.zip shape).all fun (c, l) => c < l

def position (shape : Shape) (coords : List Nat) : Nat :=
  (coords.zip shape).foldl (fun n (c, l) => n * l + c) 0

theorem advance_eq_ok {offset next : Nat} {index : Int32} {length : Nat}
    (h : advance offset index length = .ok next) :
    ∃ i, i < length ∧ next = offset * length + i := by
  unfold advance at h
  split at h
  · rename_i hi
    refine ⟨index.toInt.toNat, by omega, ?_⟩
    cases h
    rfl
  · cases h

theorem offsetFrom_lt {shape : Shape} {indices : List Int32} {start bound p : Nat}
    (hlen : indices.length = shape.length) (hs : start < bound)
    (h : offsetFrom start shape indices = .ok p) : p < bound * count shape := by
  induction shape generalizing indices start bound with
  | nil =>
    cases indices with
    | nil =>
      simp only [offsetFrom, Except.ok.injEq] at h
      simp [count, ← h, hs]
    | cons i is => simp at hlen
  | cons l ls ih =>
    cases indices with
    | nil => simp at hlen
    | cons i is =>
      simp only [offsetFrom] at h
      cases ha : advance start i l with
      | error e =>
        rw [ha] at h
        cases h
      | ok next =>
        rw [ha] at h
        obtain ⟨k, hk, rfl⟩ := advance_eq_ok ha
        have hn : start * l + k < bound * l := by
          have : (start + 1) * l ≤ bound * l := Nat.mul_le_mul_right l hs
          have e : (start + 1) * l = start * l + l := Nat.succ_mul start l
          omega
        have hp := ih (by simpa using hlen) hn h
        simpa [count, Nat.mul_assoc] using hp

theorem offset_lt {shape : Shape} {indices : List Int32} {p : Nat}
    (h : offset shape indices = .ok p) : p < count shape := by
  unfold offset at h
  split at h
  · cases h
  · rename_i hlen
    simpa using offsetFrom_lt (Decidable.not_not.mp hlen) Nat.zero_lt_one h

end Shape

end VbsCompiler
