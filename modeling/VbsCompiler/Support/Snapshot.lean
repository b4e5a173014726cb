import VbsCompiler.Support.Heap

/-! Values with all that they refer to, as trees. Arrays and objects are numbered in the order of
their first appearance, so that it shows which of them are the same one. -/

namespace VbsCompiler

inductive Snapshot where
  | scalar (value : Value)
  /-- The first appearance of an array; the elements are left out if there are too many. -/
  | array (number : Nat) (shape : Shape) (items : Option (List Snapshot))
  | sameArray (number : Nat)
  | object (number : Nat) (typeName : String)
  | sameObject (number : Nat)

namespace Snapshot

inductive Entity where
  | array (id : Nat)
  | object (id : Nat)
  deriving DecidableEq

/-- Arrays of more elements are shown without them. -/
def maxItems : Nat := 64

/-- The snapshot of a value. The state holds what is numbered so far, in order. Each level below
an array numbers one more array, so `depth` need not exceed their number. -/
def ofValue (h : Heap) : Nat → Value → StateM (List Entity) Snapshot
  | depth, .array r => do
    let seen ← get
    match seen.idxOf? (.array r.id) with
    | some number => return .sameArray number
    | none =>
      set (seen ++ [Entity.array r.id])
      let g := h.grid r
      match depth with
      | 0 => return .array seen.length g.shape none
      | depth' + 1 =>
        if maxItems < g.items.size then return .array seen.length g.shape none
        else
          let items ← g.items.toList.mapM (ofValue h depth')
          return .array seen.length g.shape (some items)
  | _, .object o => do
    let seen ← get
    match seen.idxOf? (.object o.id) with
    | some number => return .sameObject number
    | none =>
      set (seen ++ [Entity.object o.id])
      return .object seen.length o.typeName
  | _, v => return .scalar v

def ofValues (h : Heap) (vs : List Value) : List Snapshot :=
  ((vs.mapM (ofValue h (h.arrays.size + 1))).run []).1

end Snapshot

end VbsCompiler
