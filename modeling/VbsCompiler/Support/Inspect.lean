import VbsCompiler.Support.Arguments

/-! Detailed texts of values and argument lists, with the content of arrays. -/

namespace VbsCompiler

def bracketed (items : List String) : String :=
  "[" ++ ", ".intercalate items ++ "]"

def Heap.inspectTo (h : Heap) : Nat → Value → String
  | depth + 1, .array r =>
    let g := h.grid r
    s!"Array(VbArray \x7b lengths: {g.shape.text}, items: " ++
      bracketed (g.items.toList.map (h.inspectTo depth)) ++ " \x7d)"
  | _, .object o => s!"Object({o.typeName})"
  | _, v => v.describe

/-- Arrays that do not contain themselves nest no deeper than there are arrays. -/
def Heap.inspect (h : Heap) (v : Value) : String :=
  h.inspectTo h.arrays.size v

def Heap.inspectArguments {σ : Type} (h : Heap) (args : Arguments σ) : String :=
  "CallArguments \x7b values: " ++ bracketed (args.values.map h.inspect) ++
    ", by_ref: " ++ bracketed (args.slots.map fun s => toString s.update?.isSome) ++
    s!", use_brackets_where_zero_arguments: {args.brackets} \x7d"

end VbsCompiler
