import VbsCompiler.Number.Decimal

/-! JSON values. An object keeps its members in the order of the text, repeated keys included. -/

namespace VbsCompiler

inductive Json where
  | null
  | boolean (value : Bool)
  | number (value : Decimal)
  | string (value : String)
  | array (items : List Json)
  | object (members : List (String × Json))
  deriving Repr

end VbsCompiler
