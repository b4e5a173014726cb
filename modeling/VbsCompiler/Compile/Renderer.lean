import VbsCompiler.Compile.Error
import VbsCompiler.Scope.Lookup

/-! Renderers of expressions. The compiler frames constructs and leaves expressions and plain
statements to a renderer, which gives their text and the names they use. -/

namespace VbsCompiler

inductive Demand where
  /-- Something that can be referred to, and is not called. -/
  | reference
  /-- A plain value. -/
  | value
  /-- A native boolean that an exclamation mark can negate. -/
  | boolean
  /-- The side effects alone. -/
  | effect
  /-- A whole statement, without the semicolon. -/
  | statement
  deriving DecidableEq, Repr

structure Rendering where
  text : String
  accessed : List Name
  deriving DecidableEq, Repr

abbrev Renderer := Demand → TokenRun → Scope → Except CompileError Rendering

structure RendererCall where
  demand : Demand
  run : TokenRun
  scope : Scope
  result : Except CompileError Rendering

end VbsCompiler
