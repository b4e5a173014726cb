import VbsCompiler.Compile.Hoist
import VbsCompiler.Compile.Statement

/-! The levels of names of a program: the outermost one and the body of each routine. -/

namespace VbsCompiler

open CompileM

inductive Selection where
  | all
  | statements
  | routines
  deriving DecidableEq, Repr

def Selection.admits : Selection → Block → Bool
  | .all, _ => true
  | .statements, b => !b.isRoutine
  | .routines, b => b.isRoutine

/-- The body of a program or routine: its declarations are hoisted into the scope, and if it has
an ON ERROR statement its statements are compiled inside an error-trapping frame, before the
routines, which stay outside. `inside` compiles the selected blocks. -/
def compileLevel (setup : Setup) (blocks : List Block) (scope : Scope)
    (inside : Selection → Scope → CompileM (Output Code)) : CompileM (Output Code) := do
  let hoisted ← ofExcept (hoist setup.naming scope blocks)
  let scope := scope.declare hoisted
  if Block.anyTrapsErrors blocks then do
    let token ← freshTemporary setup.naming "errOn" scope
    let scope := scope.insideTrap token
    let body ← inside .statements scope
    let routines ← inside .routines scope
    let framed := body.mapStatements fun codes => [Code.trapped token codes]
    return (framed ++ routines).addDeclarations hoisted.stored
  else do
    let body ← inside .all scope
    return body.addDeclarations hoisted.stored

end VbsCompiler
