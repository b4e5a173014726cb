import VbsCompiler.Compile.Body
import VbsCompiler.Settings
import VbsCompiler.Target.Layout

/-! Compiling whole programs. -/

namespace VbsCompiler

structure Program where
  lines : List Line
  /-- What the outermost level declares. -/
  outerDeclarations : List Declaration
  /-- What the environment has to provide: the names of the settings, then the undeclared names of
  the outermost level. -/
  environment : List Name
  diagnostics : List Diagnostic
  deriving Repr

def Output.layout (names : OutputNames) (out : Output Code) : Output Line :=
  out.mapStatements (Code.allLines names.support 0)

/-- Runs the compilation of an outermost level; the session shows what was done even if it
fails. -/
def runOutermost (setup : Setup) (names : OutputNames) (scope : Scope) (blocks : List Block)
    (session : Session) : Except CompileError (Output Line) × Session :=
  let (result, session) := (compileOutermost setup blocks scope).run.run session
  (result.map (·.layout names), session)

def Setup.caseless (renderer : Renderer) : Setup :=
  ⟨caselessNaming, renderer⟩

/-- Compiles a program in a session of its own, which is given as well. -/
def traceProgram (renderer : Renderer) (settings : Settings) (blocks : List Block) :
    Except CompileError Program × Session :=
  let environment := settings.environmentNames
  let (result, session) :=
    runOutermost (.caseless renderer) settings.names (.outermost environment) blocks {}
  (result.map fun out =>
    { lines := out.statements
      outerDeclarations := out.declarations
      environment := distinctNames caselessNaming (environment ++ out.undeclared)
      diagnostics := session.diagnostics },
    session)

def compileProgram (renderer : Renderer) (settings : Settings) (blocks : List Block) :
    Except CompileError Program :=
  (traceProgram renderer settings blocks).1

def compileUnits (renderer : Renderer) (settings : Settings) (units : List (List Block)) :
    List (Except CompileError Program) :=
  units.map (compileProgram renderer settings)

end VbsCompiler
