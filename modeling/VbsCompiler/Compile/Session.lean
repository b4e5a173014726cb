import VbsCompiler.Compile.Renderer
import VbsCompiler.Diagnostic
import VbsCompiler.Target.Code
import VbsCompiler.Target.Temporary

/-! The state of a compilation: the counter of temporaries, the diagnostics and the records of
renderer calls and temporaries. It carries over from one run to the next, and a run that fails
keeps what it did before it failed. -/

namespace VbsCompiler

structure Session where
  nextTemporary : Nat := 1
  diagnostics : List Diagnostic := []
  /-- Every call of the renderer, in order. -/
  calls : List RendererCall := []
  /-- Every temporary, in the order of allocation. -/
  temporaries : List Ident := []

abbrev CompileM := ExceptT CompileError (StateM Session)

/-- What a compilation depends on: how names become identifiers and how expressions become
text. -/
structure Setup where
  naming : Naming
  renderer : Renderer

namespace CompileM

def freshTemporary (naming : Naming) (stem : String) (scope : Scope) : CompileM Ident := do
  let session ← get
  let k := freshNumber stem (scope.taken naming) session.nextTemporary
  let id := temporary stem k
  set { session with nextTemporary := k + 1, temporaries := session.temporaries ++ [id] }
  return id

/-- Warns of an undeclared name, once for each spelling and line. -/
def reportUndeclared (name : Name) : CompileM Unit :=
  modify fun session =>
    let d := Diagnostic.undeclaredVariable name.content name.lineNumber
    if session.diagnostics.any (·.text = d.text) then session
    else { session with diagnostics := session.diagnostics ++ [d] }

def render (setup : Setup) (demand : Demand) (run : TokenRun) (scope : Scope) :
    CompileM Rendering := do
  let result := setup.renderer demand run scope
  modify fun session =>
    { session with calls := session.calls ++ [⟨demand, run, scope, result⟩] }
  ofExcept result

end CompileM

def Scope.offered (s : Scope) : List Ident :=
  s.returnSlot.toList ++ (s.withReference.map (·.target)).toList

def Rendering.fragment (r : Rendering) (scope : Scope) : Fragment :=
  ⟨r.text, scope.offered⟩

def Rendering.undeclared (r : Rendering) (naming : Naming) (scope : Scope) : List Name :=
  scope.undeclared naming r.accessed

end VbsCompiler
