import VbsCompiler.Compile.Statement

/-! The parts of methods around their bodies: heads, slots and locals. -/

namespace VbsCompiler

open CompileM

def checkParameters (naming : Naming) (seen : List Ident) :
    List Parameter → Except CompileError Unit
  | [] => .ok ()
  | p :: rest =>
    if naming p.name ∈ seen then .error (.nameRedefined p.name)
    else checkParameters naming (naming p.name :: seen) rest

def RoutineKind.owner : RoutineKind → Name → Owner
  | .function, name => .function name
  | .sub, name => .sub name

def methodHead (naming : Naming) (kind : RoutineKind) (name : Name)
    (parameters : List Parameter) : MethodHead where
  origin := name.line
  kind := kind
  name := naming name
  parameters := parameters.map fun p => (naming p.name, p.byRef)

def returnSlot (setup : Setup) (kind : RoutineKind) (scope : Scope) : CompileM (Option Ident) :=
  match kind with
  | .function => do
    let slot ← freshTemporary setup.naming "retVal" scope
    return some slot
  | .sub => return none

def MethodResult.ofSlot? (slot? : Option Ident) : MethodResult :=
  slot?.elim .nothing .slot

def emptyMethod (head : MethodHead) : Code :=
  .method head [] [] []
    (match head.kind with
    | .function => .null
    | .sub => .nothing)

/-- A method around a compiled body. Its locals are what the body declares and then what it uses
undeclared, which is reported. Nothing of that reaches the level around the method. -/
def compileMethod (setup : Setup) (head : MethodHead) (slot : Option Ident) (body : Output Code) :
    CompileM (Output Code) := do
  let declared := distinctNames setup.naming (body.declarations.map (·.name))
  let locals := declared.map setup.naming
  let undeclared := distinctNames setup.naming
    (body.undeclared.filter fun n => !locals.contains (setup.naming n))
  undeclared.forM reportUndeclared
  return .ofStatements
    [.method head locals (undeclared.map setup.naming) body.statements (.ofSlot? slot)]

end VbsCompiler
