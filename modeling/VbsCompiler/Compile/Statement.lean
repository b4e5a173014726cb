import VbsCompiler.Compile.Session
import VbsCompiler.Target.Output

/-! Compiling the statements that contain no other statements. -/

namespace VbsCompiler

open CompileM

def guarded (scope : Scope) (origin : Option Nat) (operations : List Operation) : Code :=
  .act origin scope.trapToken operations

def compileStatement (setup : Setup) (run : TokenRun) (scope : Scope) :
    CompileM (Output Code) := do
  let r ← render setup .statement run scope
  return {
    statements := [guarded scope run.firstLine [.perform (r.fragment scope)]]
    undeclared := r.undeclared setup.naming scope }

def compileOnError (mode : TrapMode) (line : Nat) (scope : Scope) : CompileM (Output Code) :=
  match scope.trapToken with
  | some token => return .ofStatements [.trapping line mode token]
  | none => throw (.untrappedOnError line)

def Owner.allowsExit : Owner → ExitKind → Bool
  | .function _, .function => true
  | .sub _, .sub => true
  | .property _, .property => true
  | _, _ => false

/-- Leaves the nearest loop of the kind. If that is not the nearest loop, its flag is raised and
each loop in between is left in turn. -/
def compileLoopExit (kind : LoopKind) (line : Nat) (loops : List LoopFrame) :
    Except CompileError (List Code) :=
  match loops with
  | [] => .error (.invalidExit (.loop kind) line)
  | nearest :: outer =>
    if nearest.kind = kind then .ok [.leave line]
    else
      match outer.find? (·.kind = kind) with
      | none => .error (.invalidExit (.loop kind) line)
      | some frame =>
        match frame.flag with
        | some flag => .ok [.raise line flag, .leave line]
        | none => .error (.flaglessExit (.loop kind) line)

def compileExit (kind : ExitKind) (line : Nat) (scope : Scope) : CompileM (Output Code) :=
  match kind with
  | .loop loopKind => do
    let codes ← ofExcept (compileLoopExit loopKind line scope.loops)
    return .ofStatements codes
  | _ =>
    if scope.owner.allowsExit kind then return .ofStatements [.giveBack line scope.returnSlot]
    else throw (.invalidExit kind line)

def renderValues (setup : Setup) (scope : Scope) :
    List TokenRun → CompileM (List Fragment × List Name)
  | [] => return ([], [])
  | run :: rest => do
    let r ← render setup .value run scope
    let (fragments, names) ← renderValues setup scope rest
    return (r.fragment scope :: fragments, r.undeclared setup.naming scope ++ names)

/-- The name is hoisted, so only the value can use something undeclared. -/
def compileConst (setup : Setup) (item : ConstItem) (scope : Scope) : CompileM (Output Code) := do
  let target ← render setup .reference item.name.run scope
  let value ← render setup .value item.value scope
  return {
    statements := [guarded scope (some item.name.line)
      [.assign (target.fragment scope) (value.fragment scope)]]
    undeclared := value.undeclared setup.naming scope }

/-- Without bounds there is nothing left to do, since the name is hoisted. -/
def compileDim (setup : Setup) (item : DimItem) (scope : Scope) : CompileM (Output Code) :=
  match item.bounds with
  | none => return {}
  | some bounds => do
    let target ← render setup .reference item.name.run scope
    let (fragments, names) ← renderValues setup scope bounds
    return {
      statements := [guarded scope (some item.name.line)
        [.newArray (some (target.fragment scope)) fragments]]
      undeclared := names }

/-- A constant cannot be redimensioned; its bounds are still evaluated before the error. -/
def compileRedim (setup : Setup) (preserve : Bool) (item : RedimItem) (scope : Scope) :
    CompileM (Output Code) := do
  let (fragments, names) ← renderValues setup scope item.bounds
  let operations ←
    match scope.resolve setup.naming item.name with
    | some (.constant, _) =>
      pure [Operation.newArray none fragments, Operation.rejectAssignment item.name.content]
    | _ => do
      let target ← render setup .reference item.name.run scope
      let target := target.fragment scope
      pure [if preserve then .resizeArray target fragments else .newArray (some target) fragments]
  return {
    statements := [guarded scope (some item.name.line) operations]
    undeclared := names }

def compileItems {α : Type} (f : α → CompileM (Output Code)) : List α → CompileM (Output Code)
  | [] => return {}
  | a :: rest => do
    let here ← f a
    let later ← compileItems f rest
    return here ++ later

end VbsCompiler
