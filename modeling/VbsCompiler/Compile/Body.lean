import VbsCompiler.Compile.Level
import VbsCompiler.Compile.Loop
import VbsCompiler.Compile.Method

/-! Compiling blocks. A construct renders its own expressions before its body is compiled, in the
scope around it; the body is compiled in a scope derived from that one. -/

namespace VbsCompiler

open CompileM

mutual

def compileBlock (setup : Setup) (scope : Scope) : Block → CompileM (Output Code)
  | .doLoop test body => do
    let (head, names) ← compileLoopTest setup test scope
    let flag ← loopFlag setup .doLoop body scope
    let inner ← compileBlocks setup .all (scope.insideLoop ⟨.doLoop, flag⟩) body
    return { undeclared := names } ++
      inner.mapStatements fun codes => .loop head flag codes :: flagChecks scope
  | .forLoop counter first last step body => do
    let head ← renderForHead setup counter first last step scope
    let lastName ← freshTemporary setup.naming "loopEnd" scope
    let stepName ← freshTemporary setup.naming "loopStep" scope
    let flag ← loopFlag setup .forLoop body scope
    let inner ← compileBlocks setup .all (scope.insideLoop ⟨.forLoop, flag⟩) body
    return { undeclared := head.undeclared setup.naming scope } ++
      inner.mapStatements fun codes =>
        .bind counter.line lastName (head.last.fragment scope) ::
        .bind counter.line stepName (head.stepFragment scope) ::
        .loop (.counting counter.line (head.counter.fragment scope) (head.first.fragment scope)
          lastName stepName) flag codes ::
        flagChecks scope
  | .withTarget target body =>
    match target.firstLine with
    | none => throw .emptyWithTarget
    | some line => do
      let r ← render setup .reference target scope
      let names := r.undeclared setup.naming scope
      names.forM reportUndeclared
      let name ← freshTemporary setup.naming "with" scope
      let inner ← compileBlocks setup .all (scope.insideWith ⟨name, line⟩) body
      return (inner.pushFront (.bind line name (r.fragment scope))).addUndeclared names
  | .routine kind name parameters body =>
    if scope.enclosure ≠ .outermost then throw (.nestedRoutine name)
    else do
      ofExcept (checkParameters setup.naming [] parameters)
      let head := methodHead setup.naming kind name parameters
      if body.isEmpty then return .ofStatements [emptyMethod head]
      else do
        let slot ← returnSlot setup kind scope
        let inner := scope.insideBody (kind.owner name) slot
          (parameters.map fun p => ⟨p.name, .function⟩)
        let out ← compileLevel setup body inner fun selection s =>
          compileBlocks setup selection s body
        compileMethod setup head slot out
  | .exit kind line => compileExit kind line scope
  | .consts items => compileItems (compileConst setup · scope) items
  | .dim items => compileItems (compileDim setup · scope) items
  | .redim preserve items => compileItems (compileRedim setup preserve · scope) items
  | .onError mode line => compileOnError mode line scope
  | .statement run => compileStatement setup run scope
termination_by structural b => b

def compileBlocks (setup : Setup) (selection : Selection) (scope : Scope) :
    List Block → CompileM (Output Code)
  | [] => return {}
  | b :: rest => do
    let here ← if selection.admits b then compileBlock setup scope b else pure {}
    let later ← compileBlocks setup selection scope rest
    return here ++ later
termination_by structural bs => bs

end

/-- The outermost level of a program. The undeclared names left are those the environment has to
provide, each once, and they are reported. -/
def compileOutermost (setup : Setup) (blocks : List Block) (scope : Scope) :
    CompileM (Output Code) := do
  let out ← compileLevel setup blocks scope fun selection s =>
    compileBlocks setup selection s blocks
  let undeclared := distinctNames setup.naming out.undeclared
  undeclared.forM reportUndeclared
  return { out with undeclared }

end VbsCompiler
