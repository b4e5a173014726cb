import VbsCompiler.Compile.Statement

/-! The parts of loops around their bodies: heads, flags and the checks of flags. -/

namespace VbsCompiler

open CompileM

/-- After a loop, a raised flag of a loop further out keeps leaving. -/
def flagChecks (scope : Scope) : List Code :=
  if scope.flags.isEmpty then [] else [.check scope.flags]

def LoopKind.flagStem : LoopKind → String
  | .doLoop => "exitDo"
  | .forLoop => "exitFor"

/-- A loop has a flag if it is left from inside another loop in its body. -/
def loopFlag (setup : Setup) (kind : LoopKind) (body : List Block) (scope : Scope) :
    CompileM (Option Ident) :=
  if Block.needsFlag kind body then do
    let flag ← freshTemporary setup.naming kind.flagStem scope
    return some flag
  else return none

def compileLoopTest (setup : Setup) (test : Option LoopTest) (scope : Scope) :
    CompileM (LoopHead × List Name) :=
  match test with
  | none => return (.endless, [])
  | some t => do
    let r ← render setup .boolean t.condition scope
    let condition : Condition := ⟨t.negated, r.fragment scope⟩
    return (if t.atStart then .testFirst condition else .testLast condition,
      r.undeclared setup.naming scope)

structure ForHead where
  counter : Rendering
  first : Rendering
  last : Rendering
  step : Option Rendering

def renderForHead (setup : Setup) (counter : Name) (first last : TokenRun)
    (step : Option TokenRun) (scope : Scope) : CompileM ForHead := do
  let counter ← render setup .reference counter.run scope
  let first ← render setup .value first scope
  let last ← render setup .value last scope
  match step with
  | none => return ⟨counter, first, last, none⟩
  | some run => do
    let step ← render setup .value run scope
    return ⟨counter, first, last, some step⟩

def ForHead.undeclared (h : ForHead) (naming : Naming) (scope : Scope) : List Name :=
  h.counter.undeclared naming scope ++ h.first.undeclared naming scope ++
    h.last.undeclared naming scope ++
    (h.step.toList.flatMap fun r => r.undeclared naming scope)

def ForHead.stepFragment (h : ForHead) (scope : Scope) : Fragment :=
  match h.step with
  | some r => r.fragment scope
  | none => ⟨"1", []⟩

end VbsCompiler
