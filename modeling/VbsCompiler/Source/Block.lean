import VbsCompiler.Source.Name
import VbsCompiler.Source.Token

/-! The blocks of a program. Expressions and plain statements are runs of tokens; only the
constructs around them have a structure here. -/

namespace VbsCompiler

abbrev TokenRun := List Token

def TokenRun.firstLine (run : TokenRun) : Option Nat :=
  run.head?.map (·.line)

def Name.run (n : Name) : TokenRun :=
  [Token.ofText n.content n.line]

inductive LoopKind where
  | doLoop
  | forLoop
  deriving DecidableEq, Repr

inductive ExitKind where
  | loop (kind : LoopKind)
  | function
  | sub
  | property
  deriving DecidableEq, Repr

def ExitKind.statement : ExitKind → String
  | .loop .doLoop => "EXIT DO"
  | .loop .forLoop => "EXIT FOR"
  | .function => "EXIT FUNCTION"
  | .sub => "EXIT SUB"
  | .property => "EXIT PROPERTY"

inductive RoutineKind where
  | function
  | sub
  deriving DecidableEq, Repr

structure Parameter where
  name : Name
  byRef : Bool
  deriving DecidableEq, Repr

/-- The condition of a DO loop: WHILE or, if negated, UNTIL, before or after the body. -/
structure LoopTest where
  atStart : Bool
  negated : Bool
  condition : TokenRun
  deriving DecidableEq, Repr

structure ConstItem where
  name : Name
  value : TokenRun
  deriving DecidableEq, Repr

/-- A variable of a DIM statement. It is an array if it has bounds, even an empty list of them. -/
structure DimItem where
  name : Name
  bounds : Option (List TokenRun)
  deriving DecidableEq, Repr

structure RedimItem where
  name : Name
  bounds : List TokenRun
  deriving DecidableEq, Repr

/-- ON ERROR RESUME NEXT starts trapping, ON ERROR GOTO 0 stops it. -/
inductive TrapMode where
  | start
  | stop
  deriving DecidableEq, Repr

inductive Block where
  | doLoop (test : Option LoopTest) (body : List Block)
  | forLoop (counter : Name) (first last : TokenRun) (step : Option TokenRun) (body : List Block)
  | withTarget (target : TokenRun) (body : List Block)
  | exit (kind : ExitKind) (line : Nat)
  | routine (kind : RoutineKind) (name : Name) (parameters : List Parameter) (body : List Block)
  | consts (items : List ConstItem)
  | dim (items : List DimItem)
  | redim (preserve : Bool) (items : List RedimItem)
  | onError (mode : TrapMode) (line : Nat)
  | statement (run : TokenRun)
  deriving Repr

namespace Block

def isRoutine : Block → Bool
  | .routine .. => true
  | _ => false

mutual

/-- Some EXIT of the given kind of loop lies in the block inside a loop of the other kind.
`inOther` tells whether the block itself does. A nested loop of the same kind keeps its exits to
itself. -/
def exitsThrough (kind : LoopKind) (inOther : Bool) : Block → Bool
  | .exit exitKind _ => exitKind = .loop kind && inOther
  | .doLoop _ body => kind != .doLoop && anyExitsThrough kind true body
  | .forLoop _ _ _ _ body => kind != .forLoop && anyExitsThrough kind true body
  | .withTarget _ body => anyExitsThrough kind inOther body
  | _ => false

def anyExitsThrough (kind : LoopKind) (inOther : Bool) : List Block → Bool
  | [] => false
  | b :: rest => b.exitsThrough kind inOther || anyExitsThrough kind inOther rest

end

/-- A loop of this kind and body is left from inside another loop, so that leaving the inner loop
is not enough. -/
def needsFlag (kind : LoopKind) (body : List Block) : Bool :=
  anyExitsThrough kind false body

mutual

/-- The block has an ON ERROR statement outside of routines. -/
def trapsErrors : Block → Bool
  | .onError _ _ => true
  | .doLoop _ body => anyTrapsErrors body
  | .forLoop _ _ _ _ body => anyTrapsErrors body
  | .withTarget _ body => anyTrapsErrors body
  | _ => false

def anyTrapsErrors : List Block → Bool
  | [] => false
  | b :: rest => b.trapsErrors || anyTrapsErrors rest

end

end Block

end VbsCompiler
