import VbsCompiler.Source.Block
import VbsCompiler.Target.Naming

/-! Emitted code as a tree. A tree says which loops, frames and methods there are and which
temporaries they declare and use; laying it out as lines is a separate matter. -/

namespace VbsCompiler

/-- A rendered piece of source with the temporaries that its text may mention. -/
structure Fragment where
  text : String
  temporaries : List Ident := []
  deriving DecidableEq, Repr

structure Condition where
  negated : Bool
  test : Fragment
  deriving DecidableEq, Repr

inductive Operation where
  | perform (body : Fragment)
  | assign (target value : Fragment)
  /-- A new array with these upper bounds, kept in the target if there is one. -/
  | newArray (target : Option Fragment) (bounds : List Fragment)
  | resizeArray (target : Fragment) (bounds : List Fragment)
  /-- The error of assigning to the constant of that name. -/
  | rejectAssignment (name : String)
  deriving DecidableEq, Repr

inductive LoopHead where
  | endless
  | testFirst (condition : Condition)
  | testLast (condition : Condition)
  /-- Counts from `first` up to the value in `last` by the value in `step`. -/
  | counting (origin : Nat) (counter first : Fragment) (last step : Ident)
  deriving DecidableEq, Repr

inductive MethodResult where
  | nothing
  | null
  | slot (name : Ident)
  deriving DecidableEq, Repr

structure MethodHead where
  origin : Nat
  kind : RoutineKind
  name : Ident
  parameters : List (Ident × Bool)
  deriving DecidableEq, Repr

/-- Emitted code; `origin` is the source line, counted from zero. -/
inductive Code where
  /-- Operations that belong to one statement of the source, guarded by the token of an
  error-trapping frame if there is one. -/
  | act (origin : Option Nat) (guard : Option Ident) (operations : List Operation)
  /-- Declares a temporary. -/
  | bind (origin : Nat) (name : Ident) (value : Fragment)
  | trapping (origin : Nat) (mode : TrapMode) (token : Ident)
  | raise (origin : Nat) (flag : Ident)
  /-- Leaves the nearest loop. -/
  | leave (origin : Nat)
  | giveBack (origin : Nat) (slot : Option Ident)
  /-- A loop; the flag, if it has one, is lowered at the start of each round. -/
  | loop (head : LoopHead) (flag : Option Ident) (body : List Code)
  /-- Leaves the nearest loop if one of the flags is raised. -/
  | check (flags : List Ident)
  /-- A frame in which errors can be trapped. -/
  | trapped (token : Ident) (body : List Code)
  | method (head : MethodHead) (locals undeclaredLocals : List Ident) (body : List Code)
    (result : MethodResult)
  deriving Repr

end VbsCompiler
