import VbsCompiler.Source.Block
import VbsCompiler.Target.Naming

/-! What is visible at one point of a program: the construct around it, the declared names, the
loops that may be left and the target of bare member accesses. Entering a construct derives a new
scope from the scope around it. -/

namespace VbsCompiler

/-- The nearest enclosing construct with a level of names of its own. -/
inductive Owner where
  | program
  | function (name : Name)
  | sub (name : Name)
  | property (name : Name)
  deriving DecidableEq, Repr

def Owner.location : Owner → Location
  | .program => .outermost
  | .function _ => .function
  | .sub _ => .function
  | .property _ => .property

def Owner.name? : Owner → Option Name
  | .program => none
  | .function name => some name
  | .sub name => some name
  | .property name => some name

inductive Enclosure where
  | outermost
  | routine
  | property
  | doLoop
  | forLoop
  | withBlock
  deriving DecidableEq, Repr

def LoopKind.enclosure : LoopKind → Enclosure
  | .doLoop => .doLoop
  | .forLoop => .forLoop

/-- A loop around a point, with the flag that tells the loops inside it to keep leaving. -/
structure LoopFrame where
  kind : LoopKind
  flag : Option Ident
  deriving DecidableEq, Repr

structure WithReference where
  target : Ident
  line : Nat
  deriving DecidableEq, Repr

inductive NameKind where
  /-- Provided by the environment. -/
  | environment
  | classType
  | routine
  | property
  | constant
  | variable
  deriving DecidableEq, Repr

/-- The names that one level declares, each kind in source order. -/
structure Hoisted where
  vars : List Declaration := []
  constants : List Declaration := []
  routines : List Declaration := []
  deriving DecidableEq, Repr

namespace Hoisted

def push (h : Hoisted) (kind : NameKind) (d : Declaration) : Hoisted :=
  match kind with
  | .constant => { h with constants := h.constants ++ [d] }
  | .routine => { h with routines := h.routines ++ [d] }
  | _ => { h with vars := h.vars ++ [d] }

def stored (h : Hoisted) : List Declaration :=
  h.vars ++ h.constants

end Hoisted

structure Scope where
  enclosure : Enclosure := .outermost
  owner : Owner := .program
  /-- Where the value of the enclosing function is kept. -/
  returnSlot : Option Ident := none
  /-- The token of the error-trapping frame around the point. -/
  trapToken : Option Ident := none
  withReference : Option WithReference := none
  environment : List Name := []
  classes : List Declaration := []
  routines : List Declaration := []
  properties : List Declaration := []
  constants : List Declaration := []
  vars : List Declaration := []
  /-- The loops around the point, the nearest first. -/
  loops : List LoopFrame := []
  deriving DecidableEq, Repr

namespace Scope

def outermost (environment : List Name) : Scope :=
  { environment }

def location (s : Scope) : Location :=
  s.owner.location

def withEnclosure (s : Scope) (enclosure : Enclosure) : Scope :=
  { s with enclosure }

def insideWith (s : Scope) (reference : WithReference) : Scope :=
  { s with enclosure := .withBlock, withReference := some reference }

def insideLoop (s : Scope) (frame : LoopFrame) : Scope :=
  { s with enclosure := frame.kind.enclosure, loops := frame :: s.loops }

def insideTrap (s : Scope) (token : Ident) : Scope :=
  { s with trapToken := some token }

def declare (s : Scope) (h : Hoisted) : Scope :=
  { s with
    vars := s.vars ++ h.vars
    constants := s.constants ++ h.constants
    routines := s.routines ++ h.routines }

def outermostOnly (ds : List Declaration) : List Declaration :=
  ds.filter (·.location = .outermost)

/-- Inside the body of a function, sub or property. What the outermost level declares stays
visible and the parameters are the first locals. Loops, traps and WITH targets end at the body. -/
def insideBody (s : Scope) (owner : Owner) (returnSlot : Option Ident)
    (parameters : List Declaration) : Scope :=
  { enclosure :=
      match owner with
      | .property _ => .property
      | _ => .routine
    owner
    returnSlot
    environment := s.environment
    classes := s.classes
    routines := outermostOnly s.routines
    properties := s.properties
    constants := outermostOnly s.constants
    vars := outermostOnly s.vars ++ parameters }

end Scope

end VbsCompiler
