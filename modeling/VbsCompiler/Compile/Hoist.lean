import VbsCompiler.Compile.Error
import VbsCompiler.Scope.Lookup

/-! Hoisting: the names that one level declares, wherever in its loops and WITH blocks the
declarations stand. -/

namespace VbsCompiler

inductive DeclarationEvent where
  /-- CONST, DIM and, in the outermost level, FUNCTION and SUB declare their name. -/
  | declares (kind : NameKind) (name : Name)
  /-- REDIM declares its name if nothing visible has it. -/
  | redims (name : Name)
  deriving DecidableEq, Repr

namespace Block

mutual

/-- The declaration events of a block in source order; routine bodies are not entered. -/
def events (location : Location) : Block → List DeclarationEvent
  | .consts items => items.map fun i => .declares .constant i.name
  | .dim items => items.map fun i => .declares .variable i.name
  | .redim _ items => items.map fun i => .redims i.name
  | .routine _ name _ _ => if location = .outermost then [.declares .routine name] else []
  | .doLoop _ body => allEvents location body
  | .forLoop _ _ _ _ body => allEvents location body
  | .withTarget _ body => allEvents location body
  | _ => []

def allEvents (location : Location) : List Block → List DeclarationEvent
  | [] => []
  | b :: rest => b.events location ++ allEvents location rest

end

end Block

/-- Takes the events in order; `registered` are the identifiers the level already has. A name
whose identifier is registered cannot be declared again. -/
def hoistEvents (naming : Naming) (scope : Scope) (registered : List Ident) (hoisted : Hoisted) :
    List DeclarationEvent → Except CompileError Hoisted
  | [] => .ok hoisted
  | .declares kind name :: rest =>
    if naming name ∈ registered then .error (.nameRedefined name)
    else
      hoistEvents naming scope (naming name :: registered)
        (hoisted.push kind ⟨name, scope.location⟩) rest
  | .redims name :: rest =>
    if naming name ∈ registered || (scope.resolve naming name).isSome then
      hoistEvents naming scope registered hoisted rest
    else
      hoistEvents naming scope (naming name :: registered)
        (hoisted.push .variable ⟨name, scope.location⟩) rest

def Scope.registered (s : Scope) (naming : Naming) : List Ident :=
  (s.owner.name?.map naming).toList ++
    (s.vars.filter (·.location = s.location)).map (naming ·.name)

def hoist (naming : Naming) (scope : Scope) (blocks : List Block) : Except CompileError Hoisted :=
  hoistEvents naming scope (scope.registered naming) {} (Block.allEvents scope.location blocks)

end VbsCompiler
