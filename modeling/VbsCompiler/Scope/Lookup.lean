import VbsCompiler.Scope.Basic

/-! Finding what names refer to in a scope. -/

namespace VbsCompiler

namespace Scope

/-- The declared names by kind, in the order in which a reference looks for them. -/
def catalogs (s : Scope) : List (NameKind × List Declaration) :=
  [(.variable, s.vars), (.constant, s.constants), (.routine, s.routines),
    (.property, s.properties), (.classType, s.classes)]

def findDeclared (s : Scope) (naming : Naming) (id : Ident) (p : Declaration → Bool) :
    Option (NameKind × Location) :=
  s.catalogs.findSome? fun (kind, ds) =>
    (ds.find? fun d => p d && naming d.name = id).map fun d => (kind, d.location)

/-- What a name refers to. The level the point belongs to comes first, then every visible level,
then the environment. -/
def resolve (s : Scope) (naming : Naming) (n : Name) : Option (NameKind × Location) :=
  let id := naming n
  s.findDeclared naming id (·.location = s.location) <|>
    s.findDeclared naming id (fun _ => true) <|>
    if s.environment.any (fun e => naming e = id) then some (.environment, .outermost) else none

def isOwnName (s : Scope) (naming : Naming) (n : Name) : Bool :=
  s.owner.name?.any fun own => naming own = naming n

/-- The name refers to something declared. An owner's own name does, since assigning to it sets
the value to return. -/
def declares (s : Scope) (naming : Naming) (n : Name) : Bool :=
  s.isOwnName naming n || (s.resolve naming n).isSome

def taken (s : Scope) (naming : Naming) : List Ident :=
  (s.vars ++ s.constants ++ s.routines ++ s.properties ++ s.classes).map (naming ·.name) ++
    s.environment.map naming

def isTaken (s : Scope) (naming : Naming) (id : Ident) : Bool :=
  (s.taken naming).contains id

/-- The flags of the enclosing loops that have one, the outermost first. -/
def flags (s : Scope) : List Ident :=
  s.loops.reverse.filterMap (·.flag)

def undeclared (s : Scope) (naming : Naming) (names : List Name) : List Name :=
  names.filter fun n => !s.declares naming n

end Scope

end VbsCompiler
