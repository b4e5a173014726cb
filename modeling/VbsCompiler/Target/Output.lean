import VbsCompiler.Source.Name

/-! What compiling a piece of source gives: statements, the names it declares and the names it
uses that are declared nowhere. Outputs only grow, and joining them keeps the order. -/

namespace VbsCompiler

structure Output (α : Type) where
  statements : List α := []
  /-- Names to declare at the level the statements belong to. -/
  declarations : List Declaration := []
  undeclared : List Name := []
  deriving DecidableEq, Repr

namespace Output

variable {α β : Type}

def append (a b : Output α) : Output α where
  statements := a.statements ++ b.statements
  declarations := a.declarations ++ b.declarations
  undeclared := a.undeclared ++ b.undeclared

instance : Append (Output α) := ⟨append⟩

def ofStatements (statements : List α) : Output α :=
  { statements }

def push (a : Output α) (statement : α) : Output α :=
  { a with statements := a.statements ++ [statement] }

def pushFront (a : Output α) (statement : α) : Output α :=
  { a with statements := statement :: a.statements }

def addUndeclared (a : Output α) (names : List Name) : Output α :=
  { a with undeclared := a.undeclared ++ names }

def addDeclarations (a : Output α) (ds : List Declaration) : Output α :=
  { a with declarations := a.declarations ++ ds }

def sum (outputs : List (Output α)) : Output α :=
  outputs.foldl append {}

def mapStatements (a : Output α) (f : List α → List β) : Output β where
  statements := f a.statements
  declarations := a.declarations
  undeclared := a.undeclared

@[simp] theorem statements_append (a b : Output α) :
    (a ++ b).statements = a.statements ++ b.statements := rfl

@[simp] theorem declarations_append (a b : Output α) :
    (a ++ b).declarations = a.declarations ++ b.declarations := rfl

@[simp] theorem undeclared_append (a b : Output α) :
    (a ++ b).undeclared = a.undeclared ++ b.undeclared := rfl

end Output

end VbsCompiler
