import VbsCompiler.Support.Inspect
import VbsCompiler.Support.Library
import VbsCompiler.Support.Snapshot
import VbsCompiler.Workbench.Scripted

/-! Sessions on the workbench. Operands are computations, evaluated where a step needs them. -/

namespace VbsCompiler

/-- A session: the world and the argument lists that were given a name. -/
structure Workbench where
  world : World Stage := ⟨{}, {}⟩
  lists : List (String × Arguments Stage) := []

namespace Workbench

abbrev Step := ExceptT ScriptError (StateM Workbench)

def act {α : Type} (action : Action Stage α) : Step α :=
  ExceptT.mk (modifyGet fun b =>
    let (result, world) := action.run.run b.world
    (result, { b with world }))

def library (plain : Bool) : Library Stage :=
  ⟨if plain then Access.standard Stage.host else Stage.recordedAccess⟩

/-! Values -/

def valueOf (name : String) : Step Value :=
  act (Stage.valueOf name)

def newArray (shape : Shape) : Step Value := do
  let g ← ofExcept (Grid.allocate shape)
  act (Action.allocate g)

def arrayOf (values : List Value) : Step Value :=
  act (Action.allocate (Grid.ofValues values))

def newObject (o : ScriptedObject) : Step Value :=
  act (Stage.newObject o)

/-! Argument lists -/

/-- A named list; a name that was never given stands for no arguments. -/
def namedList (name : String) : Step (Arguments Stage) := do
  return ((← get).lists.lookup name).getD .none

def nameList (name : String) (args : Arguments Stage) : Step Unit :=
  modify fun b => { b with lists := (name, args) :: b.lists.filter (·.1 ≠ name) }

def indexedSlot (lib : Library Stage) (target : Value) (chain : List (Arguments Stage)) :
    Step (Slot Stage) :=
  act (VbsCompiler.indexedSlot lib.access target chain)

def store (into : Option String) (v : Value) : Step Unit :=
  match into with
  | some name => act (Stage.setVariable name v)
  | none => pure ()

/-! Arrays -/

def gridOf (v : Value) : Step Grid :=
  match v with
  | .array r => act (Action.grid r)
  | _ => throw v.mismatch

def setElement (v : Value) (indices : List Int32) (item : Value) : Step Unit :=
  match v with
  | .array r => act (Action.setElement r indices item)
  | _ => throw v.mismatch

def resized (v : Value) (shape : Shape) : Step Value := do
  let g ← gridOf v
  let copy ← ofExcept (g.resized shape)
  act (Action.allocate copy)

/-! Results -/

def heap (b : Workbench) : Heap :=
  b.world.heap

def vars (b : Workbench) : List (String × Value) :=
  b.world.objects.vars.mergeSort fun x y => x.1 ≤ y.1

def run {α : Type} (b : Workbench) (step : Step α) :
    Except ScriptError α × List LogEntry × Workbench :=
  let (result, after) := step.run.run { b with world.objects.log := [] }
  (result, after.world.objects.log, after)

end Workbench

end VbsCompiler
