import VbsCompiler.Support.Access

/-! Scripted objects: objects whose members do what a small script says. They stand in for the
objects of an environment where the support library is tried out. -/

namespace VbsCompiler

inductive Outcome where
  | value (v : Value)
  | argument (index : Nat)
  | fail (e : ScriptError)
  /-- The number of arguments. -/
  | count
  /-- The member's own field, or an element of the array in it. -/
  | field

structure ScriptedMember where
  signature : Signature
  /-- Values put into arguments when the member is invoked. -/
  writes : List (Nat × Value) := []
  /-- Arguments that are then increased by one. -/
  increments : List Nat := []
  field : Value := .empty
  /-- Assignments are refused. -/
  denies : Bool := false
  outcome : Outcome := .field

structure ScriptedObject where
  typeName : String
  defaultMember : Option String
  members : List ScriptedMember

namespace ScriptedObject

def member? (o : ScriptedObject) (name : String) : Option ScriptedMember :=
  o.members.find? (·.signature.name = name)

def setFieldIn (name : String) (v : Value) : List ScriptedMember → List ScriptedMember
  | [] => []
  | m :: rest =>
    if m.signature.name = name then { m with field := v } :: rest
    else m :: setFieldIn name v rest

def setField (o : ScriptedObject) (name : String) (v : Value) : ScriptedObject :=
  { o with members := setFieldIn name v o.members }

def ref (o : ScriptedObject) (id : Nat) : ObjectRef :=
  ⟨id, o.typeName, o.defaultMember, o.members.map (·.signature)⟩

end ScriptedObject

inductive LogEntry where
  | call (context : Bool) (target : String) (path : List String) (count : Nat)
  | set (context : Bool) (target : String) (member : Option String) (count : Nat) (value : String)
  | invoke (typeName member : String) (args : List String)
  | assign (typeName member : String) (args : List String) (value : String)
  | update (name value : String)
  deriving DecidableEq, Repr

structure Stage where
  objects : Array ScriptedObject := #[]
  vars : List (String × Value) := []
  log : List LogEntry := []

namespace Stage

def record (entry : LogEntry) : Action Stage Unit :=
  modify fun w => { w with objects.log := w.objects.log ++ [entry] }

def valueOf (name : String) : Action Stage Value := do
  return ((← get).objects.vars.lookup name).getD .empty

def setVariable (name : String) (v : Value) : Action Stage Unit :=
  modify fun w =>
    let others := w.objects.vars.filter (·.1 ≠ name)
    { w with objects.vars := (name, v) :: others }

def newObject (o : ScriptedObject) : Action Stage Value :=
  modifyGet fun w =>
    (.object (o.ref w.objects.objects.size),
      { w with objects.objects := w.objects.objects.push o })

def member? (object : ObjectRef) (name : String) : Action Stage (Option ScriptedMember) := do
  return (← get).objects.objects[object.id]?.bind (·.member? name)

def notAnArray (member : String) : ScriptError :=
  .about .typeMismatch s!"'{member}' is not an array"

def wrongNumber : ScriptError :=
  .raised .wrongNumberOfArguments none

/-- The arguments increased one after the other, up to the first that cannot be. -/
def increase {n : Nat} (args : Vector Value n) : List Nat → Except ScriptError Unit × Vector Value n
  | [] => (.ok (), args)
  | i :: rest =>
    if h : i < n then
      match args[i].toIndex with
      | .ok k => increase (args.set i (.long (k + 1))) rest
      | .error e => (.error e, args)
    else (.error wrongNumber, args)

def outcomeOf {n : Nat} (member : ScriptedMember) (args : Vector Value n) : Action Stage Value :=
  match member.outcome with
  | .value v => return v
  | .argument i =>
    match args[i]? with
    | some v => return v
    | none => throw wrongNumber
  | .count => return .long (Int32.ofNat n)
  | .fail e => throw e
  | .field =>
    if n = 0 then return member.field
    else
      match member.field with
      | .array r => do
        let indices ← ofExcept (args.toList.mapM Value.toIndex)
        Action.element r indices
      | _ => throw (notAnArray member.signature.name)

def invoke {n : Nat} (object : ObjectRef) (name : String) (args : Vector Value n) :
    StateM (World Stage) (Except ScriptError Value × Vector Value n) := do
  let _ ← (record (.invoke object.typeName name (args.toList.map Value.describe))).run
  match ← (member? object name).run with
  | .error e => return (.error e, args)
  | .ok none => return (.error (.notSupported name), args)
  | .ok (some member) =>
    let written := member.writes.foldl (fun (a : Vector Value n) (i, v) => a.setIfInBounds i v) args
    match increase written member.increments with
    | (.error e, args) => return (.error e, args)
    | (.ok _, args) =>
      let result ← (outcomeOf member args).run
      return (result, args)

def assign (object : ObjectRef) (name : String) (args : List Value) (v : Value) :
    Action Stage Unit := do
  record (.assign object.typeName name (args.map Value.describe) v.describe)
  match ← member? object name with
  | none => throw (.notSupported name)
  | some member =>
    if member.denies then throw (.notSupported name)
    else if args.isEmpty then
      modify fun w =>
        { w with objects.objects := w.objects.objects.modify object.id (·.setField name v) }
    else
      match member.field with
      | .array r => do
        let indices ← ofExcept (args.mapM Value.toIndex)
        Action.setElement r indices v
      | _ => throw (notAnArray name)

def host : Host Stage where
  invoke := invoke
  assign := assign

def recordedAccess : Access Stage :=
  (Access.standard host).observed
    (fun context target path args =>
      record (.call context.isSome target.describe path args.count))
    (fun context value target member args =>
      record (.set context.isSome target.describe member args.count value.describe))

/-- An argument passed by reference from a variable. Writing it back is recorded, and fails if an
error is given. -/
def variableSlot (name : String) (value : Value) (fail : Option ScriptError) : Slot Stage :=
  ⟨value, some fun v => do
    record (.update name v.describe)
    match fail with
    | some e => throw e
    | none => setVariable name v⟩

end Stage

end VbsCompiler
