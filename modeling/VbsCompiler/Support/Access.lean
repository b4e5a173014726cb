import VbsCompiler.Support.Arguments

/-! Access to values: evaluating `target.member(arguments)` and assigning to it. -/

namespace VbsCompiler

/-- The two accesses that compiled code performs. The context is the object whose code runs, if
any; it may see members that others do not. -/
structure Access (σ : Type) where
  /-- Follows a path of members; the arguments belong to its end. -/
  call : (context : Option Value) → (target : Value) → (path : List String) →
    (args : Arguments σ) → Action σ Value
  /-- Assigns to a member, or to the indexed target itself. -/
  set : (context : Option Value) → (value target : Value) → (member : Option String) →
    (args : Arguments σ) → Action σ Unit

variable {σ : Type}

/-- Writes back the arguments that the callee takes by reference, all of them even if one fails;
the first error is kept. -/
def writeBack (object : ObjectRef) (member : String) (args : Arguments σ) :
    List (Value × Nat) → StateM (World σ) (Except ScriptError Unit)
  | [] => return .ok ()
  | (v, index) :: rest => do
    if object.passesByRef member index then
      let here ← (args.overwrite index v).run
      let later ← writeBack object member args rest
      match here with
      | .ok _ => return later
      | .error e => return .error e
    else writeBack object member args rest

/-- Invokes a member and then writes back, whether or not the invocation succeeded. A property has
no call with empty brackets. -/
def invokeMember (host : Host σ) (object : ObjectRef) (member : String) (args : Arguments σ) :
    Action σ Value :=
  match object.member? member with
  | none => throw (.notSupported member)
  | some signature =>
    if signature.kind = .property && args.count = 0 && args.brackets then
      throw (.notSupported member)
    else do
      let (result, after) ← ExceptT.lift (host.invoke object member args.values.toArray.toVector)
      let written ← ExceptT.lift (writeBack object member args after.toList.zipIdx)
      let value ← ofExcept result
      ofExcept written
      return value

def callMember (host : Host σ) (target : Value) (member : String) (args : Arguments σ) :
    Action σ Value :=
  match target with
  | .object object => invokeMember host object member args
  | .nothing => throw (.about .objectVariableNotSet s!"'{member}'")
  | _ => throw (.about .objectRequired s!"'{target.describe}'")

/-- Indexes the target itself. Without arguments and brackets that is the target. -/
def callTarget (host : Host σ) (target : Value) (args : Arguments σ) : Action σ Value :=
  if args.count = 0 && !args.brackets then return target
  else
    match target with
    | .array r => do
      let indices ← ofExcept args.indices
      Action.element r indices
    | .object object =>
      match object.defaultMember with
      | some member => invokeMember host object member args
      | none => throw (.notSupported object.typeName)
    | .nothing => throw (.about .objectVariableNotSet "'Nothing'")
    | _ => throw (.about .typeMismatch s!"'{target.describe}' is called like a function")

/-- Every member of the path but the last is read without arguments. -/
def callPath (host : Host σ) (target : Value) (args : Arguments σ) : List String → Action σ Value
  | [] => callTarget host target args
  | [last] => callMember host target last args
  | member :: rest => do
    let next ← callMember host target member .none
    callPath host next args rest

def assignTo (host : Host σ) (value target : Value) (member : Option String)
    (args : Arguments σ) : Action σ Unit :=
  match target, member with
  | .object object, some member =>
    if (object.member? member).isSome then host.assign object member args.values value
    else throw (.notSupported member)
  | .object object, none =>
    match object.defaultMember with
    | some member => host.assign object member args.values value
    | none => throw (.notSupported object.typeName)
  | .nothing, _ => throw (.about .objectVariableNotSet "'Nothing'")
  | _, some member => throw (.about .objectRequired s!"'{target.describe}' (setting '{member}')")
  | .array r, none =>
    if args.count = 0 then throw target.mismatch
    else do
      let indices ← ofExcept args.indices
      Action.setElement r indices value
  | _, none => throw target.mismatch

def Access.standard (host : Host σ) : Access σ where
  call _ target path args := callPath host target args path
  set _ value target member args := assignTo host value target member args

def Access.observed (access : Access σ)
    (onCall : Option Value → Value → List String → Arguments σ → Action σ Unit)
    (onSet : Option Value → Value → Value → Option String → Arguments σ → Action σ Unit) :
    Access σ where
  call context target path args := do
    onCall context target path args
    access.call context target path args
  set context value target member args := do
    onSet context value target member args
    access.set context value target member args

/-- Indexes through the chain; `addressable` tells whether everything indexed so far is an array. -/
def indexThrough (access : Access σ) (target : Value) (addressable : Bool) (args : Arguments σ) :
    List (Arguments σ) → Action σ (Slot σ)
  | [] => do
    let value ← access.call none target [] args
    if addressable && target.isArray then
      return ⟨value, some fun v => access.set none v target none args⟩
    else return ⟨value, none⟩
  | next :: rest => do
    let inner ← access.call none target [] args
    indexThrough access inner (addressable && target.isArray) next rest

/-- The slot of an indexed element as an argument. Only an element of an array can be written
back, and only if all that was indexed on the way to it are arrays. -/
def indexedSlot (access : Access σ) (target : Value) (chain : List (Arguments σ)) :
    Action σ (Slot σ) :=
  match chain with
  | [] => throw (.arguments .noProviders)
  | first :: rest =>
    match chain.findIdx? (·.count = 0) with
    | some index => throw (.arguments (.emptyProvider index))
    | none => indexThrough access target true first rest

end VbsCompiler
