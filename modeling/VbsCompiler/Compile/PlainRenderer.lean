import VbsCompiler.Compile.Renderer

/-! A plain renderer: it keeps the tokens in order, qualifies every name by where it is declared
and wraps the text by what is demanded of it. -/

namespace VbsCompiler

namespace PlainRenderer

def keywords : List String :=
  ["and", "or", "not", "true", "false", "nothing", "empty"]

def isName (t : Token) : Bool :=
  match t.lexeme with
  | .atom text =>
    text.toList.head?.any (fun c => c.isAlpha || 0x80 ≤ c.toNat) &&
      !keywords.contains (String.ofList (text.toList.map Char.toLower))
  | _ => false

def reference (naming : Naming) (scope : Scope) (n : Name) : String :=
  let target := (naming n).text
  match scope.isOwnName naming n, scope.returnSlot with
  | true, some slot => slot.text
  | _, _ =>
    match scope.resolve naming n with
    | some (.environment, _) => "_env." ++ target
    | some (_, .outermost) => "_outer." ++ target
    | some _ => target
    | none => if scope.location.isWithinFunction then target else "_env." ++ target

structure State where
  text : String := ""
  /-- No space goes before what follows. -/
  glue : Bool := true
  /-- What follows is a member. -/
  member : Bool := false
  accessed : List Name := []
  previous : Option Token := none

namespace State

def push (s : State) (piece : String) : State :=
  { s with text := if s.glue then s.text ++ piece else s.text ++ " " ++ piece }

/-- A dot after the previous token selects a member of what that token ends. -/
def endsTarget (s : State) : Bool :=
  s.previous.any fun t =>
    isName t || t.text = ")" ||
      match t.lexeme with
      | .literal _ => true
      | _ => false

def dot (s : State) (scope : Scope) (t : Token) : Except CompileError State :=
  if s.endsTarget then .ok { s with text := s.text ++ ".", glue := true, member := true }
  else
    match scope.withReference with
    | none => .error (.expression "member access without a target" (t.line + 1))
    | some w => .ok { s.push (w.target.text ++ ".") with glue := true, member := true }

def word (s : State) (naming : Naming) (scope : Scope) (t : Token) : State :=
  if isName t then
    if s.member then { s with text := s.text ++ t.text, glue := false, member := false }
    else
      let n : Name := ⟨t.text, t.line⟩
      { s.push (reference naming scope n) with
        glue := false, member := false, accessed := s.accessed ++ [n] }
  else { s.push t.display with glue := false, member := false }

def step (s : State) (naming : Naming) (scope : Scope) (t : Token) : Except CompileError State :=
  if t.isAtom "." then (s.dot scope t).map ({ · with previous := some t })
  else if t.text = "#fail" then .error (.expression "failed on purpose" (t.line + 1))
  else .ok { s.word naming scope t with previous := some t }

end State

def renderRun (naming : Naming) (scope : Scope) (run : TokenRun) :
    Except CompileError Rendering := do
  let s ← run.foldlM (fun (s : State) t => s.step naming scope t) {}
  return ⟨s.text, s.accessed⟩

def wrap : Demand → String → String
  | .reference, text => text
  | .statement, text => text
  | .value, text => "V(" ++ text ++ ")"
  | .boolean, text => "_.IF(" ++ text ++ ")"
  | .effect, text => "N(" ++ text ++ ")"

end PlainRenderer

def plainRenderer (naming : Naming) : Renderer := fun demand run scope => do
  let r ← PlainRenderer.renderRun naming scope run
  return { r with text := PlainRenderer.wrap demand r.text }

end VbsCompiler
