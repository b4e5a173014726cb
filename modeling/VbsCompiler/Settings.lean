import VbsCompiler.Json.Reader
import VbsCompiler.Target.Naming
import VbsCompiler.Text.Blank

/-! The settings of the compiler, a JSON object in which every option may be missing. -/

namespace VbsCompiler

structure Settings where
  names : OutputNames := {}
  /-- The names that the environment provides. -/
  environment : List String := ["wscript"]
  deriving DecidableEq, Repr

inductive SettingsError where
  /-- The file is missing or is not a text. -/
  | unreadable (path : String)
  /-- The text is no JSON, or some option has a value of the wrong form. -/
  | malformed
  | blankOption (key : String)
  | blankDependency (index : Nat)
  /-- The error of a text that was read from a file. -/
  | inFile (path : String) (error : SettingsError)
  deriving DecidableEq, Repr

namespace SettingsError

def chain : SettingsError → List String
  | .unreadable path => [s!"failed to read translator config {path}", "io"]
  | .malformed => ["failed to parse translator config", "json"]
  | .blankOption key => [s!"config option '{key}' must not be empty"]
  | .blankDependency index => [s!"externalDependencies[{index}] must not be empty"]
  | .inFile path error => s!"in {path}" :: error.chain

def message (e : SettingsError) : String :=
  e.chain.headD ""

end SettingsError

namespace Settings

/-- The value of an option that may be missing but must not be repeated. -/
def option? (members : List (String × Json)) (key : String) : Option (Option Json) :=
  match members.filter (·.1 = key) with
  | [] => some none
  | [(_, value)] => some (some value)
  | _ => none

def string? : Json → Option String
  | .string s => some s
  | _ => none

def strings? : Json → Option (List String)
  | .array items => items.mapM string?
  | _ => none

def nameOption (members : List (String × Json)) (key : String) (default : Ident) : Option Ident :=
  match option? members key with
  | none => none
  | some none => some default
  | some (some value) => (string? value).map Ident.mk

def dependenciesOption (members : List (String × Json)) (default : List String) :
    Option (List String) :=
  match option? members "externalDependencies" with
  | none => none
  | some none => some default
  | some (some value) => strings? value

/-- The settings of a JSON value; options that are not known are ignored. -/
def ofJson? : Json → Option Settings
  | .object members => do
    let default : Settings := {}
    let support ← nameOption members "supportRefName" default.names.support
    let envClass ← nameOption members "envClassName" default.names.envClass
    let env ← nameOption members "envRefName" default.names.env
    let outerClass ← nameOption members "outerClassName" default.names.outerClass
    let outer ← nameOption members "outerRefName" default.names.outer
    let environment ← dependenciesOption members default.environment
    return ⟨⟨support, envClass, env, outerClass, outer⟩, environment⟩
  | _ => none

def nameOptions (s : Settings) : List (String × Ident) :=
  [("supportRefName", s.names.support), ("envClassName", s.names.envClass),
    ("envRefName", s.names.env), ("outerClassName", s.names.outerClass),
    ("outerRefName", s.names.outer)]

/-- No name and no dependency is blank; the first that is decides the error. -/
def validate (s : Settings) : Except SettingsError Settings :=
  match s.nameOptions.find? (isBlankText ·.2.text) with
  | some (key, _) => .error (.blankOption key)
  | none =>
    match s.environment.findIdx? isBlankText with
    | some index => .error (.blankDependency index)
    | none => .ok s

def parse (source : String) : Except SettingsError Settings :=
  match (Json.read? source).bind ofJson? with
  | some s => s.validate
  | none => .error .malformed

def load (path : String) (content : Option ByteArray) : Except SettingsError Settings :=
  match content.bind String.fromUTF8? with
  | none => .error (.unreadable path)
  | some source => (parse source).mapError (.inFile path)

def environmentNames (s : Settings) : List Name :=
  s.environment.map (⟨·, 0⟩)

end Settings

end VbsCompiler
