import VbsCompiler.Text.Blank

/-! The source as stretches of code, string literals and comments. Literals and comments are set
apart first because break characters inside them are ordinary text. -/

namespace VbsCompiler

inductive Stretch where
  | code (text : List Char) (line : Nat)
  | literal (text : List Char) (line : Nat)
  | comment (text : List Char) (line : Nat)
  /-- A literal that its line does not close; nothing is read after it. -/
  | unclosed (line : Nat)
  deriving DecidableEq, Repr

namespace Stretch

/-- The word REM at the start of the text, after the given character: it is a whole word at the
start of a statement or after a blank. -/
def beginsRem (before : Option Char) : List Char → Bool
  | r :: e :: m :: rest =>
    (r == 'r' || r == 'R') && (e == 'e' || e == 'E') && (m == 'm' || m == 'M') &&
      before.all (fun c => c == ':' || isBlank c) && rest.head?.all isBlank
  | _ => false

/-- A comment ends before the carriage returns that end its line. -/
def dropReturns (reversed : List Char) : List Char :=
  (reversed.dropWhile (· == '\r')).reverse

def gatheredCode (pending : List Char) (start : Nat) : List Stretch :=
  if pending.isEmpty then [] else [.code pending.reverse start]

/- Each of the three readers keeps what it has gathered, the latest character first. -/
mutual

/-- Reads on in code: `pending` starts on line `start`, the next character stands on `line`. -/
def codeFrom (pending : List Char) (start : Nat) (before : Option Char) (line : Nat) :
    List Char → List Stretch
  | [] => gatheredCode pending start
  | c :: rest =>
    if c = '"' then
      gatheredCode pending start ++ literalFrom [] line rest
    else if c = '\'' then
      gatheredCode pending start ++ commentFrom 0 [] line rest
    else if beginsRem before (c :: rest) then
      gatheredCode pending start ++ commentFrom 2 [] line rest
    else
      codeFrom (c :: pending) (if pending.isEmpty then line else start) (some c)
        (if c = '\n' then line + 1 else line) rest
termination_by structural cs => cs

/-- Reads on inside a literal, in which two quotes stand for one. -/
def literalFrom (text : List Char) (line : Nat) : List Char → List Stretch
  | [] => [.unclosed line]
  | '"' :: '"' :: rest => literalFrom ('"' :: text) line rest
  | c :: rest =>
    if c = '"' then .literal text.reverse line :: codeFrom [] line (some '"') line rest
    else if c = '\n' then [.unclosed line]
    else literalFrom (c :: text) line rest
termination_by structural cs => cs

/-- Reads on inside a comment whose mark has `skip` more characters. -/
def commentFrom (skip : Nat) (text : List Char) (line : Nat) : List Char → List Stretch
  | [] => [.comment (dropReturns text) line]
  | c :: rest =>
    match skip with
    | skip' + 1 => commentFrom skip' text line rest
    | 0 =>
      if c = '\n' then
        .comment (dropReturns text) line :: codeFrom ['\n'] line (some '\n') (line + 1) rest
      else commentFrom 0 (c :: text) line rest
termination_by structural cs => cs

end

def ofSource (source : List Char) : List Stretch :=
  codeFrom [] 0 none 0 source

end Stretch

end VbsCompiler
