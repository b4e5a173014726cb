import VbsCompiler.Source.ScanError
import VbsCompiler.Source.Token
import VbsCompiler.Text.Blank

/-! Breaking a stretch of code, without literals and comments, into atoms and statement ends.

Blanks separate atoms and are dropped. A break character is a token by itself, except an
ampersand that begins a hexadecimal number. An underscore after a blank is a continuation mark:
it cancels the line break that must follow it. -/

namespace VbsCompiler

def breakChars : List Char :=
  [',', '.', '*', '&', '+', '-', '/', '\\', '=', '!', '(', ')', '\x7b', '\x7d', '[', ']', '<', '>',
    ':', ';', '\n']

def isBreakChar (c : Char) : Bool :=
  breakChars.contains c

/-- An ampersand, an h of either case and a decimal digit. -/
def beginsHex : List Char → Bool
  | '&' :: h :: d :: _ => (h == 'h' || h == 'H') && d.isDigit
  | _ => false

def gathered (pending : List Char) (line : Nat) : List Token :=
  if pending.isEmpty then [] else [Token.ofText (String.ofList pending.reverse) line]

/-- The tokens of the text, continuation marks included. `afterBlank` tells whether a blank stands
right before it. -/
def atomsFrom (afterBlank : Bool) (pending : List Char) (line : Nat) : List Char → List Token
  | [] => gathered pending line
  | c :: rest =>
    if isBlank c && c != '\n' then
      gathered pending line ++ atomsFrom true [] line rest
    else if beginsHex (c :: rest) then
      atomsFrom false (c :: pending) line rest
    else if isBreakChar c || (c == '_' && afterBlank) then
      gathered pending line ++
        Token.ofText c.toString line ::
          atomsFrom (isBlank c) [] (if c = '\n' then line + 1 else line) rest
    else
      atomsFrom false (c :: pending) line rest

/-- Drops every continuation mark with the line break it cancels. -/
def elideContinuations : List Token → Except ScanError (List Token)
  | [] => .ok []
  | t :: rest =>
    if t.isAtom "_" then
      match rest with
      | next :: rest' =>
        if next.lexeme = .lineEnd then elideContinuations rest'
        else .error (.danglingContinuation (t.line + 1))
      | [] => .error (.danglingContinuation (t.line + 1))
    else do
      let tokens ← elideContinuations rest
      return t :: tokens

def breakCode (code : List Char) (line : Nat) : Except ScanError (List Token) :=
  elideContinuations (atomsFrom false [] line code)

end VbsCompiler
