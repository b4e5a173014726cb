/-! Tokens of the source language: atoms, string literals, comments and the two marks that end a
statement. -/

namespace VbsCompiler

inductive Lexeme where
  /-- A name, number, operator or bracket. -/
  | atom (text : String)
  /-- A string literal; the text has no enclosing quotes and its quotes stand single. -/
  | literal (text : String)
  /-- A comment; the text follows the comment mark. -/
  | comment (text : String)
  | lineEnd
  | colon
  deriving DecidableEq, Repr

/-- The line break and the colon end a statement, any other text is an atom. -/
def Lexeme.ofText (text : String) : Lexeme :=
  if text = "\n" then .lineEnd
  else if text = ":" then .colon
  else .atom text

def Lexeme.text : Lexeme → String
  | .atom text => text
  | .literal text => text
  | .comment text => text
  | .lineEnd => "\n"
  | .colon => ":"

theorem Lexeme.text_ofText (text : String) : (Lexeme.ofText text).text = text := by
  unfold Lexeme.ofText
  split
  · simp_all [Lexeme.text]
  · split <;> simp_all [Lexeme.text]

def doubleQuotes : List Char → List Char
  | [] => []
  | c :: cs => if c = '"' then '"' :: '"' :: doubleQuotes cs else c :: doubleQuotes cs

def Lexeme.display : Lexeme → String
  | .literal text => String.ofList ('"' :: doubleQuotes text.toList ++ ['"'])
  | .comment text => "'" ++ text
  | l => l.text

/-- A lexeme with the line it was read from, counted from zero. -/
structure Token where
  lexeme : Lexeme
  line : Nat
  deriving DecidableEq, Repr

namespace Token

def ofText (text : String) (line : Nat) : Token :=
  ⟨Lexeme.ofText text, line⟩

def text (t : Token) : String :=
  t.lexeme.text

def display (t : Token) : String :=
  t.lexeme.display

def isEndOfStatement (t : Token) : Bool :=
  t.lexeme == .lineEnd || t.lexeme == .colon

def isComment (t : Token) : Bool :=
  match t.lexeme with
  | .comment _ => true
  | _ => false

def isAtom (t : Token) (text : String) : Bool :=
  t.lexeme == .atom text

end Token

end VbsCompiler
