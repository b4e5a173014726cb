import VbsCompiler.Json.Basic
import VbsCompiler.Number.Clipped

/-! Reading strict JSON. Nothing but blanks may follow the value, containers nest up to a fixed
depth, and a number must be in the range of double precision as words evaluate it. -/

namespace VbsCompiler

namespace Json

abbrev Reader (α : Type) := List Char → Option (α × List Char)

def isSpace (c : Char) : Bool :=
  c == ' ' || c == '\t' || c == '\n' || c == '\r'

def skipSpace (cs : List Char) : List Char :=
  cs.dropWhile isSpace

def hexDigit? (c : Char) : Option Nat :=
  if c.isDigit then some (c.toNat - '0'.toNat)
  else if 'a' ≤ c ∧ c ≤ 'f' then some (c.toNat - 'a'.toNat + 10)
  else if 'A' ≤ c ∧ c ≤ 'F' then some (c.toNat - 'A'.toNat + 10)
  else none

def simpleEscape? (c : Char) : Option Char :=
  if c = '"' then some '"'
  else if c = '\\' then some '\\'
  else if c = '/' then some '/'
  else if c = 'b' then some '\x08'
  else if c = 'f' then some '\x0c'
  else if c = 'n' then some '\n'
  else if c = 'r' then some '\r'
  else if c = 't' then some '\t'
  else none

def isHighSurrogate (n : Nat) : Bool :=
  0xd800 ≤ n && n < 0xdc00

def isLowSurrogate (n : Nat) : Bool :=
  0xdc00 ≤ n && n < 0xe000

def pairedSurrogates (high low : Nat) : Char :=
  Char.ofNat (0x10000 + (high - 0xd800) * 0x400 + (low - 0xdc00))

/- The readers of a string keep the text read so far, the latest character first. -/
mutual

def stringFrom (text : List Char) : Reader String
  | [] => none
  | c :: rest =>
    if c = '"' then some (String.ofList text.reverse, rest)
    else if c = '\\' then escapeFrom text rest
    else if c.toNat < 0x20 then none
    else stringFrom (c :: text) rest
termination_by structural cs => cs

def escapeFrom (text : List Char) : Reader String
  | [] => none
  | c :: rest =>
    if c = 'u' then unitFrom text none 3 0 rest
    else
      match simpleEscape? c with
      | some d => stringFrom (d :: text) rest
      | none => none
termination_by structural cs => cs

/-- Reads on inside a code unit: `n` is what its digits give so far, and `left` more follow the
next one. A high surrogate waits for the low one that must follow. -/
def unitFrom (text : List Char) (high : Option Nat) (left n : Nat) : Reader String
  | [] => none
  | c :: rest =>
    match hexDigit? c with
    | none => none
    | some d =>
      let unit := 16 * n + d
      match left, high with
      | left' + 1, _ => unitFrom text high left' unit rest
      | 0, some h => if isLowSurrogate unit then stringFrom (pairedSurrogates h unit :: text) rest
        else none
      | 0, none =>
        if isHighSurrogate unit then lowFrom text unit false rest
        else if isLowSurrogate unit then none
        else stringFrom (Char.ofNat unit :: text) rest
termination_by structural cs => cs

def lowFrom (text : List Char) (high : Nat) (slashed : Bool) : Reader String
  | [] => none
  | c :: rest =>
    if slashed then
      if c = 'u' then unitFrom text (some high) 3 0 rest else none
    else if c = '\\' then lowFrom text high true rest
    else none
termination_by structural cs => cs

end

/-- A number with no blank, no plus sign and no superfluous zero in front, and digits on both sides
of its point. -/
def readNumber : Reader Decimal := fun cs =>
  let (negative, body) :=
    match cs with
    | '-' :: r => (true, r)
    | r => (false, r)
  let whole := body.takeWhile Char.isDigit
  let after := body.dropWhile Char.isDigit
  let (fraction, rest) := Decimal.readFraction after
  if whole.isEmpty || (whole.head? = some '0' && whole != ['0']) then none
  else if after.head? = some '.' && fraction.isEmpty then none
  else
    match Decimal.readExponent rest with
    | none => none
    | some (exponent, rest) =>
      if (Decimal.clipped negative whole fraction exponent).isInRange then
        some (Decimal.ofParts negative whole fraction exponent, rest)
      else none

/-- Items with commas between them, up to the closing character. There are at most `count` of
them, since each takes up a part of the text. -/
def readItems {α : Type} (item : Reader α) (close : Char) : Nat → Reader (List α)
  | 0, _ => none
  | count + 1, cs =>
    match item (skipSpace cs) with
    | none => none
    | some (a, rest) =>
      match skipSpace rest with
      | [] => none
      | c :: rest =>
        if c = close then some ([a], rest)
        else if c = ',' then (readItems item close count rest).map fun (as, rest) => (a :: as, rest)
        else none

def readEnclosed {α : Type} (item : Reader α) (close : Char) : Reader (List α) := fun cs =>
  match skipSpace cs with
  | [] => none
  | c :: rest =>
    if c = close then some ([], rest) else readItems item close (c :: rest).length (c :: rest)

def readMember (value : Reader Json) : Reader (String × Json)
  | '"' :: rest =>
    match stringFrom [] rest with
    | none => none
    | some (key, rest) =>
      match skipSpace rest with
      | ':' :: rest => (value (skipSpace rest)).map fun (v, rest) => ((key, v), rest)
      | _ => none
  | _ => none

def readWith (inner : Option (Reader Json)) : Reader Json
  | '"' :: rest => (stringFrom [] rest).map fun (s, rest) => (.string s, rest)
  | '[' :: rest =>
    inner.bind fun value =>
      (readEnclosed value ']' rest).map fun (items, rest) => (.array items, rest)
  | '\x7b' :: rest =>
    inner.bind fun value =>
      (readEnclosed (readMember value) '\x7d' rest).map fun (ms, rest) => (.object ms, rest)
  | 't' :: 'r' :: 'u' :: 'e' :: rest => some (.boolean true, rest)
  | 'f' :: 'a' :: 'l' :: 's' :: 'e' :: rest => some (.boolean false, rest)
  | 'n' :: 'u' :: 'l' :: 'l' :: rest => some (.null, rest)
  | cs => (readNumber cs).map fun (d, rest) => (.number d, rest)

/-- Reads a value in which containers nest at most `depth` deep. -/
def readValue : Nat → Reader Json
  | 0 => readWith none
  | depth + 1 => readWith (some (readValue depth))

def maxDepth : Nat := 127

def read? (source : String) : Option Json :=
  match readValue maxDepth (skipSpace source.toList) with
  | some (v, rest) => if (skipSpace rest).isEmpty then some v else none
  | none => none

end Json

end VbsCompiler
