import VbsCompiler.Text.CaseIgnorable
import VbsCompiler.Text.Cased
import VbsCompiler.Text.LowerRun

/-! Lower-casing of whole texts. Two characters do not map one to one: the dotted capital I
becomes an i and a combining dot, and a capital sigma that ends a word becomes a final sigma. -/

namespace VbsCompiler

/-- The first character that is not passed over has a case. -/
def meetsCased (cs : List Char) : Bool :=
  match cs.dropWhile isCaseIgnorable with
  | [] => false
  | c :: _ => isCased c

/-- The lower-case form of `c` between the characters before it, the nearest first, and those
after it. -/
def lowerAt (before : List Char) (c : Char) (after : List Char) : List Char :=
  if c = 'Σ' then
    if meetsCased before && !meetsCased after then ['ς'] else ['σ']
  else if c = 'İ' then ['i', '\u0307']
  else [lowerChar c]

def lowerFrom (before : List Char) : List Char → List Char
  | [] => []
  | c :: after => lowerAt before c after ++ lowerFrom (c :: before) after

def lowercase (s : String) : String :=
  String.ofList (lowerFrom [] s.toList)

theorem isUpper_of_mem_lowerAt {before after : List Char} {c d : Char}
    (h : d ∈ lowerAt before c after) : d.isUpper = false := by
  unfold lowerAt at h
  split at h
  · have hsigma : d = 'ς' ∨ d = 'σ' := by
      split at h
      · exact .inl (by simpa using h)
      · exact .inr (by simpa using h)
    rcases hsigma with rfl | rfl <;> decide
  · split at h
    · have hdotted : d = 'i' ∨ d = '\u0307' := by simpa using h
      rcases hdotted with rfl | rfl <;> decide
    · obtain rfl : d = lowerChar c := by simpa using h
      exact isUpper_lowerChar c

theorem isUpper_of_mem_lowerFrom {before cs : List Char} {d : Char}
    (h : d ∈ lowerFrom before cs) : d.isUpper = false := by
  induction cs generalizing before with
  | nil => cases h
  | cons c after ih =>
    rcases List.mem_append.mp h with hhere | hlater
    · exact isUpper_of_mem_lowerAt hhere
    · exact ih hlater

theorem isUpper_of_mem_lowercase {s : String} {d : Char} (h : d ∈ (lowercase s).toList) :
    d.isUpper = false := by
  rw [lowercase, String.toList_ofList] at h
  exact isUpper_of_mem_lowerFrom h

end VbsCompiler
