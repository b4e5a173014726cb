import VbsCompiler.Target.Code
import VbsCompiler.Target.Line

/-! Laying out emitted code as lines. The depth of a line is the number of braces around it,
except that the statement under a flag check stands one level deeper than the check. -/

namespace VbsCompiler

def bracedList (items : List String) : String :=
  "\x7b " ++ ", ".intercalate items ++ " \x7d"

def boundsText (bounds : List Fragment) : String :=
  if bounds.isEmpty then "new object[0]"
  else "new object[] " ++ bracedList (bounds.map (·.text))

namespace Operation

def text (support : Ident) : Operation → String
  | .perform body => s!"{body.text};"
  | .assign target value => s!"{target.text} = {value.text};"
  | .newArray (some target) bounds =>
    s!"{target.text} = {support.text}.NEWARRAY({boundsText bounds});"
  | .newArray none bounds => s!"{support.text}.NEWARRAY({boundsText bounds});"
  | .resizeArray target bounds =>
    s!"{target.text} = {support.text}.RESIZEARRAY({target.text}, {boundsText bounds});"
  | .rejectAssignment name =>
    support.text ++ ".RAISEERROR(new IllegalAssignmentException(\"'" ++ name ++ "'\"));"

/-- The statements as they stand in the code. Under a guard they are one call of the error
handler, so that an error skips the rest of them. -/
def texts (support : Ident) (guard : Option Ident) (operations : List Operation) : List String :=
  let plain := operations.map (text support)
  match guard with
  | none => plain
  | some token =>
    [s!"{support.text}.HANDLEERROR({token.text}, () => \x7b " ++ " ".intercalate plain ++ " \x7d);"]

end Operation

def Condition.text (c : Condition) : String :=
  if c.negated then "!" ++ c.test.text else c.test.text

namespace LoopHead

def opening (support : Ident) : LoopHead → String
  | .endless => "while (true)"
  | .testFirst condition => s!"while ({condition.text})"
  | .testLast _ => "do"
  | .counting _ counter first last step =>
    s!"for ({counter.text} = {first.text}; " ++
      s!"{support.text}.CONTINUEFOR({counter.text}, {last.text}, {step.text}); " ++
      s!"{counter.text} = {support.text}.ADD({counter.text}, {step.text}))"

def closing : LoopHead → String
  | .testLast condition => s!"\x7d while ({condition.text});"
  | _ => "\x7d"

def origin : LoopHead → Option Nat
  | .counting origin _ _ _ _ => some origin
  | _ => none

end LoopHead

def TrapMode.operation : TrapMode → String
  | .start => "STARTERRORTRAPPINGANDCLEARANYERROR"
  | .stop => "STOPERRORTRAPPINGANDCLEARANYERROR"

namespace MethodHead

def parameterText : Ident × Bool → String
  | (name, byRef) => if byRef then s!"ref object {name.text}" else s!"object {name.text}"

def text (h : MethodHead) : String :=
  let returns :=
    match h.kind with
    | .function => "object"
    | .sub => "void"
  s!"public {returns} {h.name.text}(" ++ ", ".intercalate (h.parameters.map parameterText) ++ ")"

end MethodHead

namespace MethodResult

def openingLines (depth : Nat) : MethodResult → List Line
  | .slot name => [⟨s!"object {name.text} = null;", depth, none⟩]
  | _ => []

def closingLines (depth : Nat) : MethodResult → List Line
  | .slot name => [⟨s!"return {name.text};", depth, none⟩]
  | .null => [⟨"return null;", depth, none⟩]
  | .nothing => []

end MethodResult

namespace Code

mutual

def lines (support : Ident) (depth : Nat) : Code → List Line
  | .act origin guard operations =>
    (Operation.texts support guard operations).map (⟨·, depth, origin⟩)
  | .bind origin name value => [⟨s!"var {name.text} = {value.text};", depth, some origin⟩]
  | .trapping origin mode token =>
    [⟨s!"{support.text}.{mode.operation}({token.text});", depth, some origin⟩]
  | .raise origin flag => [⟨s!"{flag.text} = true;", depth, some origin⟩]
  | .leave origin => [⟨"break;", depth, some origin⟩]
  | .giveBack origin (some slot) => [⟨s!"return {slot.text};", depth, some origin⟩]
  | .giveBack origin none => [⟨"return;", depth, some origin⟩]
  | .loop head flag body =>
    ⟨head.opening support, depth, head.origin⟩ :: ⟨"\x7b", depth, none⟩ ::
      (flag.toList.map fun f => ⟨s!"var {f.text} = false;", depth + 1, none⟩) ++
      allLines support (depth + 1) body ++ [⟨head.closing, depth, none⟩]
  | .check flags =>
    [⟨"if (" ++ " || ".intercalate (flags.map (·.text)) ++ ")", depth, none⟩,
      ⟨"break;", depth + 1, none⟩]
  | .trapped token body =>
    ⟨s!"var {token.text} = {support.text}.GETERRORTRAPPINGTOKEN();", depth, none⟩ ::
      ⟨"try", depth, none⟩ :: ⟨"\x7b", depth, none⟩ :: allLines support (depth + 1) body ++
      [⟨"\x7d", depth, none⟩,
        ⟨s!"finally \x7b {support.text}.RELEASEERRORTRAPPINGTOKEN({token.text}); \x7d", depth,
          none⟩]
  | .method head locals undeclaredLocals body result =>
    ⟨head.text, depth, some head.origin⟩ :: ⟨"\x7b", depth, none⟩ ::
      result.openingLines (depth + 1) ++
      (locals.map fun x => ⟨s!"object {x.text} = null;", depth + 1, none⟩) ++
      (undeclaredLocals.map fun x =>
        ⟨s!"object {x.text} = null; /* Undeclared in source */", depth + 1, none⟩) ++
      allLines support (depth + 1) body ++ result.closingLines (depth + 1) ++
      [⟨"\x7d", depth, none⟩]

def allLines (support : Ident) (depth : Nat) : List Code → List Line
  | [] => []
  | c :: rest => c.lines support depth ++ allLines support depth rest

end

end Code

end VbsCompiler
