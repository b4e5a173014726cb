import Mathlib.Data.List.Forall2
import VbsCompiler.Program

/-! What the lines of emitted code do to temporaries: they open and close blocks, declare
temporaries and use them. A temporary may be used behind its declaration as long as the block of the
declaration is open, but a method does not see what is declared around it. -/

namespace VbsCompiler

inductive Mark where
  /-- Opens a block, which may be the body of a method. -/
  | enter (ofMethod : Bool)
  | leave
  | declare (id : Ident)
  /-- Uses a temporary. It is certain of what the compiler writes itself; a rendered text may use
  the temporaries that it was offered. -/
  | use (id : Ident) (certain : Bool)
  deriving DecidableEq, Repr

def Fragment.marks (f : Fragment) : List Mark :=
  f.temporaries.map (.use · false)

namespace Operation

def fragments : Operation → List Fragment
  | .perform body => [body]
  | .assign target value => [target, value]
  | .newArray target bounds => target.toList ++ bounds
  | .resizeArray target bounds => target :: bounds
  | .rejectAssignment _ => []

def marks (o : Operation) : List Mark :=
  o.fragments.flatMap Fragment.marks

end Operation

namespace LoopHead

def openingMarks : LoopHead → List Mark
  | .testFirst condition => condition.test.marks
  | .counting _ counter first last step =>
    counter.marks ++ first.marks ++ [.use last true, .use step true]
  | _ => []

/-- A condition behind the body stands outside of the block. -/
def closingMarks : LoopHead → List Mark
  | .testLast condition => condition.test.marks
  | _ => []

end LoopHead

namespace MethodResult

def openingMarks : MethodResult → List (List Mark)
  | .slot name => [[.declare name]]
  | _ => []

def closingMarks : MethodResult → List (List Mark)
  | .slot name => [[.use name true]]
  | .null => [[]]
  | .nothing => []

end MethodResult

namespace Code

mutual

def marks : Code → List (List Mark)
  | .act _ none operations => operations.map Operation.marks
  | .act _ (some token) operations => [.use token true :: operations.flatMap Operation.marks]
  | .bind _ name value => [value.marks ++ [.declare name]]
  | .trapping _ _ token => [[.use token true]]
  | .raise _ flag => [[.use flag true]]
  | .leave _ => [[]]
  | .giveBack _ slot => [slot.toList.map (.use · true)]
  | .loop head flag body =>
    head.openingMarks :: [.enter false] :: (flag.toList.map fun f => [.declare f]) ++
      allMarks body ++ [.leave :: head.closingMarks]
  | .check flags => [flags.map (.use · true), []]
  | .trapped token body =>
    [.declare token] :: [] :: [.enter false] :: allMarks body ++
      [[.leave], [.enter false, .use token true, .leave]]
  | .method _ locals undeclaredLocals body result =>
    [] :: [.enter true] :: result.openingMarks ++ (locals.map fun _ => []) ++
      (undeclaredLocals.map fun _ => []) ++ allMarks body ++ result.closingMarks ++ [[.leave]]

def allMarks : List Code → List (List Mark)
  | [] => []
  | c :: rest => c.marks ++ allMarks rest

end

def trace (codes : List Code) : List Mark :=
  (allMarks codes).flatten

theorem allMarks_append (codes more : List Code) :
    allMarks (codes ++ more) = allMarks codes ++ allMarks more := by
  induction codes with
  | nil => rfl
  | cons c rest ih => rw [List.cons_append, allMarks, allMarks, ih, List.append_assoc]

@[simp] theorem trace_nil : trace [] = [] := rfl

@[simp] theorem trace_append (codes more : List Code) :
    trace (codes ++ more) = trace codes ++ trace more := by
  rw [trace, allMarks_append, List.flatten_append, trace, trace]

theorem trace_cons (c : Code) (rest : List Code) : trace (c :: rest) = trace [c] ++ trace rest :=
  trace_append [c] rest

theorem trace_single (c : Code) : trace [c] = c.marks.flatten := by
  rw [trace, allMarks, allMarks, List.append_nil]

theorem trace_bind (origin : Nat) (name : Ident) (value : Fragment) :
    trace [.bind origin name value] = value.marks ++ [.declare name] := by
  simp [trace_single, marks]

theorem trace_loop (head : LoopHead) (flag : Option Ident) (body : List Code) :
    trace [.loop head flag body] =
      head.openingMarks ++ .enter false :: (flag.toList.map .declare ++ trace body ++
        .leave :: head.closingMarks) := by
  rw [trace_single, marks, trace]
  cases flag <;> simp

theorem trace_trapped (token : Ident) (body : List Code) :
    trace [.trapped token body] =
      .declare token :: .enter false :: (trace body ++
        .leave :: .enter false :: ([.use token true] ++ [.leave])) := by
  rw [trace_single, marks, trace]
  simp

theorem trace_method (head : MethodHead) (locals undeclaredLocals : List Ident) (body : List Code)
    (result : MethodResult) :
    trace [.method head locals undeclaredLocals body result] =
      .enter true :: (result.openingMarks.flatten ++ trace body ++ result.closingMarks.flatten ++
        [.leave]) := by
  rw [trace_single, marks, trace]
  simp

end Code

section Text

def Shows (part text : String) : Prop :=
  ∃ before after, text = before ++ part ++ after

theorem shows_self (text : String) : Shows text text :=
  ⟨"", "", by simp⟩

theorem Shows.before {part text : String} (h : Shows part text) (more : String) :
    Shows part (text ++ more) := by
  obtain ⟨before, after, rfl⟩ := h
  exact ⟨before, after ++ more, by simp only [String.append_assoc]⟩

theorem Shows.behind {part text : String} (h : Shows part text) (more : String) :
    Shows part (more ++ text) := by
  obtain ⟨before, after, rfl⟩ := h
  exact ⟨more ++ before, after, by simp only [String.append_assoc]⟩

theorem shows_intercalate {separator part : String} {parts : List String} (h : part ∈ parts) :
    Shows part (separator.intercalate parts) := by
  induction parts with
  | nil => cases h
  | cons first rest ih =>
    cases rest with
    | nil =>
      obtain rfl := List.mem_singleton.mp h
      rw [String.intercalate_singleton]
      exact shows_self _
    | cons second rest =>
      rw [String.intercalate_cons_cons]
      rcases List.mem_cons.mp h with rfl | hrest
      · exact ((shows_self _).before _).before _
      · exact (ih hrest).behind _

/-- The text of a line has what the mark says about it. -/
def Mark.ShownBy (text : String) : Mark → Prop
  | .enter _ => Shows "\x7b" text
  | .leave => Shows "\x7d" text
  | .declare id => ∃ value, text = "var " ++ id.text ++ " = " ++ value ∨
      text = "object " ++ id.text ++ " = " ++ value
  | .use id certain => certain = true → Shows id.text text

def Line.ShowsAll (l : Line) (marks : List Mark) : Prop :=
  ∀ m ∈ marks, m.ShownBy l.content

theorem Fragment.shownBy {f : Fragment} {m : Mark} (h : m ∈ f.marks) (text : String) :
    m.ShownBy text := by
  obtain ⟨id, -, rfl⟩ := List.mem_map.mp h
  exact fun hcertain => nomatch hcertain

theorem Operation.shownBy {o : Operation} {m : Mark} (h : m ∈ o.marks) (text : String) :
    m.ShownBy text := by
  obtain ⟨f, -, hf⟩ := List.mem_flatMap.mp h
  exact f.shownBy hf text

theorem shownBy_use {id : Ident} {text : String} (h : Shows id.text text) (certain : Bool) :
    (Mark.use id certain).ShownBy text :=
  fun _ => h

theorem shownBy_declare {keyword : String} (hkeyword : keyword = "var " ∨ keyword = "object ")
    (id : Ident) (value after : String) :
    (Mark.declare id).ShownBy (keyword ++ id.text ++ " = " ++ value ++ after) := by
  refine ⟨value ++ after, ?_⟩
  simp only [String.append_assoc]
  rcases hkeyword with rfl | rfl
  · exact .inl rfl
  · exact .inr rfl

theorem shownBy_initial {keyword : String} (hkeyword : keyword = "var " ∨ keyword = "object ")
    (id : Ident) (value : String) {rest : String} (hrest : rest = " = " ++ value) :
    (Mark.declare id).ShownBy (keyword ++ id.text ++ rest) := by
  rw [hrest, ← String.append_assoc]
  simpa using shownBy_declare hkeyword id value ""

theorem LoopHead.opening_shows (head : LoopHead) (support : Ident) {m : Mark}
    (h : m ∈ head.openingMarks) : m.ShownBy (head.opening support) := by
  cases head with
  | endless | testLast => cases h
  | testFirst condition => exact condition.test.shownBy h _
  | counting origin counter first last step =>
    rcases List.mem_append.mp h with hfragments | huses
    · rcases List.mem_append.mp hfragments with hcounter | hfirst
      · exact counter.shownBy hcounter _
      · exact first.shownBy hfirst _
    · simp only [List.mem_cons, List.not_mem_nil, or_false] at huses
      rcases huses with rfl | rfl
      · have htest : Shows last.text
            s!"{support.text}.CONTINUEFOR({counter.text}, {last.text}, {step.text}); " :=
          ((((shows_self _).behind _).before _).before _).before _
        exact shownBy_use ((htest.behind _).before _) true
      · have hadd : Shows step.text
            s!"{counter.text} = {support.text}.ADD({counter.text}, {step.text}))" :=
          ((shows_self _).behind _).before _
        exact shownBy_use (hadd.behind _) true

theorem LoopHead.closing_shows (head : LoopHead) {m : Mark} (h : m ∈ .leave :: head.closingMarks) :
    m.ShownBy head.closing := by
  cases head with
  | endless | testFirst | counting =>
    obtain rfl := List.mem_singleton.mp h
    exact shows_self _
  | testLast condition =>
    rcases List.mem_cons.mp h with rfl | hcondition
    · have hbrace : Shows "\x7d" "\x7d while (" := ⟨"", " while (", rfl⟩
      exact (hbrace.before _).before _
    · exact condition.test.shownBy hcondition _

end Text

section Lines

theorem Line.showsAll_nil (l : Line) : l.ShowsAll [] :=
  fun _ hm => nomatch hm

theorem Line.showsAll_singleton {l : Line} {m : Mark} (h : m.ShownBy l.content) :
    l.ShowsAll [m] := by
  intro m' hm'
  obtain rfl := List.mem_singleton.mp hm'
  exact h

variable {support : Ident} {depth : Nat}

theorem lines_show_act (origin : Option Nat) (operations : List Operation) :
    List.Forall₂ Line.ShowsAll ((Code.act origin none operations).lines support depth)
      (Code.act origin none operations).marks := by
  rw [Code.lines, Code.marks, Operation.texts, List.forall₂_map_left_iff,
    List.forall₂_map_left_iff, List.forall₂_map_right_iff]
  exact List.forall₂_same.mpr fun o _ m hm => o.shownBy hm _

theorem lines_show_guardedAct (origin : Option Nat) (token : Ident) (operations : List Operation) :
    List.Forall₂ Line.ShowsAll ((Code.act origin (some token) operations).lines support depth)
      (Code.act origin (some token) operations).marks := by
  refine .cons ?_ .nil
  intro m hm
  rcases List.mem_cons.mp hm with rfl | hm
  · exact shownBy_use (((((shows_self _).behind _).before _).before _).before _) true
  · obtain ⟨o, -, ho⟩ := List.mem_flatMap.mp hm
    exact o.shownBy ho _

theorem lines_show_bind (origin : Nat) (name : Ident) (value : Fragment) :
    List.Forall₂ Line.ShowsAll ((Code.bind origin name value).lines support depth)
      (Code.bind origin name value).marks := by
  refine .cons ?_ .nil
  intro m hm
  rcases List.mem_append.mp hm with hvalue | hname
  · exact value.shownBy hvalue _
  · obtain rfl := List.mem_singleton.mp hname
    exact shownBy_declare (.inl rfl) name value.text ";"

theorem lines_show_check (flags : List Ident) :
    List.Forall₂ Line.ShowsAll ((Code.check flags).lines support depth)
      (Code.check flags).marks := by
  refine .cons ?_ (.cons (Line.showsAll_nil _) .nil)
  intro m hm
  obtain ⟨flag, hflag, rfl⟩ := List.mem_map.mp hm
  have htext : flag.text ∈ flags.map (·.text) := List.mem_map_of_mem hflag
  exact shownBy_use (((shows_intercalate htext).behind _).before _) true

theorem MethodResult.opening_shows (result : MethodResult) :
    List.Forall₂ Line.ShowsAll (result.openingLines depth) result.openingMarks := by
  cases result with
  | nothing | null => exact .nil
  | slot name =>
    refine .cons (Line.showsAll_singleton ?_) .nil
    exact shownBy_initial (.inr rfl) name "null;" rfl

theorem MethodResult.closing_shows (result : MethodResult) :
    List.Forall₂ Line.ShowsAll (result.closingLines depth) result.closingMarks := by
  cases result with
  | nothing => exact .nil
  | null => exact .cons (Line.showsAll_nil _) .nil
  | slot name =>
    refine .cons (Line.showsAll_singleton ?_) .nil
    exact shownBy_use (((shows_self _).behind _).before _) true

section Body

variable {body : List Code}
  (hbody : List.Forall₂ Line.ShowsAll (Code.allLines support (depth + 1) body)
    (Code.allMarks body))
include hbody

theorem lines_show_loop (head : LoopHead) (flag : Option Ident) :
    List.Forall₂ Line.ShowsAll ((Code.loop head flag body).lines support depth)
      (Code.loop head flag body).marks := by
  have hopening : Line.ShowsAll ⟨head.opening support, depth, head.origin⟩ head.openingMarks :=
    fun m hm => head.opening_shows support hm
  have hbrace : Line.ShowsAll ⟨"\x7b", depth, none⟩ [.enter false] :=
    Line.showsAll_singleton (shows_self _)
  have hflag : List.Forall₂ Line.ShowsAll
      (flag.toList.map fun f => ⟨s!"var {f.text} = false;", depth + 1, none⟩)
      (flag.toList.map fun f => [Mark.declare f]) := by
    rw [List.forall₂_map_left_iff, List.forall₂_map_right_iff]
    exact List.forall₂_same.mpr fun f _ =>
      Line.showsAll_singleton (shownBy_initial (.inl rfl) f "false;" rfl)
  have hclosing : Line.ShowsAll ⟨head.closing, depth, none⟩ (.leave :: head.closingMarks) :=
    fun m hm => head.closing_shows hm
  rw [Code.lines, Code.marks]
  exact List.rel_append (List.rel_append (.cons hopening (.cons hbrace hflag)) hbody)
    (.cons hclosing .nil)

theorem lines_show_trapped (token : Ident) :
    List.Forall₂ Line.ShowsAll ((Code.trapped token body).lines support depth)
      (Code.trapped token body).marks := by
  have htoken : Line.ShowsAll
      ⟨s!"var {token.text} = {support.text}.GETERRORTRAPPINGTOKEN();", depth, none⟩
      [.declare token] :=
    Line.showsAll_singleton
      (shownBy_declare (.inl rfl) token support.text ".GETERRORTRAPPINGTOKEN();")
  have hopen : Line.ShowsAll ⟨"\x7b", depth, none⟩ [.enter false] :=
    Line.showsAll_singleton (shows_self _)
  have hclose : Line.ShowsAll ⟨"\x7d", depth, none⟩ [.leave] :=
    Line.showsAll_singleton (shows_self _)
  have hfinally : Line.ShowsAll
      ⟨s!"finally \x7b {support.text}.RELEASEERRORTRAPPINGTOKEN({token.text}); \x7d", depth, none⟩
      [.enter false, .use token true, .leave] := by
    intro m hm
    simp only [List.mem_cons, List.not_mem_nil, or_false] at hm
    rcases hm with rfl | rfl | rfl
    · have hbrace : Shows "\x7b" "finally \x7b " := ⟨"finally ", " ", rfl⟩
      exact (((hbrace.before _).before _).before _).before _
    · exact shownBy_use (((shows_self _).behind _).before _) true
    · have hbrace : Shows "\x7d" "); \x7d" := ⟨"); ", "", rfl⟩
      exact hbrace.behind _
  rw [Code.lines, Code.marks]
  exact List.rel_append
    (.cons htoken (.cons (Line.showsAll_nil _) (.cons hopen hbody)))
    (.cons hclose (.cons hfinally .nil))

theorem lines_show_method (head : MethodHead) (locals undeclaredLocals : List Ident)
    (result : MethodResult) :
    List.Forall₂ Line.ShowsAll
      ((Code.method head locals undeclaredLocals body result).lines support depth)
      (Code.method head locals undeclaredLocals body result).marks := by
  have hunmarked : ∀ (names : List Ident) (line : Ident → Line),
      List.Forall₂ Line.ShowsAll (names.map line) (names.map fun _ => []) := by
    intro names line
    rw [List.forall₂_map_left_iff, List.forall₂_map_right_iff]
    exact List.forall₂_same.mpr fun _ _ => Line.showsAll_nil _
  have hopen : Line.ShowsAll ⟨"\x7b", depth, none⟩ [.enter true] :=
    Line.showsAll_singleton (shows_self _)
  have hclose : Line.ShowsAll ⟨"\x7d", depth, none⟩ [.leave] :=
    Line.showsAll_singleton (shows_self _)
  rw [Code.lines, Code.marks]
  refine List.rel_append (List.rel_append (List.rel_append (List.rel_append (List.rel_append
    (.cons (Line.showsAll_nil _) (.cons hopen result.opening_shows)) (hunmarked locals _))
    (hunmarked undeclaredLocals _)) hbody) result.closing_shows) ?_
  exact .cons hclose .nil

end Body

mutual

/-- Each line of code has what its marks say. -/
theorem Code.lines_show (support : Ident) (depth : Nat) :
    ∀ c : Code, List.Forall₂ Line.ShowsAll (c.lines support depth) c.marks
  | .act origin none operations => lines_show_act origin operations
  | .act origin (some token) operations => lines_show_guardedAct origin token operations
  | .bind origin name value => lines_show_bind origin name value
  | .trapping origin mode token => by
    refine .cons (Line.showsAll_singleton ?_) .nil
    exact shownBy_use (((shows_self _).behind _).before _) true
  | .raise origin flag => by
    refine .cons (Line.showsAll_singleton ?_) .nil
    exact shownBy_use ((shows_self _).before _) true
  | .leave origin => .cons (Line.showsAll_nil _) .nil
  | .giveBack origin (some slot) => by
    refine .cons (Line.showsAll_singleton ?_) .nil
    exact shownBy_use (((shows_self _).behind _).before _) true
  | .giveBack origin none => .cons (Line.showsAll_nil _) .nil
  | .loop head flag body => lines_show_loop (Code.allLines_show support _ body) head flag
  | .check flags => lines_show_check flags
  | .trapped token body => lines_show_trapped (Code.allLines_show support _ body) token
  | .method head locals undeclaredLocals body result =>
    lines_show_method (Code.allLines_show support _ body) head locals undeclaredLocals result

theorem Code.allLines_show (support : Ident) (depth : Nat) : ∀ codes : List Code,
    List.Forall₂ Line.ShowsAll (Code.allLines support depth codes) (Code.allMarks codes)
  | [] => .nil
  | c :: rest => by
    rw [Code.allLines, Code.allMarks]
    exact List.rel_append (Code.lines_show support depth c)
      (Code.allLines_show support depth rest)

end

end Lines

/-- Which blocks are open behind the marks, the nearest first, if those of `stack` are open before.
There is no answer if the marks close a block that they did not open. -/
def openBlocks (stack : List Bool) : List Mark → Option (List Bool)
  | [] => some stack
  | .enter ofMethod :: rest => openBlocks (ofMethod :: stack) rest
  | .leave :: rest =>
    match stack with
    | [] => none
    | _ :: outer => openBlocks outer rest
  | _ :: rest => openBlocks stack rest

/-- The block that is open before the marks encloses what follows them, within the same method. -/
def Encloses (marks : List Mark) : Prop :=
  ∃ blocks, openBlocks [] marks = some blocks ∧ ∀ ofMethod ∈ blocks, ofMethod = false

/-- The marks are properly nested, and a temporary is used where it is one of the `visible` ones or
declared before in a block around. -/
inductive Scoped : List Ident → List Mark → Prop where
  | nil {visible : List Ident} : Scoped visible []
  | use {visible : List Ident} {id : Ident} {rest : List Mark} (certain : Bool) :
      id ∈ visible → Scoped visible rest → Scoped visible (.use id certain :: rest)
  | declare {visible : List Ident} {id : Ident} {rest : List Mark} :
      Scoped (id :: visible) rest → Scoped visible (.declare id :: rest)
  | block {visible : List Ident} {inner rest : List Mark} : Scoped visible inner →
      Scoped visible rest → Scoped visible (.enter false :: (inner ++ .leave :: rest))
  | method {visible : List Ident} {inner rest : List Mark} : Scoped [] inner →
      Scoped visible rest → Scoped visible (.enter true :: (inner ++ .leave :: rest))

section Scoped

variable {visible more : List Ident} {marks rest : List Mark}

theorem Scoped.mono (h : Scoped visible marks) (hsub : visible ⊆ more) : Scoped more marks := by
  induction h generalizing more with
  | nil => exact .nil
  | use certain hid _ ih => exact .use certain (hsub hid) (ih hsub)
  | declare _ ih => exact .declare (ih (List.cons_subset_cons _ hsub))
  | block _ _ ihinner ihrest => exact .block (ihinner hsub) (ihrest hsub)
  | method hinner _ _ ihrest => exact .method hinner (ihrest hsub)

theorem Scoped.append (h : Scoped visible marks) (hrest : Scoped visible rest) :
    Scoped visible (marks ++ rest) := by
  induction h with
  | nil => exact hrest
  | use certain hid _ ih => exact .use certain hid (ih hrest)
  | declare _ ih => exact .declare (ih (hrest.mono (List.subset_cons_self _ _)))
  | block hinner _ _ ih =>
    rw [List.cons_append, List.append_assoc, List.cons_append]
    exact .block hinner (ih hrest)
  | method hinner _ _ ih =>
    rw [List.cons_append, List.append_assoc, List.cons_append]
    exact .method hinner (ih hrest)

theorem scoped_uses {ids : List Ident} (certain : Bool) (h : ids ⊆ visible) :
    Scoped visible (ids.map (.use · certain)) := by
  induction ids with
  | nil => exact .nil
  | cons id ids ih =>
    have hids := List.cons_subset.mp h
    exact .use certain hids.1 (ih hids.2)

theorem Scoped.declares {ids : List Ident} (h : Scoped (ids ++ visible) rest) :
    Scoped visible (ids.map .declare ++ rest) := by
  induction ids generalizing visible with
  | nil => exact h
  | cons id ids ih =>
    refine .declare (ih (h.mono ?_))
    intro x hx
    simp only [List.cons_append, List.mem_cons, List.mem_append] at hx ⊢
    rcases hx with hx | hx | hx
    · exact .inr (.inl hx)
    · exact .inl hx
    · exact .inr (.inr hx)

end Scoped

theorem openBlocks_append (stack : List Bool) (marks rest : List Mark) :
    openBlocks stack (marks ++ rest) = (openBlocks stack marks).bind (openBlocks · rest) := by
  induction marks generalizing stack with
  | nil => rfl
  | cons m marks ih =>
    cases m with
    | enter ofMethod => exact ih _
    | leave =>
      cases stack with
      | nil => rfl
      | cons _ outer => exact ih outer
    | declare | use => exact ih stack

/-- Blocks further out make no difference to marks that do not close them. -/
theorem openBlocks_of_nil {marks : List Mark} {blocks : List Bool} {stack : List Bool}
    (h : openBlocks stack marks = some blocks) (outer : List Bool) :
    openBlocks (stack ++ outer) marks = some (blocks ++ outer) := by
  induction marks generalizing stack with
  | nil =>
    cases h
    rfl
  | cons m marks ih =>
    cases m with
    | enter ofMethod => exact @ih (ofMethod :: stack) h
    | leave =>
      cases stack with
      | nil => cases h
      | cons _ stack => exact @ih stack h
    | declare | use => exact @ih stack h

theorem Scoped.openBlocks_eq {visible : List Ident} {marks : List Mark} (h : Scoped visible marks)
    (stack : List Bool) : openBlocks stack marks = some stack := by
  induction h generalizing stack with
  | nil => rfl
  | use _ _ _ ih => exact ih stack
  | declare _ ih => exact ih stack
  | block _ _ ihinner ihrest | method _ _ ihinner ihrest =>
    rw [openBlocks, openBlocks_append, ihinner]
    exact ihrest stack

theorem encloses_nil : Encloses [] :=
  ⟨[], rfl, by simp⟩

theorem Encloses.use {marks : List Mark} (h : Encloses marks) (id : Ident) (certain : Bool) :
    Encloses (.use id certain :: marks) :=
  h

theorem Encloses.declare {marks : List Mark} (h : Encloses marks) (id : Ident) :
    Encloses (.declare id :: marks) :=
  h

theorem Encloses.enter {marks : List Mark} (h : Encloses marks) :
    Encloses (.enter false :: marks) := by
  obtain ⟨blocks, hblocks, hall⟩ := h
  refine ⟨blocks ++ [false], openBlocks_of_nil hblocks [false], ?_⟩
  simpa [or_imp, forall_and] using hall

/-- A block that is closed again does not matter. -/
theorem Encloses.block {visible : List Ident} {inner marks : List Mark}
    (hinner : Scoped visible inner) (h : Encloses marks) (ofMethod : Bool) :
    Encloses (.enter ofMethod :: (inner ++ .leave :: marks)) := by
  obtain ⟨blocks, hblocks, hall⟩ := h
  refine ⟨blocks, ?_, hall⟩
  rw [openBlocks, openBlocks_append, hinner.openBlocks_eq]
  exact hblocks

def DeclaredIn (id : Ident) (marks : List Mark) : Prop :=
  ∃ outer inner, marks = outer ++ .declare id :: inner ∧ Encloses inner

theorem DeclaredIn.prepend {id : Ident} {marks : List Mark} (h : DeclaredIn id marks)
    (before : List Mark) : DeclaredIn id (before ++ marks) := by
  obtain ⟨outer, inner, rfl, hinner⟩ := h
  exact ⟨before ++ outer, inner, by rw [List.append_assoc], hinner⟩

theorem DeclaredIn.block {id : Ident} {marks : List Mark} (h : DeclaredIn id marks)
    (ofMethod : Bool) (inner : List Mark) :
    DeclaredIn id (.enter ofMethod :: (inner ++ .leave :: marks)) :=
  ((h.prepend [.leave]).prepend inner).prepend [.enter ofMethod]

/-- A use inside or behind a block that ends with `leave`. -/
theorem use_around_leave {inner rest before after : List Mark} {id : Ident} {certain : Bool}
    (h : inner ++ .leave :: rest = before ++ .use id certain :: after) :
    (∃ between, before = inner ++ .leave :: between ∧ rest = between ++ .use id certain :: after) ∨
      ∃ tail, inner = before ++ .use id certain :: tail := by
  rcases List.append_eq_append_iff.mp h with ⟨between, hbefore, hbetween⟩ | ⟨tail, hinner, hafter⟩
  · cases between with
    | nil => simp at hbetween
    | cons m between =>
      obtain ⟨rfl, hrest⟩ := List.cons.inj hbetween
      exact .inl ⟨between, hbefore, hrest⟩
  · cases tail with
    | nil => simp at hafter
    | cons m tail =>
      obtain ⟨rfl, -⟩ := List.cons.inj hafter
      exact .inr ⟨tail, hinner⟩

/-- What `Scoped` is for: every use has its declaration, or is of a temporary visible from the start
and not cut off by a method. -/
theorem Scoped.declared {visible : List Ident} {marks : List Mark} (h : Scoped visible marks)
    {before after : List Mark} {id : Ident} {certain : Bool}
    (heq : marks = before ++ .use id certain :: after) :
    (id ∈ visible ∧ Encloses before) ∨ DeclaredIn id before := by
  induction h generalizing before after with
  | nil => simp at heq
  | @use visible id' rest certain' hid _ ih =>
    cases before with
    | nil =>
      obtain ⟨⟨rfl, -⟩, -⟩ : (id' = id ∧ _) ∧ _ := by simpa using heq
      exact .inl ⟨hid, encloses_nil⟩
    | cons m before =>
      obtain ⟨rfl, hrest⟩ := List.cons.inj heq
      rcases ih hrest with ⟨hvisible, hopen⟩ | hdeclared
      · exact .inl ⟨hvisible, hopen.use _ _⟩
      · exact .inr (hdeclared.prepend [_])
  | @declare visible id' rest _ ih =>
    cases before with
    | nil => simp at heq
    | cons m before =>
      obtain ⟨rfl, hrest⟩ := List.cons.inj heq
      rcases ih hrest with ⟨hvisible, hopen⟩ | hdeclared
      · rcases List.mem_cons.mp hvisible with rfl | hvisible
        · exact .inr ⟨[], before, rfl, hopen⟩
        · exact .inl ⟨hvisible, hopen.declare _⟩
      · exact .inr (hdeclared.prepend [_])
  | @block visible inner rest hinner _ ihinner ihrest =>
    cases before with
    | nil => simp at heq
    | cons m before =>
      obtain ⟨rfl, hmarks⟩ := List.cons.inj heq
      rcases use_around_leave hmarks with ⟨between, rfl, hrest⟩ | ⟨tail, htail⟩
      · rcases ihrest hrest with ⟨hvisible, hopen⟩ | hdeclared
        · exact .inl ⟨hvisible, hopen.block hinner false⟩
        · exact .inr (hdeclared.block false inner)
      · rcases ihinner htail with ⟨hvisible, hopen⟩ | hdeclared
        · exact .inl ⟨hvisible, hopen.enter⟩
        · exact .inr (hdeclared.prepend [_])
  | @method visible inner rest hinner _ ihinner ihrest =>
    cases before with
    | nil => simp at heq
    | cons m before =>
      obtain ⟨rfl, hmarks⟩ := List.cons.inj heq
      rcases use_around_leave hmarks with ⟨between, rfl, hrest⟩ | ⟨tail, htail⟩
      · rcases ihrest hrest with ⟨hvisible, hopen⟩ | hdeclared
        · exact .inl ⟨hvisible, hopen.block hinner true⟩
        · exact .inr (hdeclared.block true inner)
      · rcases ihinner htail with ⟨hvisible, -⟩ | hdeclared
        · cases hvisible
        · exact .inr (hdeclared.prepend [_])

end VbsCompiler
