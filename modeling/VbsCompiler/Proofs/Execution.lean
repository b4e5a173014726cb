import Mathlib.Logic.Function.Basic
import VbsCompiler.Source.Block
import VbsCompiler.Target.Code

/-! Running source blocks and running emitted code. Both kinds of run are seen through what they
do: the statements they perform and the conditions and loop headers they evaluate. The answers
that conditions get come from outside, and a run is stopped once some loop has made a given
number of rounds, so that a run of any length can be looked at. -/

namespace VbsCompiler

inductive Ending (ε : Type) where
  | finished
  /-- Some statement left the constructs around it. -/
  | leaving (exit : ε)
  /-- A loop came to the bound on its rounds. -/
  | stopped
  deriving DecidableEq, Repr

/-- What a run has done, and how many of its questions were answered. -/
structure Trace (α : Type) where
  actions : List α := []
  questions : Nat := 0
  deriving DecidableEq, Repr

namespace Trace

variable {α : Type}

def act (t : Trace α) (action : α) : Trace α :=
  { t with actions := t.actions ++ [action] }

def ask (answers : Nat → Bool) (t : Trace α) (action : α) : Bool × Trace α :=
  (answers t.questions, { actions := t.actions ++ [action], questions := t.questions + 1 })

end Trace

section Combinators

variable {σ ε : Type}

def andThen (first : Ending ε × σ) (next : σ → Ending ε × σ) : Ending ε × σ :=
  match first with
  | (.finished, s) => next s
  | (e, s) => (e, s)

/-- The rounds of a loop. `enter` decides before a round and `again` after it; an exit that is
caught ends the loop, any other leaves what is around the loop too. -/
def rounds (enter again : σ → Bool × σ) (body : σ → Ending ε × σ) (catches : ε → Bool) :
    Nat → σ → Ending ε × σ
  | 0, s => (.stopped, s)
  | n + 1, s =>
    match enter s with
    | (false, s) => (.finished, s)
    | (true, s) =>
      match body s with
      | (.finished, s) =>
        match again s with
        | (false, s) => (.finished, s)
        | (true, s) => rounds enter again body catches n s
      | (.leaving e, s) => (if catches e then .finished else .leaving e, s)
      | (.stopped, s) => (.stopped, s)

end Combinators

inductive SourceAction where
  | perform (run : TokenRun)
  | define (item : ConstItem)
  | allocate (item : DimItem)
  | reallocate (preserve : Bool) (item : RedimItem)
  | switchTrapping (mode : TrapMode) (line : Nat)
  | enterWith (target : TokenRun)
  | test (condition : LoopTest)
  /-- The limit and the step of a FOR loop are evaluated once, before its first round. -/
  | limit (counter : Name) (last : TokenRun)
  | stride (counter : Name) (step : Option TokenRun)
  | start (counter : Name) (first : TokenRun)
  /-- Compares the counter of a FOR loop with the limit. -/
  | goesOn (counter : Name) (last : TokenRun) (step : Option TokenRun)
  | advance (counter : Name) (step : Option TokenRun)
  deriving DecidableEq, Repr

abbrev SourceTrace := Trace SourceAction

namespace LoopTest

/-- An UNTIL condition keeps the loop going as long as it does not hold. -/
def ask (test : LoopTest) (answers : Nat → Bool) (t : SourceTrace) : Bool × SourceTrace :=
  let (answer, t) := t.ask answers (.test test)
  (answer != test.negated, t)

def enter (test : Option LoopTest) (answers : Nat → Bool) (t : SourceTrace) : Bool × SourceTrace :=
  match test with
  | some test => if test.atStart then test.ask answers t else (true, t)
  | none => (true, t)

def again (test : Option LoopTest) (answers : Nat → Bool) (t : SourceTrace) : Bool × SourceTrace :=
  match test with
  | some test => if test.atStart then (true, t) else test.ask answers t
  | none => (true, t)

end LoopTest

namespace Block

mutual

/-- Runs a block. EXIT leaves the nearest construct of its kind with everything in between; the
declaration of a routine does nothing. -/
def run (answers : Nat → Bool) (bound : Nat) : Block → SourceTrace → Ending ExitKind × SourceTrace
  | .doLoop test body, t =>
    rounds (LoopTest.enter test answers) (LoopTest.again test answers) (runAll answers bound body)
      (· = .loop .doLoop) bound t
  | .forLoop counter first last step body, t =>
    rounds (·.ask answers (.goesOn counter last step))
      (fun t => (true, t.act (.advance counter step)))
      (runAll answers bound body) (· = .loop .forLoop) bound
      (((t.act (.limit counter last)).act (.stride counter step)).act (.start counter first))
  | .withTarget target body, t => runAll answers bound body (t.act (.enterWith target))
  | .exit kind _, t => (.leaving kind, t)
  | .routine .., t => (.finished, t)
  | .consts items, t => (.finished, items.foldl (fun t i => t.act (.define i)) t)
  | .dim items, t =>
    (.finished, items.foldl (fun t i => if i.bounds.isSome then t.act (.allocate i) else t) t)
  | .redim preserve items, t =>
    (.finished, items.foldl (fun t i => t.act (.reallocate preserve i)) t)
  | .onError mode line, t => (.finished, t.act (.switchTrapping mode line))
  | .statement run, t => (.finished, t.act (.perform run))

def runAll (answers : Nat → Bool) (bound : Nat) :
    List Block → SourceTrace → Ending ExitKind × SourceTrace
  | [], t => (.finished, t)
  | b :: rest, t => andThen (b.run answers bound t) (runAll answers bound rest)

end

end Block

/-- What a run of emitted code can be seen to do. Temporaries are seen through the values that
were bound to them. -/
inductive TargetAction where
  | act (origin : Option Nat) (guard : Option Ident) (operations : List Operation)
  /-- Evaluates what a temporary is bound to. -/
  | evaluate (origin : Nat) (value : Fragment)
  | switchTrapping (origin : Nat) (mode : TrapMode) (token : Ident)
  | openFrame (token : Ident)
  | closeFrame (token : Ident)
  | test (condition : Condition)
  | start (counter first : Fragment)
  | goesOn (counter : Fragment) (last step : Option Fragment)
  | advance (counter : Fragment) (step : Option Fragment)
  deriving DecidableEq, Repr

inductive Jump where
  | breakLoop
  | giveBack (slot : Option Ident)
  deriving DecidableEq, Repr

structure Machine where
  trace : Trace TargetAction := {}
  raised : Ident → Bool := fun _ => false
  bindings : Ident → Option Fragment := fun _ => none

namespace Machine

def act (m : Machine) (action : TargetAction) : Machine :=
  { m with trace := m.trace.act action }

def ask (answers : Nat → Bool) (m : Machine) (action : TargetAction) : Bool × Machine :=
  let (answer, trace) := m.trace.ask answers action
  (answer, { m with trace })

def bind (m : Machine) (origin : Nat) (name : Ident) (value : Fragment) : Machine :=
  { m with
    trace := m.trace.act (.evaluate origin value)
    bindings := Function.update m.bindings name (some value) }

def raise (m : Machine) (flag : Ident) : Machine :=
  { m with raised := Function.update m.raised flag true }

def lower (m : Machine) (flag : Option Ident) : Machine :=
  match flag with
  | some flag => { m with raised := Function.update m.raised flag false }
  | none => m

@[simp] theorem bindings_lower (m : Machine) (flag : Option Ident) :
    (m.lower flag).bindings = m.bindings := by
  cases flag <;> rfl

@[simp] theorem bindings_bind_self (m : Machine) (origin : Nat) (name : Ident) (value : Fragment) :
    (m.bind origin name value).bindings name = some value :=
  Function.update_self ..

theorem bindings_bind_of_ne (m : Machine) (origin : Nat) {name id : Ident} (value : Fragment)
    (h : id ≠ name) : (m.bind origin name value).bindings id = m.bindings id :=
  Function.update_of_ne h ..

end Machine

namespace LoopHead

def begin : LoopHead → Machine → Machine
  | .counting _ counter first _ _, m => m.act (.start counter first)
  | _, m => m

def test (condition : Condition) (answers : Nat → Bool) (m : Machine) : Bool × Machine :=
  let (answer, m) := m.ask answers (.test condition)
  (answer != condition.negated, m)

def enter (answers : Nat → Bool) : LoopHead → Machine → Bool × Machine
  | .testFirst condition, m => test condition answers m
  | .counting _ counter _ last step, m =>
    m.ask answers (.goesOn counter (m.bindings last) (m.bindings step))
  | _, m => (true, m)

def again (answers : Nat → Bool) : LoopHead → Machine → Bool × Machine
  | .testLast condition, m => test condition answers m
  | .counting _ counter _ _ step, m => (true, m.act (.advance counter (m.bindings step)))
  | _, m => (true, m)

end LoopHead

namespace Code

mutual

/-- Runs emitted code. A break leaves the nearest loop only. -/
def run (answers : Nat → Bool) (bound : Nat) : Code → Machine → Ending Jump × Machine
  | .act origin guard operations, m => (.finished, m.act (.act origin guard operations))
  | .bind origin name value, m => (.finished, m.bind origin name value)
  | .trapping origin mode token, m => (.finished, m.act (.switchTrapping origin mode token))
  | .raise _ flag, m => (.finished, m.raise flag)
  | .leave _, m => (.leaving .breakLoop, m)
  | .giveBack _ slot, m => (.leaving (.giveBack slot), m)
  | .loop head flag body, m =>
    rounds (head.enter answers) (head.again answers)
      (fun m => runAll answers bound body (m.lower flag)) (· = .breakLoop) bound (head.begin m)
  | .check flags, m => (if flags.any m.raised then .leaving .breakLoop else .finished, m)
  | .trapped token body, m =>
    match runAll answers bound body (m.act (.openFrame token)) with
    | (.stopped, m) => (.stopped, m)
    | (e, m) => (e, m.act (.closeFrame token))
  | .method .., m => (.finished, m)

def runAll (answers : Nat → Bool) (bound : Nat) : List Code → Machine → Ending Jump × Machine
  | [], m => (.finished, m)
  | c :: rest, m => andThen (c.run answers bound m) (runAll answers bound rest)

end

end Code

end VbsCompiler
