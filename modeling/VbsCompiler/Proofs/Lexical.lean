import VbsCompiler.Proofs.Inversion

/-! Where a block stands. The blocks around it, the nearest first, decide which routine it belongs
to, which loops it can leave and which target its bare member accesses have; the scopes that the
compiler derives on its way say the same. -/

namespace VbsCompiler

open CompileM

namespace Block

/-- The block occurs in the program inside the blocks `around`. -/
inductive Occurs (program : List Block) : List Block → Block → Prop where
  | top {b : Block} : b ∈ program → Occurs program [] b
  | inside {around : List Block} {b c : Block} : Occurs program around b → c ∈ b.children →
      Occurs program (b :: around) c

def ownerAround : List Block → Owner
  | [] => .program
  | .routine kind name _ _ :: _ => kind.owner name
  | _ :: around => ownerAround around

def loopsAround : List Block → List LoopKind
  | [] => []
  | .routine .. :: _ => []
  | .doLoop .. :: around => .doLoop :: loopsAround around
  | .forLoop .. :: around => .forLoop :: loopsAround around
  | _ :: around => loopsAround around

/-- The target of the innermost WITH block of the level, and the blocks around that one. -/
def withAround : List Block → Option (TokenRun × List Block)
  | [] => none
  | .routine .. :: _ => none
  | .withTarget target _ :: around => some (target, around)
  | _ :: around => withAround around

/-- The blocks of the level that a point belongs to: the body of the routine around it, or the whole
program. -/
def levelAround (program : List Block) : List Block → List Block
  | [] => program
  | .routine _ _ _ body :: _ => body
  | _ :: around => levelAround program around

theorem anyTrapsErrors_eq_any (blocks : List Block) :
    anyTrapsErrors blocks = blocks.any trapsErrors := by
  induction blocks with
  | nil => rfl
  | cons b rest ih => rw [anyTrapsErrors, ih, List.any_cons]

theorem anyExitsThrough_eq_any (kind : LoopKind) (inOther : Bool) (blocks : List Block) :
    anyExitsThrough kind inOther blocks = blocks.any (exitsThrough kind inOther) := by
  induction blocks with
  | nil => rfl
  | cons b rest ih => rw [anyExitsThrough, ih, List.any_cons]

theorem anyTrapsErrors_of_mem {b : Block} {blocks : List Block} (hb : b ∈ blocks)
    (ht : b.trapsErrors = true) : anyTrapsErrors blocks = true := by
  rw [anyTrapsErrors_eq_any, List.any_eq_true]
  exact ⟨b, hb, ht⟩

theorem Occurs.levelTraps {program around : List Block} {b : Block} (h : Occurs program around b)
    (ht : b.trapsErrors = true) : anyTrapsErrors (levelAround program around) = true := by
  induction h with
  | top hb => exact anyTrapsErrors_of_mem hb ht
  | @inside around b c _ hc ih =>
    have hbody := anyTrapsErrors_of_mem hc ht
    cases b with
    | routine => exact hbody
    | doLoop | forLoop | withTarget => exact ih hbody
    | exit | consts | dim | redim | onError | statement => exact absurd hc List.not_mem_nil

end Block

open Block

theorem insideLoop_ne_outermost (scope : Scope) (frame : LoopFrame) :
    (scope.insideLoop frame).enclosure ≠ .outermost := by
  obtain ⟨kind, flag⟩ := frame
  cases kind <;> simp [Scope.insideLoop, LoopKind.enclosure]

structure Scope.Fits (program around : List Block) (scope : Scope) : Prop where
  outermost : scope.enclosure = .outermost ↔ around = []
  owner : scope.owner = ownerAround around
  slot : scope.returnSlot.isSome ↔ ∃ name, scope.owner = .function name
  trap : scope.trapToken.isSome = anyTrapsErrors (levelAround program around)
  loops : scope.loops.map (·.kind) = loopsAround around
  target : scope.withReference.map (some ·.line) = (withAround around).map (·.1.firstLine)

section Fits

variable {program around : List Block} {scope : Scope}

theorem Scope.Fits.insideDo (h : scope.Fits program around) (test : Option LoopTest)
    (body : List Block) (flag : Option Ident) :
    (scope.insideLoop ⟨.doLoop, flag⟩).Fits program (.doLoop test body :: around) :=
  ⟨by simp [Scope.insideLoop, LoopKind.enclosure], h.owner, h.slot, h.trap,
    congrArg (LoopKind.doLoop :: ·) h.loops, h.target⟩

theorem Scope.Fits.insideFor (h : scope.Fits program around) (counter : Name)
    (first last : TokenRun) (step : Option TokenRun) (body : List Block) (flag : Option Ident) :
    (scope.insideLoop ⟨.forLoop, flag⟩).Fits program
      (.forLoop counter first last step body :: around) :=
  ⟨by simp [Scope.insideLoop, LoopKind.enclosure], h.owner, h.slot, h.trap,
    congrArg (LoopKind.forLoop :: ·) h.loops, h.target⟩

theorem Scope.Fits.insideWith (h : scope.Fits program around) {target : TokenRun} {line : Nat}
    (hline : target.firstLine = some line) (body : List Block) (name : Ident) :
    (scope.insideWith ⟨name, line⟩).Fits program (.withTarget target body :: around) :=
  ⟨by simp [Scope.insideWith], h.owner, h.slot, h.trap, h.loops,
    congrArg some hline.symm⟩

theorem fits_outermost (environment : List Name) (hoisted : Hoisted) {token : Option Ident}
    (htoken : token.isSome = anyTrapsErrors program) :
    (((Scope.outermost environment).declare hoisted).trappedBy token).Fits program [] := by
  cases token with
  | none =>
    refine ⟨?_, rfl, ?_, htoken, rfl, rfl⟩
    · simp [Scope.trappedBy, Scope.outermost, Scope.declare]
    · simp [Scope.trappedBy, Scope.outermost, Scope.declare]
  | some token =>
    refine ⟨?_, rfl, ?_, htoken, rfl, rfl⟩
    · simp [Scope.trappedBy, Scope.outermost, Scope.declare, Scope.insideTrap]
    · simp [Scope.trappedBy, Scope.outermost, Scope.declare, Scope.insideTrap]

theorem fits_routine (program around : List Block) (scope : Scope) (kind : RoutineKind)
    (name : Name) {slot token : Option Ident} (parameters : List Parameter) {body : List Block}
    (hoisted : Hoisted) (hslot : slot.isSome ↔ kind = .function)
    (htoken : token.isSome = anyTrapsErrors body) :
    (((scope.insideRoutine kind name slot parameters).declare hoisted).trappedBy token).Fits program
      (.routine kind name parameters body :: around) := by
  have hslot' : slot.isSome ↔ ∃ n, kind.owner name = .function n := by
    rw [hslot]
    cases kind <;> simp [RoutineKind.owner]
  have hplace : (((scope.insideRoutine kind name slot parameters).declare hoisted).trappedBy
      token).enclosure = .outermost ↔ Block.routine kind name parameters body :: around = [] := by
    cases token <;> cases kind <;> simp [Scope.trappedBy, Scope.insideRoutine, Scope.declare,
      Scope.insideBody, Scope.insideTrap, RoutineKind.owner]
  cases token <;> cases kind <;> exact ⟨hplace, rfl, hslot', htoken, rfl, rfl⟩

end Fits

end VbsCompiler
