import VbsCompiler.Compile.PlainRenderer
import VbsCompiler.Proofs.Marks
import VbsCompiler.Proofs.MethodNames

/-! Temporaries are declared before they are used. The scope in which a block is compiled knows the
temporaries that its code may use without declaring them: the flags of the loops around, the token
of the frame, the slot of the function and the target of the WITH block. Whatever adds one of them
to a scope also puts its declaration in front of the code that is compiled there. -/

namespace VbsCompiler

open CompileM

/-- The temporaries that code compiled in the scope may use without declaring them. -/
def Scope.inUse (s : Scope) : List Ident :=
  s.flags ++ s.trapToken.toList ++ s.offered

section InUse

variable (scope : Scope)

theorem flags_subset_inUse : scope.flags ⊆ scope.inUse :=
  fun _ h => List.mem_append_left _ (List.mem_append_left _ h)

theorem trapToken_subset_inUse : scope.trapToken.toList ⊆ scope.inUse :=
  fun _ h => List.mem_append_left _ (List.mem_append_right _ h)

theorem offered_subset_inUse : scope.offered ⊆ scope.inUse :=
  fun _ h => List.mem_append_right _ h

theorem inUse_insideLoop (frame : LoopFrame) :
    (scope.insideLoop frame).inUse ⊆ frame.flag.toList ++ scope.inUse := by
  have hflags : (scope.insideLoop frame).flags = scope.flags ++ frame.flag.toList := by
    cases hflag : frame.flag <;> simp [Scope.flags, Scope.insideLoop, hflag]
  intro id hid
  simp only [Scope.inUse, hflags, List.mem_append] at hid ⊢
  rcases hid with ((hid | hid) | hid) | hid
  · exact .inr (.inl (.inl hid))
  · exact .inl hid
  · exact .inr (.inl (.inr hid))
  · exact .inr (.inr hid)

theorem inUse_insideWith (reference : WithReference) :
    (scope.insideWith reference).inUse ⊆ reference.target :: scope.inUse := by
  intro id hid
  simp only [Scope.inUse, Scope.offered, Scope.insideWith, Scope.flags, Option.map_some,
    Option.toList_some, List.mem_append, List.mem_cons, List.not_mem_nil, or_false] at hid ⊢
  tauto

theorem inUse_trappedBy (token : Option Ident) :
    (scope.trappedBy token).inUse ⊆ token.toList ++ scope.inUse := by
  cases token with
  | none => exact fun _ h => h
  | some token =>
    intro id hid
    simp only [Scope.inUse, Scope.offered, Scope.trappedBy, Scope.insideTrap, Scope.flags,
      Option.toList_some, List.mem_append, List.mem_cons, List.not_mem_nil, or_false] at hid ⊢
    tauto

theorem inUse_insideRoutine (kind : RoutineKind) (name : Name) (slot : Option Ident)
    (parameters : List Parameter) :
    (scope.insideRoutine kind name slot parameters).inUse = slot.toList := by
  simp [Scope.inUse, Scope.offered, Scope.flags, Scope.insideRoutine, Scope.insideBody]

end InUse

section Codes

variable {visible : List Ident}

theorem scoped_flatten {parts : List (List Mark)} (h : ∀ marks ∈ parts, Scoped visible marks) :
    Scoped visible parts.flatten := by
  induction parts with
  | nil => exact .nil
  | cons marks rest ih =>
    rw [List.flatten_cons]
    exact (h marks List.mem_cons_self).append (ih fun m hm => h m (List.mem_cons_of_mem _ hm))

theorem scoped_fragment (r : Rendering) (scope : Scope) :
    Scoped scope.inUse (r.fragment scope).marks :=
  scoped_uses false (offered_subset_inUse scope)

theorem scoped_operation {o : Operation} (h : ∀ f ∈ o.fragments, f.temporaries ⊆ visible) :
    Scoped visible o.marks := by
  rw [Operation.marks, List.flatMap_def]
  refine scoped_flatten fun marks hmarks => ?_
  obtain ⟨f, hf, rfl⟩ := List.mem_map.mp hmarks
  exact scoped_uses false (h f hf)

theorem scoped_act {guard : Option Ident} {operations : List Operation}
    (hguard : guard.toList ⊆ visible)
    (h : ∀ o ∈ operations, ∀ f ∈ o.fragments, f.temporaries ⊆ visible) (origin : Option Nat) :
    Scoped visible (Code.trace [.act origin guard operations]) := by
  have hall : Scoped visible (operations.map Operation.marks).flatten := by
    refine scoped_flatten fun marks hmarks => ?_
    obtain ⟨o, ho, rfl⟩ := List.mem_map.mp hmarks
    exact scoped_operation (h o ho)
  rw [Code.trace_single]
  cases guard with
  | none => exact hall
  | some token =>
    rw [Code.marks, List.flatten_singleton, List.flatMap_def]
    exact .use true (hguard (by simp)) hall

/-- The operations of a statement render everything in its own scope. -/
theorem scoped_guarded {scope : Scope} {operations : List Operation}
    (h : ∀ o ∈ operations, ∀ f ∈ o.fragments, f.temporaries = scope.offered)
    (origin : Option Nat) :
    Scoped scope.inUse (Code.trace [.act origin scope.trapToken operations]) :=
  scoped_act (trapToken_subset_inUse scope)
    (fun o ho f hf => by rw [h o ho f hf]; exact offered_subset_inUse scope) origin

theorem scoped_flagChecks (scope : Scope) :
    Scoped scope.inUse (Code.trace (flagChecks scope)) := by
  rw [flagChecks]
  split
  · exact .nil
  · rw [Code.trace_single, Code.marks]
    simpa using scoped_uses true (flags_subset_inUse scope)

theorem scoped_loop {head : LoopHead} {flag : Option Ident} {codes : List Code}
    (hopening : Scoped visible head.openingMarks) (hclosing : Scoped visible head.closingMarks)
    (hbody : Scoped (flag.toList ++ visible) (Code.trace codes)) :
    Scoped visible (Code.trace [.loop head flag codes]) := by
  rw [Code.trace_loop]
  exact hopening.append (.block hbody.declares hclosing)

theorem scoped_frame {token : Option Ident} {codes more : List Code}
    (hbody : Scoped (token.toList ++ visible) (Code.trace codes))
    (hmore : Scoped (token.toList ++ visible) (Code.trace more)) :
    Scoped visible (Code.trace (Code.frame token codes ++ more)) := by
  rw [Code.trace_append]
  cases token with
  | none => exact hbody.append hmore
  | some token =>
    have hrelease : Scoped (token :: visible) [.use token true] := .use true List.mem_cons_self .nil
    rw [Code.frame, Code.trace_trapped]
    have hframe := Scoped.block hbody (.block hrelease .nil)
    exact (hframe.append hmore).declare

/-- A method uses nothing that is declared around it. -/
theorem scoped_method (head : MethodHead) (locals undeclaredLocals : List Ident) {codes : List Code}
    {slot : Option Ident} (hbody : Scoped slot.toList (Code.trace codes)) :
    Scoped visible (Code.trace [.method head locals undeclaredLocals codes (.ofSlot? slot)]) := by
  rw [Code.trace_method]
  refine @Scoped.method visible _ [] ?_ .nil
  cases slot with
  | none =>
    simpa [MethodResult.ofSlot?, MethodResult.openingMarks, MethodResult.closingMarks] using hbody
  | some slot =>
    have hend : Scoped [slot] [.use slot true] := .use true List.mem_cons_self .nil
    simpa [MethodResult.ofSlot?, MethodResult.openingMarks, MethodResult.closingMarks] using
      (hbody.append hend).declare

end Codes

def UsesInScope (setup : Setup) (b : Block) : Prop :=
  ∀ {scope : Scope} {s t : Session} {out : Output Code},
    Gives (compileBlock setup scope b) s out t → Scoped scope.inUse (Code.trace out.statements)

section Blocks

variable {setup : Setup}

theorem scoped_join {visible : List Ident} {a b : Output Code}
    (ha : Scoped visible (Code.trace a.statements))
    (hb : Scoped visible (Code.trace b.statements)) :
    Scoped visible (Code.trace (a ++ b).statements) := by
  rw [Output.statements_append, Code.trace_append]
  exact ha.append hb

theorem usesInScope_blocks {blocks : List Block} (h : ∀ b ∈ blocks, UsesInScope setup b)
    {scope : Scope} {s t : Session} {out : Output Code}
    (hgives : Gives (compileBlocks setup .all scope blocks) s out t) :
    Scoped scope.inUse (Code.trace out.statements) :=
  output_blocks (P := fun out => Scoped scope.inUse (Code.trace out.statements)) .nil scoped_join
    (fun b hb => h b hb) hgives

theorem usesInScope_items {scope : Scope} {α : Type} {f : α → CompileM (Output Code)}
    (h : ∀ {a s t out}, Gives (f a) s out t → Scoped scope.inUse (Code.trace out.statements))
    {items : List α} {s t : Session} {out : Output Code}
    (hitems : Gives (compileItems f items) s out t) :
    Scoped scope.inUse (Code.trace out.statements) :=
  output_items (P := fun out => Scoped scope.inUse (Code.trace out.statements)) .nil scoped_join h
    hitems

theorem usesInScope_doLoop {test : Option LoopTest} {body : List Block}
    (ih : ∀ c ∈ body, UsesInScope setup c) : UsesInScope setup (.doLoop test body) := by
  intro scope s t out h
  obtain ⟨head, names, u, flag, v, inner, hhead, -, hinner, rfl⟩ := gives_doLoop h
  have hbody := (usesInScope_blocks ih hinner).mono (inUse_insideLoop scope _)
  have hmarks : Scoped scope.inUse head.openingMarks ∧ Scoped scope.inUse head.closingMarks := by
    obtain ⟨-, rfl, -, -⟩ | ⟨test, r, -, -, -, -, rfl⟩ := gives_loopTest hhead
    · exact ⟨.nil, .nil⟩
    · by_cases hstart : test.atStart = true
      · rw [if_pos hstart]
        exact ⟨scoped_fragment r scope, .nil⟩
      · rw [if_neg hstart]
        exact ⟨.nil, scoped_fragment r scope⟩
  have hloop := scoped_loop hmarks.1 hmarks.2 hbody
  have hall := hloop.append (scoped_flagChecks scope)
  rw [← Code.trace_append] at hall
  exact hall

theorem usesInScope_forLoop {counter : Name} {first last : TokenRun} {step : Option TokenRun}
    {body : List Block} (ih : ∀ c ∈ body, UsesInScope setup c) :
    UsesInScope setup (.forLoop counter first last step body) := by
  intro scope s t out h
  obtain ⟨head, lastName, u, stepName, v, flag, w, inner, -, -, -, -, hinner, rfl⟩ :=
    gives_forLoop h
  -- The limits are declared before the loop, in the block around it.
  let visible := stepName :: lastName :: scope.inUse
  have hmore : scope.inUse ⊆ visible :=
    fun _ hid => List.mem_cons_of_mem _ (List.mem_cons_of_mem _ hid)
  have hbody : Scoped (flag.toList ++ visible) (Code.trace inner.statements) := by
    refine ((usesInScope_blocks ih hinner).mono (inUse_insideLoop scope _)).mono ?_
    exact List.append_subset.mpr ⟨List.subset_append_left _ _,
      fun _ hid => List.mem_append_right _ (hmore hid)⟩
  have hopening : Scoped visible (LoopHead.counting counter.line (head.counter.fragment scope)
      (head.first.fragment scope) lastName stepName).openingMarks := by
    have hfragments := ((scoped_fragment head.counter scope).append
      (scoped_fragment head.first scope)).mono hmore
    refine hfragments.append (.use true ?_ (.use true ?_ .nil)) <;> simp [visible]
  have hloop := (scoped_loop hopening .nil hbody).append ((scoped_flagChecks scope).mono hmore)
  have hstep : Scoped (lastName :: scope.inUse) (head.stepFragment scope).marks := by
    rw [ForHead.stepFragment]
    split
    · exact (scoped_fragment _ scope).mono (List.subset_cons_self _ _)
    · exact .nil
  have hsteps := hstep.append hloop.declare
  have hall := (scoped_fragment head.last scope).append hsteps.declare
  change Scoped scope.inUse (Code.trace (.bind counter.line lastName (head.last.fragment scope) ::
    .bind counter.line stepName (head.stepFragment scope) :: .loop _ flag inner.statements ::
    flagChecks scope))
  rw [Code.trace_cons, Code.trace_bind, Code.trace_cons, Code.trace_bind, Code.trace_cons]
  simpa using hall

theorem usesInScope_withTarget {target : TokenRun} {body : List Block}
    (ih : ∀ c ∈ body, UsesInScope setup c) : UsesInScope setup (.withTarget target body) := by
  intro scope s t out h
  obtain ⟨line, r, name, u, inner, -, -, -, hinner, rfl⟩ := gives_withTarget h
  have hbody := (usesInScope_blocks ih hinner).mono (inUse_insideWith scope _)
  have hall := (scoped_fragment r scope).append hbody.declare
  change Scoped scope.inUse (Code.trace (.bind line name (r.fragment scope) :: inner.statements))
  rw [Code.trace_cons, Code.trace_bind]
  simpa using hall

/-- The token of a level is declared in front of the frame that uses it. -/
theorem scoped_level {blocks : List Block} (ih : ∀ b ∈ blocks, UsesInScope setup b)
    {scope : Scope} {s t : Session} {out : Output Code}
    (h : Gives (compileLevel setup blocks scope fun selection s =>
      compileBlocks setup selection s blocks) s out t) :
    Scoped scope.inUse (Code.trace out.statements) := by
  obtain ⟨hoisted, token, u, body, v, routines, -, -, hbody, hroutines, rfl⟩ := gives_level h
  have hsub := inUse_trappedBy (scope.declare hoisted) token
  have hbody' := usesInScope_blocks (fun b hb => ih b (Block.mem_of_mem_framed hb)) hbody
  have hroutines' := usesInScope_blocks (fun b hb => ih b (Block.mem_of_mem_unframed hb)) hroutines
  exact scoped_frame (hbody'.mono hsub) (hroutines'.mono hsub)

theorem usesInScope_routine {kind : RoutineKind} {name : Name} {parameters : List Parameter}
    {body : List Block} (ih : ∀ c ∈ body, UsesInScope setup c) :
    UsesInScope setup (.routine kind name parameters body) := by
  intro scope s t out h
  obtain ⟨-, -, ⟨-, -, rfl⟩ | ⟨-, slot, u, level, v, -, hlevel, hmethod⟩⟩ := gives_routine h
  · have hempty : ∀ result : MethodResult, result.slot? = none →
        Scoped scope.inUse (Code.trace [.method (methodHead setup.naming kind name parameters) [] []
          [] result]) := by
      intro result hresult
      rw [Code.trace_method]
      cases result with
      | nothing | null => exact @Scoped.method _ [] [] .nil .nil
      | slot => cases hresult
    cases kind <;> exact hempty _ rfl
  · obtain ⟨-, rfl⟩ := gives_method hmethod
    have hbody := scoped_level ih hlevel
    rw [inUse_insideRoutine] at hbody
    exact scoped_method _ _ _ hbody

/-- By induction on the nesting: a body sees what its block declares in front of it. -/
theorem usesInScope_block (b : Block) : UsesInScope setup b := by
  induction b using Block.nested_induction with
  | step b ih =>
    cases b with
    | doLoop test body => exact usesInScope_doLoop ih
    | forLoop counter first last step body => exact usesInScope_forLoop ih
    | withTarget target body => exact usesInScope_withTarget ih
    | routine kind name parameters body => exact usesInScope_routine ih
    | exit kind line =>
      intro scope s t out h
      rw [compileBlock] at h
      obtain ⟨-, ⟨kind, codes, -, hcodes, rfl⟩ | ⟨-, -, rfl⟩⟩ := gives_exit h
      · obtain ⟨target, htarget, ⟨-, rfl⟩ | ⟨f, hf, rfl⟩⟩ := compileLoopExit_ok hcodes
        · exact .nil
        · have hflag : f ∈ scope.flags :=
            List.mem_filterMap.mpr
              ⟨target, List.mem_reverse.mpr (List.mem_of_find?_eq_some htarget), hf⟩
          exact .use true (flags_subset_inUse scope hflag) .nil
      · have hslot : scope.returnSlot.toList ⊆ scope.inUse := fun _ hid =>
          offered_subset_inUse scope (List.mem_append_left _ hid)
        have huses := scoped_uses true hslot
        simpa [Output.ofStatements, Code.trace_single, Code.marks] using huses
    | consts items =>
      intro scope s t out h
      rw [compileBlock] at h
      refine usesInScope_items (fun hitem => ?_) h
      obtain ⟨target, value, -, -, -, rfl⟩ := gives_const hitem
      exact scoped_guarded (by simp [Operation.fragments, Rendering.fragment]) _
    | dim items =>
      intro scope s t out h
      rw [compileBlock] at h
      refine usesInScope_items (fun hitem => ?_) h
      obtain ⟨-, rfl, -⟩ | ⟨bounds, target, rs, -, -, -, -, rfl⟩ := gives_dim hitem
      · exact .nil
      · exact scoped_guarded (by simp [Operation.fragments, Rendering.fragment]) _
    | redim preserve items =>
      intro scope s t out h
      rw [compileBlock] at h
      refine usesInScope_items (fun hitem => ?_) h
      obtain ⟨rs, -, -, -, ⟨-, -, hcodes⟩ | ⟨-, target, -, -, hcodes⟩⟩ := gives_redim hitem
      · rw [hcodes]
        exact scoped_guarded (by simp [Operation.fragments, Rendering.fragment]) _
      · rw [hcodes]
        refine scoped_guarded ?_ _
        cases preserve <;> simp [Operation.fragments, Rendering.fragment]
    | onError mode line =>
      intro scope s t out h
      rw [compileBlock] at h
      obtain ⟨token, htoken, -, rfl⟩ := gives_onError h
      exact .use true (trapToken_subset_inUse scope (by simp [htoken])) .nil
    | statement run =>
      intro scope s t out h
      rw [compileBlock] at h
      obtain ⟨r, -, -, rfl⟩ := gives_statement h
      exact scoped_guarded (by simp [Operation.fragments, Rendering.fragment]) _

end Blocks

section Declarations

def declaredBy (marks : List Mark) : List Ident :=
  marks.filterMap fun
    | .declare id => some id
    | _ => none

@[simp] theorem declaredBy_append (marks more : List Mark) :
    declaredBy (marks ++ more) = declaredBy marks ++ declaredBy more :=
  List.filterMap_append

@[simp] theorem declaredBy_nil : declaredBy [] = [] := rfl

@[simp] theorem declaredBy_enter (ofMethod : Bool) (marks : List Mark) :
    declaredBy (.enter ofMethod :: marks) = declaredBy marks := rfl

@[simp] theorem declaredBy_leave (marks : List Mark) :
    declaredBy (.leave :: marks) = declaredBy marks := rfl

@[simp] theorem declaredBy_declare (id : Ident) (marks : List Mark) :
    declaredBy (.declare id :: marks) = id :: declaredBy marks := rfl

@[simp] theorem declaredBy_use (id : Ident) (certain : Bool) (marks : List Mark) :
    declaredBy (.use id certain :: marks) = declaredBy marks := rfl

@[simp] theorem mem_declaredBy {id : Ident} {marks : List Mark} :
    id ∈ declaredBy marks ↔ .declare id ∈ marks := by
  rw [declaredBy, List.mem_filterMap]
  constructor
  · rintro ⟨m, hm, hid⟩
    cases m <;> cases hid
    exact hm
  · exact fun h => ⟨_, h, rfl⟩

@[simp] theorem declaredBy_uses (ids : List Ident) (certain : Bool) :
    declaredBy (ids.map (.use · certain)) = [] := by
  rw [declaredBy, List.filterMap_map]
  exact List.filterMap_eq_nil_iff.mpr fun _ _ => rfl

@[simp] theorem declaredBy_fragment (f : Fragment) : declaredBy f.marks = [] :=
  declaredBy_uses _ _

theorem declaredBy_flatten {parts : List (List Mark)} (h : ∀ marks ∈ parts, declaredBy marks = []) :
    declaredBy parts.flatten = [] := by
  induction parts with
  | nil => rfl
  | cons marks rest ih =>
    rw [List.flatten_cons, declaredBy_append, h marks List.mem_cons_self,
      ih fun m hm => h m (List.mem_cons_of_mem _ hm), List.append_nil]

theorem declaredBy_operations (operations : List Operation) :
    declaredBy (operations.map Operation.marks).flatten = [] := by
  refine declaredBy_flatten fun marks hmarks => ?_
  obtain ⟨o, -, rfl⟩ := List.mem_map.mp hmarks
  rw [Operation.marks, List.flatMap_def]
  refine declaredBy_flatten fun marks hmarks => ?_
  obtain ⟨f, -, rfl⟩ := List.mem_map.mp hmarks
  exact declaredBy_fragment f

@[simp] theorem declaredBy_opening (head : LoopHead) : declaredBy head.openingMarks = [] := by
  cases head with
  | endless | testLast => rfl
  | testFirst condition => exact declaredBy_fragment condition.test
  | counting origin counter first last step =>
    simp [LoopHead.openingMarks]

@[simp] theorem declaredBy_closing (head : LoopHead) : declaredBy head.closingMarks = [] := by
  cases head with
  | endless | testFirst | counting => rfl
  | testLast condition => exact declaredBy_fragment condition.test

mutual

theorem Code.declaredBy_marks : ∀ c : Code, c.methods = [] →
    declaredBy c.marks.flatten = c.temporaries
  | .act origin none operations, _ => declaredBy_operations operations
  | .act origin (some token) operations, _ => by
    have hnone := declaredBy_operations operations
    rw [← List.flatMap_def] at hnone
    simpa [Code.marks, Code.temporaries] using hnone
  | .bind origin name value, _ => by
    simp [Code.marks, Code.temporaries]
  | .trapping .., _ => rfl
  | .raise .., _ => rfl
  | .leave .., _ => rfl
  | .giveBack _ slot, _ => by
    cases slot <;> rfl
  | .loop head flag body, h => by
    have hbody := Code.declaredBy_trace body h
    rw [← Code.trace_single, Code.trace_loop]
    cases flag <;> simp [hbody, Code.temporaries]
  | .check flags, _ => by
    simp [Code.marks, Code.temporaries]
  | .trapped token body, h => by
    have hbody := Code.declaredBy_trace body h
    rw [← Code.trace_single, Code.trace_trapped]
    simp [hbody, Code.temporaries]
  | .method .., h => nomatch h

theorem Code.declaredBy_trace : ∀ codes : List Code, Code.allMethods codes = [] →
    declaredBy (Code.trace codes) = Code.allTemporaries codes
  | [], _ => rfl
  | c :: rest, h => by
    rw [Code.allMethods, List.append_eq_nil_iff] at h
    rw [Code.trace_cons, declaredBy_append, Code.trace_single, Code.declaredBy_marks c h.1,
      Code.declaredBy_trace rest h.2, Code.allTemporaries]

end

variable {setup : Setup}

def Output.AllocatesAll (s t : Session) (out : Output Code) : Prop :=
  AllocatedBetween s.nextTemporary t.nextTemporary (declaredBy (Code.trace out.statements))

theorem allocatesAll_routine {scope : Scope} {kind : RoutineKind} {name : Name}
    {parameters : List Parameter} {body : List Block} {s t : Session} {out : Output Code}
    (h : Gives (compileBlock setup scope (.routine kind name parameters body)) s out t) :
    out.AllocatesAll s t := by
  obtain ⟨-, -, ⟨-, rfl, rfl⟩ | ⟨-, slot, u, level, v, hslot, hlevel, hmethod⟩⟩ := gives_routine h
  · cases kind <;> exact allocated_nil
  · obtain ⟨rfl, rfl⟩ := gives_method hmethod
    have hplace : (scope.insideRoutine kind name slot parameters).enclosure ≠ .outermost := by
      cases kind <;> simp [Scope.insideRoutine, Scope.insideBody, RoutineKind.owner]
    obtain ⟨_, -, hinside⟩ := insideLevel_level hplace hlevel
    have hbody := hinside.fresh.allocated
    rw [← Code.declaredBy_trace _ hinside.methodFree] at hbody
    have hsu := ((quiet_returnSlot setup kind scope).growing.of_gives hslot).nextTemporary
    have huv := ((growing_level setup _ body).of_gives hlevel).nextTemporary
    have hslots : AllocatedBetween s.nextTemporary u.nextTemporary slot.toList := by
      obtain ⟨-, rfl, -⟩ | ⟨-, id, rfl, hid⟩ := gives_returnSlot hslot
      · exact allocated_nil
      · exact (freshFrom_of_gives (by decide) hid).allocated
    have hall := hslots.append hbody hsu huv
    rw [Output.AllocatesAll, Session.foldl_reported_nextTemporary, Output.ofStatements,
      Code.trace_method]
    cases slot <;>
      simpa [MethodResult.ofSlot?, MethodResult.openingMarks, MethodResult.closingMarks] using hall

theorem allocatesAll_block {scope : Scope} {b : Block} {s t : Session} {out : Output Code}
    (h : Gives (compileBlock setup scope b) s out t) : out.AllocatesAll s t := by
  by_cases hroutine : b.isRoutine = true
  · cases b <;> try cases hroutine
    exact allocatesAll_routine h
  · have hinside := declaresFresh_block b (fun _ => by simpa using hroutine) h
    rw [Output.AllocatesAll, Code.declaredBy_trace _ hinside.methodFree]
    exact hinside.fresh.allocated

theorem allocatesAll_blocks {scope : Scope} {blocks : List Block} {s t : Session}
    {out : Output Code} (h : Gives (compileBlocks setup .all scope blocks) s out t) :
    out.AllocatesAll s t := by
  induction blocks generalizing s out with
  | nil =>
    obtain ⟨rfl, rfl⟩ := gives_pure.mp h
    exact allocated_nil
  | cons b rest ih =>
    obtain ⟨here, u, later, hhere, hlater, rfl⟩ := gives_compileBlocks_cons.mp h
    have hsu := ((growing_block setup scope b).of_gives hhere).nextTemporary
    have hut := ((growing_blocks setup scope rest).of_gives hlater).nextTemporary
    have hall := AllocatedBetween.append (allocatesAll_block hhere) (ih hlater) hsu hut
    simpa [Output.AllocatesAll] using hall

/-- No temporary of a level is declared twice, since each has a number of its own. -/
theorem allocatesAll_level {scope : Scope} {blocks : List Block} {s t : Session}
    {out : Output Code} (h : Gives (compileLevel setup blocks scope fun selection s =>
      compileBlocks setup selection s blocks) s out t) : out.AllocatesAll s t := by
  obtain ⟨hoisted, token, u, body, v, routines, -, htoken, hbody, hroutines, rfl⟩ := gives_level h
  have hsu := ((quiet_levelToken setup blocks _).growing.of_gives htoken).nextTemporary
  have huv := ((growing_blocks setup _ _).of_gives hbody).nextTemporary
  have hvt := ((growing_blocks setup _ _).of_gives hroutines).nextTemporary
  have hbodies := AllocatedBetween.append (allocatesAll_blocks hbody)
    (allocatesAll_blocks hroutines) huv hvt
  have hall := (freshNames_levelToken htoken).allocated.append hbodies hsu (Nat.le_trans huv hvt)
  change AllocatedBetween _ _
    (declaredBy (Code.trace (Code.frame token body.statements ++ routines.statements)))
  rw [Code.trace_append]
  cases token with
  | none => simpa [Code.frame] using hall
  | some token => simpa [Code.frame, Code.trace_trapped] using hall

end Declarations

namespace PlainRenderer

/-- The text is put together from the tokens of the run, the identifiers of its names, the holders
of names that are not local, and the given temporaries. -/
inductive Composed (naming : Naming) (run : TokenRun) (temporaries : List Ident) :
    String → Prop where
  | empty : Composed naming run temporaries ""
  | fixed {piece : String} : piece ∈ [" ", ".", "_env.", "_outer."] →
      Composed naming run temporaries piece
  | token {t : Token} : t ∈ run → Composed naming run temporaries t.text
  | display {t : Token} : t ∈ run → Composed naming run temporaries t.display
  | name {t : Token} : t ∈ run → Composed naming run temporaries (naming ⟨t.text, t.line⟩).text
  | temporary {id : Ident} : id ∈ temporaries → Composed naming run temporaries id.text
  | append {text more : String} : Composed naming run temporaries text →
      Composed naming run temporaries more → Composed naming run temporaries (text ++ more)

section Composed

variable {naming : Naming} {run : TokenRun} {scope : Scope}

theorem Composed.push {s : State} (h : Composed naming run scope.offered s.text) {piece : String}
    (hpiece : Composed naming run scope.offered piece) :
    Composed naming run scope.offered (s.push piece).text := by
  rw [State.push]
  split
  · exact h.append hpiece
  · exact (h.append (.fixed (by simp))).append hpiece

theorem composed_reference {t : Token} (ht : t ∈ run) :
    Composed naming run scope.offered (reference naming scope ⟨t.text, t.line⟩) := by
  have hname : Composed naming run scope.offered (naming ⟨t.text, t.line⟩).text := .name ht
  have henv : Composed naming run scope.offered "_env." := .fixed (by simp)
  have houter : Composed naming run scope.offered "_outer." := .fixed (by simp)
  rw [reference]
  split
  case h_1 slot _ hslot => exact .temporary (List.mem_append_left _ (by simp [hslot]))
  case h_2 =>
    split
    · exact henv.append hname
    · exact houter.append hname
    · exact hname
    · split
      · exact hname
      · exact henv.append hname

theorem composed_step {s s' : State} {t : Token} (ht : t ∈ run)
    (hs : Composed naming run scope.offered s.text) (h : s.step naming scope t = .ok s') :
    Composed naming run scope.offered s'.text := by
  have hdot : Composed naming run scope.offered "." := .fixed (by simp)
  unfold State.step at h
  split at h
  · unfold State.dot at h
    split at h
    · cases h
      exact hs.append hdot
    · split at h
      · cases h
      case h_2 w hw =>
        cases h
        have htarget : Composed naming run scope.offered w.target.text :=
          .temporary (List.mem_append_right _ (by simp [hw]))
        exact hs.push (htarget.append hdot)
  · split at h
    · cases h
    · cases h
      unfold State.word
      split
      · split
        · exact hs.append (.token ht)
        · exact hs.push (composed_reference ht)
      · exact hs.push (.display ht)

theorem composed_foldlM {tokens : TokenRun} {s s' : State} (hrun : ∀ t ∈ tokens, t ∈ run)
    (hs : Composed naming run scope.offered s.text)
    (h : tokens.foldlM (fun (s : State) t => s.step naming scope t) s = .ok s') :
    Composed naming run scope.offered s'.text := by
  induction tokens generalizing s with
  | nil =>
    cases h
    exact hs
  | cons t rest ih =>
    rw [List.foldlM_cons] at h
    cases hstep : s.step naming scope t with
    | error e =>
      rw [hstep] at h
      cases h
    | ok u =>
      rw [hstep] at h
      exact ih (fun c hc => hrun c (List.mem_cons_of_mem _ hc))
        (composed_step (hrun t List.mem_cons_self) hs hstep) h

/-- The plain renderer writes no temporaries but those that the scope offers. -/
theorem composed_plainRenderer {demand : Demand} {r : Rendering}
    (h : plainRenderer naming demand run scope = .ok r) :
    ∃ text, r.text = wrap demand text ∧ Composed naming run scope.offered text := by
  unfold plainRenderer renderRun at h
  cases hrun : run.foldlM (fun (s : State) t => s.step naming scope t) {} with
  | error e =>
    rw [hrun] at h
    cases h
  | ok s =>
    rw [hrun] at h
    cases h
    exact ⟨s.text, rfl, composed_foldlM (fun _ ht => ht) .empty hrun⟩

end Composed

end PlainRenderer

/-- In marks that declare nothing twice, a temporary declared around a use is declared nowhere else
before. -/
theorem DeclaredIn.once {id : Ident} {before after : List Mark} (h : DeclaredIn id before)
    (hnodup : (declaredBy (before ++ after)).Nodup) :
    ∃ outer inner, before = outer ++ .declare id :: inner ∧ .declare id ∉ outer ∧
      .declare id ∉ inner ∧ Encloses inner := by
  obtain ⟨outer, inner, rfl, hinner⟩ := h
  rw [declaredBy_append] at hnodup
  have hbefore := (List.nodup_append.mp hnodup).1
  rw [declaredBy_append, declaredBy_declare, List.nodup_append] at hbefore
  obtain ⟨-, hdeclared, hapart⟩ := hbefore
  refine ⟨outer, inner, rfl, fun houter => ?_, fun hin => ?_, hinner⟩
  · exact hapart id (mem_declaredBy.mpr houter) id List.mem_cons_self rfl
  · exact (List.nodup_cons.mp hdeclared).1 (mem_declaredBy.mpr hin)

/-- The lines of a compiled program are those of the code that its compilation gives. In that code
every use of a temporary comes behind exactly one declaration of it, in a block that is still open
and in the same method. That holds of what the compiler writes itself and of all that a rendered
text is offered, and the plain renderer writes nothing else. A method declares no such name a second
time for a parameter or local, but it may declare the name of a WITH target once more because its
body uses that name undeclared. -/
theorem temporaries_declared_before_use {renderer : Renderer} {settings : Settings}
    {program : List Block} {p : Program} {session : Session}
    (h : traceProgram renderer settings program = (.ok p, session)) :
    (∃ out, Gives (compileOutermost (.caseless renderer) program
        (.outermost settings.environmentNames)) {} out session ∧
      p.lines = Code.allLines settings.names.support 0 out.statements ∧
      List.Forall₂ Line.ShowsAll p.lines (Code.allMarks out.statements) ∧
      (∀ before id certain after,
        Code.trace out.statements = before ++ .use id certain :: after →
        ∃ outer inner, before = outer ++ .declare id :: inner ∧ .declare id ∉ outer ∧
          .declare id ∉ inner ∧ Encloses inner) ∧
      ∀ head locals undeclaredLocals body result,
        .method head locals undeclaredLocals body result ∈ Code.allMethods out.statements →
        ∀ id ∈ result.slot?.toList ++ Code.allTemporaries body,
          id ∉ head.parameters.map (·.1) ++ locals ∧
            (id ∈ undeclaredLocals → ∃ k, id = temporary "with" k)) ∧
    ∀ demand run scope r, plainRenderer caselessNaming demand run scope = .ok r →
      ∃ text, r.text = PlainRenderer.wrap demand text ∧
        PlainRenderer.Composed caselessNaming run scope.offered text := by
  refine ⟨?_, fun demand run scope r hr => PlainRenderer.composed_plainRenderer hr⟩
  obtain ⟨out, hout, rfl⟩ := gives_of_traceProgram h
  refine ⟨out, hout, rfl, Code.allLines_show _ 0 _, ?_⟩
  obtain ⟨level, u, hlevel, -, rfl⟩ := gives_outermost hout
  have hscoped : Scoped [] (Code.trace level.statements) :=
    scoped_level (fun b _ => usesInScope_block b) hlevel
  have hnodup := (allocatesAll_level hlevel).nodup
  have hnaming : (Setup.caseless renderer).naming.IsCapitalFree := isCapitalFree_caselessNaming
  constructor
  · intro before id certain after htrace
    have htrace : Code.trace level.statements = before ++ .use id certain :: after := htrace
    have hdeclared := (hscoped.declared htrace).resolve_left fun hvisible => nomatch hvisible.1
    rw [htrace] at hnodup
    exact hdeclared.once hnodup
  · intro head locals undeclaredLocals body result hmethod id hid
    obtain ⟨hapart⟩ := namesApart_level hnaming hlevel _ hmethod
    rcases List.mem_append.mp hid with hslot | htemporary
    · have hnot := hapart.slot_apart id hslot
      exact ⟨hnot.1, fun hundeclared => absurd hundeclared hnot.2⟩
    · exact ⟨fun hnamed => hapart.named_temporaries id hnamed htemporary,
        fun hundeclared => hapart.undeclared_temporaries id hundeclared htemporary⟩

/-- A function with an ON ERROR statement, a WITH block and an EXIT from the outer of two loops uses
a temporary of each kind. -/
theorem temporaries_declared_before_use_function_with_loops :
    let renderer := plainRenderer caselessNaming
    let program : List Block := [.routine .function ⟨"f", 0⟩ [⟨⟨"x", 0⟩, false⟩]
      [.onError .start 1,
        .withTarget [Token.ofText "x" 2]
          [.doLoop none
            [.forLoop ⟨"i", 4⟩ [Token.ofText "1" 4] [Token.ofText "3" 4] none
              [.statement [Token.ofText "." 5, Token.ofText "b" 5], .exit (.loop .doLoop) 6]]],
        .statement [Token.ofText "f" 9, Token.ofText "=" 9, Token.ofText "1" 9]]]
    let used := [temporary "retVal" 1, temporary "errOn" 2, temporary "with" 3,
      temporary "exitDo" 4, temporary "loopEnd" 5, temporary "loopStep" 6]
    ∃ p session out, traceProgram renderer {} program = (.ok p, session) ∧
      Gives (compileOutermost (.caseless renderer) program
        (.outermost ({} : Settings).environmentNames)) {} out session ∧
      p.lines = Code.allLines ({} : Settings).names.support 0 out.statements ∧
      (∀ id ∈ used, ∃ certain, .use id certain ∈ Code.trace out.statements) ∧
      (∀ before id certain after,
        Code.trace out.statements = before ++ .use id certain :: after →
        ∃ outer inner, before = outer ++ .declare id :: inner ∧ .declare id ∉ outer ∧
          .declare id ∉ inner ∧ Encloses inner) := by
  intro renderer program used
  have hok : (compileProgram renderer {} program).isOk = true := by decide +kernel
  have husing : ((compileOutermost (.caseless renderer) program
      (.outermost ({} : Settings).environmentNames)).outcome {}).1.toOption.any
      (fun out => used.all fun id => (Code.trace out.statements).any fun m =>
        m = .use id true || m = .use id false) = true := by
    decide +kernel
  obtain ⟨p, session, h⟩ := exists_traceProgram hok
  obtain ⟨⟨out, hout, hlines, -, hdeclared, -⟩, -⟩ := temporaries_declared_before_use h
  refine ⟨p, session, out, h, hout, hlines, fun id hid => ?_, hdeclared⟩
  rw [hout] at husing
  obtain ⟨m, hm, huse⟩ := List.any_eq_true.mp (List.all_eq_true.mp husing id hid)
  simp only [Bool.or_eq_true, decide_eq_true_eq] at huse
  rcases huse with rfl | rfl
  · exact ⟨true, hm⟩
  · exact ⟨false, hm⟩

/-- `SUB f : WITH a : .b = 1 : END WITH : with1 = 2 : END SUB` declares `with1` twice before the
bare member is set. -/
theorem with_target_declared_twice :
    let program : List Block := [.routine .sub ⟨"f", 0⟩ []
      [.withTarget [Token.ofText "a" 1] [.statement [Token.ofText "." 2, Token.ofText "b" 2,
        Token.ofText "=" 2, Token.ofText "1" 2]],
        .statement [Token.ofText "with1" 3, Token.ofText "=" 3, Token.ofText "2" 3]]]
    ((compileProgram (plainRenderer caselessNaming) {} program).toOption.map fun p =>
        p.lines.map (·.content)) =
      some ["public void f()", "\x7b", "object a = null; /* Undeclared in source */",
        "object with1 = null; /* Undeclared in source */", "var with1 = a;", "with1.b = 1;",
        "with1 = 2;", "\x7d"] := by
  decide +kernel

end VbsCompiler
