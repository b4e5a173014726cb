import VbsCompiler.Proofs.DeclaredFirst
import VbsCompiler.Proofs.Simulation

/-! Error-trapping frames. A level with an ON ERROR statement has one frame with a token of its own
around all its statements, each statement in it is one call of the error handler with that token,
and no level knows the token of another. -/

namespace VbsCompiler

open CompileM Block

/-- A piece of source that is emitted as one statement of its own: a plain statement, an ON ERROR
statement or one item of a declaration that leaves something to do. -/
inductive Leaf where
  | statement (run : TokenRun)
  | const (item : ConstItem)
  | dim (item : DimItem)
  | redim (preserve : Bool) (item : RedimItem)
  | onError (mode : TrapMode) (line : Nat)

namespace Leaf

def compile (setup : Setup) (scope : Scope) : Leaf → CompileM (Output Code)
  | .statement run => compileStatement setup run scope
  | .const item => compileConst setup item scope
  | .dim item => compileDim setup item scope
  | .redim preserve item => compileRedim setup preserve item scope
  | .onError mode line => compileOnError mode line scope

def origin : Leaf → Option Nat
  | .statement run => run.firstLine
  | .const item => some item.name.line
  | .dim item => some item.name.line
  | .redim _ item => some item.name.line
  | .onError _ line => some line

end Leaf

namespace Block

mutual

def leaves : Block → List Leaf
  | .statement run => [.statement run]
  | .consts items => items.map .const
  | .dim items => items.flatMap fun i => if i.bounds.isSome then [.dim i] else []
  | .redim preserve items => items.map (.redim preserve)
  | .onError mode line => [.onError mode line]
  | .doLoop _ body => allLeaves body
  | .forLoop _ _ _ _ body => allLeaves body
  | .withTarget _ body => allLeaves body
  | _ => []

def allLeaves : List Block → List Leaf
  | [] => []
  | b :: rest => b.leaves ++ allLeaves rest

end

theorem allLeaves_filter (blocks : List Block) :
    allLeaves (blocks.filter (!·.isRoutine)) = allLeaves blocks := by
  induction blocks with
  | nil => rfl
  | cons b rest ih =>
    by_cases hb : b.isRoutine = true
    · have hleaves : b.leaves = [] := by
        cases b <;> first | rfl | cases hb
      rw [List.filter_cons_of_neg (by simp [hb]), ih, allLeaves, hleaves, List.nil_append]
    · rw [List.filter_cons_of_pos (by simp [hb]), allLeaves, allLeaves, ih]

end Block

namespace Code

mutual

def leaves : Code → List Code
  | .act origin guard operations => [.act origin guard operations]
  | .trapping origin mode token => [.trapping origin mode token]
  | .loop _ _ body => allLeaves body
  | _ => []

def allLeaves : List Code → List Code
  | [] => []
  | c :: rest => c.leaves ++ allLeaves rest

end

@[simp] theorem allLeaves_append (codes more : List Code) :
    allLeaves (codes ++ more) = allLeaves codes ++ allLeaves more := by
  induction codes with
  | nil => rfl
  | cons c rest ih => rw [List.cons_append, allLeaves, allLeaves, ih, List.append_assoc]

@[simp] theorem allLeaves_flagChecks (scope : Scope) : allLeaves (flagChecks scope) = [] := by
  rw [flagChecks]
  split <;> rfl

end Code

/-- The leaf is compiled at a point of the level, and the code is what it gives. -/
def Leaf.EmittedAs (setup : Setup) (level : Scope) (leaf : Leaf) (code : Code) : Prop :=
  ∃ scope s out t, level.Within scope ∧ Gives (leaf.compile setup scope) s out t ∧
    out.statements = [code]

section Leaves

variable {setup : Setup} {level : Scope}

theorem leaves_single (leaf : Leaf) {scope : Scope} (hscope : level.Within scope) {s t : Session}
    {out : Output Code} (h : Gives (leaf.compile setup scope) s out t) {code : Code}
    (hcode : out.statements = [code]) (hleaf : code.leaves = [code]) :
    List.Forall₂ (Leaf.EmittedAs setup level) [leaf] (Code.allLeaves out.statements) := by
  have hleaves : Code.allLeaves out.statements = [code] := by
    rw [hcode, Code.allLeaves, Code.allLeaves, hleaf, List.append_nil]
  rw [hleaves]
  exact .cons ⟨scope, s, out, t, hscope, h, hcode⟩ .nil

theorem leaves_items {α : Type} {f : α → CompileM (Output Code)} (leavesOf : α → List Leaf)
    (h : ∀ {a s t out}, Gives (f a) s out t →
      List.Forall₂ (Leaf.EmittedAs setup level) (leavesOf a) (Code.allLeaves out.statements))
    {items : List α} {s t : Session} {out : Output Code}
    (hitems : Gives (compileItems f items) s out t) :
    List.Forall₂ (Leaf.EmittedAs setup level) (items.flatMap leavesOf)
      (Code.allLeaves out.statements) := by
  induction items generalizing s out with
  | nil =>
    obtain ⟨rfl, -⟩ := gives_pure.mp hitems
    exact .nil
  | cons a rest ih =>
    obtain ⟨here, u, later, hhere, hlater, rfl⟩ := gives_compileItems_cons.mp hitems
    rw [List.flatMap_cons, Output.statements_append, Code.allLeaves_append]
    exact List.rel_append (h hhere) (ih hlater)

theorem leaves_blocks {blocks : List Block} {scope : Scope}
    (h : ∀ b ∈ blocks, ∀ {s t out}, Gives (compileBlock setup scope b) s out t →
      List.Forall₂ (Leaf.EmittedAs setup level) b.leaves (Code.allLeaves out.statements))
    {s t : Session} {out : Output Code}
    (hgives : Gives (compileBlocks setup .all scope blocks) s out t) :
    List.Forall₂ (Leaf.EmittedAs setup level) (Block.allLeaves blocks)
      (Code.allLeaves out.statements) := by
  induction blocks generalizing s out with
  | nil =>
    obtain ⟨rfl, -⟩ := gives_pure.mp hgives
    exact .nil
  | cons b rest ih =>
    obtain ⟨here, u, later, hhere, hlater, rfl⟩ := gives_compileBlocks_cons.mp hgives
    rw [Block.allLeaves, Output.statements_append, Code.allLeaves_append]
    exact List.rel_append (h b List.mem_cons_self hhere)
      (ih (fun c hc => h c (List.mem_cons_of_mem _ hc)) hlater)

/-- Each leaf of a block has its statement in the code, in order and with nothing in between. -/
theorem leaves_block {b : Block} {scope : Scope} (hscope : level.Within scope) {s t : Session}
    {out : Output Code} (h : Gives (compileBlock setup scope b) s out t) :
    List.Forall₂ (Leaf.EmittedAs setup level) b.leaves (Code.allLeaves out.statements) := by
  induction b using Block.nested_induction generalizing scope s t out with
  | step b ih =>
    cases b with
    | doLoop test body =>
      obtain ⟨head, names, u, flag, v, inner, -, -, hinner, rfl⟩ := gives_doLoop h
      have hbody := leaves_blocks (fun c hc => ih c hc (hscope.insideLoop _)) hinner
      rw [children] at hbody
      simpa [Output.mapStatements, Code.allLeaves, Code.leaves, Block.leaves] using hbody
    | forLoop counter first last step body =>
      obtain ⟨head, _, _, _, _, flag, _, inner, -, -, -, -, hinner, rfl⟩ := gives_forLoop h
      have hbody := leaves_blocks (fun c hc => ih c hc (hscope.insideLoop _)) hinner
      rw [children] at hbody
      simpa [Output.mapStatements, Code.allLeaves, Code.leaves, Block.leaves] using hbody
    | withTarget target body =>
      obtain ⟨line, r, name, u, inner, -, -, -, hinner, rfl⟩ := gives_withTarget h
      have hbody := leaves_blocks (fun c hc => ih c hc (hscope.insideWith _)) hinner
      rw [children] at hbody
      simpa [Output.pushFront, Output.addUndeclared, Code.allLeaves, Code.leaves,
        Block.leaves] using hbody
    | routine kind name parameters body =>
      obtain ⟨-, -, ⟨-, -, rfl⟩ | ⟨-, slot, u, level, v, -, -, hmethod⟩⟩ := gives_routine h
      · exact .nil
      · obtain ⟨-, rfl⟩ := gives_method hmethod
        exact .nil
    | exit kind line =>
      rw [compileBlock] at h
      obtain ⟨-, ⟨kind, codes, -, hcodes, rfl⟩ | ⟨-, -, rfl⟩⟩ := gives_exit h
      · obtain ⟨target, -, ⟨-, rfl⟩ | ⟨f, -, rfl⟩⟩ := compileLoopExit_ok hcodes <;> exact .nil
      · exact .nil
    | consts items =>
      rw [compileBlock] at h
      rw [Block.leaves, List.map_eq_flatMap]
      refine leaves_items _ (fun {item s t out} hitem => ?_) h
      have hout := hitem
      obtain ⟨target, value, -, -, -, rfl⟩ := gives_const hout
      exact leaves_single (.const item) hscope hitem rfl rfl
    | dim items =>
      rw [compileBlock] at h
      refine leaves_items _ (fun {item s t out} hitem => ?_) h
      have hout := hitem
      obtain ⟨hbounds, rfl, -⟩ | ⟨bounds, target, rs, hbounds, -, -, -, rfl⟩ := gives_dim hout
      · rw [hbounds]
        exact .nil
      · rw [hbounds]
        exact leaves_single (.dim item) hscope hitem rfl rfl
    | redim preserve items =>
      rw [compileBlock] at h
      rw [Block.leaves, List.map_eq_flatMap]
      refine leaves_items _ (fun {item s t out} hitem => ?_) h
      obtain ⟨rs, -, -, -, ⟨-, -, hcodes⟩ | ⟨-, target, -, -, hcodes⟩⟩ := gives_redim hitem <;>
        exact leaves_single (.redim preserve item) hscope hitem hcodes rfl
    | onError mode line =>
      rw [compileBlock] at h
      have hout := h
      obtain ⟨token, -, -, rfl⟩ := gives_onError hout
      exact leaves_single (.onError mode line) hscope h rfl rfl
    | statement run =>
      rw [compileBlock] at h
      have hout := h
      obtain ⟨r, -, -, rfl⟩ := gives_statement hout
      exact leaves_single (.statement run) hscope h rfl rfl

end Leaves

def Setup.seeing (setup : Setup) (token : Ident) : Setup :=
  { setup with
    renderer := fun demand run scope => setup.renderer demand run (scope.insideTrap token) }

def Scope.untrapped (s : Scope) : Scope :=
  { s with trapToken := none }

section Untrapped

variable {setup : Setup} {scope : Scope} {token : Ident} (htoken : scope.trapToken = some token)
include htoken

theorem renderer_seeing (demand : Demand) (run : TokenRun) :
    (setup.seeing token).renderer demand run scope.untrapped = setup.renderer demand run scope := by
  have hscope : scope.untrapped.insideTrap token = scope := by
    rw [Scope.untrapped, Scope.insideTrap, ← htoken]
  change setup.renderer demand run (scope.untrapped.insideTrap token) = _
  rw [hscope]

theorem renders_untrapped {demand : Demand} {run : TokenRun} {r : Rendering}
    (h : setup.renderer demand run scope = .ok r) (s : Session) :
    ∃ t, Gives (render (setup.seeing token) demand run scope.untrapped) s r t := by
  rw [← renderer_seeing htoken] at h
  exact ⟨_, gives_render.mpr ⟨h, rfl⟩⟩

theorem renderValues_untrapped {runs : List TokenRun} {rs : List Rendering}
    (h : List.Forall₂ (fun run r => setup.renderer .value run scope = .ok r) runs rs)
    (s : Session) :
    ∃ t, Gives (renderValues (setup.seeing token) scope.untrapped runs) s
      (rs.map (·.fragment scope), rs.flatMap (·.undeclared setup.naming scope)) t := by
  induction h generalizing s with
  | nil => exact ⟨s, gives_pure.mpr ⟨rfl, rfl⟩⟩
  | @cons run r runs rs hr _ ih =>
    obtain ⟨u, hu⟩ := renders_untrapped htoken hr s
    obtain ⟨t, ht⟩ := ih u
    refine ⟨t, ?_⟩
    rw [renderValues, gives_bind]
    refine ⟨r, u, hu, ?_⟩
    rw [gives_bind]
    exact ⟨_, t, ht, gives_pure.mpr ⟨rfl, rfl⟩⟩

theorem redim_untrapped {preserve : Bool} {item : RedimItem} {s t : Session} {out : Output Code}
    (h : Gives ((Leaf.redim preserve item).compile setup scope) s out t) {code : Code}
    (hcode : out.statements = [code]) :
    ∃ operations names u, code = .act (Leaf.redim preserve item).origin (some token) operations ∧
      Gives ((Leaf.redim preserve item).compile (setup.seeing token) scope.untrapped) s
        { statements := [.act (Leaf.redim preserve item).origin none operations],
          undeclared := names } u := by
  obtain ⟨rs, hrs, -, -, hcases⟩ := gives_redim h
  obtain ⟨u, hu⟩ := renderValues_untrapped htoken hrs s
  have hresolve : scope.untrapped.resolve (setup.seeing token).naming item.name =
      scope.resolve setup.naming item.name := rfl
  rw [Leaf.compile, compileRedim, hresolve]
  obtain ⟨⟨location, hres⟩, -, hcodes⟩ | ⟨hres, target, htarget, -, hcodes⟩ := hcases
  · obtain rfl := List.singleton_inj.mp (hcode.symm.trans hcodes)
    refine ⟨[.newArray none (rs.map (·.fragment scope)), .rejectAssignment item.name.content],
      rs.flatMap (·.undeclared setup.naming scope), u, ?_, ?_⟩
    · rw [htoken]
      rfl
    · rw [hres]
      exact gives_bind.mpr ⟨_, u, hu, gives_pure.mpr ⟨rfl, rfl⟩⟩
  · obtain rfl := List.singleton_inj.mp (hcode.symm.trans hcodes)
    obtain ⟨v, hv⟩ := renders_untrapped htoken htarget u
    refine ⟨_, rs.flatMap (·.undeclared setup.naming scope), v, by rw [htoken]; rfl, ?_⟩
    refine gives_bind.mpr ⟨_, u, hu, ?_⟩
    dsimp only
    split
    case h_1 location hconstant => exact absurd hconstant (hres location)
    case h_2 => exact gives_bind.mpr ⟨target, v, hv, gives_pure.mpr ⟨rfl, rfl⟩⟩

/-- Without the frame a leaf gives the same operations, in statements of their own. -/
theorem Leaf.compile_untrapped {leaf : Leaf} (hleaf : ∀ mode line, leaf ≠ .onError mode line)
    {s t : Session} {out : Output Code} (h : Gives (leaf.compile setup scope) s out t) {code : Code}
    (hcode : out.statements = [code]) :
    ∃ operations names u, code = .act leaf.origin (some token) operations ∧
      Gives (leaf.compile (setup.seeing token) scope.untrapped) s
        { statements := [.act leaf.origin none operations], undeclared := names } u := by
  cases leaf with
  | statement run =>
    obtain ⟨r, hr, -, rfl⟩ := gives_statement h
    obtain rfl := List.singleton_inj.mp hcode
    obtain ⟨u, hu⟩ := renders_untrapped htoken hr s
    refine ⟨[.perform (r.fragment scope)], r.undeclared setup.naming scope, u, ?_, ?_⟩
    · rw [htoken]
      rfl
    · exact gives_bind.mpr ⟨r, u, hu, gives_pure.mpr ⟨rfl, rfl⟩⟩
  | const item =>
    obtain ⟨target, value, htarget, hvalue, -, rfl⟩ := gives_const h
    obtain rfl := List.singleton_inj.mp hcode
    obtain ⟨u, hu⟩ := renders_untrapped htoken htarget s
    obtain ⟨v, hv⟩ := renders_untrapped htoken hvalue u
    refine ⟨[.assign (target.fragment scope) (value.fragment scope)],
      value.undeclared setup.naming scope, v, ?_, ?_⟩
    · rw [htoken]
      rfl
    · exact gives_bind.mpr ⟨target, u, hu, gives_bind.mpr ⟨value, v, hv, gives_pure.mpr ⟨rfl, rfl⟩⟩⟩
  | dim item =>
    obtain ⟨-, rfl, -⟩ | ⟨bounds, target, rs, hbounds, htarget, hrs, -, rfl⟩ := gives_dim h
    · cases hcode
    · obtain rfl := List.singleton_inj.mp hcode
      obtain ⟨u, hu⟩ := renders_untrapped htoken htarget s
      obtain ⟨v, hv⟩ := renderValues_untrapped htoken hrs u
      refine ⟨[.newArray (some (target.fragment scope)) (rs.map (·.fragment scope))],
        rs.flatMap (·.undeclared setup.naming scope), v, ?_, ?_⟩
      · rw [htoken]
        rfl
      · rw [Leaf.compile, compileDim, hbounds]
        exact gives_bind.mpr ⟨target, u, hu, gives_bind.mpr ⟨_, v, hv, gives_pure.mpr ⟨rfl, rfl⟩⟩⟩
  | redim preserve item => exact redim_untrapped htoken h hcode
  | onError mode line => exact absurd rfl (hleaf mode line)

end Untrapped

def handlerText (support token : Ident) (texts : List String) : String :=
  s!"{support.text}.HANDLEERROR({token.text}, () => \x7b " ++ " ".intercalate texts ++ " \x7d);"

/-- The code of the leaf is one line with the token: for an ON ERROR statement the call that starts
or stops trapping, and for any other leaf a call of the error handler around the statements that are
emitted for it without a frame. -/
def Leaf.GuardedAs (setup : Setup) (level : Scope) (token : Ident) (leaf : Leaf) (code : Code) :
    Prop :=
  ∃ scope, level.Within scope ∧
    match leaf with
    | .onError mode line => ∀ support depth, code.lines support depth =
        [⟨s!"{support.text}.{mode.operation}({token.text});", depth, some line⟩]
    | _ => ∃ s out t, Gives (leaf.compile (setup.seeing token) scope.untrapped) s out t ∧
        ∀ support depth, code.lines support depth = [⟨handlerText support token
          ((Code.allLines support depth out.statements).map (·.content)), depth, leaf.origin⟩]

theorem Leaf.EmittedAs.guarded {setup : Setup} {level : Scope} {token : Ident}
    (htoken : level.trapToken = some token) {leaf : Leaf} {code : Code}
    (h : leaf.EmittedAs setup level code) : leaf.GuardedAs setup level token code := by
  obtain ⟨scope, s, out, t, hscope, hgives, hcode⟩ := h
  have hscope' : scope.trapToken = some token := hscope.trapToken.trans htoken
  refine ⟨scope, hscope, ?_⟩
  by_cases honError : ∃ mode line, leaf = .onError mode line
  · obtain ⟨mode, line, rfl⟩ := honError
    obtain ⟨token', htoken', -, rfl⟩ := gives_onError hgives
    obtain rfl : token' = token := Option.some.inj (htoken'.symm.trans hscope')
    obtain rfl := List.singleton_inj.mp hcode
    exact fun support depth => rfl
  · have hother : ∀ mode line, leaf ≠ .onError mode line :=
      fun mode line he => honError ⟨mode, line, he⟩
    obtain ⟨operations, names, u, rfl, hplain⟩ := Leaf.compile_untrapped hscope' hother hgives hcode
    have hlines : ∀ support depth,
        Code.lines support depth (.act leaf.origin (some token) operations) =
          [⟨handlerText support token ((Code.allLines support depth
            [.act leaf.origin none operations]).map (·.content)), depth, leaf.origin⟩] := by
      intro support depth
      have hplain : (Code.allLines support depth [.act leaf.origin none operations]).map
          (·.content) = operations.map (Operation.text support) := by
        simp [Code.allLines, Code.lines, Operation.texts, Function.comp_def]
      rw [hplain]
      rfl
    cases leaf with
    | onError mode line => exact absurd rfl (hother mode line)
    | statement | const | dim | redim => exact ⟨s, _, u, hplain, hlines⟩

def Ident.IsToken (id : Ident) : Prop :=
  ∃ k, id = temporary "errOn" k

def Mark.Mentions (id : Ident) (m : Mark) : Prop :=
  m = .declare id ∨ ∃ certain, m = .use id certain

def Code.TokenFree (codes : List Code) : Prop :=
  ∀ id ∈ declaredBy (Code.trace codes), ¬ id.IsToken

section Tokens

variable {setup : Setup}

theorem not_isToken_temporary {stem : String} (hstem : IsStem stem) (hne : stem ≠ "errOn")
    (k : Nat) : ¬ (temporary stem k).IsToken := by
  rintro ⟨j, hj⟩
  exact hne (temporary_inj hstem (by decide) hj).1

theorem not_isToken_of_gives {naming : Naming} {stem : String} {scope : Scope} {s t : Session}
    {id : Ident} (hstem : IsStem stem) (hne : stem ≠ "errOn")
    (h : Gives (freshTemporary naming stem scope) s id t) : ¬ id.IsToken := by
  obtain ⟨k, -, rfl, -⟩ := gives_freshTemporary.mp h
  exact not_isToken_temporary hstem hne k

theorem not_isToken_loopFlag {kind : LoopKind} {body : List Block} {scope : Scope} {s t : Session}
    {flag : Option Ident} (h : Gives (loopFlag setup kind body scope) s flag t) :
    ∀ id ∈ flag.toList, ¬ id.IsToken := by
  obtain ⟨-, rfl, -⟩ | ⟨-, id, rfl, hid⟩ := gives_loopFlag h
  · simp
  · have hne : kind.flagStem ≠ "errOn" := by
      cases kind <;> decide
    simpa using not_isToken_of_gives (isStem_flagStem kind) hne hid

theorem tokenFree_append {codes more : List Code} (h : Code.TokenFree codes)
    (hmore : Code.TokenFree more) : Code.TokenFree (codes ++ more) := by
  intro id hid
  rw [Code.trace_append, declaredBy_append] at hid
  exact (List.mem_append.mp hid).elim (h id) (hmore id)

theorem tokenFree_of_bare {out : Output Code} (h : out.IsBare) : Code.TokenFree out.statements := by
  intro id hid
  rw [Code.declaredBy_trace _ h.2, h.1] at hid
  cases hid

theorem tokenFree_bind {name : Ident} (hname : ¬ name.IsToken) {codes : List Code}
    (h : Code.TokenFree codes) (origin : Nat) (value : Fragment) :
    Code.TokenFree (.bind origin name value :: codes) := by
  refine @tokenFree_append [_] _ ?_ h
  intro id hid
  rw [Code.trace_bind] at hid
  obtain rfl : id = name := by simpa using hid
  exact hname

theorem tokenFree_loop {flag : Option Ident} (hflag : ∀ id ∈ flag.toList, ¬ id.IsToken)
    {codes : List Code} (h : Code.TokenFree codes) (head : LoopHead) (scope : Scope) :
    Code.TokenFree (.loop head flag codes :: flagChecks scope) := by
  have hchecks : Code.TokenFree (flagChecks scope) := by
    intro id hid
    rw [Code.declaredBy_trace _ (Code.allMethods_flagChecks scope),
      Code.allTemporaries_flagChecks] at hid
    cases hid
  refine @tokenFree_append [_] _ ?_ hchecks
  intro id hid
  rw [Code.trace_loop] at hid
  have hid' : id ∈ flag.toList ∨ id ∈ declaredBy (Code.trace codes) := by
    cases flag <;> simpa using hid
  exact hid'.elim (hflag id) (h id)

theorem tokenFree_blocks {blocks : List Block} {scope : Scope}
    (h : ∀ b ∈ blocks, ∀ {s t out}, Gives (compileBlock setup scope b) s out t →
      Code.TokenFree out.statements)
    {s t : Session} {out : Output Code}
    (hgives : Gives (compileBlocks setup .all scope blocks) s out t) :
    Code.TokenFree out.statements :=
  output_blocks (P := fun out => Code.TokenFree out.statements) (fun _ hid => nomatch hid)
    tokenFree_append h hgives

theorem tokenFree_block {b : Block} {scope : Scope} {s t : Session} {out : Output Code}
    (hplace : scope.enclosure = .outermost → b.isRoutine = false)
    (h : Gives (compileBlock setup scope b) s out t) : Code.TokenFree out.statements := by
  induction b using Block.nested_induction generalizing scope s t out with
  | step b ih =>
    cases b with
    | doLoop test body =>
      obtain ⟨head, names, u, flag, v, inner, -, hflag, hinner, rfl⟩ := gives_doLoop h
      have hbody := tokenFree_blocks
        (fun c hc => ih c hc fun ho => absurd ho (insideLoop_ne_outermost scope _)) hinner
      exact tokenFree_loop (not_isToken_loopFlag hflag) hbody head scope
    | forLoop counter first last step body =>
      obtain ⟨head, lastName, _, stepName, _, flag, _, inner, -, hlast, hstep, hflag, hinner,
        rfl⟩ := gives_forLoop h
      have hbody := tokenFree_blocks
        (fun c hc => ih c hc fun ho => absurd ho (insideLoop_ne_outermost scope _)) hinner
      have hlast' := not_isToken_of_gives (by decide) (by decide) hlast
      have hstep' := not_isToken_of_gives (by decide) (by decide) hstep
      have hloop := tokenFree_loop (not_isToken_loopFlag hflag) hbody
      exact tokenFree_bind hlast' (tokenFree_bind hstep' (hloop _ scope) _ _) _ _
    | withTarget target body =>
      obtain ⟨line, r, name, u, inner, -, -, hname, hinner, rfl⟩ := gives_withTarget h
      have hbody := tokenFree_blocks
        (fun c hc => ih c hc fun ho => by simp [Scope.insideWith] at ho) hinner
      exact tokenFree_bind (not_isToken_of_gives (by decide) (by decide) hname) hbody _ _
    | routine kind name parameters body => cases hplace (gives_routine h).1
    | exit | consts | dim | redim | onError | statement =>
      exact tokenFree_of_bare (isBare_of_isPlain (isPlain_of_gives rfl h))

end Tokens

theorem Scoped.mentions {visible : List Ident} {marks : List Mark} (h : Scoped visible marks)
    {m : Mark} (hm : m ∈ marks) {id : Ident} (hid : m.Mentions id) :
    id ∈ visible ∨ id ∈ declaredBy marks := by
  rcases hid with rfl | ⟨certain, rfl⟩
  · exact .inr (mem_declaredBy.mpr hm)
  · obtain ⟨before, after, rfl⟩ := List.append_of_mem hm
    rcases h.declared rfl with ⟨hvisible, -⟩ | ⟨outer, inner, rfl, -⟩
    · exact .inl hvisible
    · exact .inr (by simp)

/-- The codes are what the block compiles to in the scope. -/
def CompiledIn (setup : Setup) (scope : Scope) (b : Block) (codes : List Code) : Prop :=
  ∃ s out t, Gives (compileBlock setup scope b) s out t ∧ codes = out.statements

/-- The code of a level with an ON ERROR statement: a frame with the token around the statements,
one level deeper, and then the routines. Every leaf in the frame is one line with the token, and no
other token is mentioned in the frame. -/
structure TrappedLevel (setup : Setup) (blocks : List Block) (token : Ident) (codes : List Code) :
    Prop where
  isToken : token.IsToken
  emitted : ∃ level parts methods, level.trapToken = some token ∧
    List.Forall₂ (CompiledIn setup level) (blocks.filter (!·.isRoutine)) parts ∧
    List.Forall₂ (CompiledIn setup level) (blocks.filter (·.isRoutine)) methods ∧
    (∀ support depth, Code.allLines support depth codes =
      ⟨s!"var {token.text} = {support.text}.GETERRORTRAPPINGTOKEN();", depth, none⟩ ::
        ⟨"try", depth, none⟩ :: ⟨"\x7b", depth, none⟩ ::
        Code.allLines support (depth + 1) parts.flatten ++
        [⟨"\x7d", depth, none⟩,
          ⟨s!"finally \x7b {support.text}.RELEASEERRORTRAPPINGTOKEN({token.text}); \x7d", depth,
            none⟩] ++
        Code.allLines support depth methods.flatten) ∧
    List.Forall₂ (Leaf.GuardedAs setup level token) (Block.allLeaves blocks)
      (Code.allLeaves parts.flatten) ∧
    ∀ m ∈ Code.trace parts.flatten, ∀ id, m.Mentions id → id.IsToken → id = token

/-- The code of a level without an ON ERROR statement: its blocks one after the other, and none of
its statements mentions a token. -/
structure UntrappedLevel (setup : Setup) (blocks : List Block) (codes : List Code) : Prop where
  emitted : ∃ level parts, level.trapToken = none ∧
    List.Forall₂ (CompiledIn setup level) blocks parts ∧ codes = parts.flatten
  tokenless : ∀ c ∈ codes, c.isMethod = false → ∀ m ∈ Code.trace [c], ∀ id, m.Mentions id →
    ¬ id.IsToken

def LevelTraps (setup : Setup) (blocks : List Block) (token : Option Ident) (codes : List Code) :
    Prop :=
  match token with
  | some token => Block.anyTrapsErrors blocks = true ∧ TrappedLevel setup blocks token codes
  | none => Block.anyTrapsErrors blocks = false ∧ UntrappedLevel setup blocks codes

/-- A routine and its method, with the token of the frame in the method if it has one. -/
inductive RoutineTraps (setup : Setup) : Block → Code × Option Ident → Prop where
  | mk {kind : RoutineKind} {name : Name} {parameters : List Parameter} {body : List Block}
      {locals undeclaredLocals : List Ident} {codes : List Code} {result : MethodResult}
      {token : Option Ident} : LevelTraps setup body token codes →
      RoutineTraps setup (.routine kind name parameters body)
        (.method (methodHead setup.naming kind name parameters) locals undeclaredLocals codes
          result, token)

section Levels

variable {setup : Setup}

theorem parts_blocks {scope : Scope} {blocks : List Block} {s t : Session} {out : Output Code}
    (h : Gives (compileBlocks setup .all scope blocks) s out t) :
    ∃ parts, List.Forall₂ (CompiledIn setup scope) blocks parts ∧
      out.statements = parts.flatten := by
  induction blocks generalizing s out with
  | nil =>
    obtain ⟨rfl, -⟩ := gives_pure.mp h
    exact ⟨[], .nil, rfl⟩
  | cons b rest ih =>
    obtain ⟨here, u, later, hhere, hlater, rfl⟩ := gives_compileBlocks_cons.mp h
    obtain ⟨parts, hparts, hcodes⟩ := ih hlater
    refine ⟨here.statements :: parts, .cons ⟨s, here, u, hhere, rfl⟩ hparts, ?_⟩
    rw [Output.statements_append, List.flatten_cons, hcodes]

theorem isMethod_of_routine {scope : Scope} {b : Block} (hb : b.isRoutine = true) {s t : Session}
    {out : Output Code} (h : Gives (compileBlock setup scope b) s out t) :
    ∀ c ∈ out.statements, c.isMethod = true := by
  cases b <;> try cases hb
  obtain ⟨-, -, ⟨-, -, rfl⟩ | ⟨-, slot, u, level, v, -, -, hmethod⟩⟩ := gives_routine h
  · simp [Output.ofStatements, emptyMethod, Code.isMethod]
  · obtain ⟨-, rfl⟩ := gives_method hmethod
    simp [Output.ofStatements, Code.isMethod]

/-- Outside of methods a statement mentions no token but that of the scope. -/
theorem mentions_block {scope : Scope} {b : Block} (hb : b.isRoutine = false) {s t : Session}
    {out : Output Code} (h : Gives (compileBlock setup scope b) s out t) {m : Mark}
    (hm : m ∈ Code.trace out.statements) {id : Ident} (hid : m.Mentions id) (htoken : id.IsToken) :
    id ∈ scope.inUse := by
  refine ((usesInScope_block b h).mentions hm hid).resolve_right fun hdeclared => ?_
  exact tokenFree_block (fun _ => hb) h id hdeclared htoken

theorem mem_trace {m : Mark} {codes : List Code} :
    m ∈ Code.trace codes ↔ ∃ c ∈ codes, m ∈ Code.trace [c] := by
  induction codes with
  | nil => simp
  | cons c rest ih => rw [Code.trace_cons, List.mem_append, ih, List.exists_mem_cons_iff]

theorem mentions_parts {scope : Scope} {blocks : List Block} {parts : List (List Code)}
    (h : List.Forall₂ (CompiledIn setup scope) blocks parts) {c : Code} (hc : c ∈ parts.flatten)
    (hmethod : c.isMethod = false) {m : Mark} (hm : m ∈ Code.trace [c]) {id : Ident}
    (hid : m.Mentions id) (htoken : id.IsToken) : id ∈ scope.inUse := by
  induction h with
  | nil => cases hc
  | @cons b part rest parts hpart _ ih =>
    rcases List.mem_append.mp hc with hc | hc
    · obtain ⟨s, out, t, hout, rfl⟩ := hpart
      have hb : b.isRoutine = false := by
        by_contra hb
        have htrue := isMethod_of_routine (by simpa using hb) hout c hc
        rw [hmethod] at htrue
        cases htrue
      exact mentions_block hb hout (mem_trace.mpr ⟨c, hc, hm⟩) hid htoken
    · exact ih hc

theorem methodFree_parts {scope : Scope} {blocks : List Block} {parts : List (List Code)}
    (h : List.Forall₂ (CompiledIn setup scope) blocks parts)
    (hblocks : ∀ b ∈ blocks, b.isRoutine = false) : ∀ c ∈ parts.flatten, c.isMethod = false := by
  induction h with
  | nil => exact fun c hc => nomatch hc
  | @cons b part rest parts hpart _ ih =>
    obtain ⟨s, out, t, hout, rfl⟩ := hpart
    intro c hc
    rcases List.mem_append.mp hc with hc | hc
    · exact methodFree_of_gives (fun _ => hblocks b List.mem_cons_self) hout c hc
    · exact ih (fun b hb => hblocks b (List.mem_cons_of_mem _ hb)) c hc

/-- A level mentions no token but its own. -/
theorem traps_level {blocks : List Block} {scope : Scope} {hoisted : Hoisted}
    {token : Option Ident} {s u v t : Session} {body routines : Output Code}
    (htrap : scope.trapToken = none) (hinUse : ∀ id ∈ scope.inUse, ¬ id.IsToken)
    (htoken : Gives (levelToken setup blocks (scope.declare hoisted)) s token u)
    (hbody : Gives (compileBlocks setup .all ((scope.declare hoisted).trappedBy token)
      (framed blocks)) u body v)
    (hroutines : Gives (compileBlocks setup .all ((scope.declare hoisted).trappedBy token)
      (unframed blocks)) v routines t) :
    LevelTraps setup blocks token (Code.frame token body.statements ++ routines.statements) := by
  obtain ⟨parts, hparts, hcodes⟩ := parts_blocks hbody
  obtain ⟨hno, rfl, rfl⟩ | ⟨hyes, token, rfl, hfresh⟩ := gives_levelToken htoken
  · have hframed : framed blocks = blocks := by simp [framed, hno]
    have hunframed : unframed blocks = [] := by simp [unframed, hno]
    rw [hframed] at hparts
    rw [hunframed] at hroutines
    obtain ⟨rfl, -⟩ := gives_pure.mp hroutines
    rw [Code.frame, hcodes, List.append_nil]
    refine ⟨hno, ⟨scope.declare hoisted, parts, htrap, hparts, rfl⟩, ?_⟩
    intro c hc hmethod m hm id hid htoken
    exact hinUse id (mentions_parts hparts hc hmethod hm hid htoken) htoken
  · have hframed : framed blocks = blocks.filter (!·.isRoutine) := by simp [framed, hyes]
    have hunframed : unframed blocks = blocks.filter (·.isRoutine) := by simp [unframed, hyes]
    rw [hframed] at hparts hbody
    rw [hunframed] at hroutines
    obtain ⟨methods, hmethods, hmethodCodes⟩ := parts_blocks hroutines
    have htoken' : token.IsToken := by
      obtain ⟨k, -, hk, -⟩ := gives_freshTemporary.mp hfresh
      exact ⟨k, hk⟩
    have hleaves := leaves_blocks (fun b _ => leaves_block .refl) hbody
    rw [allLeaves_filter, hcodes] at hleaves
    refine ⟨hyes, htoken', _, parts, methods, rfl, hparts, hmethods, ?_, ?_, ?_⟩
    · intro support depth
      rw [Code.frame, List.singleton_append, Code.allLines, Code.lines, hcodes, hmethodCodes]
    · exact hleaves.imp fun _ _ hleaf => hleaf.guarded rfl
    · intro m hm id hid hisToken
      obtain ⟨c, hc, hm⟩ := mem_trace.mp hm
      have hfree := methodFree_parts hparts (fun b hb => by simpa using (List.mem_filter.mp hb).2)
      have hused := mentions_parts hparts hc (hfree c hc) hm hid hisToken
      rcases List.mem_append.mp (inUse_trappedBy _ _ hused) with hown | hother
      · simpa using hown
      · exact absurd hisToken (hinUse id hother)

theorem traps_routine {scope : Scope} {kind : RoutineKind} {name : Name}
    {parameters : List Parameter} {body : List Block} {s t : Session} {out : Output Code}
    (h : Gives (compileBlock setup scope (.routine kind name parameters body)) s out t) :
    ∃ c token, out.statements = [c] ∧ c.isMethod = true ∧
      RoutineTraps setup (.routine kind name parameters body) (c, token) ∧
      AllocatedBetween s.nextTemporary t.nextTemporary token.toList := by
  obtain ⟨-, -, ⟨rfl, -, rfl⟩ | ⟨-, slot, u, level, v, hslot, hlevel, hmethod⟩⟩ := gives_routine h
  · have hempty : LevelTraps setup [] none [] :=
      ⟨rfl, ⟨{}, [], rfl, .nil, rfl⟩, fun c hc => nomatch hc⟩
    exact ⟨_, none, rfl, rfl, .mk hempty, allocated_nil⟩
  · obtain ⟨rfl, rfl⟩ := gives_method hmethod
    obtain ⟨hoisted, token, w, inner, x, routines, -, htoken, hinner, hroutines, rfl⟩ :=
      gives_level hlevel
    have hslot' : ∀ id ∈ (scope.insideRoutine kind name slot parameters).inUse, ¬ id.IsToken := by
      rw [inUse_insideRoutine]
      obtain ⟨-, rfl, -⟩ | ⟨-, id, rfl, hid⟩ := gives_returnSlot hslot
      · simp
      · simpa using not_isToken_of_gives (by decide) (by decide) hid
    have htraps := traps_level rfl hslot' htoken hinner hroutines
    have hsu := ((quiet_returnSlot setup kind scope).growing.of_gives hslot).nextTemporary
    have hwx := ((growing_blocks setup _ _).of_gives hinner).nextTemporary
    have hxv := ((growing_blocks setup _ _).of_gives hroutines).nextTemporary
    have hfresh := (freshNames_levelToken htoken).allocated.widen hsu (Nat.le_trans hwx hxv)
    refine ⟨_, token, rfl, rfl, .mk htraps, ?_⟩
    rw [Session.foldl_reported_nextTemporary]
    exact hfresh

/-- The routines of a list of blocks and their methods, with tokens allocated one after the
other. -/
theorem traps_routines {scope : Scope} {blocks : List Block} {s t : Session} {out : Output Code}
    (h : Gives (compileBlocks setup .all scope blocks) s out t) :
    ∃ methods : List (Code × Option Ident),
      methods.map Prod.fst = out.statements.filter (·.isMethod) ∧
      List.Forall₂ (RoutineTraps setup) (blocks.filter (·.isRoutine)) methods ∧
      AllocatedBetween s.nextTemporary t.nextTemporary (methods.flatMap (·.2.toList)) := by
  induction blocks generalizing s out with
  | nil =>
    obtain ⟨rfl, rfl⟩ := gives_pure.mp h
    exact ⟨[], rfl, .nil, allocated_nil⟩
  | cons b rest ih =>
    obtain ⟨here, u, later, hhere, hlater, rfl⟩ := gives_compileBlocks_cons.mp h
    obtain ⟨methods, hfilter, hmethods, hfresh⟩ := ih hlater
    have hsu := ((growing_block setup scope b).of_gives hhere).nextTemporary
    have hut := ((growing_blocks setup scope rest).of_gives hlater).nextTemporary
    rw [Output.statements_append, List.filter_append, ← hfilter]
    by_cases hb : b.isRoutine = true
    · cases b <;> try cases hb
      obtain ⟨c, token, hcode, hmethod, htraps, htoken⟩ := traps_routine hhere
      refine ⟨(c, token) :: methods, ?_, ?_, ?_⟩
      · rw [hcode, List.filter_cons_of_pos hmethod]
        rfl
      · rw [List.filter_cons_of_pos rfl]
        exact .cons htraps hmethods
      · rw [List.flatMap_cons]
        exact htoken.append hfresh hsu hut
    · have hfree := methodFree_of_gives (fun _ => by simpa using hb) hhere
      have hnone : here.statements.filter (·.isMethod) = [] :=
        List.filter_eq_nil_iff.mpr fun c hc => by simp [hfree c hc]
      refine ⟨methods, ?_, ?_, hfresh.widen hsu (Nat.le_refl _)⟩
      · rw [hnone, List.nil_append]
      · rwa [List.filter_cons_of_neg hb]

end Levels

/-- In a program that compiles, the outermost level and every routine keep error trapping to
themselves: each has a frame of its own exactly if it has an ON ERROR statement, guards its
statements with the token of that frame, and mentions no other token. No two levels have the same
token. -/
theorem error_tokens_stay_in_level {renderer : Renderer} {settings : Settings}
    {program : List Block} {p : Program} {session : Session}
    (h : traceProgram renderer settings program = (.ok p, session)) :
    ∃ codes token methods, p.lines = Code.allLines settings.names.support 0 codes ∧
      List.Forall₂ Line.ShowsAll p.lines (Code.allMarks codes) ∧
      LevelTraps (.caseless renderer) program token codes ∧
      methods.map Prod.fst = codes.filter (·.isMethod) ∧
      List.Forall₂ (RoutineTraps (.caseless renderer)) (program.filter (·.isRoutine)) methods ∧
      (token.toList ++ methods.flatMap (·.2.toList)).Nodup := by
  obtain ⟨out, hout, rfl⟩ := gives_of_traceProgram h
  obtain ⟨level, u, hlevel, -, rfl⟩ := gives_outermost hout
  obtain ⟨hoisted, token, v, body, w, routines, -, htoken, hbody, hroutines, rfl⟩ :=
    gives_level hlevel
  obtain ⟨bodyMethods, hbodyFilter, hbodyMethods, hbodyFresh⟩ := traps_routines hbody
  obtain ⟨methods, hfilter, hmethods, hfresh⟩ := traps_routines hroutines
  have hvw := ((growing_blocks _ _ _).of_gives hbody).nextTemporary
  have hwu := ((growing_blocks _ _ _).of_gives hroutines).nextTemporary
  have hsv := ((quiet_levelToken _ program _).growing.of_gives htoken).nextTemporary
  have hframe : (Code.frame token body.statements).filter (·.isMethod) =
      bodyMethods.map Prod.fst := by
    obtain ⟨-, rfl, -⟩ | ⟨hyes, token, rfl, -⟩ := gives_levelToken htoken
    · exact hbodyFilter.symm
    · -- No routine is inside the frame.
      have hnone : (framed program).filter (·.isRoutine) = [] := by
        simp [framed, hyes, List.filter_filter]
      rw [hnone] at hbodyMethods
      cases hbodyMethods
      rfl
  refine ⟨Code.frame token body.statements ++ routines.statements, token, bodyMethods ++ methods,
    rfl, Code.allLines_show _ 0 _, ?_, ?_, ?_, ?_⟩
  · have hnothing : (Scope.outermost settings.environmentNames).inUse = [] := rfl
    exact traps_level rfl (by simp [hnothing]) htoken hbody hroutines
  · rw [List.map_append, List.filter_append, hframe, hfilter]
  · rw [← filter_isRoutine_level, List.filter_append]
    exact List.rel_append hbodyMethods hmethods
  · rw [List.flatMap_append]
    have hall := hbodyFresh.append hfresh hvw hwu
    exact ((freshNames_levelToken htoken).allocated.append hall hsv (Nat.le_trans hvw hwu)).nodup

theorem error_tokens_stay_in_level_sub_with_own_frame :
    let renderer := plainRenderer caselessNaming
    let program : List Block := [.onError .start 0,
      .routine .sub ⟨"s", 1⟩ [] [.onError .start 2, .statement [Token.ofText "y" 3]],
      .routine .sub ⟨"t", 5⟩ [] [.statement [Token.ofText "z" 6]],
      .doLoop none [.redim false [⟨⟨"a", 9⟩, [[Token.ofText "1" 9]]⟩]]]
    ∃ p session codes token methods, traceProgram renderer {} program = (.ok p, session) ∧
      p.lines = Code.allLines ⟨"_"⟩ 0 codes ∧
      LevelTraps (.caseless renderer) program token codes ∧
      methods.map Prod.fst = codes.filter (·.isMethod) ∧
      List.Forall₂ (RoutineTraps (.caseless renderer)) (program.filter (·.isRoutine)) methods ∧
      (token.toList ++ methods.flatMap (·.2.toList)).Nodup := by
  intro renderer program
  have hok : (compileProgram renderer {} program).isOk = true := by decide +kernel
  obtain ⟨p, session, h⟩ := exists_traceProgram hok
  obtain ⟨codes, token, methods, hlines, -, hlevel⟩ := error_tokens_stay_in_level h
  exact ⟨p, session, codes, token, methods, h, hlines, hlevel⟩

end VbsCompiler
