import Mathlib.Data.List.Forall2
import VbsCompiler.Program
import VbsCompiler.Proofs.Outcome

/-! Successful compilations taken apart, construct by construct. Blocks are nested in blocks, so
statements about all blocks go by induction on the nesting. -/

namespace VbsCompiler

open CompileM

namespace Block

def children : Block → List Block
  | .doLoop _ body => body
  | .forLoop _ _ _ _ body => body
  | .withTarget _ body => body
  | .routine _ _ _ body => body
  | _ => []

theorem sizeOf_lt_of_mem_children {b c : Block} (h : c ∈ b.children) : sizeOf c < sizeOf b := by
  cases b <;> simp only [children, List.not_mem_nil] at h <;>
    have := List.sizeOf_lt_of_mem h <;> simp <;> omega

/-- What holds of a block whenever it holds of the blocks directly inside holds of all blocks. -/
@[elab_as_elim]
theorem nested_induction {motive : Block → Prop}
    (step : ∀ b, (∀ c ∈ b.children, motive c) → motive b) (b : Block) : motive b :=
  step b fun c _ => nested_induction step c
termination_by sizeOf b
decreasing_by exact sizeOf_lt_of_mem_children ‹_›

/-- The blocks of a level that stand inside its error-trapping frame, if it has one. -/
def framed (blocks : List Block) : List Block :=
  if anyTrapsErrors blocks then blocks.filter (!·.isRoutine) else blocks

def unframed (blocks : List Block) : List Block :=
  if anyTrapsErrors blocks then blocks.filter (·.isRoutine) else []

theorem mem_of_mem_framed {b : Block} {blocks : List Block} (h : b ∈ framed blocks) :
    b ∈ blocks := by
  unfold framed at h
  split at h
  · exact List.mem_of_mem_filter h
  · exact h

theorem mem_of_mem_unframed {b : Block} {blocks : List Block} (h : b ∈ unframed blocks) :
    b ∈ blocks := by
  unfold unframed at h
  split at h
  · exact List.mem_of_mem_filter h
  · exact absurd h List.not_mem_nil

theorem forall_framed_and_unframed {p : Block → Prop} (blocks : List Block) :
    ((∀ b ∈ framed blocks, p b) ∧ ∀ b ∈ unframed blocks, p b) ↔ ∀ b ∈ blocks, p b := by
  constructor
  · rintro ⟨hframed, hunframed⟩ b hb
    unfold framed at hframed
    unfold unframed at hunframed
    by_cases ht : anyTrapsErrors blocks = true
    · rw [if_pos ht] at hframed hunframed
      by_cases hr : b.isRoutine = true
      · exact hunframed b (List.mem_filter.mpr ⟨hb, hr⟩)
      · exact hframed b (List.mem_filter.mpr ⟨hb, by simpa using hr⟩)
    · rw [if_neg ht] at hframed
      exact hframed b hb
  · intro h
    exact ⟨fun b hb => h b (mem_of_mem_framed hb), fun b hb => h b (mem_of_mem_unframed hb)⟩

end Block

def Code.frame (token : Option Ident) (codes : List Code) : List Code :=
  match token with
  | none => codes
  | some token => [.trapped token codes]

theorem Code.allLines_append (support : Ident) (depth : Nat) (codes more : List Code) :
    Code.allLines support depth (codes ++ more) =
      Code.allLines support depth codes ++ Code.allLines support depth more := by
  induction codes with
  | nil => rfl
  | cons c rest ih => rw [List.cons_append, Code.allLines, Code.allLines, ih, List.append_assoc]

def Scope.trappedBy (s : Scope) (token : Option Ident) : Scope :=
  match token with
  | none => s
  | some token => s.insideTrap token

def levelToken (setup : Setup) (blocks : List Block) (scope : Scope) : CompileM (Option Ident) :=
  if Block.anyTrapsErrors blocks then do
    let token ← freshTemporary setup.naming "errOn" scope
    return some token
  else return none

namespace Output

@[simp] theorem empty_append {α : Type} (a : Output α) : ({} : Output α) ++ a = a := rfl

theorem append_empty {α : Type} (a : Output α) : a ++ ({} : Output α) = a := by
  change ({ statements := _, declarations := _, undeclared := _ } : Output α) = a
  simp

end Output

theorem compileBlocks_eq_filter (setup : Setup) (selection : Selection) (scope : Scope)
    (blocks : List Block) :
    compileBlocks setup selection scope blocks =
      compileBlocks setup .all scope (blocks.filter selection.admits) := by
  induction blocks with
  | nil => rfl
  | cons b rest ih =>
    by_cases hb : selection.admits b = true
    · rw [List.filter_cons_of_pos hb, compileBlocks, compileBlocks, ih, if_pos hb]
      rfl
    · rw [List.filter_cons_of_neg hb, compileBlocks, ih, if_neg hb, pure_bind]
      exact bind_pure _

theorem compileLevel_eq (setup : Setup) (blocks : List Block) (scope : Scope) :
    (compileLevel setup blocks scope fun selection s => compileBlocks setup selection s blocks) =
      (do
        let hoisted ← ofExcept (hoist setup.naming scope blocks)
        let token ← levelToken setup blocks (scope.declare hoisted)
        let inner := (scope.declare hoisted).trappedBy token
        let body ← compileBlocks setup .all inner (Block.framed blocks)
        let routines ← compileBlocks setup .all inner (Block.unframed blocks)
        return (body.mapStatements (Code.frame token) ++ routines).addDeclarations
          hoisted.stored) := by
  have hs : Selection.statements.admits = fun b => !b.isRoutine := rfl
  have hr : Selection.routines.admits = fun b => b.isRoutine := rfl
  by_cases ht : Block.anyTrapsErrors blocks = true
  · simp only [compileLevel, levelToken, Block.framed, Block.unframed, ht, if_true, bind_assoc,
      pure_bind, compileBlocks_eq_filter setup .statements, compileBlocks_eq_filter setup .routines,
      hs, hr]
    rfl
  · simp only [compileLevel, levelToken, Block.framed, Block.unframed, ht, if_false, pure_bind,
      compileBlocks, Output.append_empty, Bool.false_eq_true]
    rfl

theorem gives_compileBlocks_cons {setup : Setup} {scope : Scope} {b : Block} {rest : List Block}
    {s u : Session} {out : Output Code} :
    Gives (compileBlocks setup .all scope (b :: rest)) s out u ↔
      ∃ here t later, Gives (compileBlock setup scope b) s here t ∧
        Gives (compileBlocks setup .all scope rest) t later u ∧ out = here ++ later := by
  simp only [compileBlocks, Selection.admits, if_true, gives_bind, gives_pure]
  constructor
  · rintro ⟨here, t, hb, later, v, hrest, rfl, rfl⟩
    exact ⟨here, t, later, hb, hrest, rfl⟩
  · rintro ⟨here, t, later, hb, hrest, rfl⟩
    exact ⟨here, t, hb, later, u, hrest, rfl, rfl⟩

theorem gives_compileItems_cons {α : Type} {f : α → CompileM (Output Code)} {a : α} {rest : List α}
    {s u : Session} {out : Output Code} :
    Gives (compileItems f (a :: rest)) s out u ↔
      ∃ here t later, Gives (f a) s here t ∧ Gives (compileItems f rest) t later u ∧
        out = here ++ later := by
  simp only [compileItems, gives_bind, gives_pure]
  constructor
  · rintro ⟨here, t, ha, later, v, hrest, rfl, rfl⟩
    exact ⟨here, t, later, ha, hrest, rfl⟩
  · rintro ⟨here, t, later, ha, hrest, rfl⟩
    exact ⟨here, t, ha, later, u, hrest, rfl, rfl⟩

theorem gives_of_mem_blocks {setup : Setup} {scope : Scope} {blocks : List Block} {s t : Session}
    {out : Output Code} (h : Gives (compileBlocks setup .all scope blocks) s out t) {b : Block}
    (hb : b ∈ blocks) : ∃ s out t, Gives (compileBlock setup scope b) s out t := by
  induction blocks generalizing s out with
  | nil => cases hb
  | cons c rest ih =>
    obtain ⟨here, u, later, hhere, hlater, rfl⟩ := gives_compileBlocks_cons.mp h
    rcases List.mem_cons.mp hb with rfl | hrest
    · exact ⟨s, here, u, hhere⟩
    · exact ih hlater hrest

/-- What holds of nothing and of two outputs joined holds of the output of blocks whenever it holds
of the output of each. -/
theorem output_blocks {P : Output Code → Prop} (hempty : P {})
    (happend : ∀ {a b}, P a → P b → P (a ++ b)) {setup : Setup} {scope : Scope}
    {blocks : List Block}
    (h : ∀ b ∈ blocks, ∀ {s t out}, Gives (compileBlock setup scope b) s out t → P out)
    {s t : Session} {out : Output Code}
    (hgives : Gives (compileBlocks setup .all scope blocks) s out t) : P out := by
  induction blocks generalizing s out with
  | nil =>
    obtain ⟨rfl, -⟩ := gives_pure.mp hgives
    exact hempty
  | cons b rest ih =>
    obtain ⟨here, u, later, hhere, hlater, rfl⟩ := gives_compileBlocks_cons.mp hgives
    exact happend (h b List.mem_cons_self hhere)
      (ih (fun c hc => h c (List.mem_cons_of_mem _ hc)) hlater)

theorem output_items {P : Output Code → Prop} (hempty : P {})
    (happend : ∀ {a b}, P a → P b → P (a ++ b)) {α : Type} {f : α → CompileM (Output Code)}
    (h : ∀ {a s t out}, Gives (f a) s out t → P out) {items : List α} {s t : Session}
    {out : Output Code} (hitems : Gives (compileItems f items) s out t) : P out := by
  induction items generalizing s out with
  | nil =>
    obtain ⟨rfl, -⟩ := gives_pure.mp hitems
    exact hempty
  | cons a rest ih =>
    obtain ⟨here, u, later, hhere, hlater, rfl⟩ := gives_compileItems_cons.mp hitems
    exact happend (h hhere) (ih hlater)

theorem gives_statement {setup : Setup} {scope : Scope} {run : TokenRun} {s t : Session}
    {out : Output Code} (h : Gives (compileStatement setup run scope) s out t) :
    ∃ r, setup.renderer .statement run scope = .ok r ∧
      t = s.called [⟨.statement, run, scope, .ok r⟩] ∧
      out = { statements := [.act run.firstLine scope.trapToken [.perform (r.fragment scope)]]
              undeclared := r.undeclared setup.naming scope } := by
  simp only [compileStatement, gives_bind, gives_render, gives_pure] at h
  obtain ⟨r, t, ⟨hr, rfl⟩, rfl, rfl⟩ := h
  exact ⟨r, hr, rfl, rfl⟩

theorem gives_renderValues {setup : Setup} {scope : Scope} {runs : List TokenRun} {s t : Session}
    {fragments : List Fragment} {names : List Name}
    (h : Gives (renderValues setup scope runs) s (fragments, names) t) :
    ∃ rs : List Rendering,
      List.Forall₂ (fun run r => setup.renderer .value run scope = .ok r) runs rs ∧
      t = s.called (List.zipWith (fun run r => ⟨.value, run, scope, .ok r⟩) runs rs) ∧
      fragments = rs.map (·.fragment scope) ∧
      names = rs.flatMap (·.undeclared setup.naming scope) := by
  induction runs generalizing s fragments names with
  | nil =>
    simp only [renderValues, gives_pure, Prod.mk.injEq] at h
    obtain ⟨⟨rfl, rfl⟩, rfl⟩ := h
    exact ⟨[], .nil, by simp, rfl, rfl⟩
  | cons run rest ih =>
    simp only [renderValues, gives_bind, gives_render, gives_pure, Prod.exists, Prod.mk.injEq] at h
    obtain ⟨r, t, ⟨hr, rfl⟩, fragments', names', u, hrest, ⟨rfl, rfl⟩, rfl⟩ := h
    obtain ⟨rs, hrs, rfl, rfl, rfl⟩ := ih hrest
    exact ⟨r :: rs, .cons hr hrs, by simp, rfl, rfl⟩

theorem gives_const {setup : Setup} {scope : Scope} {item : ConstItem} {s t : Session}
    {out : Output Code} (h : Gives (compileConst setup item scope) s out t) :
    ∃ target value, setup.renderer .reference item.name.run scope = .ok target ∧
      setup.renderer .value item.value scope = .ok value ∧
      t = s.called [⟨.reference, item.name.run, scope, .ok target⟩,
        ⟨.value, item.value, scope, .ok value⟩] ∧
      out = { statements := [.act (some item.name.line) scope.trapToken
                [.assign (target.fragment scope) (value.fragment scope)]]
              undeclared := value.undeclared setup.naming scope } := by
  simp only [compileConst, gives_bind, gives_render, gives_pure] at h
  obtain ⟨target, t, ⟨htarget, rfl⟩, value, u, ⟨hvalue, rfl⟩, rfl, rfl⟩ := h
  exact ⟨target, value, htarget, hvalue, by simp, rfl⟩

theorem gives_dim {setup : Setup} {scope : Scope} {item : DimItem} {s t : Session}
    {out : Output Code} (h : Gives (compileDim setup item scope) s out t) :
    (item.bounds = none ∧ out = {} ∧ t = s) ∨
    ∃ bounds target rs, item.bounds = some bounds ∧
      setup.renderer .reference item.name.run scope = .ok target ∧
      List.Forall₂ (fun run r => setup.renderer .value run scope = .ok r) bounds rs ∧
      t = s.called (⟨.reference, item.name.run, scope, .ok target⟩ ::
        List.zipWith (fun run r => ⟨.value, run, scope, .ok r⟩) bounds rs) ∧
      out = { statements := [.act (some item.name.line) scope.trapToken
                [.newArray (some (target.fragment scope)) (rs.map (·.fragment scope))]]
              undeclared := rs.flatMap (·.undeclared setup.naming scope) } := by
  unfold compileDim at h
  split at h
  case h_1 hb =>
    obtain ⟨rfl, rfl⟩ := gives_pure.mp h
    exact .inl ⟨hb, rfl, rfl⟩
  case h_2 bounds hb =>
    simp only [gives_bind, gives_render, gives_pure, Prod.exists] at h
    obtain ⟨target, t, ⟨htarget, rfl⟩, fragments, names, u, hvalues, rfl, rfl⟩ := h
    obtain ⟨rs, hrs, rfl, rfl, rfl⟩ := gives_renderValues hvalues
    exact .inr ⟨bounds, target, rs, hb, htarget, hrs, by simp, rfl⟩

theorem gives_redim {setup : Setup} {scope : Scope} {preserve : Bool} {item : RedimItem}
    {s t : Session} {out : Output Code}
    (h : Gives (compileRedim setup preserve item scope) s out t) :
    ∃ rs, List.Forall₂ (fun run r => setup.renderer .value run scope = .ok r) item.bounds rs ∧
      out.declarations = [] ∧ out.undeclared = rs.flatMap (·.undeclared setup.naming scope) ∧
      (((∃ location, scope.resolve setup.naming item.name = some (.constant, location)) ∧
          t = s.called (List.zipWith (fun run r => ⟨.value, run, scope, .ok r⟩) item.bounds rs) ∧
          out.statements = [.act (some item.name.line) scope.trapToken
            [.newArray none (rs.map (·.fragment scope)), .rejectAssignment item.name.content]]) ∨
        ((∀ location, scope.resolve setup.naming item.name ≠ some (.constant, location)) ∧
          ∃ target, setup.renderer .reference item.name.run scope = .ok target ∧
          t = s.called (List.zipWith (fun run r => ⟨.value, run, scope, .ok r⟩) item.bounds rs ++
            [⟨.reference, item.name.run, scope, .ok target⟩]) ∧
          out.statements = [.act (some item.name.line) scope.trapToken
            [if preserve then .resizeArray (target.fragment scope) (rs.map (·.fragment scope))
              else .newArray (some (target.fragment scope)) (rs.map (·.fragment scope))]])) := by
  simp only [compileRedim, gives_bind, Prod.exists] at h
  obtain ⟨fragments, names, u, hvalues, h⟩ := h
  obtain ⟨rs, hrs, rfl, rfl, rfl⟩ := gives_renderValues hvalues
  split at h
  case h_1 location hres =>
    simp only [pure_bind, gives_pure] at h
    obtain ⟨rfl, rfl⟩ := h
    exact ⟨rs, hrs, rfl, rfl, .inl ⟨⟨location, hres⟩, rfl, rfl⟩⟩
  case h_2 hres =>
    simp only [pure_bind, gives_bind, gives_render, gives_pure] at h
    obtain ⟨target, v, ⟨htarget, rfl⟩, rfl, rfl⟩ := h
    exact ⟨rs, hrs, rfl, rfl, .inr ⟨hres, target, htarget, by simp, rfl⟩⟩

theorem gives_onError {mode : TrapMode} {line : Nat} {scope : Scope} {s t : Session}
    {out : Output Code} (h : Gives (compileOnError mode line scope) s out t) :
    ∃ token, scope.trapToken = some token ∧ t = s ∧
      out = .ofStatements [.trapping line mode token] := by
  unfold compileOnError at h
  split at h
  case h_1 token htoken =>
    obtain ⟨rfl, rfl⟩ := gives_pure.mp h
    exact ⟨token, htoken, rfl, rfl⟩
  case h_2 => exact absurd h not_gives_throw

/-- An exit from a loop breaks if that loop is the nearest, and else raises its flag before. -/
theorem compileLoopExit_ok {kind : LoopKind} {line : Nat} {loops : List LoopFrame}
    {codes : List Code} (h : compileLoopExit kind line loops = .ok codes) :
    ∃ target, loops.find? (·.kind = kind) = some target ∧
      ((loops.head? = some target ∧ codes = [.leave line]) ∨
        ∃ f, target.flag = some f ∧ codes = [.raise line f, .leave line]) := by
  cases loops with
  | nil => cases h
  | cons nearest outer =>
    by_cases hk : nearest.kind = kind
    · simp only [compileLoopExit, hk, if_true, Except.ok.injEq] at h
      exact ⟨nearest, by simp [hk], .inl ⟨rfl, h.symm⟩⟩
    · simp only [compileLoopExit, hk, if_false] at h
      split at h
      case h_1 => cases h
      case h_2 target htarget =>
        split at h
        case h_1 f hf =>
          refine ⟨target, ?_, .inr ⟨f, hf, (Except.ok.inj h).symm⟩⟩
          rw [List.find?_cons_of_neg (by simpa using hk)]
          exact htarget
        case h_2 => cases h

theorem gives_exit {kind : ExitKind} {line : Nat} {scope : Scope} {s t : Session}
    {out : Output Code} (h : Gives (compileExit kind line scope) s out t) :
    t = s ∧
    ((∃ loopKind codes, kind = .loop loopKind ∧
        compileLoopExit loopKind line scope.loops = .ok codes ∧ out = .ofStatements codes) ∨
      ((∀ loopKind, kind ≠ .loop loopKind) ∧ scope.owner.allowsExit kind = true ∧
        out = .ofStatements [.giveBack line scope.returnSlot])) := by
  cases kind with
  | loop loopKind =>
    simp only [compileExit, gives_bind, gives_ofExcept, gives_pure] at h
    obtain ⟨codes, t, ⟨hcodes, rfl⟩, rfl, rfl⟩ := h
    exact ⟨rfl, .inl ⟨loopKind, codes, rfl, hcodes, rfl⟩⟩
  | function | sub | property =>
    simp only [compileExit] at h
    split at h
    case isTrue hallowed =>
      obtain ⟨rfl, rfl⟩ := gives_pure.mp h
      exact ⟨rfl, .inr ⟨by simp, hallowed, rfl⟩⟩
    case isFalse => exact absurd h not_gives_throw

theorem gives_loopTest {setup : Setup} {scope : Scope} {test : Option LoopTest} {s t : Session}
    {head : LoopHead} {names : List Name}
    (h : Gives (compileLoopTest setup test scope) s (head, names) t) :
    (test = none ∧ head = .endless ∧ names = [] ∧ t = s) ∨
    ∃ test' r, test = some test' ∧ setup.renderer .boolean test'.condition scope = .ok r ∧
      t = s.called [⟨.boolean, test'.condition, scope, .ok r⟩] ∧
      names = r.undeclared setup.naming scope ∧
      head = if test'.atStart then .testFirst ⟨test'.negated, r.fragment scope⟩
        else .testLast ⟨test'.negated, r.fragment scope⟩ := by
  cases test with
  | none =>
    simp only [compileLoopTest, gives_pure, Prod.mk.injEq] at h
    obtain ⟨⟨rfl, rfl⟩, rfl⟩ := h
    exact .inl ⟨rfl, rfl, rfl, rfl⟩
  | some test =>
    simp only [compileLoopTest, gives_bind, gives_render, gives_pure, Prod.mk.injEq] at h
    obtain ⟨r, u, ⟨hr, rfl⟩, ⟨rfl, rfl⟩, rfl⟩ := h
    exact .inr ⟨test, r, rfl, hr, rfl, rfl, rfl⟩

theorem gives_loopFlag {setup : Setup} {kind : LoopKind} {body : List Block} {scope : Scope}
    {s t : Session} {flag : Option Ident} (h : Gives (loopFlag setup kind body scope) s flag t) :
    (Block.needsFlag kind body = false ∧ flag = none ∧ t = s) ∨
    (Block.needsFlag kind body = true ∧
      ∃ id, flag = some id ∧ Gives (freshTemporary setup.naming kind.flagStem scope) s id t) := by
  unfold loopFlag at h
  split at h
  case isTrue hneeds =>
    simp only [gives_bind, gives_pure] at h
    obtain ⟨id, u, hid, rfl, rfl⟩ := h
    exact .inr ⟨hneeds, id, rfl, hid⟩
  case isFalse hneeds =>
    obtain ⟨rfl, rfl⟩ := gives_pure.mp h
    exact .inl ⟨by simpa using hneeds, rfl, rfl⟩

theorem gives_doLoop {setup : Setup} {scope : Scope} {test : Option LoopTest} {body : List Block}
    {s t : Session} {out : Output Code}
    (h : Gives (compileBlock setup scope (.doLoop test body)) s out t) :
    ∃ head names u flag v inner, Gives (compileLoopTest setup test scope) s (head, names) u ∧
      Gives (loopFlag setup .doLoop body scope) u flag v ∧
      Gives (compileBlocks setup .all (scope.insideLoop ⟨.doLoop, flag⟩) body) v inner t ∧
      out = { undeclared := names } ++
        inner.mapStatements fun codes => .loop head flag codes :: flagChecks scope := by
  simp only [compileBlock, gives_bind, gives_pure, Prod.exists] at h
  obtain ⟨head, names, u, hhead, flag, v, hflag, inner, w, hinner, rfl, rfl⟩ := h
  exact ⟨head, names, u, flag, v, inner, hhead, hflag, hinner, rfl⟩

def ForHead.calls (head : ForHead) (scope : Scope) (counter : Name) (first last : TokenRun)
    (step : Option TokenRun) : List RendererCall :=
  [⟨.reference, counter.run, scope, .ok head.counter⟩, ⟨.value, first, scope, .ok head.first⟩,
    ⟨.value, last, scope, .ok head.last⟩] ++
    List.zipWith (fun run r => ⟨.value, run, scope, .ok r⟩) step.toList head.step.toList

structure ForHead.RenderedFrom (head : ForHead) (setup : Setup) (scope : Scope) (counter : Name)
    (first last : TokenRun) (step : Option TokenRun) : Prop where
  counter : setup.renderer .reference counter.run scope = .ok head.counter
  first : setup.renderer .value first scope = .ok head.first
  last : setup.renderer .value last scope = .ok head.last
  step : List.Forall₂ (fun run r => setup.renderer .value run scope = .ok r) step.toList
    head.step.toList

theorem gives_forHead {setup : Setup} {scope : Scope} {counter : Name} {first last : TokenRun}
    {step : Option TokenRun} {s t : Session} {head : ForHead}
    (h : Gives (renderForHead setup counter first last step scope) s head t) :
    head.RenderedFrom setup scope counter first last step ∧
      t = s.called (head.calls scope counter first last step) := by
  cases step with
  | none =>
    simp only [renderForHead, gives_bind, gives_render, gives_pure] at h
    obtain ⟨c, _, ⟨hc, rfl⟩, f, _, ⟨hf, rfl⟩, l, _, ⟨hl, rfl⟩, rfl, rfl⟩ := h
    exact ⟨⟨hc, hf, hl, .nil⟩, by simp [ForHead.calls]⟩
  | some run =>
    simp only [renderForHead, gives_bind, gives_render, gives_pure] at h
    obtain ⟨c, _, ⟨hc, rfl⟩, f, _, ⟨hf, rfl⟩, l, _, ⟨hl, rfl⟩, r, _, ⟨hr, rfl⟩, rfl, rfl⟩ := h
    exact ⟨⟨hc, hf, hl, .cons hr .nil⟩, by simp [ForHead.calls]⟩

theorem gives_forLoop {setup : Setup} {scope : Scope} {counter : Name} {first last : TokenRun}
    {step : Option TokenRun} {body : List Block} {s t : Session} {out : Output Code}
    (h : Gives (compileBlock setup scope (.forLoop counter first last step body)) s out t) :
    ∃ (head : ForHead) (lastName : Ident) (u : Session) (stepName : Ident) (v : Session)
      (flag : Option Ident) (w : Session) (inner : Output Code),
      head.RenderedFrom setup scope counter first last step ∧
      Gives (freshTemporary setup.naming "loopEnd" scope)
        (s.called (head.calls scope counter first last step)) lastName u ∧
      Gives (freshTemporary setup.naming "loopStep" scope) u stepName v ∧
      Gives (loopFlag setup .forLoop body scope) v flag w ∧
      Gives (compileBlocks setup .all (scope.insideLoop ⟨.forLoop, flag⟩) body) w inner t ∧
      out = { undeclared := head.undeclared setup.naming scope } ++
        inner.mapStatements fun codes =>
          .bind counter.line lastName (head.last.fragment scope) ::
          .bind counter.line stepName (head.stepFragment scope) ::
          .loop (.counting counter.line (head.counter.fragment scope)
            (head.first.fragment scope) lastName stepName) flag codes ::
          flagChecks scope := by
  simp only [compileBlock, gives_bind, gives_pure] at h
  obtain ⟨head, _, hhead, lastName, u, hlast, stepName, v, hstep, flag, w, hflag, inner, _, hinner,
    rfl, rfl⟩ := h
  obtain ⟨hfrom, rfl⟩ := gives_forHead hhead
  exact ⟨head, lastName, u, stepName, v, flag, w, inner, hfrom, hlast, hstep, hflag, hinner, rfl⟩

theorem gives_withTarget {setup : Setup} {scope : Scope} {target : TokenRun} {body : List Block}
    {s t : Session} {out : Output Code}
    (h : Gives (compileBlock setup scope (.withTarget target body)) s out t) :
    ∃ line r name u inner, target.firstLine = some line ∧
      setup.renderer .reference target scope = .ok r ∧
      Gives (freshTemporary setup.naming "with" scope)
        ((r.undeclared setup.naming scope).foldl Session.reported
          (s.called [⟨.reference, target, scope, .ok r⟩])) name u ∧
      Gives (compileBlocks setup .all (scope.insideWith ⟨name, line⟩) body) u inner t ∧
      out = (inner.pushFront (.bind line name (r.fragment scope))).addUndeclared
        (r.undeclared setup.naming scope) := by
  rw [compileBlock] at h
  split at h
  case h_1 => exact absurd h not_gives_throw
  case h_2 line hline =>
    simp only [gives_bind, gives_render, gives_forM_reportUndeclared, gives_pure] at h
    obtain ⟨r, _, ⟨hr, rfl⟩, _, _, rfl, name, u, hname, inner, _, hinner, rfl, rfl⟩ := h
    exact ⟨line, r, name, u, inner, hline, hr, hname, hinner, rfl⟩

theorem gives_level {setup : Setup} {scope : Scope} {blocks : List Block} {s t : Session}
    {out : Output Code}
    (h : Gives (compileLevel setup blocks scope fun selection s =>
      compileBlocks setup selection s blocks) s out t) :
    ∃ hoisted token u body v routines, hoist setup.naming scope blocks = .ok hoisted ∧
      Gives (levelToken setup blocks (scope.declare hoisted)) s token u ∧
      Gives (compileBlocks setup .all ((scope.declare hoisted).trappedBy token)
        (Block.framed blocks)) u body v ∧
      Gives (compileBlocks setup .all ((scope.declare hoisted).trappedBy token)
        (Block.unframed blocks)) v routines t ∧
      out = (body.mapStatements (Code.frame token) ++ routines).addDeclarations
        hoisted.stored := by
  simp only [compileLevel_eq, gives_bind, gives_ofExcept, gives_pure] at h
  obtain ⟨hoisted, _, ⟨hhoist, rfl⟩, token, u, htoken, body, v, hbody, routines, _, hroutines, rfl,
    rfl⟩ := h
  exact ⟨hoisted, token, u, body, v, routines, hhoist, htoken, hbody, hroutines, rfl⟩

theorem gives_levelToken {setup : Setup} {scope : Scope} {blocks : List Block} {s t : Session}
    {token : Option Ident} (h : Gives (levelToken setup blocks scope) s token t) :
    (Block.anyTrapsErrors blocks = false ∧ token = none ∧ t = s) ∨
    (Block.anyTrapsErrors blocks = true ∧
      ∃ id, token = some id ∧ Gives (freshTemporary setup.naming "errOn" scope) s id t) := by
  unfold levelToken at h
  split at h
  case isTrue htraps =>
    simp only [gives_bind, gives_pure] at h
    obtain ⟨id, u, hid, rfl, rfl⟩ := h
    exact .inr ⟨htraps, id, rfl, hid⟩
  case isFalse htraps =>
    obtain ⟨rfl, rfl⟩ := gives_pure.mp h
    exact .inl ⟨by simpa using htraps, rfl, rfl⟩

def Scope.insideRoutine (s : Scope) (kind : RoutineKind) (name : Name) (slot : Option Ident)
    (parameters : List Parameter) : Scope :=
  s.insideBody (kind.owner name) slot (parameters.map fun p => ⟨p.name, .function⟩)

theorem gives_routine {setup : Setup} {scope : Scope} {kind : RoutineKind} {name : Name}
    {parameters : List Parameter} {body : List Block} {s t : Session} {out : Output Code}
    (h : Gives (compileBlock setup scope (.routine kind name parameters body)) s out t) :
    scope.enclosure = .outermost ∧ checkParameters setup.naming [] parameters = .ok () ∧
    ((body = [] ∧ t = s ∧
        out = .ofStatements [emptyMethod (methodHead setup.naming kind name parameters)]) ∨
      (body ≠ [] ∧ ∃ slot u level v, Gives (returnSlot setup kind scope) s slot u ∧
        Gives (compileLevel setup body (scope.insideRoutine kind name slot parameters)
          fun selection s => compileBlocks setup selection s body) u level v ∧
        Gives (compileMethod setup (methodHead setup.naming kind name parameters) slot level)
          v out t)) := by
  rw [compileBlock] at h
  split at h
  case isTrue => exact absurd h not_gives_throw
  case isFalse hplace =>
    simp only [gives_bind, gives_ofExcept] at h
    obtain ⟨_, _, ⟨hparams, rfl⟩, h⟩ := h
    refine ⟨by simpa using hplace, hparams, ?_⟩
    split at h
    case isTrue hempty =>
      obtain ⟨rfl, rfl⟩ := gives_pure.mp h
      exact .inl ⟨List.isEmpty_iff.mp hempty, rfl, rfl⟩
    case isFalse hempty =>
      simp only [gives_bind] at h
      obtain ⟨slot, u, hslot, level, v, hlevel, hmethod⟩ := h
      exact .inr ⟨fun he => hempty (by simp [he]), slot, u, level, v, hslot, hlevel, hmethod⟩

theorem gives_returnSlot {setup : Setup} {kind : RoutineKind} {scope : Scope} {s t : Session}
    {slot : Option Ident} (h : Gives (returnSlot setup kind scope) s slot t) :
    (kind = .sub ∧ slot = none ∧ t = s) ∨
    (kind = .function ∧
      ∃ id, slot = some id ∧ Gives (freshTemporary setup.naming "retVal" scope) s id t) := by
  cases kind with
  | function =>
    simp only [returnSlot, gives_bind, gives_pure] at h
    obtain ⟨id, u, hid, rfl, rfl⟩ := h
    exact .inr ⟨rfl, id, rfl, hid⟩
  | sub =>
    obtain ⟨rfl, rfl⟩ := gives_pure.mp h
    exact .inl ⟨rfl, rfl, rfl⟩

def Output.localIdents (body : Output Code) (naming : Naming) : List Ident :=
  (distinctNames naming (body.declarations.map (·.name))).map naming

def Output.undeclaredLocals (body : Output Code) (naming : Naming) : List Name :=
  distinctNames naming
    (body.undeclared.filter fun n => !(body.localIdents naming).contains (naming n))

theorem gives_method {setup : Setup} {head : MethodHead} {slot : Option Ident}
    {body out : Output Code} {s t : Session}
    (h : Gives (compileMethod setup head slot body) s out t) :
    t = (body.undeclaredLocals setup.naming).foldl Session.reported s ∧
      out = .ofStatements [.method head (body.localIdents setup.naming)
        ((body.undeclaredLocals setup.naming).map setup.naming) body.statements
        (.ofSlot? slot)] := by
  simp only [compileMethod, gives_bind, gives_forM_reportUndeclared, gives_pure] at h
  obtain ⟨_, _, rfl, rfl, rfl⟩ := h
  exact ⟨rfl, rfl⟩

theorem gives_outermost {setup : Setup} {scope : Scope} {blocks : List Block} {s t : Session}
    {out : Output Code} (h : Gives (compileOutermost setup blocks scope) s out t) :
    ∃ level u, Gives (compileLevel setup blocks scope fun selection s =>
        compileBlocks setup selection s blocks) s level u ∧
      t = (distinctNames setup.naming level.undeclared).foldl Session.reported u ∧
      out = { level with undeclared := distinctNames setup.naming level.undeclared } := by
  simp only [compileOutermost, gives_bind, gives_forM_reportUndeclared, gives_pure] at h
  obtain ⟨level, u, hlevel, _, _, rfl, rfl, rfl⟩ := h
  exact ⟨level, u, hlevel, rfl, rfl⟩

theorem declarations_append_nil {a b : Output Code} (ha : a.declarations = [])
    (hb : b.declarations = []) : (a ++ b).declarations = [] := by
  rw [Output.declarations_append, ha, hb, List.nil_append]

theorem declarations_blocks {setup : Setup} {blocks : List Block}
    (h : ∀ b ∈ blocks, ∀ {scope : Scope} {s t : Session} {out : Output Code},
      Gives (compileBlock setup scope b) s out t → out.declarations = [])
    {scope : Scope} {s t : Session} {out : Output Code}
    (hgives : Gives (compileBlocks setup .all scope blocks) s out t) : out.declarations = [] :=
  output_blocks (P := (·.declarations = [])) rfl declarations_append_nil (fun b hb => h b hb) hgives

/-- Compiling a block declares nothing: what it declares is hoisted before. -/
theorem declarations_block {setup : Setup} {b : Block} {scope : Scope} {s t : Session}
    {out : Output Code} (h : Gives (compileBlock setup scope b) s out t) :
    out.declarations = [] := by
  induction b using Block.nested_induction generalizing scope s t out with
  | step b ih =>
    cases b with
    | doLoop test body =>
      obtain ⟨head, names, u, flag, v, inner, -, -, hinner, rfl⟩ := gives_doLoop h
      have hnone := declarations_blocks ih hinner
      exact hnone
    | forLoop counter first last step body =>
      obtain ⟨head, _, _, _, _, flag, _, inner, -, -, -, -, hinner, rfl⟩ := gives_forLoop h
      have hnone := declarations_blocks ih hinner
      exact hnone
    | withTarget target body =>
      obtain ⟨line, r, name, u, inner, -, -, -, hinner, rfl⟩ := gives_withTarget h
      have hnone := declarations_blocks ih hinner
      exact hnone
    | routine kind name parameters body =>
      obtain ⟨-, -, ⟨-, -, rfl⟩ | ⟨-, slot, u, level, v, -, -, hmethod⟩⟩ := gives_routine h
      · rfl
      · obtain ⟨-, rfl⟩ := gives_method hmethod
        rfl
    | exit kind line =>
      rw [compileBlock] at h
      obtain ⟨-, ⟨kind, codes, -, -, rfl⟩ | ⟨-, -, rfl⟩⟩ := gives_exit h <;> rfl
    | consts items =>
      rw [compileBlock] at h
      refine output_items (P := (·.declarations = [])) rfl declarations_append_nil
        (fun hitem => ?_) h
      obtain ⟨target, value, -, -, -, rfl⟩ := gives_const hitem
      rfl
    | dim items =>
      rw [compileBlock] at h
      refine output_items (P := (·.declarations = [])) rfl declarations_append_nil
        (fun hitem => ?_) h
      obtain ⟨-, rfl, -⟩ | ⟨bounds, target, rs, -, -, -, -, rfl⟩ := gives_dim hitem <;> rfl
    | redim preserve items =>
      rw [compileBlock] at h
      refine output_items (P := (·.declarations = [])) rfl declarations_append_nil
        (fun hitem => ?_) h
      obtain ⟨rs, -, hdeclarations, -⟩ := gives_redim hitem
      exact hdeclarations
    | onError mode line =>
      rw [compileBlock] at h
      obtain ⟨token, -, -, rfl⟩ := gives_onError h
      rfl
    | statement run =>
      rw [compileBlock] at h
      obtain ⟨r, -, -, rfl⟩ := gives_statement h
      rfl

theorem declarations_level {setup : Setup} {scope : Scope} {blocks : List Block} {s t : Session}
    {out : Output Code} (h : Gives (compileLevel setup blocks scope fun selection s =>
      compileBlocks setup selection s blocks) s out t) :
    ∃ hoisted, hoist setup.naming scope blocks = .ok hoisted ∧
      out.declarations = hoisted.stored := by
  obtain ⟨hoisted, token, u, body, v, routines, hok, -, hbody, hroutines, rfl⟩ := gives_level h
  have hb := declarations_blocks (fun _ _ => declarations_block) hbody
  have hr := declarations_blocks (fun _ _ => declarations_block) hroutines
  refine ⟨hoisted, hok, ?_⟩
  simp [Output.addDeclarations, Output.mapStatements, hb, hr]

def Program.ofOutput (settings : Settings) (out : Output Code) (session : Session) : Program where
  lines := Code.allLines settings.names.support 0 out.statements
  outerDeclarations := out.declarations
  environment := distinctNames caselessNaming (settings.environmentNames ++ out.undeclared)
  diagnostics := session.diagnostics

theorem traceProgram_eq (renderer : Renderer) (settings : Settings) (blocks : List Block) :
    traceProgram renderer settings blocks =
      match (compileOutermost (.caseless renderer) blocks
        (.outermost settings.environmentNames)).outcome {} with
      | (.ok out, session) => (.ok (.ofOutput settings out session), session)
      | (.error e, session) => (.error e, session) := by
  simp only [traceProgram, runOutermost, outcome]
  generalize (compileOutermost (.caseless renderer) blocks
    (.outermost settings.environmentNames)).run.run {} = result
  obtain ⟨r, session⟩ := result
  cases r <;> rfl

/-- What a program is made of when its compilation succeeds. -/
theorem gives_of_traceProgram {renderer : Renderer} {settings : Settings} {blocks : List Block}
    {p : Program} {session : Session}
    (h : traceProgram renderer settings blocks = (.ok p, session)) :
    ∃ out, Gives (compileOutermost (.caseless renderer) blocks
        (.outermost settings.environmentNames)) {} out session ∧
      p = .ofOutput settings out session := by
  rw [traceProgram_eq] at h
  split at h
  case h_1 out session' hout =>
    cases h
    exact ⟨out, hout, rfl⟩
  case h_2 => cases h

theorem exists_traceProgram {renderer : Renderer} {settings : Settings} {blocks : List Block}
    (h : (compileProgram renderer settings blocks).isOk = true) :
    ∃ p session, traceProgram renderer settings blocks = (.ok p, session) := by
  unfold compileProgram at h
  generalize traceProgram renderer settings blocks = result at h
  obtain ⟨r, session⟩ := result
  cases r with
  | error e => cases h
  | ok p => exact ⟨p, session, rfl⟩

end VbsCompiler
