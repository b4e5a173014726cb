import VbsCompiler.Compile.PlainRenderer
import VbsCompiler.Proofs.Spelling

/-! Two compilations side by side. If the names of a program are respelled so that each keeps its
identifier and its line, the two compilations take the same temporaries, fail together or succeed
together, and emit the same lines but for the names that an illegal assignment quotes. -/

namespace VbsCompiler

open CompileM

structure Rendering.Respells (naming : Naming) (r r' : Rendering) : Prop where
  text : r.text = r'.text
  accessed : r.accessed.map naming = r'.accessed.map naming

/-- The renderer depends on names only through the naming: neither the spelling of the names in
scope nor that of a name it is asked for makes a difference. -/
structure Renderer.SeesThrough (renderer : Renderer) (naming : Naming)
    (same : Name → Name → Prop) : Prop where
  run : ∀ (demand : Demand) (run : TokenRun) {scope scope' : Scope}, scope.Respells same scope' →
    SameEnd same (Rendering.Respells naming) (renderer demand run scope)
      (renderer demand run scope')
  name : ∀ (demand : Demand) {n n' : Name} {scope scope' : Scope}, same n n' →
    scope.Respells same scope' →
    SameEnd same (Rendering.Respells naming) (renderer demand n.run scope)
      (renderer demand n'.run scope')

def rejectionText (n : Name) : String :=
  ".RAISEERROR(new IllegalAssignmentException(\"'" ++ n.content ++ "'\"));"

/-- The lines are the same but for a name that is quoted as a constant assigned to. -/
inductive Line.Respells (same : Name → Name → Prop) : Line → Line → Prop where
  | refl (l : Line) : Respells same l l
  | rejection {n n' : Name} (before after : String) (depth : Nat) (origin : Option Nat) :
      same n n' → Respells same ⟨before ++ rejectionText n ++ after, depth, origin⟩
        ⟨before ++ rejectionText n' ++ after, depth, origin⟩

def Code.Respells (same : Name → Name → Prop) (codes codes' : List Code) : Prop :=
  ∀ support depth, List.Forall₂ (Line.Respells same) (Code.allLines support depth codes)
    (Code.allLines support depth codes')

structure Output.Respells (naming : Naming) (same : Name → Name → Prop) (a b : Output Code) :
    Prop where
  statements : Code.Respells same a.statements b.statements
  declarations : List.Forall₂ (Declaration.Respells same) a.declarations b.declarations
  undeclared : a.undeclared.map naming = b.undeclared.map naming

/-- From sessions with the same next temporary both actions end alike, with related results, and
leave sessions with the same next temporary. -/
def CompileM.Parallel {α β : Type} (same : Name → Name → Prop) (R : α → β → Prop)
    (x : CompileM α) (y : CompileM β) : Prop :=
  ∀ s t : Session, s.nextTemporary = t.nextTemporary →
    SameEnd same R (x.outcome s).1 (y.outcome t).1 ∧
      (x.outcome s).2.nextTemporary = (y.outcome t).2.nextTemporary

section Parallel

variable {α β γ δ : Type} {same : Name → Name → Prop} {R : α → β → Prop} {S : γ → δ → Prop}

theorem parallel_pure {a : α} {b : β} (h : R a b) : Parallel same R (pure a) (pure b) :=
  fun _ _ hst => ⟨.ok h, hst⟩

theorem parallel_throw {e e' : CompileError} (h : e.Respells same e') :
    Parallel same R (throw e) (throw e') :=
  fun _ _ hst => ⟨.error h, hst⟩

theorem parallel_ofExcept {r : Except CompileError α} {r' : Except CompileError β}
    (h : SameEnd same R r r') : Parallel same R (ofExcept r) (ofExcept r') := by
  intro s t hst
  rw [outcome_ofExcept, outcome_ofExcept]
  exact ⟨h, hst⟩

theorem CompileM.Parallel.bind {x : CompileM α} {y : CompileM β} {f : α → CompileM γ}
    {g : β → CompileM δ} (hxy : Parallel same R x y)
    (hfg : ∀ a b, R a b → Parallel same S (f a) (g b)) : Parallel same S (x >>= f) (y >>= g) := by
  intro s t hst
  obtain ⟨hend, hnext⟩ := hxy s t hst
  rw [outcome_bind, outcome_bind]
  generalize x.outcome s = left at hend hnext
  generalize y.outcome t = right at hend hnext
  obtain ⟨r, s'⟩ := left
  obtain ⟨r', t'⟩ := right
  dsimp only at hend hnext
  cases hend with
  | ok hab => exact hfg _ _ hab s' t' hnext
  | error he => exact ⟨.error he, hnext⟩

theorem CompileM.Parallel.then_pure {x : CompileM α} {y : CompileM β} {f : α → γ} {g : β → δ}
    (hxy : Parallel same R x y) (hfg : ∀ a b, R a b → S (f a) (g b)) :
    Parallel same S (x >>= fun a => pure (f a)) (y >>= fun b => pure (g b)) :=
  hxy.bind fun a b hab => parallel_pure (hfg a b hab)

theorem parallel_freshTemporary {naming : Naming} {scope scope' : Scope} (stem : String)
    (h : scope.taken naming = scope'.taken naming) :
    Parallel same Eq (freshTemporary naming stem scope) (freshTemporary naming stem scope') := by
  intro s t hst
  rw [outcome_freshTemporary, outcome_freshTemporary, h, hst]
  exact ⟨.ok rfl, rfl⟩

theorem parallel_reportUndeclared (names names' : List Name) :
    Parallel same (fun _ _ => True) (names.forM reportUndeclared)
      (names'.forM reportUndeclared) := by
  intro s t hst
  rw [outcome_forM_reportUndeclared, outcome_forM_reportUndeclared]
  exact ⟨.ok trivial, by simpa using hst⟩

end Parallel

section Outputs

variable {naming : Naming} {same : Name → Name → Prop}

theorem lines_refl (lines : List Line) : List.Forall₂ (Line.Respells same) lines lines :=
  List.forall₂_same.mpr fun l _ => .refl l

theorem Code.respells_refl (codes : List Code) : Code.Respells same codes codes :=
  fun _ _ => lines_refl _

theorem Code.Respells.append {codes codes' more more' : List Code}
    (h : Code.Respells same codes codes') (hmore : Code.Respells same more more') :
    Code.Respells same (codes ++ more) (codes' ++ more') := by
  intro support depth
  rw [Code.allLines_append, Code.allLines_append]
  exact List.rel_append (h support depth) (hmore support depth)

theorem Code.Respells.cons {codes codes' : List Code} (h : Code.Respells same codes codes')
    (c : Code) : Code.Respells same (c :: codes) (c :: codes') :=
  (Code.respells_refl [c]).append h

theorem Code.respells_single {c c' : Code} (h : ∀ support depth,
    List.Forall₂ (Line.Respells same) (c.lines support depth) (c'.lines support depth)) :
    Code.Respells same [c] [c'] := by
  intro support depth
  simpa only [Code.allLines, List.append_nil] using h support depth

theorem Code.Respells.loop {codes codes' : List Code} (h : Code.Respells same codes codes')
    (head : LoopHead) (flag : Option Ident) :
    Code.Respells same [.loop head flag codes] [.loop head flag codes'] := by
  refine Code.respells_single fun support depth => ?_
  rw [Code.lines, Code.lines]
  exact List.rel_append (List.rel_append (lines_refl _) (h support (depth + 1))) (lines_refl _)

theorem Code.Respells.frame {codes codes' : List Code} (h : Code.Respells same codes codes')
    (token : Option Ident) :
    Code.Respells same (Code.frame token codes) (Code.frame token codes') := by
  cases token with
  | none => exact h
  | some token =>
    refine Code.respells_single fun support depth => ?_
    rw [Code.lines, Code.lines]
    exact List.rel_append (List.rel_append (lines_refl [_, _, _]) (h support (depth + 1)))
      (lines_refl _)

theorem Code.Respells.method {codes codes' : List Code} (h : Code.Respells same codes codes')
    (head : MethodHead) (locals undeclaredLocals : List Ident) (result : MethodResult) :
    Code.Respells same [.method head locals undeclaredLocals codes result]
      [.method head locals undeclaredLocals codes' result] := by
  refine Code.respells_single fun support depth => ?_
  rw [Code.lines, Code.lines]
  exact List.rel_append (List.rel_append (List.rel_append (lines_refl _) (h support (depth + 1)))
    (lines_refl _)) (lines_refl _)

theorem respells_empty : Output.Respells naming same {} {} :=
  ⟨Code.respells_refl [], .nil, rfl⟩

theorem respells_ofStatements {codes codes' : List Code} (h : Code.Respells same codes codes') :
    Output.Respells naming same (.ofStatements codes) (.ofStatements codes') :=
  ⟨h, .nil, rfl⟩

theorem Output.Respells.append {a a' b b' : Output Code} (ha : a.Respells naming same a')
    (hb : b.Respells naming same b') : (a ++ b).Respells naming same (a' ++ b') :=
  ⟨ha.statements.append hb.statements, List.rel_append ha.declarations hb.declarations, by
    rw [Output.undeclared_append, Output.undeclared_append, List.map_append, List.map_append,
      ha.undeclared, hb.undeclared]⟩

theorem Output.Respells.mapStatements {a b : Output Code} (h : a.Respells naming same b)
    {f g : List Code → List Code} (hfg : Code.Respells same (f a.statements) (g b.statements)) :
    (a.mapStatements f).Respells naming same (b.mapStatements g) :=
  ⟨hfg, h.declarations, h.undeclared⟩

end Outputs

section Statements

variable {setup : Setup} {same : Name → Name → Prop}
  (hsame : KeepsIdentity setup.naming same)
  (hrenderer : setup.renderer.SeesThrough setup.naming same)
  {scope scope' : Scope} (hscope : scope.Respells same scope')

theorem outcome_render (demand : Demand) (run : TokenRun) (s : Session) :
    (render setup demand run scope).outcome s = (setup.renderer demand run scope,
      s.called [⟨demand, run, scope, setup.renderer demand run scope⟩]) := by
  rw [render]
  cases setup.renderer demand run scope <;> rfl

include hscope

theorem fragment_respells {naming : Naming} {r r' : Rendering} (h : r.Respells naming r') :
    r.fragment scope = r'.fragment scope' := by
  rw [Rendering.fragment, Rendering.fragment, h.text, hscope.offered]

theorem guarded_respells (origin : Option Nat) (operations : List Operation) :
    guarded scope origin operations = guarded scope' origin operations := by
  rw [guarded, guarded, hscope.trapToken]

include hsame in
theorem undeclared_respells {r r' : Rendering} (h : r.Respells setup.naming r') :
    (r.undeclared setup.naming scope).map setup.naming =
      (r'.undeclared setup.naming scope').map setup.naming :=
  hscope.undeclared hsame h.accessed

include hrenderer

theorem parallel_render (demand : Demand) (run : TokenRun) :
    Parallel same (Rendering.Respells setup.naming) (render setup demand run scope)
      (render setup demand run scope') := by
  intro s t hst
  rw [outcome_render, outcome_render]
  exact ⟨hrenderer.run demand run hscope, hst⟩

theorem parallel_renderName (demand : Demand) {n n' : Name} (hn : same n n') :
    Parallel same (Rendering.Respells setup.naming) (render setup demand n.run scope)
      (render setup demand n'.run scope') := by
  intro s t hst
  rw [outcome_render, outcome_render]
  exact ⟨hrenderer.name demand hn hscope, hst⟩

include hsame

theorem parallel_statement (run : TokenRun) :
    Parallel same (Output.Respells setup.naming same) (compileStatement setup run scope)
      (compileStatement setup run scope') := by
  refine (parallel_render hrenderer hscope _ _).then_pure fun r r' hr => ⟨?_, .nil, ?_⟩
  · rw [fragment_respells hscope hr, guarded_respells hscope]
    exact Code.respells_refl _
  · exact undeclared_respells hsame hscope hr

theorem parallel_renderValues (runs : List TokenRun) :
    Parallel same (fun p p' => p.1 = p'.1 ∧ p.2.map setup.naming = p'.2.map setup.naming)
      (renderValues setup scope runs) (renderValues setup scope' runs) := by
  induction runs with
  | nil => exact parallel_pure ⟨rfl, rfl⟩
  | cons run rest ih =>
    refine (parallel_render hrenderer hscope _ _).bind fun r r' hr => ?_
    refine ih.then_pure fun p p' hp => ⟨?_, ?_⟩
    · rw [fragment_respells hscope hr, hp.1]
    · rw [List.map_append, List.map_append, hp.2, undeclared_respells hsame hscope hr]

theorem parallel_const {item item' : ConstItem} (h : item.Respells same item') :
    Parallel same (Output.Respells setup.naming same) (compileConst setup item scope)
      (compileConst setup item' scope') := by
  refine (parallel_renderName hrenderer hscope _ h.name).bind fun target target' htarget => ?_
  rw [h.value]
  refine (parallel_render hrenderer hscope _ _).then_pure fun r r' hr => ⟨?_, .nil, ?_⟩
  · rw [fragment_respells hscope hr, fragment_respells hscope htarget, hsame.line h.name,
      guarded_respells hscope]
    exact Code.respells_refl _
  · exact undeclared_respells hsame hscope hr

theorem parallel_dim {item item' : DimItem} (h : item.Respells same item') :
    Parallel same (Output.Respells setup.naming same) (compileDim setup item scope)
      (compileDim setup item' scope') := by
  rw [compileDim, compileDim, h.bounds]
  split
  · exact parallel_pure respells_empty
  · refine (parallel_renderName hrenderer hscope _ h.name).bind fun target target' htarget => ?_
    refine (parallel_renderValues hsame hrenderer hscope _).then_pure fun p p' hp =>
      ⟨?_, .nil, hp.2⟩
    rw [fragment_respells hscope htarget, hp.1, hsame.line h.name, guarded_respells hscope]
    exact Code.respells_refl _

end Statements

section Rejection

variable {same : Name → Name → Prop}

theorem rejectAssignment_text (support : Ident) (n : Name) :
    Operation.text support (.rejectAssignment n.content) = support.text ++ rejectionText n := by
  have hassoc : ∀ a b c d : String, a ++ b ++ c ++ d = a ++ (b ++ c ++ d) := by
    simp only [String.append_assoc, implies_true]
  exact hassoc _ _ _ _

/-- Assigning to a constant is refused in one statement of its own, which a guard joins to what
goes before. -/
theorem respells_rejected {n n' : Name} (h : same n n') (origin : Option Nat)
    (guard : Option Ident) (first : Operation) :
    Code.Respells same [.act origin guard [first, .rejectAssignment n.content]]
      [.act origin guard [first, .rejectAssignment n'.content]] := by
  refine Code.respells_single fun support depth => ?_
  rw [Code.lines, Code.lines]
  cases guard with
  | none =>
    have hline := Line.Respells.rejection support.text "" depth origin h
    rw [String.append_empty, String.append_empty, ← rejectAssignment_text,
      ← rejectAssignment_text] at hline
    exact .cons (.refl _) (.cons hline .nil)
  | some token =>
    have hjoin : ∀ (before after : String) (n : Name), before ++ " ".intercalate
        [first.text support, Operation.text support (.rejectAssignment n.content)] ++ after =
        before ++ first.text support ++ " " ++ support.text ++ rejectionText n ++ after := by
      intro before after n
      have hpair : ∀ a b : String, " ".intercalate [a, b] = a ++ " " ++ b := fun _ _ => rfl
      rw [hpair, rejectAssignment_text]
      simp only [String.append_assoc]
    simp only [Operation.texts, List.map_cons, List.map_nil, hjoin]
    exact .cons (.rejection _ _ depth origin h) .nil

end Rejection

section Blocks

variable {setup : Setup} {same : Name → Name → Prop}
  (hsame : KeepsIdentity setup.naming same)
  (hrenderer : setup.renderer.SeesThrough setup.naming same)

include hsame hrenderer in
theorem parallel_redim {scope scope' : Scope} (hscope : scope.Respells same scope')
    (preserve : Bool) {item item' : RedimItem} (h : item.Respells same item') :
    Parallel same (Output.Respells setup.naming same) (compileRedim setup preserve item scope)
      (compileRedim setup preserve item' scope') := by
  rw [compileRedim, compileRedim, h.bounds]
  refine (parallel_renderValues hsame hrenderer hscope _).bind ?_
  rintro ⟨fragments, names⟩ ⟨_, names'⟩ hvalues
  obtain ⟨rfl, hnames⟩ : fragments = _ ∧ names.map setup.naming = names'.map setup.naming := hvalues
  have hoperations : ∀ {operations operations' : List Operation},
      (∀ origin guard, Code.Respells same [.act origin guard operations]
        [.act origin guard operations']) →
      Output.Respells setup.naming same
        { statements := [guarded scope (some item.name.line) operations], undeclared := names }
        { statements := [guarded scope' (some item'.name.line) operations'],
          undeclared := names' } := by
    intro operations operations' hcodes
    refine ⟨?_, .nil, hnames⟩
    rw [guarded_respells hscope, hsame.line h.name]
    exact hcodes _ _
  simp only [hscope.resolve hsame (hsame.ident h.name)]
  split
  · exact parallel_pure (hoperations fun origin guard => respells_rejected h.name origin guard _)
  · simp only [pure_bind]
    refine (parallel_renderName hrenderer hscope _ h.name).then_pure fun r r' hr => ?_
    rw [fragment_respells hscope hr]
    exact hoperations fun _ _ => Code.respells_refl _

theorem parallel_items {α β : Type} {R : α → β → Prop} {f : α → CompileM (Output Code)}
    {g : β → CompileM (Output Code)}
    (hfg : ∀ {a b}, R a b → Parallel same (Output.Respells setup.naming same) (f a) (g b))
    {as : List α} {bs : List β} (h : List.Forall₂ R as bs) :
    Parallel same (Output.Respells setup.naming same) (compileItems f as) (compileItems g bs) := by
  induction h with
  | nil => exact parallel_pure respells_empty
  | cons hab _ ih =>
    refine (hfg hab).bind fun here here' hhere => ?_
    exact ih.then_pure fun later later' hlater => hhere.append hlater

theorem parallel_onError {scope scope' : Scope} (hscope : scope.Respells same scope')
    (mode : TrapMode) (line : Nat) :
    Parallel same (Output.Respells setup.naming same) (compileOnError mode line scope)
      (compileOnError mode line scope') := by
  rw [compileOnError, compileOnError, hscope.trapToken]
  split
  · exact parallel_pure (respells_ofStatements (Code.respells_refl _))
  · exact parallel_throw (.refl _)

theorem Owner.Respells.allowsExit {owner owner' : Owner} (h : owner.Respells same owner')
    (kind : ExitKind) : owner.allowsExit kind = owner'.allowsExit kind := by
  cases h <;> cases kind <;> rfl

theorem parallel_exit {scope scope' : Scope} (hscope : scope.Respells same scope')
    (kind : ExitKind) (line : Nat) :
    Parallel same (Output.Respells setup.naming same) (compileExit kind line scope)
      (compileExit kind line scope') := by
  cases kind with
  | loop loopKind =>
    rw [compileExit, compileExit, hscope.loops]
    have hcodes : ∀ r : Except CompileError (List Code), SameEnd same Eq r r := by
      rintro (e | codes)
      · exact .error (.refl e)
      · exact .ok rfl
    refine (parallel_ofExcept (hcodes _)).then_pure ?_
    rintro codes _ rfl
    exact respells_ofStatements (Code.respells_refl codes)
  | function | sub | property =>
    rw [compileExit, compileExit, hscope.owner.allowsExit, hscope.returnSlot]
    · split
      · exact parallel_pure (respells_ofStatements (Code.respells_refl _))
      · exact parallel_throw (.refl _)
    all_goals simp

section Heads

variable {scope scope' : Scope} (hscope : scope.Respells same scope')
include hsame hrenderer hscope

theorem parallel_loopTest (test : Option LoopTest) :
    Parallel same (fun p p' => p.1 = p'.1 ∧ p.2.map setup.naming = p'.2.map setup.naming)
      (compileLoopTest setup test scope) (compileLoopTest setup test scope') := by
  cases test with
  | none => exact parallel_pure ⟨rfl, rfl⟩
  | some t =>
    refine (parallel_render hrenderer hscope _ _).then_pure fun r r' hr => ⟨?_, ?_⟩
    · rw [fragment_respells hscope hr]
    · exact undeclared_respells hsame hscope hr

structure ForHead.Alike (naming : Naming) (scope scope' : Scope) (head head' : ForHead) : Prop where
  counter : head.counter.fragment scope = head'.counter.fragment scope'
  first : head.first.fragment scope = head'.first.fragment scope'
  last : head.last.fragment scope = head'.last.fragment scope'
  step : head.stepFragment scope = head'.stepFragment scope'
  undeclared : (head.undeclared naming scope).map naming =
    (head'.undeclared naming scope').map naming

theorem parallel_forHead {counter counter' : Name} (hcounter : same counter counter')
    (first last : TokenRun) (step : Option TokenRun) :
    Parallel same (ForHead.Alike setup.naming scope scope')
      (renderForHead setup counter first last step scope)
      (renderForHead setup counter' first last step scope') := by
  refine (parallel_renderName hrenderer hscope _ hcounter).bind fun c c' hc => ?_
  refine (parallel_render hrenderer hscope _ _).bind fun f f' hf => ?_
  refine (parallel_render hrenderer hscope _ _).bind fun l l' hl => ?_
  cases step with
  | none =>
    refine parallel_pure ⟨fragment_respells hscope hc, fragment_respells hscope hf,
      fragment_respells hscope hl, rfl, ?_⟩
    simp only [ForHead.undeclared, List.map_append, Option.toList_none, List.flatMap_nil,
      undeclared_respells hsame hscope hc, undeclared_respells hsame hscope hf,
      undeclared_respells hsame hscope hl]
  | some run =>
    refine (parallel_render hrenderer hscope _ _).then_pure fun r r' hr =>
      ⟨fragment_respells hscope hc, fragment_respells hscope hf, fragment_respells hscope hl,
        fragment_respells hscope hr, ?_⟩
    simp only [ForHead.undeclared, List.map_append, Option.toList_some, List.flatMap_singleton,
      undeclared_respells hsame hscope hc, undeclared_respells hsame hscope hf,
      undeclared_respells hsame hscope hl, undeclared_respells hsame hscope hr]

omit hrenderer

theorem parallel_loopFlag (kind : LoopKind) {body body' : List Block}
    (hbody : List.Forall₂ (Block.Respells same) body body') :
    Parallel same Eq (loopFlag setup kind body scope) (loopFlag setup kind body' scope') := by
  rw [loopFlag, loopFlag, Block.needsFlag_respells hbody]
  split
  · refine (parallel_freshTemporary _ (hscope.taken hsame)).then_pure ?_
    rintro flag _ rfl
    rfl
  · exact parallel_pure rfl

theorem parallel_levelToken {blocks blocks' : List Block}
    (hblocks : List.Forall₂ (Block.Respells same) blocks blocks') :
    Parallel same Eq (levelToken setup blocks scope) (levelToken setup blocks' scope') := by
  rw [levelToken, levelToken, Block.anyTrapsErrors_respells hblocks]
  split
  · refine (parallel_freshTemporary _ (hscope.taken hsame)).then_pure ?_
    rintro token _ rfl
    rfl
  · exact parallel_pure rfl

theorem parallel_returnSlot (kind : RoutineKind) :
    Parallel same Eq (returnSlot setup kind scope) (returnSlot setup kind scope') := by
  cases kind with
  | function =>
    refine (parallel_freshTemporary _ (hscope.taken hsame)).then_pure ?_
    rintro slot _ rfl
    rfl
  | sub => exact parallel_pure rfl

end Heads

section Methods

theorem distinctFrom_respells {naming : Naming} {names names' : List Name}
    (h : names.map naming = names'.map naming) (seen : List Ident) :
    (distinctFrom naming seen names).map naming = (distinctFrom naming seen names').map naming := by
  rw [map_eq_map_iff_forall₂] at h
  induction h generalizing seen with
  | nil => rfl
  | cons hn _ ih =>
    rw [distinctFrom, distinctFrom, hn]
    split
    · exact ih seen
    · rw [List.map_cons, List.map_cons, hn, ih]

include hsame

theorem methodHead_respells (kind : RoutineKind) {name name' : Name} (hname : same name name')
    {parameters parameters' : List Parameter}
    (hparameters : List.Forall₂ (Parameter.Respells same) parameters parameters') :
    methodHead setup.naming kind name parameters =
      methodHead setup.naming kind name' parameters' := by
  have hmap : parameters.map (fun p => (setup.naming p.name, p.byRef)) =
      parameters'.map fun p => (setup.naming p.name, p.byRef) :=
    map_eq_of_forall₂ (fun hp => by rw [hsame.ident hp.name, hp.byRef]) hparameters
  rw [methodHead, methodHead, hsame.ident hname, hsame.line hname, hmap]

theorem parallel_method (head : MethodHead) (slot : Option Ident) {body body' : Output Code}
    (h : body.Respells setup.naming same body') :
    Parallel same (Output.Respells setup.naming same) (compileMethod setup head slot body)
      (compileMethod setup head slot body') := by
  have hdeclared : (body.declarations.map (·.name)).map setup.naming =
      (body'.declarations.map (·.name)).map setup.naming := by
    rw [List.map_map, List.map_map]
    exact map_eq_of_forall₂ (fun hd => hsame.ident hd.name) h.declarations
  have hlocals : body.localIdents setup.naming = body'.localIdents setup.naming :=
    distinctFrom_respells hdeclared []
  have hundeclared : (body.undeclaredLocals setup.naming).map setup.naming =
      (body'.undeclaredLocals setup.naming).map setup.naming := by
    refine distinctFrom_respells ?_ []
    rw [hlocals, map_eq_map_iff_forall₂]
    exact forall₂_filter (fun hn => by rw [hn]) (map_eq_map_iff_forall₂.mp h.undeclared)
  have hmethod : Code.Respells same
      [.method head (body.localIdents setup.naming)
        ((body.undeclaredLocals setup.naming).map setup.naming) body.statements (.ofSlot? slot)]
      [.method head (body'.localIdents setup.naming)
        ((body'.undeclaredLocals setup.naming).map setup.naming) body'.statements
        (.ofSlot? slot)] := by
    rw [hlocals, hundeclared]
    exact h.statements.method head _ _ _
  exact (parallel_reportUndeclared _ _).then_pure fun _ _ _ => respells_ofStatements hmethod

end Methods

section Levels

theorem parallel_blocks_of_forall {scope scope' : Scope} {blocks blocks' : List Block}
    (hblocks : ∀ b ∈ blocks, ∀ {b'}, b.Respells same b' →
      Parallel same (Output.Respells setup.naming same) (compileBlock setup scope b)
        (compileBlock setup scope' b'))
    (h : List.Forall₂ (Block.Respells same) blocks blocks') :
    Parallel same (Output.Respells setup.naming same) (compileBlocks setup .all scope blocks)
      (compileBlocks setup .all scope' blocks') := by
  induction h with
  | nil => exact parallel_pure respells_empty
  | cons hb _ ih =>
    refine (hblocks _ List.mem_cons_self hb).bind fun here here' hhere => ?_
    refine (ih fun c hc => hblocks c (List.mem_cons_of_mem _ hc)).then_pure ?_
    exact fun later later' hlater => hhere.append hlater

include hsame in
theorem parallel_level_of_forall {scope scope' : Scope} (hscope : scope.Respells same scope')
    {blocks blocks' : List Block}
    (hblocks : ∀ b ∈ blocks, ∀ {b' : Block} {scope scope' : Scope}, b.Respells same b' →
      scope.Respells same scope' → Parallel same (Output.Respells setup.naming same)
        (compileBlock setup scope b) (compileBlock setup scope' b'))
    (h : List.Forall₂ (Block.Respells same) blocks blocks') :
    Parallel same (Output.Respells setup.naming same)
      (compileLevel setup blocks scope fun selection s => compileBlocks setup selection s blocks)
      (compileLevel setup blocks' scope' fun selection s =>
        compileBlocks setup selection s blocks') := by
  rw [compileLevel_eq, compileLevel_eq]
  refine (parallel_ofExcept (hoist_respells hsame hscope h)).bind
    fun hoisted hoisted' hhoisted => ?_
  have hdeclared := hscope.declare hhoisted
  refine (parallel_levelToken hsame hdeclared h).bind ?_
  rintro token _ rfl
  have hinner := hdeclared.trappedBy token
  refine (parallel_blocks_of_forall (fun b hb _ hbb => hblocks b (Block.mem_of_mem_framed hb) hbb
    hinner) (Block.framed_respells h)).bind fun body body' hbody => ?_
  refine (parallel_blocks_of_forall (fun b hb _ hbb => hblocks b (Block.mem_of_mem_unframed hb) hbb
    hinner) (Block.unframed_respells h)).then_pure fun routines routines' hroutines => ?_
  have hout := (hbody.mapStatements (hbody.statements.frame token)).append hroutines
  exact ⟨hout.statements, List.rel_append hout.declarations
    (List.rel_append hhoisted.vars hhoisted.constants), hout.undeclared⟩

section Compound

variable {scope scope' : Scope} (hscope : scope.Respells same scope') {body body' : List Block}
  (hchildren : List.Forall₂ (Block.Respells same) body body')
include hsame hscope hchildren

theorem parallel_routine
    (hblocks : ∀ b ∈ body, ∀ {b' : Block} {scope scope' : Scope}, b.Respells same b' →
      scope.Respells same scope' → Parallel same (Output.Respells setup.naming same)
        (compileBlock setup scope b) (compileBlock setup scope' b'))
    (kind : RoutineKind) {name name' : Name} (hname : same name name')
    {parameters parameters' : List Parameter}
    (hparameters : List.Forall₂ (Parameter.Respells same) parameters parameters') :
    Parallel same (Output.Respells setup.naming same)
      (compileBlock setup scope (.routine kind name parameters body))
      (compileBlock setup scope' (.routine kind name' parameters' body')) := by
  rw [compileBlock, compileBlock, hscope.enclosure]
  split
  · exact parallel_throw (.nestedRoutine hname)
  · refine (parallel_ofExcept (checkParameters_respells hsame hparameters [])).bind
      fun _ _ _ => ?_
    have hempty : body.isEmpty = body'.isEmpty := by
      cases hchildren <;> rfl
    rw [methodHead_respells hsame kind hname hparameters, hempty]
    split
    · exact parallel_pure (respells_ofStatements (Code.respells_refl _))
    · refine (parallel_returnSlot hsame hscope kind).bind ?_
      rintro slot _ rfl
      refine (parallel_level_of_forall hsame (hscope.insideRoutine hname slot hparameters) hblocks
        hchildren).bind fun out out' hout => ?_
      exact parallel_method hsame _ slot hout

variable (hbody : ∀ {scope scope' : Scope}, scope.Respells same scope' →
  Parallel same (Output.Respells setup.naming same) (compileBlocks setup .all scope body)
    (compileBlocks setup .all scope' body'))
include hrenderer hbody

theorem parallel_doLoop (test : Option LoopTest) :
    Parallel same (Output.Respells setup.naming same)
      (compileBlock setup scope (.doLoop test body))
      (compileBlock setup scope' (.doLoop test body')) := by
  rw [compileBlock, compileBlock]
  refine (parallel_loopTest hsame hrenderer hscope _).bind ?_
  rintro ⟨head, names⟩ ⟨_, names'⟩ htest
  obtain ⟨rfl, hnames⟩ : head = _ ∧ names.map setup.naming = names'.map setup.naming := htest
  refine (parallel_loopFlag hsame hscope _ hchildren).bind ?_
  rintro flag _ rfl
  refine (hbody (hscope.insideLoop _)).then_pure fun inner inner' hinner => ?_
  refine Output.Respells.append ⟨Code.respells_refl _, .nil, hnames⟩ (hinner.mapStatements ?_)
  rw [flagChecks, flagChecks, hscope.flags]
  exact (hinner.statements.loop head flag).append (Code.respells_refl _)

theorem parallel_forLoop {counter counter' : Name} (hcounter : same counter counter')
    (first last : TokenRun) (step : Option TokenRun) :
    Parallel same (Output.Respells setup.naming same)
      (compileBlock setup scope (.forLoop counter first last step body))
      (compileBlock setup scope' (.forLoop counter' first last step body')) := by
  rw [compileBlock, compileBlock]
  refine (parallel_forHead hsame hrenderer hscope hcounter _ _ _).bind fun head head' hhead => ?_
  refine (parallel_freshTemporary _ (hscope.taken hsame)).bind ?_
  rintro lastName _ rfl
  refine (parallel_freshTemporary _ (hscope.taken hsame)).bind ?_
  rintro stepName _ rfl
  refine (parallel_loopFlag hsame hscope _ hchildren).bind ?_
  rintro flag _ rfl
  refine (hbody (hscope.insideLoop _)).then_pure fun inner inner' hinner => ?_
  refine Output.Respells.append ⟨Code.respells_refl _, .nil, hhead.undeclared⟩
    (hinner.mapStatements ?_)
  rw [flagChecks, flagChecks, hscope.flags, hhead.counter, hhead.first, hhead.last, hhead.step,
    hsame.line hcounter]
  exact (((hinner.statements.loop _ flag).append (Code.respells_refl _)).cons _).cons _

omit hchildren

theorem parallel_withTarget (target : TokenRun) :
    Parallel same (Output.Respells setup.naming same)
      (compileBlock setup scope (.withTarget target body))
      (compileBlock setup scope' (.withTarget target body')) := by
  rw [compileBlock, compileBlock]
  cases target.firstLine with
  | none => exact parallel_throw (.refl _)
  | some line =>
    refine (parallel_render hrenderer hscope _ _).bind fun r r' hr => ?_
    refine (parallel_reportUndeclared _ _).bind fun _ _ _ => ?_
    refine (parallel_freshTemporary _ (hscope.taken hsame)).bind ?_
    rintro name _ rfl
    refine (hbody (hscope.insideWith _)).then_pure fun inner inner' hinner => ?_
    rw [fragment_respells hscope hr]
    refine ⟨hinner.statements.cons _, hinner.declarations, ?_⟩
    simp only [Output.addUndeclared, Output.pushFront, List.map_append, hinner.undeclared,
      undeclared_respells hsame hscope hr]

end Compound

include hsame hrenderer

/-- One block, whatever is around it: by induction on the nesting, with the scopes derived in
step. -/
theorem parallel_block {b b' : Block} {scope scope' : Scope} (h : b.Respells same b')
    (hscope : scope.Respells same scope') :
    Parallel same (Output.Respells setup.naming same) (compileBlock setup scope b)
      (compileBlock setup scope' b') := by
  induction b using Block.nested_induction generalizing b' scope scope' with
  | step b ih =>
    have hbody : ∀ {scope scope' : Scope} {body' : List Block},
        List.Forall₂ (Block.Respells same) b.children body' → scope.Respells same scope' →
        Parallel same (Output.Respells setup.naming same)
          (compileBlocks setup .all scope b.children) (compileBlocks setup .all scope' body') :=
      fun hb hs => parallel_blocks_of_forall (fun c hc _ hcc => ih c hc hcc hs) hb
    cases h with
    | doLoop hchildren =>
      exact parallel_doLoop hsame hrenderer hscope hchildren (hbody hchildren) _
    | forLoop hcounter hchildren =>
      exact parallel_forLoop hsame hrenderer hscope hchildren (hbody hchildren) hcounter _ _ _
    | withTarget hchildren =>
      exact parallel_withTarget hsame hrenderer hscope (hbody hchildren) _
    | routine hname hparameters hchildren =>
      exact parallel_routine hsame hscope hchildren ih _ hname hparameters
    | exit =>
      rw [compileBlock, compileBlock]
      exact parallel_exit hscope _ _
    | consts hitems =>
      rw [compileBlock, compileBlock]
      exact parallel_items (fun hitem => parallel_const hsame hrenderer hscope hitem) hitems
    | dim hitems =>
      rw [compileBlock, compileBlock]
      exact parallel_items (fun hitem => parallel_dim hsame hrenderer hscope hitem) hitems
    | redim hitems =>
      rw [compileBlock, compileBlock]
      exact parallel_items (fun hitem => parallel_redim hsame hrenderer hscope _ hitem) hitems
    | onError =>
      rw [compileBlock, compileBlock]
      exact parallel_onError hscope _ _
    | statement =>
      rw [compileBlock, compileBlock]
      exact parallel_statement hsame hrenderer hscope _

theorem parallel_outermost {scope scope' : Scope} (hscope : scope.Respells same scope')
    {blocks blocks' : List Block} (h : List.Forall₂ (Block.Respells same) blocks blocks') :
    Parallel same (Output.Respells setup.naming same) (compileOutermost setup blocks scope)
      (compileOutermost setup blocks' scope') := by
  have hlevel := parallel_level_of_forall hsame hscope
    (fun _ _ {_ _ _} hb hs => parallel_block hsame hrenderer hb hs) h
  refine hlevel.bind fun out out' hout => ?_
  refine (parallel_reportUndeclared _ _).then_pure fun _ _ _ => ?_
  exact ⟨hout.statements, hout.declarations, distinctFrom_respells hout.undeclared []⟩

end Levels

end Blocks

/-- The programs have the same lines but for names quoted, and the same declarations and the same
needs of the environment up to spelling. -/
structure Program.Respells (naming : Naming) (same : Name → Name → Prop) (p p' : Program) :
    Prop where
  lines : List.Forall₂ (Line.Respells same) p.lines p'.lines
  outerDeclarations : List.Forall₂ (Declaration.Respells same) p.outerDeclarations
    p'.outerDeclarations
  environment : p.environment.map naming = p'.environment.map naming

/-- Compilation sees names only through the naming: if the names of a program that are of some sort
are respelled and the renderer makes nothing of the spelling of such names, then the two
compilations end alike. -/
theorem compilation_ignores_spelling {renderer : Renderer} {sort : Name → Prop}
    (hrenderer : renderer.SeesThrough caselessNaming (Name.Respells caselessNaming sort))
    (settings : Settings) {program program' : List Block}
    (h : List.Forall₂ (Block.Respells (Name.Respells caselessNaming sort)) program program') :
    SameEnd (Name.Respells caselessNaming sort)
      (Program.Respells caselessNaming (Name.Respells caselessNaming sort))
      (compileProgram renderer settings program) (compileProgram renderer settings program') := by
  have hsame := keepsIdentity_respells caselessNaming sort
  have hscope : (Scope.outermost settings.environmentNames).Respells
      (Name.Respells caselessNaming sort) (.outermost settings.environmentNames) :=
    ⟨rfl, .program, rfl, rfl, rfl, rfl, rfl, .nil, rfl, .nil, .nil, rfl⟩
  have hparallel :=
    @parallel_outermost (.caseless renderer) _ hsame hrenderer _ _ hscope _ _ h
  have hboth := (hparallel {} {} rfl).1
  rw [compileProgram, compileProgram, traceProgram_eq, traceProgram_eq]
  generalize (compileOutermost (.caseless renderer) program _).outcome {} = left at hboth
  generalize (compileOutermost (.caseless renderer) program' _).outcome {} = right at hboth
  obtain ⟨r, s⟩ := left
  obtain ⟨r', t⟩ := right
  dsimp only at hboth
  cases hboth with
  | error he => exact .error he
  | ok hout =>
    refine .ok ⟨hout.statements _ 0, hout.declarations, ?_⟩
    refine distinctFrom_respells ?_ []
    rw [List.map_append, List.map_append]
    exact congrArg (_ ++ ·) hout.undeclared

namespace PlainRenderer

/-- The name reads as a name: it is not one of the words that stand for themselves. -/
def Plain (n : Name) : Prop :=
  isName (Token.ofText n.content n.line) = true

instance : DecidablePred Plain :=
  fun n => inferInstanceAs (Decidable (isName (Token.ofText n.content n.line) = true))

section Scopes

variable {naming : Naming} {same : Name → Name → Prop} (hsame : KeepsIdentity naming same)
  {scope scope' : Scope} (hscope : scope.Respells same scope')
include hsame hscope

theorem reference_respells {n n' : Name} (hn : naming n = naming n') :
    reference naming scope n = reference naming scope' n' := by
  rw [reference, reference, hn, hscope.isOwnName hsame hn, hscope.resolve hsame hn,
    hscope.returnSlot, hscope.location]

theorem step_respells (s : State) (t : Token) : s.step naming scope t = s.step naming scope' t := by
  have hdot : s.dot scope t = s.dot scope' t := by
    rw [State.dot, State.dot, hscope.withReference]
  have hword : s.word naming scope t = s.word naming scope' t := by
    simp only [State.word, reference_respells hsame hscope rfl]
  rw [State.step, State.step, hdot, hword]

theorem renderRun_respells (run : TokenRun) :
    renderRun naming scope run = renderRun naming scope' run := by
  have hstep : (fun (s : State) t => s.step naming scope t) =
      fun s t => s.step naming scope' t := by
    funext s t
    exact step_respells hsame hscope s t
  rw [renderRun, renderRun, hstep]

end Scopes

/-- A name alone is rendered as a reference to it. -/
theorem renderRun_name (naming : Naming) (scope : Scope) {n : Name} (hn : Plain n) :
    renderRun naming scope n.run = .ok ⟨reference naming scope n, [n]⟩ := by
  have hdot : (Token.ofText n.content n.line).isAtom "." = false := by
    by_contra hdot
    have hlexeme : (Token.ofText n.content n.line).lexeme = .atom "." := by
      simpa [Token.isAtom] using hdot
    rw [Plain, isName, hlexeme] at hn
    exact absurd hn (by decide)
  have htext : (Token.ofText n.content n.line).text = n.content := Lexeme.text_ofText n.content
  have hfail : n.content ≠ "#fail" := by
    intro hfail
    rw [Plain, hfail] at hn
    exact absurd hn (by simp [isName, Token.ofText, Lexeme.ofText])
  have hname : isName (Token.ofText n.content n.line) = true := hn
  have hline : (Token.ofText n.content n.line).line = n.line := rfl
  simp [renderRun, Name.run, State.step, hdot, htext, hfail, State.word, hname, State.push, hline]

theorem seesThrough (naming : Naming) :
    (plainRenderer naming).SeesThrough naming (Name.Respells naming Plain) := by
  have hsame := keepsIdentity_respells naming Plain
  have hrun : ∀ (demand : Demand) (run : TokenRun) {scope scope' : Scope},
      scope.Respells (Name.Respells naming Plain) scope' →
      SameEnd (Name.Respells naming Plain) (Rendering.Respells naming)
        (plainRenderer naming demand run scope) (plainRenderer naming demand run scope') := by
    intro demand run scope scope' hscope
    rw [plainRenderer, plainRenderer, renderRun_respells hsame hscope]
    cases renderRun naming scope' run with
    | error e => exact .error (.refl e)
    | ok r => exact .ok ⟨rfl, rfl⟩
  refine ⟨hrun, ?_⟩
  rintro demand n n' scope scope' (rfl | ⟨hn, hn', hident, hline⟩) hscope
  · exact hrun demand n.run hscope
  · rw [plainRenderer, plainRenderer, renderRun_name naming scope hn,
      renderRun_name naming scope' hn', reference_respells hsame hscope hident]
    exact .ok ⟨rfl, by simpa using hident⟩

end PlainRenderer

open PlainRenderer in
/-- `CONST Limit = 1 : REDIM limit(2)` and a function that sets its value, each name in two
spellings. -/
theorem compilation_ignores_spelling_constant_redimensioned :
    let same := Name.Respells caselessNaming Plain
    let program : List Block := [.consts [⟨⟨"Limit", 0⟩, [Token.ofText "1" 0]⟩],
      .redim false [⟨⟨"limit", 1⟩, [[Token.ofText "2" 1]]⟩],
      .routine .function ⟨"Area", 2⟩ [⟨⟨"W", 2⟩, false⟩]
        [.statement [Token.ofText "area" 3, Token.ofText "=" 3, Token.ofText "w" 3]]]
    let program' : List Block := [.consts [⟨⟨"LIMIT", 0⟩, [Token.ofText "1" 0]⟩],
      .redim false [⟨⟨"Limit", 1⟩, [[Token.ofText "2" 1]]⟩],
      .routine .function ⟨"AREA", 2⟩ [⟨⟨"w", 2⟩, false⟩]
        [.statement [Token.ofText "area" 3, Token.ofText "=" 3, Token.ofText "w" 3]]]
    ∃ p p', compileProgram (plainRenderer caselessNaming) {} program = .ok p ∧
      compileProgram (plainRenderer caselessNaming) {} program' = .ok p' ∧
      p.Respells caselessNaming same p' := by
  intro same program program'
  have hname : ∀ {n n' : Name}, Plain n ∧ Plain n' ∧ caselessNaming n = caselessNaming n' ∧
      n.line = n'.line → same n n' := .inr
  have hrespells : List.Forall₂ (Block.Respells same) program program' := by
    refine .cons (.consts (.cons ⟨hname ?_, rfl⟩ .nil)) (.cons (.redim (.cons ⟨hname ?_, rfl⟩ .nil))
      (.cons (.routine (hname ?_) (.cons ⟨hname ?_, rfl⟩ .nil) (.cons .statement .nil)) .nil))
    all_goals decide +kernel
  have hend := compilation_ignores_spelling (seesThrough caselessNaming) {} hrespells
  have hok : (compileProgram (plainRenderer caselessNaming) {} program).isOk = true := by
    decide +kernel
  generalize compileProgram (plainRenderer caselessNaming) {} program = r at hend hok
  generalize compileProgram (plainRenderer caselessNaming) {} program' = r' at hend
  cases hend with
  | error => cases hok
  | @ok p p' h => exact ⟨p, p', rfl, rfl, h⟩

end VbsCompiler
