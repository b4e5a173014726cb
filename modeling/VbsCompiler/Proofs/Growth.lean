import Mathlib.Logic.Relation
import VbsCompiler.Proofs.Inversion

/-! Sessions only grow: a compilation, even one that fails, takes its session through steps that
each record one thing, and no step takes back a diagnostic, a renderer call or a temporary. Blocks
without a body record little and emit nothing but plain statements. -/

namespace VbsCompiler

open CompileM

def temporaryStems : List String :=
  ["with", "errOn", "retVal", "loopEnd", "loopStep", "exitDo", "exitFor"]

theorem flagStem_mem_temporaryStems (kind : LoopKind) : kind.flagStem ∈ temporaryStems := by
  cases kind <;> decide

theorem le_freshNumber (stem : String) (taken : List Ident) (k : Nat) :
    k ≤ freshNumber stem taken k :=
  Nat.le_add_right _ _

namespace Session

inductive QuietStep (s : Session) : Session → Prop
  | call (call : RendererCall) : QuietStep s (s.called [call])
  | allocate {stem : String} (hstem : stem ∈ temporaryStems) (naming : Naming) (scope : Scope) :
      QuietStep s (s.allocated stem (freshNumber stem (scope.taken naming) s.nextTemporary))

inductive Step (s : Session) : Session → Prop
  | quiet {t : Session} (h : QuietStep s t) : Step s t
  | report (name : Name) : Step s (s.reported name)

structure Grows (s t : Session) : Prop where
  nextTemporary : s.nextTemporary ≤ t.nextTemporary
  diagnostics : s.diagnostics <+: t.diagnostics
  calls : s.calls <+: t.calls
  temporaries : s.temporaries <+: t.temporaries

theorem Grows.refl (s : Session) : s.Grows s :=
  ⟨Nat.le_refl _, List.prefix_refl _, List.prefix_refl _, List.prefix_refl _⟩

theorem Grows.trans {s t u : Session} (h : s.Grows t) (h' : t.Grows u) : s.Grows u :=
  ⟨Nat.le_trans h.nextTemporary h'.nextTemporary, h.diagnostics.trans h'.diagnostics,
    h.calls.trans h'.calls, h.temporaries.trans h'.temporaries⟩

theorem QuietStep.grows {s t : Session} (h : QuietStep s t) : s.Grows t := by
  cases h with
  | call call =>
    exact ⟨Nat.le_refl _, List.prefix_refl _, List.prefix_append _ _, List.prefix_refl _⟩
  | allocate hstem naming scope =>
    exact ⟨Nat.le_succ_of_le (le_freshNumber _ _ _), List.prefix_refl _, List.prefix_refl _,
      List.prefix_append _ _⟩

theorem QuietStep.diagnostics {s t : Session} (h : QuietStep s t) :
    t.diagnostics = s.diagnostics := by
  cases h <;> rfl

theorem Step.grows {s t : Session} (h : Step s t) : s.Grows t := by
  cases h with
  | quiet h => exact h.grows
  | report name =>
    unfold reported
    dsimp only
    split
    · exact .refl s
    · exact ⟨Nat.le_refl _, List.prefix_append _ _, List.prefix_refl _, List.prefix_refl _⟩

theorem grows_of_steps {s t : Session} (h : Relation.ReflTransGen Step s t) : s.Grows t := by
  induction h with
  | refl => exact .refl s
  | tail _ hstep ih => exact ih.trans hstep.grows

end Session

namespace CompileM

variable {α β : Type}

/-- Whatever the outcome of the action, it takes the session through steps of the kind. -/
def StepsBy (step : Session → Session → Prop) (x : CompileM α) : Prop :=
  ∀ s : Session, Relation.ReflTransGen step s (x.outcome s).2

abbrev Growing (x : CompileM α) : Prop :=
  StepsBy Session.Step x

abbrev Quiet (x : CompileM α) : Prop :=
  StepsBy Session.QuietStep x

section StepsBy

variable {step : Session → Session → Prop}

theorem stepsBy_pure (a : α) : StepsBy step (pure a) :=
  fun _ => .refl

theorem stepsBy_throw (e : CompileError) : StepsBy step (throw e : CompileM α) :=
  fun _ => .refl

theorem stepsBy_ofExcept (r : Except CompileError α) : StepsBy step (ofExcept r : CompileM α) := by
  intro s
  rw [outcome_ofExcept]

theorem StepsBy.bind {x : CompileM α} {f : α → CompileM β} (hx : StepsBy step x)
    (hf : ∀ a, StepsBy step (f a)) : StepsBy step (x >>= f) := by
  intro s
  have hs := hx s
  rw [outcome_bind]
  generalize x.outcome s = result at hs
  obtain ⟨r, t⟩ := result
  cases r with
  | error e => exact hs
  | ok a => exact hs.trans (hf a t)

theorem StepsBy.steps {x : CompileM α} (hx : StepsBy step x) {s t : Session} {a : α}
    (h : Gives x s a t) : Relation.ReflTransGen step s t := by
  have hs := hx s
  rwa [show x.outcome s = (.ok a, t) from h] at hs

end StepsBy

theorem Growing.of_gives {x : CompileM α} (hx : Growing x) {s t : Session} {a : α}
    (h : Gives x s a t) : s.Grows t :=
  Session.grows_of_steps (hx.steps h)

theorem Quiet.growing {x : CompileM α} (hx : Quiet x) : Growing x :=
  fun s => Relation.ReflTransGen.mono (fun _ _ => Session.Step.quiet) _ _ (hx s)

theorem Quiet.diagnostics {x : CompileM α} (hx : Quiet x) {s t : Session} {a : α}
    (h : Gives x s a t) : t.diagnostics = s.diagnostics := by
  have hsteps := hx.steps h
  clear h
  induction hsteps with
  | refl => rfl
  | tail _ hstep ih => exact hstep.diagnostics.trans ih

theorem quiet_render (setup : Setup) (demand : Demand) (run : TokenRun) (scope : Scope) :
    Quiet (render setup demand run scope) :=
  StepsBy.bind (fun _ => .single (.call _)) fun _ => stepsBy_ofExcept _

theorem quiet_freshTemporary (naming : Naming) {stem : String} (hstem : stem ∈ temporaryStems)
    (scope : Scope) : Quiet (freshTemporary naming stem scope) :=
  fun _ => .single (.allocate hstem naming scope)

theorem growing_forM_reportUndeclared (names : List Name) :
    Growing (names.forM reportUndeclared) := by
  intro s
  rw [outcome_forM_reportUndeclared]
  induction names generalizing s with
  | nil => exact .refl
  | cons name rest ih => exact .head (.report name) (ih _)

end CompileM

theorem quiet_statement (setup : Setup) (run : TokenRun) (scope : Scope) :
    Quiet (compileStatement setup run scope) :=
  (quiet_render _ _ _ _).bind fun _ => stepsBy_pure _

theorem quiet_onError (mode : TrapMode) (line : Nat) (scope : Scope) :
    Quiet (compileOnError mode line scope) := by
  unfold compileOnError
  split
  · exact stepsBy_pure _
  · exact stepsBy_throw _

theorem quiet_exit (kind : ExitKind) (line : Nat) (scope : Scope) :
    Quiet (compileExit kind line scope) := by
  unfold compileExit
  split
  · exact (stepsBy_ofExcept _).bind fun _ => stepsBy_pure _
  · split
    · exact stepsBy_pure _
    · exact stepsBy_throw _

theorem quiet_renderValues (setup : Setup) (scope : Scope) (runs : List TokenRun) :
    Quiet (renderValues setup scope runs) := by
  induction runs with
  | nil => exact stepsBy_pure _
  | cons run rest ih => exact (quiet_render _ _ _ _).bind fun _ => ih.bind fun _ => stepsBy_pure _

theorem quiet_const (setup : Setup) (item : ConstItem) (scope : Scope) :
    Quiet (compileConst setup item scope) :=
  (quiet_render _ _ _ _).bind fun _ => (quiet_render _ _ _ _).bind fun _ => stepsBy_pure _

theorem quiet_dim (setup : Setup) (item : DimItem) (scope : Scope) :
    Quiet (compileDim setup item scope) := by
  unfold compileDim
  split
  · exact stepsBy_pure _
  · exact (quiet_render _ _ _ _).bind fun _ =>
      (quiet_renderValues _ _ _).bind fun _ => stepsBy_pure _

theorem quiet_redim (setup : Setup) (preserve : Bool) (item : RedimItem) (scope : Scope) :
    Quiet (compileRedim setup preserve item scope) := by
  refine (quiet_renderValues _ _ _).bind fun _ => ?_
  dsimp only
  split
  · exact (stepsBy_pure _).bind fun _ => stepsBy_pure _
  · exact (quiet_render _ _ _ _).bind fun _ => (stepsBy_pure _).bind fun _ => stepsBy_pure _

theorem quiet_items {α : Type} {f : α → CompileM (Output Code)} (h : ∀ a, Quiet (f a))
    (items : List α) : Quiet (compileItems f items) := by
  induction items with
  | nil => exact stepsBy_pure _
  | cons a rest ih => exact (h a).bind fun _ => ih.bind fun _ => stepsBy_pure _

theorem quiet_loopTest (setup : Setup) (test : Option LoopTest) (scope : Scope) :
    Quiet (compileLoopTest setup test scope) := by
  cases test with
  | none => exact stepsBy_pure _
  | some test => exact (quiet_render _ _ _ _).bind fun _ => stepsBy_pure _

theorem quiet_loopFlag (setup : Setup) (kind : LoopKind) (body : List Block) (scope : Scope) :
    Quiet (loopFlag setup kind body scope) := by
  unfold loopFlag
  split
  · exact (quiet_freshTemporary _ (flagStem_mem_temporaryStems kind) _).bind fun _ =>
      stepsBy_pure _
  · exact stepsBy_pure _

theorem quiet_forHead (setup : Setup) (counter : Name) (first last : TokenRun)
    (step : Option TokenRun) (scope : Scope) :
    Quiet (renderForHead setup counter first last step scope) := by
  refine (quiet_render _ _ _ _).bind fun _ => (quiet_render _ _ _ _).bind fun _ =>
    (quiet_render _ _ _ _).bind fun _ => ?_
  cases step with
  | none => exact stepsBy_pure _
  | some run => exact (quiet_render _ _ _ _).bind fun _ => stepsBy_pure _

theorem quiet_levelToken (setup : Setup) (blocks : List Block) (scope : Scope) :
    Quiet (levelToken setup blocks scope) := by
  unfold levelToken
  split
  · exact (quiet_freshTemporary _ (by decide) _).bind fun _ => stepsBy_pure _
  · exact stepsBy_pure _

theorem quiet_returnSlot (setup : Setup) (kind : RoutineKind) (scope : Scope) :
    Quiet (returnSlot setup kind scope) := by
  cases kind with
  | function => exact (quiet_freshTemporary _ (by decide) _).bind fun _ => stepsBy_pure _
  | sub => exact stepsBy_pure _

def Block.isCompound : Block → Bool
  | .doLoop .. => true
  | .forLoop .. => true
  | .withTarget .. => true
  | .routine .. => true
  | _ => false

/-- A statement of emitted code that has no body and declares nothing. -/
def Code.IsPlain : Code → Prop
  | .act .. => True
  | .trapping .. => True
  | .raise .. => True
  | .leave .. => True
  | .giveBack .. => True
  | _ => False

/-- Only blocks with bodies compile to statements with bodies or declarations. -/
theorem isPlain_of_gives {setup : Setup} {b : Block} (hb : b.isCompound = false) {scope : Scope}
    {s t : Session} {out : Output Code} (h : Gives (compileBlock setup scope b) s out t) :
    ∀ c ∈ out.statements, c.IsPlain := by
  have hitems : ∀ {α : Type} {f : α → CompileM (Output Code)} {items : List α},
      (∀ {a s t out}, Gives (f a) s out t → ∀ c ∈ out.statements, c.IsPlain) →
      Gives (compileItems f items) s out t → ∀ c ∈ out.statements, c.IsPlain := by
    intro α f items hitem hgives
    refine output_items (P := fun out => ∀ c ∈ out.statements, c.IsPlain) (fun c hc => nomatch hc)
      (fun ha hb => ?_) hitem hgives
    exact List.forall_mem_append.mpr ⟨ha, hb⟩
  rw [compileBlock.eq_def] at h
  cases b with
  | doLoop | forLoop | withTarget | routine => cases hb
  | exit kind line =>
    obtain ⟨-, ⟨kind, codes, -, hcodes, rfl⟩ | ⟨-, -, rfl⟩⟩ := gives_exit h
    · obtain ⟨target, -, ⟨-, rfl⟩ | ⟨f, -, rfl⟩⟩ := compileLoopExit_ok hcodes <;>
        simp [Output.ofStatements, Code.IsPlain]
    · simp [Output.ofStatements, Code.IsPlain]
  | consts items =>
    refine hitems (fun hitem => ?_) h
    obtain ⟨target, value, -, -, -, rfl⟩ := gives_const hitem
    simp [Code.IsPlain]
  | dim items =>
    refine hitems (fun hitem => ?_) h
    obtain ⟨-, rfl, -⟩ | ⟨bounds, target, rs, -, -, -, -, rfl⟩ := gives_dim hitem
    · simp
    · simp [Code.IsPlain]
  | redim preserve items =>
    refine hitems (fun hitem => ?_) h
    obtain ⟨rs, -, -, -, ⟨-, -, hcodes⟩ | ⟨-, target, -, -, hcodes⟩⟩ := gives_redim hitem <;>
      simp [hcodes, Code.IsPlain]
  | onError mode line =>
    obtain ⟨token, -, -, rfl⟩ := gives_onError h
    simp [Output.ofStatements, Code.IsPlain]
  | statement run =>
    obtain ⟨r, -, -, rfl⟩ := gives_statement h
    simp [Code.IsPlain]

/-- Only blocks with bodies report undeclared names. -/
theorem quiet_of_not_isCompound (setup : Setup) (scope : Scope) {b : Block}
    (hb : b.isCompound = false) : Quiet (compileBlock setup scope b) := by
  cases b with
  | doLoop | forLoop | withTarget | routine => cases hb
  | exit kind line => exact quiet_exit kind line scope
  | consts items => exact quiet_items (fun item => quiet_const setup item scope) items
  | dim items => exact quiet_items (fun item => quiet_dim setup item scope) items
  | redim preserve items =>
    exact quiet_items (fun item => quiet_redim setup preserve item scope) items
  | onError mode line => exact quiet_onError mode line scope
  | statement run => exact quiet_statement setup run scope

theorem growing_blocks_of_forall {setup : Setup} {blocks : List Block}
    (h : ∀ b ∈ blocks, ∀ scope, Growing (compileBlock setup scope b)) (scope : Scope) :
    Growing (compileBlocks setup .all scope blocks) := by
  induction blocks with
  | nil => exact stepsBy_pure _
  | cons b rest ih =>
    refine (h b (by simp) scope).bind fun _ => ?_
    exact (ih fun c hc => h c (by simp [hc])).bind fun _ => stepsBy_pure _

theorem growing_level_of_forall {setup : Setup} {blocks : List Block}
    (h : ∀ b ∈ blocks, ∀ scope, Growing (compileBlock setup scope b)) (scope : Scope) :
    Growing (compileLevel setup blocks scope fun selection s =>
      compileBlocks setup selection s blocks) := by
  rw [compileLevel_eq]
  refine (stepsBy_ofExcept _).bind fun _ => (quiet_levelToken _ _ _).growing.bind fun _ => ?_
  refine (growing_blocks_of_forall (fun b hb => h b ?_) _).bind fun _ =>
    (growing_blocks_of_forall (fun b hb => h b ?_) _).bind fun _ => stepsBy_pure _
  · exact Block.mem_of_mem_framed hb
  · exact Block.mem_of_mem_unframed hb

/-- Compiling a block takes the session through steps, also where it fails. -/
theorem growing_block (setup : Setup) (scope : Scope) (b : Block) :
    Growing (compileBlock setup scope b) := by
  induction b using Block.nested_induction generalizing scope with
  | step b ih =>
    cases b with
    | doLoop test body =>
      refine (quiet_loopTest _ _ _).growing.bind fun _ => ?_
      refine (quiet_loopFlag _ _ _ _).growing.bind fun _ => ?_
      exact (growing_blocks_of_forall ih _).bind fun _ => stepsBy_pure _
    | forLoop counter first last step body =>
      refine (quiet_forHead _ _ _ _ _ _).growing.bind fun _ => ?_
      refine (quiet_freshTemporary _ (by decide) _).growing.bind fun _ => ?_
      refine (quiet_freshTemporary _ (by decide) _).growing.bind fun _ => ?_
      refine (quiet_loopFlag _ _ _ _).growing.bind fun _ => ?_
      exact (growing_blocks_of_forall ih _).bind fun _ => stepsBy_pure _
    | withTarget target body =>
      rw [compileBlock]
      split
      · exact stepsBy_throw _
      · refine (quiet_render _ _ _ _).growing.bind fun _ => ?_
        refine (growing_forM_reportUndeclared _).bind fun _ => ?_
        refine (quiet_freshTemporary _ (by decide) _).growing.bind fun _ => ?_
        exact (growing_blocks_of_forall ih _).bind fun _ => stepsBy_pure _
    | routine kind name parameters body =>
      rw [compileBlock]
      split
      · exact stepsBy_throw _
      · refine (stepsBy_ofExcept _).bind fun _ => ?_
        dsimp only
        split
        · exact stepsBy_pure _
        · refine (quiet_returnSlot _ _ _).growing.bind fun _ => ?_
          refine (growing_level_of_forall ih _).bind fun _ => ?_
          exact (growing_forM_reportUndeclared _).bind fun _ => stepsBy_pure _
    | exit | consts | dim | redim | onError | statement =>
      exact (quiet_of_not_isCompound setup scope rfl).growing

theorem growing_blocks (setup : Setup) (scope : Scope) (blocks : List Block) :
    Growing (compileBlocks setup .all scope blocks) :=
  growing_blocks_of_forall (fun b _ scope => growing_block setup scope b) scope

theorem growing_level (setup : Setup) (scope : Scope) (blocks : List Block) :
    Growing (compileLevel setup blocks scope fun selection s =>
      compileBlocks setup selection s blocks) :=
  growing_level_of_forall (fun b _ scope => growing_block setup scope b) scope

theorem growing_outermost (setup : Setup) (blocks : List Block) (scope : Scope) :
    Growing (compileOutermost setup blocks scope) :=
  (growing_level setup scope blocks).bind fun _ =>
    (growing_forM_reportUndeclared _).bind fun _ => stepsBy_pure _

structure Run where
  setup : Setup
  names : OutputNames
  scope : Scope
  blocks : List Block

/-- The session that the run leaves, whether it fails or not. -/
def Run.leaves (r : Run) (s : Session) : Session :=
  (runOutermost r.setup r.names r.scope r.blocks s).2

theorem Run.steps (r : Run) (s : Session) : Relation.ReflTransGen Session.Step s (r.leaves s) :=
  growing_outermost r.setup r.blocks r.scope s

end VbsCompiler
