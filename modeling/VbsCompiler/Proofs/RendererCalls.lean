import VbsCompiler.Proofs.Bindings
import VbsCompiler.Proofs.Names

/-! The calls of the renderer. The syntax of a program says which expressions it has, in which
order, and what is visible at each; a compilation asks the renderer for exactly these, and each in
a scope that agrees. -/

namespace VbsCompiler

open CompileM Block

/-- An expression of the source: what the renderer is asked for and the blocks around it. -/
structure Site where
  demand : Demand
  run : TokenRun
  around : List Block
  /-- The name that the statement declares, if the expression is just that. -/
  declared : Option Name := none

section Sites

variable (naming : Naming) (environment : List Name) (program : List Block)

def refersToConstant (around : List Block) (n : Name) : Bool :=
  (lookup naming environment program around (naming n)).any (·.1 = .constant)

namespace Block

def valueSites (around : List Block) (runs : List TokenRun) : List Site :=
  runs.map (⟨.value, ·, around, none⟩)

def declaredSite (around : List Block) (n : Name) : Site :=
  ⟨.reference, n.run, around, some n⟩

def constSites (around : List Block) (item : ConstItem) : List Site :=
  [declaredSite around item.name, ⟨.value, item.value, around, none⟩]

/-- Only a variable with bounds is rendered. -/
def dimSites (around : List Block) (item : DimItem) : List Site :=
  match item.bounds with
  | none => []
  | some bounds => declaredSite around item.name :: valueSites around bounds

/-- A constant is not rendered, since it cannot be assigned. -/
def redimSites (around : List Block) (item : RedimItem) : List Site :=
  valueSites around item.bounds ++
    if refersToConstant naming environment program around item.name then []
    else [declaredSite around item.name]

mutual

/-- The expressions of a block inside the blocks `around`, in the order in which they are
rendered. -/
def sites (around : List Block) : Block → List Site
  | .doLoop test body =>
    (test.toList.map fun t => ⟨.boolean, t.condition, around, none⟩) ++
      allSites (.doLoop test body :: around) body
  | .forLoop counter first last step body =>
    ⟨.reference, counter.run, around, none⟩ ::
      valueSites around (first :: last :: step.toList) ++
      allSites (.forLoop counter first last step body :: around) body
  | .withTarget target body =>
    ⟨.reference, target, around, none⟩ :: allSites (.withTarget target body :: around) body
  | .routine kind name parameters body =>
    allSites (.routine kind name parameters body :: around) body
  | .consts items => items.flatMap (constSites around)
  | .dim items => items.flatMap (dimSites around)
  | .redim _ items => items.flatMap (redimSites naming environment program around)
  | .exit .. => []
  | .onError .. => []
  | .statement run => [⟨.statement, run, around, none⟩]

def allSites (around : List Block) : List Block → List Site
  | [] => []
  | b :: rest => b.sites around ++ allSites around rest

end

end Block

/-- The expressions of a program. Where the outermost level has an ON ERROR statement, its routines
come after everything else. -/
def programSites : List Site :=
  allSites naming environment program [] (framed program ++ unframed program)

end Sites

/-- The scope is the one that the syntax gives a point inside the blocks `around`. The temporary
for bare member accesses is bound in the emitted code to the rendering of the innermost WITH
target, made where that WITH block stands; `known` are the bindings of the emitted code. -/
structure Scope.Matches (setup : Setup) (environment : List Name) (program : List Block)
    (known : Binding → Prop) (around : List Block) (scope : Scope) : Prop where
  fits : scope.Fits program around
  resolves : ∀ n, scope.resolve setup.naming n =
    lookup setup.naming environment program around (setup.naming n)
  bound : ∀ w ∈ scope.withReference, ∃ target outer inner r,
    withAround around = some (target, outer) ∧ inner.Fits program outer ∧
      setup.renderer .reference target inner = .ok r ∧ known ⟨w.line, w.target, r.fragment inner⟩

structure Site.Rendered (setup : Setup) (environment : List Name) (program : List Block)
    (known : Binding → Prop) (site : Site) (call : RendererCall) : Prop where
  demand : call.demand = site.demand
  run : call.run = site.run
  result : ∃ r, setup.renderer site.demand site.run call.scope = .ok r ∧ call.result = .ok r
  scope : call.scope.Matches setup environment program known site.around

def RendererCall.undeclared (call : RendererCall) (naming : Naming) : List Name :=
  match call.result with
  | .ok r => r.undeclared naming call.scope
  | .error _ => []

structure Scope.SameLevel (naming : Naming) (level scope : Scope) : Prop where
  owner : scope.owner = level.owner
  resolve : ∀ n, scope.resolve naming n = level.resolve naming n

/-- What holds of a call for an expression: it renders it, at the level of the given scope, and a
name that is just declared is one that the level has. -/
structure Site.CalledAt (setup : Setup) (environment : List Name) (program : List Block)
    (known : Binding → Prop) (level : Scope) (site : Site) (call : RendererCall) : Prop where
  rendered : site.Rendered setup environment program known call
  sameLevel : level.SameLevel setup.naming call.scope
  declared : ∀ n, site.declared = some n →
    site = declaredSite site.around n ∧ (level.resolve setup.naming n).isSome = true

/-- Between two points of a compilation the renderer was called for the given expressions, all of
one level. The undeclared names that the calls found, those for names just declared apart, are
`names`. -/
structure Traced (setup : Setup) (environment : List Name) (program : List Block)
    (known : Binding → Prop) (level : Scope) (sites : List Site) (before after : List RendererCall)
    (names : List Name) : Prop where
  calls : ∃ pairs : List (Site × RendererCall), pairs.map Prod.fst = sites ∧
    after = before ++ pairs.map Prod.snd ∧
    (∀ p ∈ pairs, p.1.CalledAt setup environment program known level p.2) ∧
    ∀ n, n ∈ names ↔ ∃ p ∈ pairs, p.1.declared = none ∧ n ∈ p.2.undeclared setup.naming

section Traced

variable {setup : Setup} {environment : List Name} {program around : List Block}
  {known : Binding → Prop} {level scope : Scope}

theorem traced_nil (calls : List RendererCall) :
    Traced setup environment program known level [] calls calls [] :=
  ⟨[], rfl, (List.append_nil _).symm, by simp, by simp⟩

theorem Traced.append {sites more : List Site} {before mid after : List RendererCall}
    {names later : List Name}
    (h : Traced setup environment program known level sites before mid names)
    (hmore : Traced setup environment program known level more mid after later) :
    Traced setup environment program known level (sites ++ more) before after (names ++ later) := by
  obtain ⟨pairs, rfl, rfl, hpairs, hnames⟩ := h
  obtain ⟨rest, rfl, rfl, hrest, hlater⟩ := hmore
  refine ⟨pairs ++ rest, by simp, by simp, fun p hp => ?_, fun n => ?_⟩
  · rcases List.mem_append.mp hp with hp | hp
    · exact hpairs p hp
    · exact hrest p hp
  · simp only [List.mem_append, hnames, hlater, or_and_right, exists_or]

theorem Traced.congr {sites : List Site} {before after : List RendererCall}
    {names names' : List Name}
    (h : Traced setup environment program known level sites before after names)
    (hnames : ∀ n, n ∈ names ↔ n ∈ names') :
    Traced setup environment program known level sites before after names' := by
  obtain ⟨pairs, hsites, hafter, hpairs, hn⟩ := h
  exact ⟨pairs, hsites, hafter, hpairs, fun n => (hnames n).symm.trans (hn n)⟩

theorem Traced.atLevel {inner : Scope} {sites : List Site} {before after : List RendererCall}
    {names : List Name} (h : Traced setup environment program known inner sites before after names)
    (hlevel : level.SameLevel setup.naming inner) :
    Traced setup environment program known level sites before after names := by
  obtain ⟨pairs, hsites, hafter, hpairs, hnames⟩ := h
  refine ⟨pairs, hsites, hafter, fun p hp => ⟨(hpairs p hp).rendered, ?_, fun n hn => ?_⟩, hnames⟩
  · have hsame := (hpairs p hp).sameLevel
    exact ⟨hsame.owner.trans hlevel.owner, fun n => (hsame.resolve n).trans (hlevel.resolve n)⟩
  · rw [← hlevel.resolve]
    exact (hpairs p hp).declared n hn

theorem traced_call (hscope : scope.Matches setup environment program known around)
    {demand : Demand} {run : TokenRun} {r : Rendering}
    (hr : setup.renderer demand run scope = .ok r) (calls : List RendererCall) :
    Traced setup environment program known scope [⟨demand, run, around, none⟩] calls
      (calls ++ [⟨demand, run, scope, .ok r⟩]) (r.undeclared setup.naming scope) := by
  refine ⟨[(_, _)], rfl, rfl, ?_, ?_⟩
  · simp only [List.mem_singleton, forall_eq]
    exact ⟨⟨rfl, rfl, ⟨r, hr, rfl⟩, hscope⟩, ⟨rfl, fun _ => rfl⟩, nofun⟩
  · simp [RendererCall.undeclared]

theorem traced_declared (hscope : scope.Matches setup environment program known around)
    {n : Name} {r : Rendering} (hr : setup.renderer .reference n.run scope = .ok r)
    (hvisible : (scope.resolve setup.naming n).isSome = true) (calls : List RendererCall) :
    Traced setup environment program known scope [declaredSite around n] calls
      (calls ++ [⟨.reference, n.run, scope, .ok r⟩]) [] := by
  refine ⟨[(_, _)], rfl, rfl, ?_, by simp⟩
  simp only [List.mem_singleton, forall_eq]
  refine ⟨⟨rfl, rfl, ⟨r, hr, rfl⟩, hscope⟩, ⟨rfl, fun _ => rfl⟩, ?_⟩
  rintro _ ⟨⟩
  exact ⟨rfl, hvisible⟩

theorem traced_values (hscope : scope.Matches setup environment program known around)
    {runs : List TokenRun} {rs : List Rendering}
    (hrs : List.Forall₂ (fun run r => setup.renderer .value run scope = .ok r) runs rs)
    (calls : List RendererCall) :
    Traced setup environment program known scope (valueSites around runs) calls
      (calls ++ List.zipWith (fun run r => ⟨.value, run, scope, .ok r⟩) runs rs)
      (rs.flatMap (·.undeclared setup.naming scope)) := by
  induction hrs generalizing calls with
  | nil => simpa [valueSites] using traced_nil calls
  | cons hr _ ih => simpa [valueSites] using (traced_call hscope hr calls).append (ih _)

theorem traced_statement (hscope : scope.Matches setup environment program known around)
    {run : TokenRun} {s t : Session} {out : Output Code}
    (h : Gives (compileStatement setup run scope) s out t) :
    Traced setup environment program known scope [⟨.statement, run, around, none⟩] s.calls
      t.calls out.undeclared := by
  obtain ⟨r, hr, rfl, rfl⟩ := gives_statement h
  exact traced_call hscope hr s.calls

theorem traced_const (hscope : scope.Matches setup environment program known around)
    {item : ConstItem} {s t : Session} {out : Output Code}
    (hvisible : (scope.resolve setup.naming item.name).isSome = true)
    (h : Gives (compileConst setup item scope) s out t) :
    Traced setup environment program known scope (constSites around item) s.calls t.calls
      out.undeclared := by
  obtain ⟨target, value, htarget, hvalue, rfl, rfl⟩ := gives_const h
  simpa [constSites] using
    (traced_declared hscope htarget hvisible s.calls).append (traced_call hscope hvalue _)

theorem traced_dim (hscope : scope.Matches setup environment program known around)
    {item : DimItem} {s t : Session} {out : Output Code}
    (hvisible : (scope.resolve setup.naming item.name).isSome = true)
    (h : Gives (compileDim setup item scope) s out t) :
    Traced setup environment program known scope (dimSites around item) s.calls t.calls
      out.undeclared := by
  obtain ⟨hbounds, rfl, rfl⟩ | ⟨bounds, target, rs, hbounds, htarget, hrs, rfl, rfl⟩ := gives_dim h
  · rw [dimSites, hbounds]
    exact traced_nil _
  · rw [dimSites, hbounds]
    simpa using
      (traced_declared hscope htarget hvisible s.calls).append (traced_values hscope hrs _)

theorem refersToConstant_iff (hscope : scope.Matches setup environment program known around)
    (n : Name) : refersToConstant setup.naming environment program around n = true ↔
      ∃ location, scope.resolve setup.naming n = some (.constant, location) := by
  rw [refersToConstant, ← hscope.resolves]
  simp [Option.any_eq_true]

theorem traced_redim (hscope : scope.Matches setup environment program known around)
    {preserve : Bool} {item : RedimItem} {s t : Session} {out : Output Code}
    (hvisible : (scope.resolve setup.naming item.name).isSome = true)
    (h : Gives (compileRedim setup preserve item scope) s out t) :
    Traced setup environment program known scope
      (redimSites setup.naming environment program around item) s.calls t.calls
      out.undeclared := by
  obtain ⟨rs, hrs, -, hnames, ⟨hconstant, rfl, -⟩ | ⟨hconstant, target, htarget, rfl, -⟩⟩ :=
    gives_redim h
  · rw [redimSites, (refersToConstant_iff hscope item.name).mpr hconstant, hnames]
    simpa using traced_values hscope hrs s.calls
  · have hnot : refersToConstant setup.naming environment program around item.name = false := by
      rw [Bool.eq_false_iff, Ne, refersToConstant_iff hscope]
      exact fun ⟨location, h⟩ => hconstant location h
    rw [redimSites, hnot, hnames]
    simpa using
      (traced_values hscope hrs s.calls).append (traced_declared hscope htarget hvisible _)

theorem traced_items {α : Type} {f : α → CompileM (Output Code)} {sitesOf : α → List Site}
    {items : List α} (h : ∀ a ∈ items, ∀ {s t out}, Gives (f a) s out t →
      Traced setup environment program known level (sitesOf a) s.calls t.calls out.undeclared)
    {s t : Session} {out : Output Code} (hitems : Gives (compileItems f items) s out t) :
    Traced setup environment program known level (items.flatMap sitesOf) s.calls t.calls
      out.undeclared := by
  induction items generalizing s out with
  | nil =>
    obtain ⟨rfl, rfl⟩ := gives_pure.mp hitems
    exact traced_nil _
  | cons a rest ih =>
    obtain ⟨here, u, later, hhere, hlater, rfl⟩ := gives_compileItems_cons.mp hitems
    exact (h a List.mem_cons_self hhere).append
      (ih (fun c hc => h c (List.mem_cons_of_mem _ hc)) hlater)

theorem traced_loopTest (hscope : scope.Matches setup environment program known around)
    {test : Option LoopTest} {s t : Session} {head : LoopHead} {names : List Name}
    (h : Gives (compileLoopTest setup test scope) s (head, names) t) :
    Traced setup environment program known scope
      (test.toList.map fun t => ⟨.boolean, t.condition, around, none⟩) s.calls t.calls names := by
  obtain ⟨rfl, -, rfl, rfl⟩ | ⟨test, r, rfl, hr, rfl, rfl, -⟩ := gives_loopTest h
  · exact traced_nil _
  · exact traced_call hscope hr _

theorem traced_forHead (hscope : scope.Matches setup environment program known around)
    {counter : Name} {first last : TokenRun} {step : Option TokenRun} {head : ForHead}
    (h : head.RenderedFrom setup scope counter first last step) (s : Session) :
    Traced setup environment program known scope
      (⟨.reference, counter.run, around, none⟩ ::
        valueSites around (first :: last :: step.toList)) s.calls
      (s.called (head.calls scope counter first last step)).calls
      (head.undeclared setup.naming scope) := by
  have hvalues := traced_values hscope (.cons h.first (.cons h.last h.step))
  simpa [ForHead.calls, ForHead.undeclared] using
    (traced_call hscope h.counter s.calls).append (hvalues _)

theorem Scope.Matches.insideDo (h : scope.Matches setup environment program known around)
    (test : Option LoopTest) (body : List Block) (flag : Option Ident) :
    (scope.insideLoop ⟨.doLoop, flag⟩).Matches setup environment program known
      (.doLoop test body :: around) :=
  ⟨h.fits.insideDo test body flag, h.resolves, h.bound⟩

theorem Scope.Matches.insideFor (h : scope.Matches setup environment program known around)
    (counter : Name) (first last : TokenRun) (step : Option TokenRun) (body : List Block)
    (flag : Option Ident) :
    (scope.insideLoop ⟨.forLoop, flag⟩).Matches setup environment program known
      (.forLoop counter first last step body :: around) :=
  ⟨h.fits.insideFor counter first last step body flag, h.resolves, h.bound⟩

theorem Scope.Matches.insideWith (h : scope.Matches setup environment program known around)
    {target : TokenRun} {line : Nat} (hline : target.firstLine = some line) {name : Ident}
    {r : Rendering} (hr : setup.renderer .reference target scope = .ok r)
    (hknown : known ⟨line, name, r.fragment scope⟩) (body : List Block) :
    (scope.insideWith ⟨name, line⟩).Matches setup environment program known
      (.withTarget target body :: around) := by
  refine ⟨h.fits.insideWith hline body name, h.resolves, ?_⟩
  rintro w ⟨⟩
  exact ⟨target, around, scope, r, rfl, h.fits, hr, hknown⟩

end Traced

section Blocks

variable {setup : Setup} {environment : List Name} {program : List Block} {known : Binding → Prop}

def CallsSites (setup : Setup) (environment : List Name) (program : List Block)
    (known : Binding → Prop) (b : Block) : Prop :=
  ∀ {around : List Block} {scope : Scope} {s t : Session} {out : Output Code},
    scope.Matches setup environment program known around →
    (scope.enclosure = .outermost → b.isRoutine = false) →
    (∀ e ∈ b.events scope.location, (scope.resolve setup.naming e.name).isSome = true) →
    (∀ binding ∈ Code.allBindings out.statements, known binding) →
    Gives (compileBlock setup scope b) s out t →
    Traced setup environment program known scope
      (b.sites setup.naming environment program around) s.calls t.calls out.undeclared

theorem callsSites_blocks {blocks around : List Block}
    (h : ∀ b ∈ blocks, CallsSites setup environment program known b) {scope : Scope}
    {s t : Session} {out : Output Code}
    (hscope : scope.Matches setup environment program known around)
    (hplace : scope.enclosure = .outermost → ∀ b ∈ blocks, b.isRoutine = false)
    (hvisible : ∀ e ∈ allEvents scope.location blocks,
      (scope.resolve setup.naming e.name).isSome = true)
    (hknown : ∀ binding ∈ Code.allBindings out.statements, known binding)
    (hgives : Gives (compileBlocks setup .all scope blocks) s out t) :
    Traced setup environment program known scope
      (allSites setup.naming environment program around blocks) s.calls t.calls out.undeclared := by
  induction blocks generalizing s out with
  | nil =>
    obtain ⟨rfl, rfl⟩ := gives_pure.mp hgives
    exact traced_nil _
  | cons b rest ih =>
    obtain ⟨here, u, later, hhere, hlater, rfl⟩ := gives_compileBlocks_cons.mp hgives
    simp only [Output.statements_append, Code.allBindings_append, List.mem_append] at hknown
    simp only [allEvents, List.mem_append] at hvisible
    have hfirst := h b List.mem_cons_self hscope (fun ho => hplace ho b List.mem_cons_self)
      (fun e he => hvisible e (.inl he)) (fun binding hb => hknown binding (.inl hb)) hhere
    exact hfirst.append (ih (fun c hc => h c (List.mem_cons_of_mem _ hc))
      (fun ho c hc => hplace ho c (List.mem_cons_of_mem _ hc)) (fun e he => hvisible e (.inr he))
      (fun binding hb => hknown binding (.inr hb)) hlater)

theorem callsSites_doLoop {test : Option LoopTest} {body : List Block}
    (ih : ∀ c ∈ body, CallsSites setup environment program known c) :
    CallsSites setup environment program known (.doLoop test body) := by
  intro around scope s t out hscope _ hvisible hknown h
  obtain ⟨head, names, u, flag, v, inner, hhead, hflag, hinner, rfl⟩ := gives_doLoop h
  have hknown' : ∀ binding ∈ Code.allBindings inner.statements, known binding := by
    intro binding hb
    refine hknown binding ?_
    simp [Output.mapStatements, Code.allBindings, Code.bindings, hb]
  have hbody := callsSites_blocks ih (hscope.insideDo test body flag)
    (fun ho => absurd ho (insideLoop_ne_outermost _ _)) hvisible hknown' hinner
  rw [(loopFlag_fresh hflag).2.1] at hbody
  exact (traced_loopTest hscope hhead).append (hbody.atLevel ⟨rfl, fun _ => rfl⟩)

theorem callsSites_forLoop {counter : Name} {first last : TokenRun} {step : Option TokenRun}
    {body : List Block} (ih : ∀ c ∈ body, CallsSites setup environment program known c) :
    CallsSites setup environment program known (.forLoop counter first last step body) := by
  intro around scope s t out hscope _ hvisible hknown h
  obtain ⟨head, lastName, u, stepName, v, flag, w, inner, hhead, hlast, hstep, hflag, hinner,
    rfl⟩ := gives_forLoop h
  have hknown' : ∀ binding ∈ Code.allBindings inner.statements, known binding := by
    intro binding hb
    refine hknown binding ?_
    simp [Output.mapStatements, Code.allBindings, Code.bindings, hb]
  have hbody := callsSites_blocks ih (hscope.insideFor counter first last step body flag)
    (fun ho => absurd ho (insideLoop_ne_outermost _ _)) hvisible hknown' hinner
  obtain ⟨_, -, -, rfl⟩ := gives_freshTemporary.mp hlast
  obtain ⟨_, -, -, rfl⟩ := gives_freshTemporary.mp hstep
  rw [(loopFlag_fresh hflag).2.1] at hbody
  exact (traced_forHead hscope hhead s).append (hbody.atLevel ⟨rfl, fun _ => rfl⟩)

theorem callsSites_withTarget {target : TokenRun} {body : List Block}
    (ih : ∀ c ∈ body, CallsSites setup environment program known c) :
    CallsSites setup environment program known (.withTarget target body) := by
  intro around scope s t out hscope _ hvisible hknown h
  obtain ⟨line, r, name, u, inner, hline, hr, hname, hinner, rfl⟩ := gives_withTarget h
  have hknown' : ∀ binding ∈ (⟨line, name, r.fragment scope⟩ : Binding) ::
      Code.allBindings inner.statements, known binding := hknown
  have hbody := callsSites_blocks ih
    (hscope.insideWith hline hr (hknown' _ List.mem_cons_self) body) (fun ho => nomatch ho)
    hvisible (fun binding hb => hknown' binding (List.mem_cons_of_mem _ hb)) hinner
  obtain ⟨_, -, -, rfl⟩ := gives_freshTemporary.mp hname
  rw [Session.allocated_calls, Session.foldl_reported_calls] at hbody
  have hinside : Traced setup environment program known scope _ _ _ _ :=
    hbody.atLevel ⟨rfl, fun _ => rfl⟩
  refine ((traced_call hscope hr s.calls).append hinside).congr fun n => ?_
  simp [Output.pushFront, Output.addUndeclared, or_comm]

theorem callsSites_block (b : Block) : CallsSites setup environment program known b := by
  induction b using Block.nested_induction with
  | step b ih =>
    cases b with
    | doLoop test body => exact callsSites_doLoop ih
    | forLoop counter first last step body => exact callsSites_forLoop ih
    | withTarget target body => exact callsSites_withTarget ih
    | routine kind name parameters body =>
      intro around scope s t out _ hplace _ _ h
      cases hplace (gives_routine h).1
    | exit kind line =>
      intro around scope s t out _ _ _ _ h
      rw [compileBlock] at h
      obtain ⟨rfl, ⟨kind, codes, -, -, rfl⟩ | ⟨-, -, rfl⟩⟩ := gives_exit h
      · exact traced_nil _
      · exact traced_nil _
    | consts items =>
      intro around scope s t out hscope _ hvisible _ h
      rw [compileBlock] at h
      refine traced_items (fun item hitem => traced_const hscope ?_) h
      exact hvisible (.declares .constant item.name) (List.mem_map_of_mem hitem)
    | dim items =>
      intro around scope s t out hscope _ hvisible _ h
      rw [compileBlock] at h
      refine traced_items (fun item hitem => traced_dim hscope ?_) h
      exact hvisible (.declares .variable item.name) (List.mem_map_of_mem hitem)
    | redim preserve items =>
      intro around scope s t out hscope _ hvisible _ h
      rw [compileBlock] at h
      refine traced_items (fun item hitem => traced_redim hscope ?_) h
      exact hvisible (.redims item.name) (List.mem_map_of_mem hitem)
    | onError mode line =>
      intro around scope s t out _ _ _ _ h
      rw [compileBlock] at h
      obtain ⟨token, -, rfl, rfl⟩ := gives_onError h
      exact traced_nil _
    | statement run =>
      intro around scope s t out hscope _ _ _ h
      rw [compileBlock] at h
      exact traced_statement hscope h

theorem framed_eq_self_of_gives {blocks : List Block} {scope : Scope} {s t : Session}
    {out : Output Code} (hplace : scope.enclosure ≠ .outermost)
    (h : Gives (compileBlocks setup .all scope (unframed blocks)) s out t) :
    framed blocks = blocks ∧ out = {} ∧ t = s := by
  have hnil : unframed blocks = [] := by
    cases hu : unframed blocks with
    | nil => rfl
    | cons b rest =>
      rw [hu] at h
      obtain ⟨here, u, later, hhere, -, -⟩ := gives_compileBlocks_cons.mp h
      have hroutine : b.isRoutine = true := by
        have hb : b ∈ unframed blocks := hu ▸ List.mem_cons_self
        unfold unframed at hb
        split at hb
        · exact (List.mem_filter.mp hb).2
        · cases hb
      cases b <;> try cases hroutine
      exact absurd (gives_routine hhere).1 hplace
  rw [hnil] at h
  refine ⟨?_, gives_pure.mp h⟩
  unfold unframed at hnil
  unfold framed
  split
  case isTrue htraps =>
    rw [if_pos htraps, List.filter_eq_nil_iff] at hnil
    exact List.filter_eq_self.mpr fun b hb => by simpa using hnil b hb
  case isFalse => rfl

end Blocks

section Program

variable {setup : Setup} {environment : List Name} {program : List Block} {known : Binding → Prop}
  {hoisted : Hoisted}

theorem matches_outermost (known : Binding → Prop)
    (hok : hoist setup.naming (.outermost environment) program = .ok hoisted)
    {token : Option Ident} (htoken : token.isSome = anyTrapsErrors program) :
    (((Scope.outermost environment).declare hoisted).trappedBy token).Matches setup environment
      program known [] := by
  refine ⟨fits_outermost environment hoisted htoken, fun n => ?_, ?_⟩
  · rw [resolve_trappedBy]
    exact resolve_outermost hok n
  · cases token <;> rintro w ⟨⟩

theorem matches_routine (known : Binding → Prop)
    (hok : hoist setup.naming (.outermost environment) program = .ok hoisted)
    {kind : RoutineKind} {name : Name} {slot token : Option Ident} {parameters : List Parameter}
    {body : List Block} {inner : Hoisted}
    (hinner : hoist setup.naming (((Scope.outermost environment).declare hoisted).insideRoutine kind
      name slot parameters) body = .ok inner)
    (hslot : slot.isSome ↔ kind = .function) (htoken : token.isSome = anyTrapsErrors body) :
    (((((Scope.outermost environment).declare hoisted).insideRoutine kind name slot
      parameters).declare inner).trappedBy token).Matches setup environment program known
      [.routine kind name parameters body] := by
  refine ⟨fits_routine program [] _ kind name parameters inner hslot htoken, fun n => ?_, ?_⟩
  · rw [resolve_trappedBy]
    exact resolve_routine hok hinner n
  · cases token <;> rintro w ⟨⟩

theorem isSome_levelToken {blocks : List Block} {scope : Scope} {s t : Session}
    {token : Option Ident} (h : Gives (levelToken setup blocks scope) s token t) :
    token.isSome = anyTrapsErrors blocks ∧ t.calls = s.calls := by
  obtain ⟨htraps, rfl, rfl⟩ | ⟨htraps, id, rfl, hid⟩ := gives_levelToken h
  · exact ⟨htraps.symm, rfl⟩
  · obtain ⟨_, -, -, rfl⟩ := gives_freshTemporary.mp hid
    exact ⟨htraps.symm, rfl⟩

theorem isSome_returnSlot {kind : RoutineKind} {scope : Scope} {s t : Session}
    {slot : Option Ident} (h : Gives (returnSlot setup kind scope) s slot t) :
    (slot.isSome ↔ kind = .function) ∧ t.calls = s.calls := by
  obtain ⟨rfl, rfl, rfl⟩ | ⟨rfl, id, rfl, hid⟩ := gives_returnSlot h
  · exact ⟨by simp, rfl⟩
  · obtain ⟨_, -, -, rfl⟩ := gives_freshTemporary.mp hid
    exact ⟨by simp, rfl⟩

/-- The body of a routine as compiled: it calls the renderer for the expressions of the body, and
declares what is hoisted from it. -/
theorem traced_routineBody
    (hok : hoist setup.naming (.outermost environment) program = .ok hoisted)
    {kind : RoutineKind} {name : Name} {slot : Option Ident} {parameters : List Parameter}
    {body : List Block} {s t : Session} {level : Output Code}
    (hmem : .routine kind name parameters body ∈ program)
    (hslot : slot.isSome ↔ kind = .function)
    (hknown : ∀ binding ∈ Code.allBindings level.statements, known binding)
    (h : Gives (compileLevel setup body (((Scope.outermost environment).declare
      hoisted).insideRoutine kind name slot parameters) fun selection s =>
        compileBlocks setup selection s body) s level t) :
    ∃ inner, hoist setup.naming (((Scope.outermost environment).declare hoisted).insideRoutine kind
        name slot parameters) body = .ok inner ∧ level.declarations = inner.stored ∧
      Traced setup environment program known
        ((((Scope.outermost environment).declare hoisted).insideRoutine kind name slot
          parameters).declare inner)
        ((Block.routine kind name parameters body).sites setup.naming environment program [])
        s.calls t.calls level.undeclared := by
  obtain ⟨inner, token, u, out, v, routines, hinner, htoken, hout, hroutines, rfl⟩ := gives_level h
  obtain ⟨htoken, hcalls⟩ := isSome_levelToken htoken
  have hscope := matches_routine known hok hinner hslot htoken
  have hplace : (((((Scope.outermost environment).declare hoisted).insideRoutine kind name slot
      parameters).declare inner).trappedBy token).enclosure ≠ .outermost :=
    fun ho => nomatch hscope.fits.outermost.mp ho
  have hvisible : ∀ e ∈ allEvents .function body, ((((((Scope.outermost environment).declare
      hoisted).insideRoutine kind name slot parameters).declare inner).trappedBy token).resolve
        setup.naming e.name).isSome = true := by
    intro e he
    rw [hscope.resolves]
    exact isSome_lookup_of_mem_events
      (isSome_outerLookup_routine setup.naming environment hmem) he
  obtain ⟨hframed, rfl, rfl⟩ := framed_eq_self_of_gives hplace hroutines
  rw [hframed] at hout
  rw [Output.append_empty] at hknown ⊢
  have htraced := callsSites_blocks (fun b _ => callsSites_block b) hscope
    (fun ho => absurd ho hplace)
    (by rwa [location_trappedBy, location_declare, location_insideRoutine])
    (by simpa [Output.mapStatements, Output.addDeclarations] using hknown) hout
  rw [hcalls] at htraced
  have hdeclarations := declarations_blocks (fun _ _ => declarations_block) hout
  refine ⟨inner, hinner, by simp [Output.addDeclarations, Output.mapStatements, hdeclarations], ?_⟩
  exact htraced.atLevel ⟨by cases token <;> rfl, resolve_trappedBy _ token⟩

theorem traced_routine
    (hok : hoist setup.naming (.outermost environment) program = .ok hoisted)
    {token : Option Ident} {kind : RoutineKind} {name : Name} {parameters : List Parameter}
    {body : List Block} {s t : Session} {out : Output Code}
    (hmem : .routine kind name parameters body ∈ program)
    (hknown : ∀ binding ∈ Code.allBindings out.statements, known binding)
    (h : Gives (compileBlock setup (((Scope.outermost environment).declare hoisted).trappedBy token)
      (.routine kind name parameters body)) s out t) :
    ∃ (slot : Option Ident) (inner : Hoisted) (level : Output Code) (result : MethodResult),
      hoist setup.naming (((Scope.outermost environment).declare hoisted).insideRoutine kind name
        slot parameters) body = .ok inner ∧ level.declarations = inner.stored ∧
      Traced setup environment program known
        ((((Scope.outermost environment).declare hoisted).insideRoutine kind name slot
          parameters).declare inner)
        ((Block.routine kind name parameters body).sites setup.naming environment program [])
        s.calls t.calls level.undeclared ∧
      out = .ofStatements [.method (methodHead setup.naming kind name parameters)
        (level.localIdents setup.naming) ((level.undeclaredLocals setup.naming).map setup.naming)
        level.statements result] := by
  obtain ⟨-, -, ⟨rfl, rfl, rfl⟩ | ⟨hbody, slot, u, level, v, hslot, hlevel, hmethod⟩⟩ :=
    gives_routine h
  · exact ⟨none, {}, {}, _, rfl, rfl, traced_nil _, rfl⟩
  · obtain ⟨rfl, rfl⟩ := gives_method hmethod
    obtain ⟨hslot, hcalls⟩ := isSome_returnSlot hslot
    have hlevel' : Gives (compileLevel setup body (((Scope.outermost environment).declare
        hoisted).insideRoutine kind name slot parameters) fun selection s =>
          compileBlocks setup selection s body) u level v := by
      cases token <;> exact hlevel
    obtain ⟨inner, hinner, hdeclarations, htraced⟩ := traced_routineBody hok hmem hslot
      (by simpa [Output.ofStatements, Code.allBindings, Code.bindings] using hknown) hlevel'
    rw [hcalls] at htraced
    refine ⟨slot, inner, level, _, hinner, hdeclarations, ?_, rfl⟩
    simpa using htraced

theorem traced_outermost
    (hok : hoist setup.naming (.outermost environment) program = .ok hoisted)
    {token : Option Ident} (htoken : token.isSome = anyTrapsErrors program) {b : Block}
    (hmem : b ∈ program) (hb : b.isRoutine = false) {s t : Session} {out : Output Code}
    (hknown : ∀ binding ∈ Code.allBindings out.statements, known binding)
    (h : Gives (compileBlock setup (((Scope.outermost environment).declare hoisted).trappedBy token)
      b) s out t) :
    Traced setup environment program known ((Scope.outermost environment).declare hoisted)
      (b.sites setup.naming environment program []) s.calls t.calls out.undeclared := by
  have hscope := matches_outermost known hok htoken
  have hvisible : ∀ e ∈ b.events .outermost, ((((Scope.outermost environment).declare
      hoisted).trappedBy token).resolve setup.naming e.name).isSome = true := by
    intro e he
    rw [hscope.resolves]
    exact isSome_outerLookup_of_mem_events _ _ (mem_allEvents.mpr ⟨b, hmem, he⟩)
  have htraced := callsSites_block b hscope (fun _ => hb)
    (by rwa [location_trappedBy, location_declare]) hknown h
  exact htraced.atLevel ⟨by cases token <;> rfl, resolve_trappedBy _ token⟩

theorem Traced.rendered {level : Scope} {sites : List Site} {before after : List RendererCall}
    {names : List Name}
    (h : Traced setup environment program known level sites before after names) :
    ∃ calls, after = before ++ calls ∧
      List.Forall₂ (Site.Rendered setup environment program known) sites calls := by
  obtain ⟨pairs, rfl, hafter, hpairs, -⟩ := h
  refine ⟨_, hafter, ?_⟩
  clear hafter
  induction pairs with
  | nil => exact .nil
  | cons p rest ih =>
    exact .cons (hpairs p List.mem_cons_self).rendered
      (ih fun q hq => hpairs q (List.mem_cons_of_mem _ hq))

theorem rendered_blocks (hok : hoist setup.naming (.outermost environment) program = .ok hoisted)
    {token : Option Ident} (htoken : token.isSome = anyTrapsErrors program) {blocks : List Block}
    (hmem : ∀ b ∈ blocks, b ∈ program) {s t : Session} {out : Output Code}
    (hknown : ∀ binding ∈ Code.allBindings out.statements, known binding)
    (h : Gives (compileBlocks setup .all
      (((Scope.outermost environment).declare hoisted).trappedBy token) blocks) s out t) :
    ∃ calls, t.calls = s.calls ++ calls ∧
      List.Forall₂ (Site.Rendered setup environment program known)
        (allSites setup.naming environment program [] blocks) calls := by
  induction blocks generalizing s out with
  | nil =>
    obtain ⟨rfl, rfl⟩ := gives_pure.mp h
    exact ⟨[], (List.append_nil _).symm, .nil⟩
  | cons b rest ih =>
    obtain ⟨here, u, later, hhere, hlater, rfl⟩ := gives_compileBlocks_cons.mp h
    simp only [Output.statements_append, Code.allBindings_append, List.mem_append] at hknown
    have hfirst : ∃ calls, u.calls = s.calls ++ calls ∧
        List.Forall₂ (Site.Rendered setup environment program known)
          (b.sites setup.naming environment program []) calls := by
      by_cases hb : b.isRoutine = true
      · cases b <;> try cases hb
        obtain ⟨slot, inner, level, result, -, -, htraced, -⟩ :=
          traced_routine hok (hmem _ List.mem_cons_self)
            (fun binding hb => hknown binding (.inl hb)) hhere
        exact htraced.rendered
      · exact (traced_outermost hok htoken (hmem b List.mem_cons_self) (by simpa using hb)
          (fun binding hb => hknown binding (.inl hb)) hhere).rendered
    obtain ⟨calls, hcalls, hsites⟩ := hfirst
    obtain ⟨more, hmore, hrest⟩ := ih (fun c hc => hmem c (List.mem_cons_of_mem _ hc))
      (fun binding hb => hknown binding (.inr hb)) hlater
    exact ⟨calls ++ more, by rw [hmore, hcalls, List.append_assoc], List.rel_append hsites hrest⟩

theorem allSites_append (naming : Naming) (environment : List Name) (program around : List Block)
    (blocks more : List Block) :
    allSites naming environment program around (blocks ++ more) =
      allSites naming environment program around blocks ++
        allSites naming environment program around more := by
  induction blocks with
  | nil => rfl
  | cons b rest ih => simp [allSites, ih]

/-- In a level the calls of the renderer and the expressions correspond one to one. -/
theorem rendered_level {s t : Session} {level : Output Code}
    (hknown : ∀ binding ∈ Code.allBindings level.statements, known binding)
    (h : Gives (compileLevel setup program (.outermost environment) fun selection s =>
      compileBlocks setup selection s program) s level t) :
    ∃ calls, t.calls = s.calls ++ calls ∧
      List.Forall₂ (Site.Rendered setup environment program known)
        (programSites setup.naming environment program) calls := by
  obtain ⟨hoisted, token, u, body, v, routines, hok, htoken, hbody, hroutines, rfl⟩ := gives_level h
  obtain ⟨htoken, hcalls⟩ := isSome_levelToken htoken
  have hboth : (∀ binding ∈ Code.allBindings body.statements, known binding) ∧
      ∀ binding ∈ Code.allBindings routines.statements, known binding := by
    rw [← List.forall_mem_append]
    simpa only [Output.addDeclarations, Output.mapStatements, Output.statements_append,
      Code.allBindings_append, Code.allBindings_frame] using hknown
  obtain ⟨calls, hbodyCalls, hframed⟩ := rendered_blocks hok htoken
    (fun _ hb => mem_of_mem_framed hb) hboth.1 hbody
  obtain ⟨more, hmoreCalls, hunframed⟩ := rendered_blocks hok htoken
    (fun _ hb => mem_of_mem_unframed hb) hboth.2 hroutines
  refine ⟨calls ++ more, by rw [hmoreCalls, hbodyCalls, hcalls, List.append_assoc], ?_⟩
  rw [programSites, allSites_append]
  exact List.rel_append hframed hunframed

end Program

/-- The renderer is called exactly for the expressions of a program that compiles, each once, in
the order of `programSites`, and each in a scope that matches where the expression stands. No two
bindings of the emitted code have the same name, so the temporary that a scope offers for bare
member accesses is the one of the innermost WITH block. -/
theorem renderer_calls_follow_source {renderer : Renderer} {settings : Settings}
    {program : List Block} {p : Program} {session : Session}
    (h : traceProgram renderer settings program = (.ok p, session)) :
    ∃ codes, p.lines = Code.allLines settings.names.support 0 codes ∧
      (Code.boundNames codes).Nodup ∧
      List.Forall₂
        (Site.Rendered (.caseless renderer) settings.environmentNames program
          (· ∈ Code.allBindings codes))
        (programSites caselessNaming settings.environmentNames program) session.calls := by
  obtain ⟨out, hout, rfl⟩ := gives_of_traceProgram h
  obtain ⟨level, u, hlevel, rfl, rfl⟩ := gives_outermost hout
  have hfresh := bindsFresh_level (fun b _ => bindsFresh_block b) hlevel
  obtain ⟨calls, hcalls, hrendered⟩ := rendered_level (fun _ hb => hb) hlevel
  refine ⟨level.statements, rfl, hfresh.nodup, ?_⟩
  rw [Session.foldl_reported_calls, hcalls]
  exact hrendered

theorem renderer_calls_follow_source_with_inside_function :
    let renderer : Renderer := fun _ _ _ => .ok ⟨"x", []⟩
    let program : List Block := [.routine .function ⟨"f", 0⟩ [⟨⟨"a", 0⟩, false⟩]
      [.withTarget [Token.ofText "a" 1] [.redim false [⟨⟨"b", 2⟩, [[]]⟩]]]]
    ∃ p session codes, traceProgram renderer ⟨{}, []⟩ program = (.ok p, session) ∧
      p.lines = Code.allLines ⟨"_"⟩ 0 codes ∧ (Code.boundNames codes).Nodup ∧
      List.Forall₂ (Site.Rendered (.caseless renderer) [] program (· ∈ Code.allBindings codes))
        (programSites caselessNaming [] program) session.calls := by
  intro renderer program
  have hok : (compileProgram renderer ⟨{}, []⟩ program).isOk = true := by decide +kernel
  obtain ⟨p, session, h⟩ := exists_traceProgram hok
  obtain ⟨codes, hlines, hnodup, hcalls⟩ := renderer_calls_follow_source h
  exact ⟨p, session, codes, h, hlines, hnodup, hcalls⟩

end VbsCompiler
