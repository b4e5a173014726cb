import Mathlib.Data.List.Nodup
import VbsCompiler.Compile.PlainRenderer
import VbsCompiler.Proofs.Hoisting
import VbsCompiler.Proofs.RendererCalls

/-! Every name that the rendered code uses is declared where it is looked for: by the routine it is
used in, by the outermost level or by the environment. The names that nothing declares become
locals of the routine that uses them, and in the outermost level the environment has to provide
them. -/

namespace VbsCompiler

open CompileM Block

section Distinct

variable {naming : Naming}

theorem mem_distinctFrom {seen : List Ident} {names : List Name} {id : Ident} :
    id ∈ (distinctFrom naming seen names).map naming ↔ id ∈ names.map naming ∧ id ∉ seen := by
  induction names generalizing seen with
  | nil => simp [distinctFrom]
  | cons n rest ih =>
    rw [distinctFrom]
    split
    case isTrue hseen =>
      rw [ih, List.map_cons, List.mem_cons]
      grind
    case isFalse hseen =>
      rw [List.map_cons, List.mem_cons, ih, List.map_cons, List.mem_cons, List.mem_cons]
      grind

theorem nodup_distinctFrom (naming : Naming) (seen : List Ident) (names : List Name) :
    ((distinctFrom naming seen names).map naming).Nodup := by
  induction names generalizing seen with
  | nil => simp [distinctFrom]
  | cons n rest ih =>
    rw [distinctFrom]
    split
    · exact ih seen
    · rw [List.map_cons, List.nodup_cons, mem_distinctFrom]
      exact ⟨fun h => h.2 List.mem_cons_self, ih _⟩

theorem distinctFrom_eq_self {seen : List Ident} {names : List Name}
    (hnodup : (names.map naming).Nodup) (hnew : ∀ n ∈ names, naming n ∉ seen) :
    distinctFrom naming seen names = names := by
  induction names generalizing seen with
  | nil => rfl
  | cons n rest ih =>
    rw [List.map_cons, List.nodup_cons] at hnodup
    rw [distinctFrom, if_neg (hnew n List.mem_cons_self), ih hnodup.2]
    intro m hm hmem
    rcases List.mem_cons.mp hmem with he | hseen
    · exact hnodup.1 (he ▸ List.mem_map_of_mem hm)
    · exact hnew m (List.mem_cons_of_mem _ hm) hseen

theorem distinctFrom_append {seen : List Ident} {names more : List Name}
    (hnodup : (more.map naming).Nodup)
    (hnew : ∀ n ∈ more, naming n ∉ seen ∧ naming n ∉ names.map naming) :
    distinctFrom naming seen (names ++ more) = distinctFrom naming seen names ++ more := by
  induction names generalizing seen with
  | nil => exact distinctFrom_eq_self hnodup fun n hn => (hnew n hn).1
  | cons n rest ih =>
    rw [List.cons_append, distinctFrom, distinctFrom]
    split
    case isTrue =>
      exact ih fun m hm => ⟨(hnew m hm).1, fun h => (hnew m hm).2 (List.mem_cons_of_mem _ h)⟩
    case isFalse =>
      rw [ih, List.cons_append]
      intro m hm
      have hm' := hnew m hm
      simp only [List.map_cons, List.mem_cons, not_or] at hm' ⊢
      exact ⟨⟨hm'.2.1, hm'.1⟩, hm'.2.2⟩

end Distinct

/-- The renderer found the name in some expression of the level of `owner`. -/
def AccessedBy (calls : List RendererCall) (owner : Owner) (n : Name) : Prop :=
  ∃ call ∈ calls, call.scope.owner = owner ∧ ∃ r, call.result = .ok r ∧ n ∈ r.accessed

theorem accessedBy_append {calls more : List RendererCall} {owner : Owner} {n : Name} :
    AccessedBy (calls ++ more) owner n ↔ AccessedBy calls owner n ∨ AccessedBy more owner n := by
  simp only [AccessedBy, List.mem_append, or_and_right, exists_or]

/-- In an expression that is a single name the renderer finds that name at most. -/
def Setup.FindsSingleNames (setup : Setup) : Prop :=
  ∀ n scope r, setup.renderer .reference n.run scope = .ok r →
    ∀ m ∈ r.accessed, setup.naming m = setup.naming n

section Levels

variable {setup : Setup} {environment : List Name} {program : List Block} {known : Binding → Prop}
  {level : Scope}

theorem resolve_congr {naming : Naming} {scope : Scope} {n m : Name} (h : naming n = naming m) :
    scope.resolve naming n = scope.resolve naming m := by
  simp only [Scope.resolve, h]

theorem Scope.SameLevel.declares {naming : Naming} {scope : Scope}
    (h : level.SameLevel naming scope) (n : Name) :
    scope.declares naming n = level.declares naming n := by
  rw [Scope.declares, Scope.declares, Scope.isOwnName, Scope.isOwnName, h.owner, h.resolve]

/-- The undeclared names of a level are those that its calls found and it does not declare. -/
theorem Traced.names_iff (hsingle : setup.FindsSingleNames) {sites : List Site}
    {before after : List RendererCall} {names : List Name}
    (h : Traced setup environment program known level sites before after names) :
    ∃ calls, after = before ++ calls ∧ (∀ call ∈ calls, call.scope.owner = level.owner) ∧
      ∀ n, n ∈ names ↔ AccessedBy calls level.owner n ∧ level.declares setup.naming n = false := by
  obtain ⟨pairs, -, hafter, hpairs, hnames⟩ := h
  refine ⟨pairs.map Prod.snd, hafter, ?_, fun n => (hnames n).trans ⟨?_, ?_⟩⟩
  · intro call hcall
    obtain ⟨p, hp, rfl⟩ := List.mem_map.mp hcall
    exact (hpairs p hp).sameLevel.owner
  · rintro ⟨p, hp, -, hn⟩
    obtain ⟨r, -, hr⟩ := (hpairs p hp).rendered.result
    rw [RendererCall.undeclared, hr] at hn
    obtain ⟨haccessed, hdeclares⟩ := List.mem_filter.mp hn
    rw [(hpairs p hp).sameLevel.declares] at hdeclares
    exact ⟨⟨p.2, List.mem_map_of_mem hp, (hpairs p hp).sameLevel.owner, r, hr, haccessed⟩,
      by simpa using hdeclares⟩
  · rintro ⟨⟨call, hcall, -, r, hr, haccessed⟩, hdeclares⟩
    obtain ⟨p, hp, rfl⟩ := List.mem_map.mp hcall
    refine ⟨p, hp, ?_, ?_⟩
    · cases hdeclared : p.1.declared with
      | none => rfl
      | some m =>
        -- CONST, DIM and REDIM do not report their own name: hoisting has made it visible
        exfalso
        obtain ⟨hsite, hvisible⟩ := (hpairs p hp).declared m hdeclared
        obtain ⟨r', hr', hresult⟩ := (hpairs p hp).rendered.result
        rw [hsite] at hr'
        obtain rfl : r' = r := Except.ok.inj (hresult.symm.trans hr)
        have hname := hsingle m p.2.scope r' hr' n haccessed
        rw [Scope.declares, resolve_congr hname, hvisible, Bool.or_true] at hdeclares
        cases hdeclares
    · rw [RendererCall.undeclared, hr]
      refine List.mem_filter.mpr ⟨haccessed, ?_⟩
      rw [(hpairs p hp).sameLevel.declares, hdeclares]
      rfl

end Levels

@[simp] theorem name_owner (kind : RoutineKind) (name : Name) :
    (kind.owner name).name? = some name := by
  cases kind <;> rfl

def Code.isMethod : Code → Bool
  | .method .. => true
  | _ => false

section Methods

variable {setup : Setup}

def Output.MethodFree (out : Output Code) : Prop :=
  ∀ c ∈ out.statements, c.isMethod = false

theorem methodFree_empty : Output.MethodFree {} := by
  simp [Output.MethodFree]

theorem methodFree_append {a b : Output Code} (ha : a.MethodFree) (hb : b.MethodFree) :
    (a ++ b).MethodFree :=
  List.forall_mem_append.mpr ⟨ha, hb⟩

theorem methodFree_of_isPlain {out : Output Code} (h : ∀ c ∈ out.statements, c.IsPlain) :
    out.MethodFree := by
  intro c hc
  have hplain := h c hc
  cases c with
  | method => cases hplain
  | _ => rfl

theorem isMethod_flagChecks (scope : Scope) : ∀ c ∈ flagChecks scope, c.isMethod = false := by
  unfold flagChecks
  split <;> simp [Code.isMethod]

/-- Only a routine at the top of the program compiles to a method there. -/
theorem methodFree_of_gives {b : Block} {scope : Scope} {s t : Session} {out : Output Code}
    (hplace : scope.enclosure = .outermost → b.isRoutine = false)
    (h : Gives (compileBlock setup scope b) s out t) : out.MethodFree := by
  induction b using Block.nested_induction generalizing scope s t out with
  | step b ih =>
    cases b with
    | doLoop test body =>
      obtain ⟨head, names, u, flag, v, inner, -, -, -, rfl⟩ := gives_doLoop h
      exact List.forall_mem_cons.mpr ⟨rfl, isMethod_flagChecks scope⟩
    | forLoop counter first last step body =>
      obtain ⟨head, _, _, _, _, flag, _, inner, -, -, -, -, -, rfl⟩ := gives_forLoop h
      simpa [Output.MethodFree, Output.mapStatements, Code.isMethod] using
        isMethod_flagChecks scope
    | withTarget target body =>
      obtain ⟨line, r, name, u, inner, -, -, -, hinner, rfl⟩ := gives_withTarget h
      have hbody : inner.MethodFree :=
        output_blocks methodFree_empty methodFree_append
          (fun c hc => ih c hc fun ho => by simp [Scope.insideWith] at ho) hinner
      exact List.forall_mem_cons.mpr ⟨rfl, hbody⟩
    | routine kind name parameters body => cases hplace (gives_routine h).1
    | exit | consts | dim | redim | onError | statement =>
      exact methodFree_of_isPlain (isPlain_of_gives rfl h)

end Methods

inductive RoutineCompiled (setup : Setup) (environment : List Name) (program : List Block)
    (hoisted : Hoisted) (calls : List RendererCall) : Block → Code → Prop where
  | mk {kind : RoutineKind} {name : Name} {parameters : List Parameter} {body : List Block}
      {slot : Option Ident} {inner : Hoisted} {level : Output Code} {result : MethodResult} :
      .routine kind name parameters body ∈ program →
      hoist setup.naming (((Scope.outermost environment).declare hoisted).insideRoutine kind name
        slot parameters) body = .ok inner →
      level.declarations = inner.stored →
      (∀ n, n ∈ level.undeclared ↔ AccessedBy calls (kind.owner name) n ∧
        lookup setup.naming environment program [.routine kind name parameters body]
          (setup.naming n) = none) →
      RoutineCompiled setup environment program hoisted calls (.routine kind name parameters body)
        (.method (methodHead setup.naming kind name parameters) (level.localIdents setup.naming)
          ((level.undeclaredLocals setup.naming).map setup.naming) level.statements result)

structure OutermostCompiled (setup : Setup) (environment : List Name) (program : List Block)
    (hoisted : Hoisted) (blocks : List Block) (calls : List RendererCall) (out : Output Code) :
    Prop where
  owners : ∀ call ∈ calls, ∀ name ∈ call.scope.owner.name?, name ∈ routineNames blocks
  undeclared : ∀ n, n ∈ out.undeclared ↔ AccessedBy calls .program n ∧
    lookup setup.naming environment program [] (setup.naming n) = none
  methods : List.Forall₂ (RoutineCompiled setup environment program hoisted calls)
    (blocks.filter (·.isRoutine)) (out.statements.filter (·.isMethod))

section Outermost

variable {setup : Setup} {environment : List Name} {program : List Block} {hoisted : Hoisted}

/-- Routines are not touched by calls that belong to others. -/
theorem routinesCompiled_extend {calls calls' : List RendererCall} {blocks : List Block}
    {codes : List Code}
    (h : List.Forall₂ (RoutineCompiled setup environment program hoisted calls) blocks codes)
    (hcalls : ∀ name ∈ routineNames blocks, ∀ kind n,
      AccessedBy calls' (RoutineKind.owner kind name) n ↔ AccessedBy calls (kind.owner name) n) :
    List.Forall₂ (RoutineCompiled setup environment program hoisted calls') blocks codes := by
  induction h with
  | nil => exact .nil
  | cons hb _ ih =>
    cases hb with
    | mk hmem hinner hdeclarations hnames =>
      have hrest := List.forall_mem_cons.mp hcalls
      refine .cons (.mk hmem hinner hdeclarations fun n => ?_) (ih hrest.2)
      rw [hnames, hrest.1]

theorem not_accessedBy_of_owners {calls : List RendererCall} {blocks : List Block}
    (howners : ∀ call ∈ calls, ∀ name ∈ call.scope.owner.name?, name ∈ routineNames blocks)
    {kind : RoutineKind} {name : Name} (hname : name ∉ routineNames blocks) (n : Name) :
    ¬ AccessedBy calls (kind.owner name) n := by
  rintro ⟨call, hcall, howner, -⟩
  exact hname (howners call hcall name (by simp [howner]))

theorem OutermostCompiled.append {blocks more : List Block} {calls later : List RendererCall}
    {out out' : Output Code} (hnodup : (routineNames (blocks ++ more)).Nodup)
    (h : OutermostCompiled setup environment program hoisted blocks calls out)
    (h' : OutermostCompiled setup environment program hoisted more later out') :
    OutermostCompiled setup environment program hoisted (blocks ++ more) (calls ++ later)
      (out ++ out') := by
  rw [routineNames, List.filterMap_append, List.nodup_append] at hnodup
  refine ⟨fun call hcall name hname => ?_, fun n => ?_, ?_⟩
  · rw [routineNames, List.filterMap_append, List.mem_append]
    rcases List.mem_append.mp hcall with hcall | hcall
    · exact .inl (h.owners call hcall name hname)
    · exact .inr (h'.owners call hcall name hname)
  · rw [Output.undeclared_append, List.mem_append, h.undeclared, h'.undeclared, accessedBy_append,
      or_and_right]
  · rw [Output.statements_append, List.filter_append, List.filter_append]
    refine List.rel_append (routinesCompiled_extend h.methods fun name hname kind n => ?_)
      (routinesCompiled_extend h'.methods fun name hname kind n => ?_)
    · rw [routineNames_filter] at hname
      have hmore : name ∉ routineNames more := fun hmem => hnodup.2.2 name hname name hmem rfl
      simp [accessedBy_append, not_accessedBy_of_owners h'.owners hmore n]
    · rw [routineNames_filter] at hname
      have hblocks : name ∉ routineNames blocks := fun hmem =>
        hnodup.2.2 name hmem name hname rfl
      simp [accessedBy_append, not_accessedBy_of_owners h.owners hblocks n]

theorem declares_outermost (hok : hoist setup.naming (.outermost environment) program = .ok hoisted)
    (n : Name) : ((Scope.outermost environment).declare hoisted).declares setup.naming n = false ↔
      lookup setup.naming environment program [] (setup.naming n) = none := by
  rw [← resolve_outermost hok, ← Option.isNone_iff_eq_none, ← Option.isSome_eq_false_iff]
  rfl

/-- A routine is declared by the level around it, so that its own name needs no exception. -/
theorem declares_routine (hok : hoist setup.naming (.outermost environment) program = .ok hoisted)
    {kind : RoutineKind} {name : Name} {slot : Option Ident} {parameters : List Parameter}
    {body : List Block} {inner : Hoisted} (hmem : .routine kind name parameters body ∈ program)
    (hinner : hoist setup.naming (((Scope.outermost environment).declare hoisted).insideRoutine kind
      name slot parameters) body = .ok inner) (n : Name) :
    ((((Scope.outermost environment).declare hoisted).insideRoutine kind name slot
        parameters).declare inner).declares setup.naming n = false ↔
      lookup setup.naming environment program [.routine kind name parameters body]
        (setup.naming n) = none := by
  rw [Scope.declares, resolve_routine hok hinner, Bool.or_eq_false_iff, Option.isSome_eq_false_iff,
    Option.isNone_iff_eq_none]
  refine ⟨fun h => h.2, fun h => ⟨?_, h⟩⟩
  have hne : setup.naming name ≠ setup.naming n := by
    intro heq
    have hsome : (lookup setup.naming environment program [.routine kind name parameters body]
        (setup.naming n)).isSome = true := by
      rw [isSome_lookup_routine, ← heq, isSome_outerLookup_routine setup.naming environment hmem,
        Bool.or_true]
    rw [h] at hsome
    cases hsome
  cases kind <;>
    simpa [Scope.isOwnName, Scope.declare, Scope.insideRoutine, Scope.insideBody,
      RoutineKind.owner, Owner.name?] using hne

theorem compiled_statement (hsingle : setup.FindsSingleNames)
    (hok : hoist setup.naming (.outermost environment) program = .ok hoisted)
    {token : Option Ident} (htoken : token.isSome = anyTrapsErrors program) {b : Block}
    (hmem : b ∈ program) (hb : b.isRoutine = false) {s t : Session} {out : Output Code}
    (h : Gives (compileBlock setup (((Scope.outermost environment).declare hoisted).trappedBy token)
      b) s out t) :
    ∃ calls, t.calls = s.calls ++ calls ∧
      OutermostCompiled setup environment program hoisted [b] calls out := by
  have htraced : Traced setup environment program (fun _ => True)
      ((Scope.outermost environment).declare hoisted)
      (b.sites setup.naming environment program []) s.calls t.calls out.undeclared :=
    traced_outermost hok htoken hmem hb (fun _ _ => trivial) h
  obtain ⟨calls, hcalls, howners, hnames⟩ := htraced.names_iff hsingle
  refine ⟨calls, hcalls, fun call hcall name hname => ?_, fun n => ?_, ?_⟩
  · rw [howners call hcall] at hname
    cases hname
  · rw [hnames, declares_outermost hok]
    rfl
  · have hmethods : out.statements.filter (·.isMethod) = [] :=
      List.filter_eq_nil_iff.mpr fun c hc => by
        simp [methodFree_of_gives (fun _ => hb) h c hc]
    rw [hmethods, List.filter_cons_of_neg (by simp [hb])]
    exact .nil

theorem compiled_routine (hsingle : setup.FindsSingleNames)
    (hok : hoist setup.naming (.outermost environment) program = .ok hoisted)
    {token : Option Ident} {kind : RoutineKind} {name : Name} {parameters : List Parameter}
    {body : List Block} (hmem : .routine kind name parameters body ∈ program) {s t : Session}
    {out : Output Code}
    (h : Gives (compileBlock setup (((Scope.outermost environment).declare hoisted).trappedBy token)
      (.routine kind name parameters body)) s out t) :
    ∃ calls, t.calls = s.calls ++ calls ∧
      OutermostCompiled setup environment program hoisted [.routine kind name parameters body]
        calls out := by
  obtain ⟨slot, inner, level, result, hinner, hdeclarations, htraced, rfl⟩ :=
    traced_routine hok hmem (fun _ _ => trivial) h
  obtain ⟨calls, hcalls, howners, hnames⟩ := htraced.names_iff hsingle
  refine ⟨calls, hcalls, fun call hcall n hn => ?_, fun n => ?_, ?_⟩
  · rw [howners call hcall] at hn
    have hname : (kind.owner name).name? = some n := hn
    rw [name_owner] at hname
    cases hname
    exact mem_routineNames.mpr ⟨kind, parameters, body, List.mem_singleton_self _⟩
  · refine iff_of_false List.not_mem_nil ?_
    rintro ⟨⟨call, hcall, howner, -⟩, -⟩
    rw [howners call hcall] at howner
    cases kind <;> cases howner
  · refine .cons (.mk hmem hinner hdeclarations fun n => ?_) .nil
    rw [hnames, declares_routine hok hmem hinner]
    rfl

theorem compiled_blocks (hsingle : setup.FindsSingleNames)
    (hok : hoist setup.naming (.outermost environment) program = .ok hoisted)
    {token : Option Ident} (htoken : token.isSome = anyTrapsErrors program) {blocks : List Block}
    (hmem : ∀ b ∈ blocks, b ∈ program) (hnodup : (routineNames blocks).Nodup) {s t : Session}
    {out : Output Code} (h : Gives (compileBlocks setup .all
      (((Scope.outermost environment).declare hoisted).trappedBy token) blocks) s out t) :
    ∃ calls, t.calls = s.calls ++ calls ∧
      OutermostCompiled setup environment program hoisted blocks calls out := by
  induction blocks generalizing s out with
  | nil =>
    obtain ⟨rfl, rfl⟩ := gives_pure.mp h
    exact ⟨[], (List.append_nil _).symm, by simp, by simp [AccessedBy], .nil⟩
  | cons b rest ih =>
    obtain ⟨here, u, later, hhere, hlater, rfl⟩ := gives_compileBlocks_cons.mp h
    have hfirst : ∃ calls, u.calls = s.calls ++ calls ∧
        OutermostCompiled setup environment program hoisted [b] calls here := by
      by_cases hb : b.isRoutine = true
      · cases b <;> try cases hb
        exact compiled_routine hsingle hok (hmem _ List.mem_cons_self) hhere
      · exact compiled_statement hsingle hok htoken (hmem b List.mem_cons_self) (by simpa using hb)
          hhere
    have hrest : (routineNames rest).Nodup :=
      hnodup.sublist ((List.sublist_cons_self b rest).filterMap _)
    obtain ⟨calls, hcalls, hcompiled⟩ := hfirst
    obtain ⟨more, hmore, hlater⟩ := ih (fun c hc => hmem c (List.mem_cons_of_mem _ hc)) hrest hlater
    refine ⟨calls ++ more, by rw [hmore, hcalls, List.append_assoc], ?_⟩
    exact OutermostCompiled.append hnodup hcompiled hlater

theorem OutermostCompiled.frame {blocks : List Block} {calls : List RendererCall}
    {out : Output Code} (h : OutermostCompiled setup environment program hoisted blocks calls out)
    {token : Option Ident} (hframe : token.isSome = true → ∀ b ∈ blocks, b.isRoutine = false) :
    OutermostCompiled setup environment program hoisted blocks calls
      (out.mapStatements (Code.frame token)) := by
  refine ⟨h.owners, h.undeclared, ?_⟩
  cases token with
  | none => exact h.methods
  | some token =>
    have hnone : blocks.filter (·.isRoutine) = [] :=
      List.filter_eq_nil_iff.mpr fun b hb => by simp [hframe rfl b hb]
    rw [hnone]
    exact .nil

theorem compiled_level (hsingle : setup.FindsSingleNames) {s t : Session} {level : Output Code}
    (h : Gives (compileLevel setup program (.outermost environment) fun selection s =>
      compileBlocks setup selection s program) s level t) :
    ∃ hoisted calls, hoist setup.naming (.outermost environment) program = .ok hoisted ∧
      level.declarations = hoisted.stored ∧
      hoisted.routines.map (·.name) = routineNames program ∧ t.calls = s.calls ++ calls ∧
      OutermostCompiled setup environment program hoisted program calls level := by
  obtain ⟨hoisted, hok, hdeclarations⟩ := declarations_level h
  obtain ⟨hoisted', token, u, body, v, routines, hok', htoken, hbody, hroutines, rfl⟩ :=
    gives_level h
  obtain rfl : hoisted = hoisted' := Except.ok.inj (hok.symm.trans hok')
  obtain ⟨htoken, hcalls⟩ := isSome_levelToken htoken
  have hcompiles : ∀ b ∈ program, ∃ s out t, Gives (compileBlock setup
      (((Scope.outermost environment).declare hoisted).trappedBy token) b) s out t :=
    (forall_framed_and_unframed program).mp
      ⟨fun b => gives_of_mem_blocks hbody, fun b => gives_of_mem_blocks hroutines⟩
  have hnames : hoisted.routines.map (·.name) = routineNames program := by
    rw [routines_hoist hok]
    refine routineNames_eq fun b hb hstatement => ?_
    obtain ⟨_, _, _, hgives⟩ := hcompiles b hb
    exact no_routines_of_gives (fun _ => hstatement) hgives .outermost
  have hnodup : (routineNames (framed program ++ unframed program)).Nodup := by
    rw [routineNames_level, ← hnames]
    refine List.Nodup.of_map setup.naming ?_
    rw [List.map_map]
    exact (nodup_hoist hok).sublist ((List.sublist_append_right _ _).map _)
  have hparts := hnodup
  rw [routineNames, List.filterMap_append, List.nodup_append] at hparts
  obtain ⟨calls, hbodyCalls, hframed⟩ := compiled_blocks hsingle hok htoken
    (fun _ hb => mem_of_mem_framed hb) hparts.1 hbody
  obtain ⟨more, hmoreCalls, hunframed⟩ := compiled_blocks hsingle hok htoken
    (fun _ hb => mem_of_mem_unframed hb) hparts.2.1 hroutines
  have hstatements : token.isSome = true → ∀ b ∈ framed program, b.isRoutine = false := by
    intro hsome b hb
    rw [framed, if_pos (htoken.symm.trans hsome)] at hb
    simpa using (List.mem_filter.mp hb).2
  -- a frame holds no routine, so that framing the statements moves no method
  have hlevel := (hframed.frame hstatements).append hnodup hunframed
  refine ⟨hoisted, calls ++ more, hok, hdeclarations, hnames, ?_, fun call hcall name hname => ?_,
    hlevel.undeclared, ?_⟩
  · rw [hmoreCalls, hbodyCalls, hcalls, List.append_assoc]
  · have howner := hlevel.owners call hcall name hname
    rwa [routineNames_level] at howner
  · have hmethods := hlevel.methods
    rwa [filter_isRoutine_level] at hmethods

/-- The identifiers that every level can refer to: the stored names and the routines of the
outermost level, and the environment. -/
def sharedIdents (naming : Naming) (stored : List Declaration) (program : List Block)
    (environment : List Name) : List Ident :=
  (stored.map (·.name) ++ routineNames program ++ environment).map naming

theorem mem_sharedIdents {naming : Naming} {stored : List Declaration} {names : List Name}
    {id : Ident} : id ∈ sharedIdents naming stored program names ↔
      id ∈ stored.map (naming ·.name) ∨ id ∈ (routineNames program).map naming ∨
        id ∈ names.map naming := by
  simp [sharedIdents]

theorem isSome_outerLookup_iff
    (hok : hoist setup.naming (.outermost environment) program = .ok hoisted)
    (hroutines : hoisted.routines.map (·.name) = routineNames program) (id : Ident) :
    (outerLookup setup.naming environment program id).isSome = true ↔
      id ∈ sharedIdents setup.naming hoisted.stored program environment := by
  rw [isSome_outerLookup, ← kindOf_outermost hok, Bool.or_eq_true, isSome_kindOf,
    mem_sharedIdents, ← hroutines]
  simp [Hoisted.all, Hoisted.stored, environmentHas, or_assoc]

theorem isSome_lookup_routine_iff
    (hok : hoist setup.naming (.outermost environment) program = .ok hoisted)
    {kind : RoutineKind} {name : Name} {slot : Option Ident} {parameters : List Parameter}
    {body : List Block} {inner : Hoisted}
    (hinner : hoist setup.naming (((Scope.outermost environment).declare hoisted).insideRoutine kind
      name slot parameters) body = .ok inner) (id : Ident) :
    (lookup setup.naming environment program
      [.routine kind name parameters body] id).isSome = true ↔
      id ∈ parameters.map (setup.naming ·.name) ∨ id ∈ inner.stored.map (setup.naming ·.name) ∨
        (outerLookup setup.naming environment program id).isSome = true := by
  have hroutines : inner.routines = [] := by
    have hnames := routines_hoist hinner
    rw [location_insideRoutine, filterMap_allEvents_eq_nil fun b _ => no_routines_of_function b]
      at hnames
    exact List.map_eq_nil_iff.mp hnames
  have hkind : (inner.kindOf setup.naming id).isSome = true ↔
      id ∈ inner.stored.map (setup.naming ·.name) := by
    rw [isSome_kindOf, Hoisted.all, hroutines, List.append_nil]
    rfl
  have hparameters : parameters.any (setup.naming ·.name = id) = true ↔
      id ∈ parameters.map (setup.naming ·.name) := by
    simp
  rw [isSome_lookup_routine, localKind_eq hok hinner, Bool.or_eq_true, ← hkind, ← hparameters,
    ← or_assoc]
  generalize parameters.any (setup.naming ·.name = id) = isParameter
  cases isParameter <;> simp

/-- What the method of a routine declares. Every name that the body uses is the routine's own, a
parameter, a local or shared, and if it is none of these a local marked as undeclared; the locals
so marked are exactly the names that the body uses and nothing declares, each once. -/
structure RoutineDeclares (naming : Naming) (environment : List Name) (program : List Block)
    (calls : List RendererCall) (shared : List Ident) (kind : RoutineKind) (name : Name)
    (parameters : List Parameter) (body : List Block) (locals undeclared : List Ident) : Prop where
  accessed : ∀ n, AccessedBy calls (kind.owner name) n →
    naming n = naming name ∨ naming n ∈ parameters.map (naming ·.name) ∨ naming n ∈ locals ∨
      naming n ∈ undeclared ∨ naming n ∈ shared
  undeclared_iff : ∀ id, id ∈ undeclared ↔
    (∃ n, naming n = id ∧ AccessedBy calls (kind.owner name) n) ∧
      lookup naming environment program [.routine kind name parameters body] id = none
  nodup : undeclared.Nodup
  apart : ∀ id ∈ undeclared, id ≠ naming name ∧ id ∉ parameters.map (naming ·.name) ∧
    id ∉ locals ∧ id ∉ shared

inductive MethodDeclares (naming : Naming) (environment : List Name) (program : List Block)
    (calls : List RendererCall) (shared : List Ident) : Block → Code → Prop where
  | mk {kind : RoutineKind} {name : Name} {parameters : List Parameter} {body : List Block}
      {locals undeclared : List Ident} {statements : List Code} {result : MethodResult} :
      RoutineDeclares naming environment program calls shared kind name parameters body locals
        undeclared →
      MethodDeclares naming environment program calls shared (.routine kind name parameters body)
        (.method (methodHead naming kind name parameters) locals undeclared statements result)

/-- What the outermost code can refer to. Every name that it uses is stored, a routine or provided
by the environment; of the latter, those that come after `environment` are exactly the names that
the code uses and nothing declares, each once. -/
structure OutermostDeclares (naming : Naming) (environment : List Name) (program : List Block)
    (calls : List RendererCall) (stored : List Declaration) (provided required : List Name) :
    Prop where
  accessed : ∀ n, AccessedBy calls .program n →
    naming n ∈ sharedIdents naming stored program provided
  provided_eq : provided = distinctNames naming environment ++ required
  required_iff : ∀ id, id ∈ required.map naming ↔
    (∃ n, naming n = id ∧ AccessedBy calls .program n) ∧
      lookup naming environment program [] id = none
  nodup : (required.map naming).Nodup
  apart : ∀ id ∈ required.map naming, id ∉ sharedIdents naming stored program environment

theorem mem_distinctNames {naming : Naming} {names : List Name} {id : Ident} :
    id ∈ (distinctNames naming names).map naming ↔ id ∈ names.map naming := by
  rw [distinctNames, mem_distinctFrom]
  simp

theorem mem_localIdents {naming : Naming} {level : Output Code} {inner : Hoisted}
    (h : level.declarations = inner.stored) (id : Ident) :
    id ∈ level.localIdents naming ↔ id ∈ inner.stored.map (naming ·.name) := by
  rw [Output.localIdents, mem_distinctNames, h, List.map_map]
  rfl

theorem mem_distinct_undeclared {naming : Naming} {around : List Block}
    {calls : List RendererCall} {owner : Owner} {names : List Name}
    (hnames : ∀ n, n ∈ names ↔ AccessedBy calls owner n ∧
      lookup naming environment program around (naming n) = none) (id : Ident) :
    id ∈ (distinctNames naming names).map naming ↔
      (∃ n, naming n = id ∧ AccessedBy calls owner n) ∧
        lookup naming environment program around id = none := by
  rw [mem_distinctNames]
  constructor
  · intro hid
    obtain ⟨n, hn, rfl⟩ := List.mem_map.mp hid
    obtain ⟨haccessed, hnone⟩ := (hnames n).mp hn
    exact ⟨⟨n, rfl, haccessed⟩, hnone⟩
  · rintro ⟨⟨n, rfl, haccessed⟩, hnone⟩
    exact List.mem_map_of_mem ((hnames n).mpr ⟨haccessed, hnone⟩)

theorem RoutineCompiled.declares
    (hok : hoist setup.naming (.outermost environment) program = .ok hoisted)
    (hroutines : hoisted.routines.map (·.name) = routineNames program)
    {calls : List RendererCall} {b : Block} {c : Code}
    (h : RoutineCompiled setup environment program hoisted calls b c) :
    MethodDeclares setup.naming environment program calls
      (sharedIdents setup.naming hoisted.stored program environment) b c := by
  obtain @⟨kind, name, parameters, body, slot, inner, level, result, hmem, hinner, hdeclarations,
    hnames⟩ := h
  have hlookup : ∀ id, (lookup setup.naming environment program
      [.routine kind name parameters body] id).isSome = true ↔
      id ∈ parameters.map (setup.naming ·.name) ∨ id ∈ level.localIdents setup.naming ∨
        id ∈ sharedIdents setup.naming hoisted.stored program environment := by
    intro id
    rw [isSome_lookup_routine_iff hok hinner, mem_localIdents hdeclarations,
      isSome_outerLookup_iff hok hroutines]
  have hfilter : level.undeclared.filter
      (fun n => !(level.localIdents setup.naming).contains (setup.naming n)) =
      level.undeclared := by
    refine List.filter_eq_self.mpr fun n hn => ?_
    have hlocal : setup.naming n ∉ level.localIdents setup.naming := by
      intro hlocal
      have hsome := (hlookup (setup.naming n)).mpr (.inr (.inl hlocal))
      rw [((hnames n).mp hn).2] at hsome
      cases hsome
    simpa using hlocal
  have hundeclared := mem_distinct_undeclared hnames
  rw [← hfilter] at hundeclared
  refine .mk ⟨fun n haccessed => ?_, hundeclared, nodup_distinctFrom _ _ _, ?_⟩
  · cases hfound : lookup setup.naming environment program [.routine kind name parameters body]
        (setup.naming n) with
    | none => exact .inr (.inr (.inr (.inl ((hundeclared _).mpr ⟨⟨n, rfl, haccessed⟩, hfound⟩))))
    | some found =>
      have hdeclared := (hlookup (setup.naming n)).mp (by rw [hfound]; rfl)
      tauto
  · intro id hid
    have hnone := ((hundeclared id).mp hid).2
    have hdeclared := (not_congr (hlookup id)).mp (by simp [hnone])
    simp only [not_or] at hdeclared
    refine ⟨?_, hdeclared⟩
    rintro rfl
    have hname := mem_routineNames.mpr ⟨kind, parameters, body, hmem⟩
    exact hdeclared.2.2 (mem_sharedIdents.mpr (.inr (.inl (List.mem_map_of_mem hname))))

theorem OutermostCompiled.declares
    (hok : hoist setup.naming (.outermost environment) program = .ok hoisted)
    (hroutines : hoisted.routines.map (·.name) = routineNames program)
    {blocks : List Block} {calls : List RendererCall} {out : Output Code}
    (h : OutermostCompiled setup environment program hoisted blocks calls out) :
    OutermostDeclares setup.naming environment program calls hoisted.stored
      (distinctNames setup.naming (environment ++ distinctNames setup.naming out.undeclared))
      (distinctNames setup.naming out.undeclared) := by
  have hlookup : ∀ id, (lookup setup.naming environment program [] id).isSome = true ↔
      id ∈ sharedIdents setup.naming hoisted.stored program environment :=
    isSome_outerLookup_iff hok hroutines
  have hrequired := mem_distinct_undeclared h.undeclared
  have hnodup := nodup_distinctFrom setup.naming [] out.undeclared
  have hapart : ∀ id ∈ (distinctNames setup.naming out.undeclared).map setup.naming,
      id ∉ sharedIdents setup.naming hoisted.stored program environment := by
    intro id hid hshared
    have hsome := (hlookup id).mpr hshared
    rw [((hrequired id).mp hid).2] at hsome
    cases hsome
  refine ⟨fun n haccessed => ?_, ?_, hrequired, hnodup, hapart⟩
  · rw [mem_sharedIdents, mem_distinctNames, List.map_append, List.mem_append]
    cases hfound : lookup setup.naming environment program [] (setup.naming n) with
    | none => exact .inr (.inr (.inr ((hrequired _).mpr ⟨⟨n, rfl, haccessed⟩, hfound⟩)))
    | some found =>
      have hshared := mem_sharedIdents.mp ((hlookup (setup.naming n)).mp (by rw [hfound]; rfl))
      tauto
  · refine distinctFrom_append hnodup fun n hn => ⟨List.not_mem_nil, fun henvironment => ?_⟩
    exact hapart _ (List.mem_map_of_mem hn) (mem_sharedIdents.mpr (.inr (.inr henvironment)))

end Outermost

section PlainRenderer

open PlainRenderer

variable {naming : Naming} {scope : Scope}

theorem accessed_word {s : State} {t : Token} {m : Name}
    (hm : m ∈ (s.word naming scope t).accessed) : m ∈ s.accessed ∨ m = ⟨t.text, t.line⟩ := by
  unfold State.word at hm
  split at hm
  · split at hm
    · exact .inl hm
    · simpa using hm
  · exact .inl hm

theorem accessed_dot {s s' : State} {t : Token} (h : s.dot scope t = .ok s') :
    s'.accessed = s.accessed := by
  unfold State.dot at h
  split at h
  · cases h
    rfl
  · split at h
    · cases h
    · cases h
      rfl

theorem accessed_step {s s' : State} {t : Token} (h : s.step naming scope t = .ok s') {m : Name}
    (hm : m ∈ s'.accessed) : m ∈ s.accessed ∨ m = ⟨t.text, t.line⟩ := by
  unfold State.step at h
  split at h
  · cases hdot : s.dot scope t with
    | error e =>
      rw [hdot] at h
      cases h
    | ok u =>
      rw [hdot] at h
      cases h
      exact .inl (accessed_dot hdot ▸ hm)
  · split at h
    · cases h
    · cases h
      exact accessed_word hm

theorem accessed_foldlM {run : TokenRun} {s s' : State}
    (h : run.foldlM (fun (s : State) t => s.step naming scope t) s = .ok s') {m : Name}
    (hm : m ∈ s'.accessed) : m ∈ s.accessed ∨ ∃ t ∈ run, m = ⟨t.text, t.line⟩ := by
  induction run generalizing s with
  | nil =>
    cases h
    exact .inl hm
  | cons t rest ih =>
    rw [List.foldlM_cons] at h
    cases hstep : s.step naming scope t with
    | error e =>
      rw [hstep] at h
      cases h
    | ok u =>
      rw [hstep] at h
      rcases ih h with hu | ⟨t', ht', heq⟩
      · rcases accessed_step hstep hu with hs | heq
        · exact .inl hs
        · exact .inr ⟨t, List.mem_cons_self, heq⟩
      · exact .inr ⟨t', List.mem_cons_of_mem _ ht', heq⟩

theorem accessed_plainRenderer {demand : Demand} {run : TokenRun} {r : Rendering}
    (h : plainRenderer naming demand run scope = .ok r) {m : Name} (hm : m ∈ r.accessed) :
    ∃ t ∈ run, m = ⟨t.text, t.line⟩ := by
  unfold plainRenderer renderRun at h
  cases hrun : run.foldlM (fun (s : State) t => s.step naming scope t) {} with
  | error e =>
    rw [hrun] at h
    cases h
  | ok s =>
    rw [hrun] at h
    cases h
    exact (accessed_foldlM hrun hm).resolve_left List.not_mem_nil

theorem text_ofText (text : String) (line : Nat) : (Token.ofText text line).text = text :=
  Lexeme.text_ofText text

theorem findsSingleNames_plainRenderer (naming : Naming) :
    Setup.FindsSingleNames ⟨naming, plainRenderer naming⟩ := by
  intro n scope r hr m hm
  obtain ⟨t, ht, rfl⟩ := accessed_plainRenderer hr hm
  obtain rfl := List.mem_singleton.mp ht
  rw [text_ofText]
  rfl

end PlainRenderer

/-- In a program that compiles every name that is used is declared where it is looked for, and what
is declared only because it is used is exactly what nothing else declares: in outermost code the
environment has to provide it, in a routine it is a marked local of the method. The methods of the
emitted code are those of the routines, in order. -/
theorem accessed_names_are_declared {renderer : Renderer} {settings : Settings}
    {program : List Block} {p : Program} {session : Session}
    (hsingle : (Setup.caseless renderer).FindsSingleNames)
    (h : traceProgram renderer settings program = (.ok p, session)) :
    (∃ required, OutermostDeclares caselessNaming settings.environmentNames program session.calls
      p.outerDeclarations p.environment required) ∧
    ∃ codes, p.lines = Code.allLines settings.names.support 0 codes ∧
      List.Forall₂ (MethodDeclares caselessNaming settings.environmentNames program session.calls
          (sharedIdents caselessNaming p.outerDeclarations program settings.environmentNames))
        (program.filter (·.isRoutine)) (codes.filter (·.isMethod)) := by
  obtain ⟨out, hout, rfl⟩ := gives_of_traceProgram h
  obtain ⟨level, u, hlevel, rfl, rfl⟩ := gives_outermost hout
  obtain ⟨hoisted, calls, hok, hdeclarations, hroutines, hcalls, hcompiled⟩ :=
    compiled_level hsingle hlevel
  obtain rfl : u.calls = calls := hcalls
  rw [Session.foldl_reported_calls, Program.ofOutput]
  dsimp only
  rw [hdeclarations]
  exact ⟨⟨_, hcompiled.declares hok hroutines⟩, level.statements, rfl,
    hcompiled.methods.imp fun _ _ hroutine => hroutine.declares hok hroutines⟩

theorem accessed_names_are_declared_function_with_undeclared :
    let renderer := plainRenderer caselessNaming
    let program : List Block := [.statement [Token.ofText "y" 0],
      .routine .function ⟨"f", 1⟩ [⟨⟨"a", 1⟩, false⟩]
        [.statement [Token.ofText "b" 2], .redim false [⟨⟨"c", 3⟩, [[Token.ofText "a" 3]]⟩]]]
    ∃ p session, traceProgram renderer {} program = (.ok p, session) ∧
      (∃ required, OutermostDeclares caselessNaming [⟨"wscript", 0⟩] program session.calls
        p.outerDeclarations p.environment required) ∧
      ∃ codes, p.lines = Code.allLines ⟨"_"⟩ 0 codes ∧
        List.Forall₂ (MethodDeclares caselessNaming [⟨"wscript", 0⟩] program session.calls
            (sharedIdents caselessNaming p.outerDeclarations program [⟨"wscript", 0⟩]))
          (program.filter (·.isRoutine)) (codes.filter (·.isMethod)) := by
  intro renderer program
  have hok : (compileProgram renderer {} program).isOk = true := by decide +kernel
  obtain ⟨p, session, h⟩ := exists_traceProgram hok
  exact ⟨p, session, h, accessed_names_are_declared (findsSingleNames_plainRenderer _) h⟩

end VbsCompiler
