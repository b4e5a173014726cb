import VbsCompiler.Proofs.Acceptance
import VbsCompiler.Proofs.References

/-! The names that a method declares: its parameters, the slot of its value, its locals, the locals
for what its body uses undeclared, and the temporaries of its body. Temporaries keep away from the
names that are visible where they are allocated, and an undeclared name is visible nowhere; so a
WITH temporary, whose stem has no capital letter, can meet an undeclared local. No other two names
of a method can be the same. -/

namespace VbsCompiler

open CompileM Block

namespace Code

mutual

/-- The temporaries that the code declares. Those of a method are its own. -/
def temporaries : Code → List Ident
  | .bind _ name _ => [name]
  | .loop _ flag body => flag.toList ++ allTemporaries body
  | .trapped token body => token :: allTemporaries body
  | _ => []

def allTemporaries : List Code → List Ident
  | [] => []
  | c :: rest => c.temporaries ++ allTemporaries rest

end

mutual

def methods : Code → List Code
  | .loop _ _ body => allMethods body
  | .trapped _ body => allMethods body
  | .method head locals undeclaredLocals body result =>
    .method head locals undeclaredLocals body result :: allMethods body
  | _ => []

def allMethods : List Code → List Code
  | [] => []
  | c :: rest => c.methods ++ allMethods rest

end

@[simp] theorem allTemporaries_append (codes more : List Code) :
    allTemporaries (codes ++ more) = allTemporaries codes ++ allTemporaries more := by
  induction codes with
  | nil => rfl
  | cons c rest ih => simp [allTemporaries, ih]

@[simp] theorem allMethods_append (codes more : List Code) :
    allMethods (codes ++ more) = allMethods codes ++ allMethods more := by
  induction codes with
  | nil => rfl
  | cons c rest ih => simp [allMethods, ih]

@[simp] theorem allTemporaries_flagChecks (scope : Scope) :
    allTemporaries (flagChecks scope) = [] := by
  unfold flagChecks
  split <;> rfl

@[simp] theorem allMethods_flagChecks (scope : Scope) : allMethods (flagChecks scope) = [] := by
  unfold flagChecks
  split <;> rfl

@[simp] theorem allTemporaries_frame (token : Option Ident) (codes : List Code) :
    allTemporaries (frame token codes) = token.toList ++ allTemporaries codes := by
  cases token <;> simp [frame, allTemporaries, temporaries]

@[simp] theorem allMethods_frame (token : Option Ident) (codes : List Code) :
    allMethods (frame token codes) = allMethods codes := by
  cases token <;> simp [frame, allMethods, methods]

end Code

def MethodResult.slot? : MethodResult → Option Ident
  | .slot name => some name
  | _ => none

@[simp] theorem slot_ofSlot (slot : Option Ident) : (MethodResult.ofSlot? slot).slot? = slot := by
  cases slot <;> rfl

/-- The names that a method declares. -/
def methodNames (head : MethodHead) (locals undeclaredLocals : List Ident) (body : List Code)
    (result : MethodResult) : List Ident :=
  head.parameters.map (·.1) ++ locals ++ undeclaredLocals ++
    (result.slot?.toList ++ Code.allTemporaries body)

def bodyStems : List String :=
  ["with", "loopEnd", "loopStep", "exitDo", "exitFor", "errOn"]

/-- The identifiers are temporaries allocated one after the other, clear of the taken ones. -/
structure FreshNames (taken : List Ident) (n k : Nat) (ids : List Ident) : Prop where
  allocated : AllocatedBetween n k ids
  stem : ∀ id ∈ ids, ∃ stem ∈ bodyStems, ∃ j, id = temporary stem j
  untaken : ∀ id ∈ ids, id ∉ taken

section FreshNames

variable {taken : List Ident} {n m k : Nat} {ids more : List Ident}

theorem freshNames_nil : FreshNames taken n k [] :=
  ⟨allocated_nil, by simp, by simp⟩

theorem FreshNames.append (h : FreshNames taken n m ids) (hmore : FreshNames taken m k more)
    (hnm : n ≤ m) (hmk : m ≤ k) : FreshNames taken n k (ids ++ more) := by
  refine ⟨h.allocated.append hmore.allocated hnm hmk, fun id hid => ?_, fun id hid => ?_⟩
  · rcases List.mem_append.mp hid with hid | hid
    · exact h.stem id hid
    · exact hmore.stem id hid
  · rcases List.mem_append.mp hid with hid | hid
    · exact h.untaken id hid
    · exact hmore.untaken id hid

theorem FreshNames.widen {n' k' : Nat} (h : FreshNames taken n k ids) (hn : n' ≤ n)
    (hk : k ≤ k') : FreshNames taken n' k' ids :=
  ⟨h.allocated.widen hn hk, h.stem, h.untaken⟩

end FreshNames

theorem not_taken_of_gives {naming : Naming} {stem : String} {scope : Scope} {s t : Session}
    {id : Ident} (h : Gives (freshTemporary naming stem scope) s id t) :
    id ∉ scope.taken naming := by
  obtain ⟨k, rfl, rfl, -⟩ := gives_freshTemporary.mp h
  exact temporary_freshNumber_not_mem _ _ _

theorem freshNames_of_gives {naming : Naming} {stem : String} {scope : Scope} {s t : Session}
    {id : Ident} (hstem : stem ∈ bodyStems)
    (h : Gives (freshTemporary naming stem scope) s id t) :
    FreshNames (scope.taken naming) s.nextTemporary t.nextTemporary [id] := by
  have hends : IsStem stem := by
    have hall : ∀ stem ∈ bodyStems, IsStem stem := by decide
    exact hall stem hstem
  have huntaken := not_taken_of_gives h
  obtain ⟨k, -, rfl, -⟩ := gives_freshTemporary.mp h
  refine ⟨(freshFrom_of_gives hends h).allocated, ?_, ?_⟩
  · simpa using ⟨stem, hstem, k, rfl⟩
  · simpa using huntaken

theorem flagStem_mem_bodyStems (kind : LoopKind) : kind.flagStem ∈ bodyStems := by
  cases kind <;> decide

theorem freshNames_loopFlag {setup : Setup} {kind : LoopKind} {body : List Block} {scope : Scope}
    {s t : Session} {flag : Option Ident} (h : Gives (loopFlag setup kind body scope) s flag t) :
    FreshNames (scope.taken setup.naming) s.nextTemporary t.nextTemporary flag.toList := by
  obtain ⟨-, rfl, rfl⟩ | ⟨-, id, rfl, hid⟩ := gives_loopFlag h
  · exact freshNames_nil
  · exact freshNames_of_gives (flagStem_mem_bodyStems kind) hid

theorem freshNames_levelToken {setup : Setup} {blocks : List Block} {scope : Scope}
    {s t : Session} {token : Option Ident} (h : Gives (levelToken setup blocks scope) s token t) :
    FreshNames (scope.taken setup.naming) s.nextTemporary t.nextTemporary token.toList := by
  obtain ⟨-, rfl, rfl⟩ | ⟨-, id, rfl, hid⟩ := gives_levelToken h
  · exact freshNames_nil
  · exact freshNames_of_gives (by decide) hid

/-- Code inside one level: its temporaries are fresh there and it has no methods. -/
structure InsideLevel (taken : List Ident) (n k : Nat) (codes : List Code) : Prop where
  fresh : FreshNames taken n k (Code.allTemporaries codes)
  methodFree : Code.allMethods codes = []

def DeclaresFresh (setup : Setup) (b : Block) : Prop :=
  ∀ {scope : Scope} {s t : Session} {out : Output Code},
    (scope.enclosure = .outermost → b.isRoutine = false) →
    Gives (compileBlock setup scope b) s out t →
    InsideLevel (scope.taken setup.naming) s.nextTemporary t.nextTemporary out.statements

section Blocks

variable {setup : Setup}

theorem insideLevel_of_nothing {taken : List Ident} {n k : Nat} {codes : List Code}
    (ht : Code.allTemporaries codes = []) (hm : Code.allMethods codes = []) :
    InsideLevel taken n k codes :=
  ⟨ht ▸ freshNames_nil, hm⟩

theorem declaresFresh_blocks {blocks : List Block} (h : ∀ b ∈ blocks, DeclaresFresh setup b)
    {scope : Scope} {s t : Session} {out : Output Code}
    (hplace : scope.enclosure = .outermost → ∀ b ∈ blocks, b.isRoutine = false)
    (hgives : Gives (compileBlocks setup .all scope blocks) s out t) :
    InsideLevel (scope.taken setup.naming) s.nextTemporary t.nextTemporary out.statements := by
  induction blocks generalizing s out with
  | nil =>
    obtain ⟨rfl, rfl⟩ := gives_pure.mp hgives
    exact insideLevel_of_nothing rfl rfl
  | cons b rest ih =>
    obtain ⟨here, u, later, hhere, hlater, rfl⟩ := gives_compileBlocks_cons.mp hgives
    have hsu := ((growing_block setup scope b).of_gives hhere).nextTemporary
    have hut := ((growing_blocks setup scope rest).of_gives hlater).nextTemporary
    have hfirst := h b List.mem_cons_self (fun ho => hplace ho b List.mem_cons_self) hhere
    have hrest := ih (fun c hc => h c (List.mem_cons_of_mem _ hc))
      (fun ho c hc => hplace ho c (List.mem_cons_of_mem _ hc)) hlater
    refine ⟨?_, ?_⟩
    · simpa using hfirst.fresh.append hrest.fresh hsu hut
    · simp [hfirst.methodFree, hrest.methodFree]

theorem declaresFresh_doLoop {test : Option LoopTest} {body : List Block}
    (ih : ∀ c ∈ body, DeclaresFresh setup c) : DeclaresFresh setup (.doLoop test body) := by
  intro scope s t out _ h
  obtain ⟨head, names, u, flag, v, inner, hhead, hflag, hinner, rfl⟩ := gives_doLoop h
  have hsu := ((quiet_loopTest setup test scope).growing.of_gives hhead).nextTemporary
  have huv := (loopFlag_fresh hflag).1
  have hvt := ((growing_blocks setup _ body).of_gives hinner).nextTemporary
  have hbody := declaresFresh_blocks ih
    (fun ho => absurd ho (insideLoop_ne_outermost scope _)) hinner
  have hall := ((freshNames_loopFlag hflag).append hbody.fresh huv hvt).widen hsu (Nat.le_refl _)
  refine ⟨?_, ?_⟩
  · simpa [Output.mapStatements, Code.allTemporaries, Code.temporaries] using hall
  · simp [Output.mapStatements, Code.allMethods, Code.methods, hbody.methodFree]

theorem declaresFresh_forLoop {counter : Name} {first last : TokenRun} {step : Option TokenRun}
    {body : List Block} (ih : ∀ c ∈ body, DeclaresFresh setup c) :
    DeclaresFresh setup (.forLoop counter first last step body) := by
  intro scope s t out _ h
  obtain ⟨head, lastName, u, stepName, v, flag, w, inner, -, hlast, hstep, hflag, hinner, rfl⟩ :=
    gives_forLoop h
  have hsu := ((quiet_freshTemporary _ (by decide) _).growing.of_gives hlast).nextTemporary
  have huv := ((quiet_freshTemporary _ (by decide) _).growing.of_gives hstep).nextTemporary
  have hvw := (loopFlag_fresh hflag).1
  have hwt := ((growing_blocks setup _ body).of_gives hinner).nextTemporary
  have hlast' := freshNames_of_gives (by decide) hlast
  have hstep' := freshNames_of_gives (by decide) hstep
  have hbody := declaresFresh_blocks ih
    (fun ho => absurd ho (insideLoop_ne_outermost scope _)) hinner
  have hloop := (freshNames_loopFlag hflag).append hbody.fresh hvw hwt
  have hsteps := hstep'.append hloop huv (Nat.le_trans hvw hwt)
  have hall := hlast'.append hsteps hsu (Nat.le_trans huv (Nat.le_trans hvw hwt))
  refine ⟨?_, ?_⟩
  · simpa [Output.mapStatements, Code.allTemporaries, Code.temporaries] using hall
  · simp [Output.mapStatements, Code.allMethods, Code.methods, hbody.methodFree]

theorem declaresFresh_withTarget {target : TokenRun} {body : List Block}
    (ih : ∀ c ∈ body, DeclaresFresh setup c) : DeclaresFresh setup (.withTarget target body) := by
  intro scope s t out _ h
  obtain ⟨line, r, name, u, inner, -, -, hname, hinner, rfl⟩ := gives_withTarget h
  have hsu := ((quiet_freshTemporary _ (by decide) _).growing.of_gives hname).nextTemporary
  have hut := ((growing_blocks setup _ body).of_gives hinner).nextTemporary
  have hname' := freshNames_of_gives (by decide) hname
  have hbody := declaresFresh_blocks ih (fun ho => by simp [Scope.insideWith] at ho) hinner
  have hall := hname'.append hbody.fresh hsu hut
  refine ⟨?_, ?_⟩
  · simpa [Output.pushFront, Output.addUndeclared, Code.allTemporaries, Code.temporaries] using hall
  · simp [Output.pushFront, Output.addUndeclared, Code.allMethods, Code.methods, hbody.methodFree]

def Output.IsBare (out : Output Code) : Prop :=
  Code.allTemporaries out.statements = [] ∧ Code.allMethods out.statements = []

theorem isBare_of_isPlain {out : Output Code} (h : ∀ c ∈ out.statements, c.IsPlain) :
    out.IsBare := by
  unfold Output.IsBare
  generalize out.statements = codes at h ⊢
  induction codes with
  | nil => exact ⟨rfl, rfl⟩
  | cons c rest ih =>
    obtain ⟨hc, hrest⟩ := List.forall_mem_cons.mp h
    rw [Code.allTemporaries, Code.allMethods, (ih hrest).1, (ih hrest).2]
    cases c with
    | bind | loop | check | trapped | method => cases hc
    | act | trapping | raise | leave | giveBack => exact ⟨rfl, rfl⟩

theorem declaresFresh_block (b : Block) : DeclaresFresh setup b := by
  induction b using Block.nested_induction with
  | step b ih =>
    cases b with
    | doLoop test body => exact declaresFresh_doLoop ih
    | forLoop counter first last step body => exact declaresFresh_forLoop ih
    | withTarget target body => exact declaresFresh_withTarget ih
    | routine kind name parameters body =>
      intro scope s t out hplace h
      cases hplace (gives_routine h).1
    | exit | consts | dim | redim | onError | statement =>
      intro scope s t out _ h
      have hbare := isBare_of_isPlain (isPlain_of_gives rfl h)
      exact insideLevel_of_nothing hbare.1 hbare.2

theorem insideLevel_level {blocks : List Block} {scope : Scope} {s t : Session}
    {out : Output Code} (hplace : scope.enclosure ≠ .outermost)
    (h : Gives (compileLevel setup blocks scope fun selection s =>
      compileBlocks setup selection s blocks) s out t) :
    ∃ hoisted, hoist setup.naming scope blocks = .ok hoisted ∧
      InsideLevel ((scope.declare hoisted).taken setup.naming) s.nextTemporary t.nextTemporary
        out.statements := by
  obtain ⟨hoisted, token, u, body, v, routines, hok, htoken, hbody, hroutines, rfl⟩ :=
    gives_level h
  have hplace' : ((scope.declare hoisted).trappedBy token).enclosure ≠ .outermost := by
    cases token <;> exact hplace
  obtain ⟨-, rfl, rfl⟩ := framed_eq_self_of_gives hplace' hroutines
  have hsu := ((quiet_levelToken setup blocks _).growing.of_gives htoken).nextTemporary
  have hut := ((growing_blocks setup _ _).of_gives hbody).nextTemporary
  have hinside := declaresFresh_blocks (fun b _ => declaresFresh_block b)
    (fun ho => absurd ho hplace') hbody
  have htaken : ((scope.declare hoisted).trappedBy token).taken setup.naming =
      (scope.declare hoisted).taken setup.naming := by
    cases token <;> rfl
  rw [htaken] at hinside
  have hall := (freshNames_levelToken htoken).append hinside.fresh hsu hut
  refine ⟨hoisted, hok, ?_, ?_⟩
  · simpa [Output.addDeclarations, Output.mapStatements] using hall
  · simp [Output.addDeclarations, Output.mapStatements, hinside.methodFree]

end Blocks

/-- What a method declares for the names of the source, for the undeclared names that its body
uses, for its value and for the temporaries of its body. Only an undeclared name and a WITH
temporary can meet. -/
structure NamesApart (named undeclared slot temporaries : List Ident) : Prop where
  nodup_named : named.Nodup
  nodup_undeclared : undeclared.Nodup
  nodup_temporaries : (slot ++ temporaries).Nodup
  named_undeclared : ∀ id ∈ named, id ∉ undeclared
  named_temporaries : ∀ id ∈ named, id ∉ temporaries
  slot_apart : ∀ id ∈ slot, id ∉ named ∧ id ∉ undeclared
  undeclared_temporaries : ∀ id ∈ undeclared, id ∈ temporaries → ∃ k, id = temporary "with" k

theorem NamesApart.nodup_iff {named undeclared slot temporaries : List Ident}
    (h : NamesApart named undeclared slot temporaries) :
    (named ++ undeclared ++ (slot ++ temporaries)).Nodup ↔
      ∀ k, temporary "with" k ∈ undeclared → temporary "with" k ∉ temporaries := by
  rw [List.nodup_append, List.nodup_append]
  constructor
  · rintro ⟨-, -, hapart⟩ k hundeclared htemporary
    exact hapart _ (List.mem_append_right _ hundeclared) _ (List.mem_append_right _ htemporary) rfl
  · intro hwith
    refine ⟨⟨h.nodup_named, h.nodup_undeclared, ?_⟩, h.nodup_temporaries, ?_⟩
    · rintro id hnamed _ hundeclared rfl
      exact h.named_undeclared id hnamed hundeclared
    · rintro id hid _ hallocated rfl
      rcases List.mem_append.mp hid with hnamed | hundeclared <;>
        rcases List.mem_append.mp hallocated with hslot | htemporary
      · exact (h.slot_apart id hslot).1 hnamed
      · exact h.named_temporaries id hnamed htemporary
      · exact (h.slot_apart id hslot).2 hundeclared
      · obtain ⟨k, rfl⟩ := h.undeclared_temporaries id hundeclared htemporary
        exact hwith k hundeclared htemporary

inductive Code.HasNamesApart : Code → Prop where
  | mk {head : MethodHead} {locals undeclaredLocals : List Ident} {body : List Code}
      {result : MethodResult} :
      NamesApart (head.parameters.map (·.1) ++ locals) undeclaredLocals result.slot?.toList
        (Code.allTemporaries body) →
      HasNamesApart (.method head locals undeclaredLocals body result)

section Routine

variable {setup : Setup} {environment : List Name} {program : List Block} {hoisted : Hoisted}

theorem Traced.declares_eq_false {known : Binding → Prop} {level : Scope}
    {sites : List Site} {before after : List RendererCall} {names : List Name}
    (h : Traced setup environment program known level sites before after names) {n : Name}
    (hn : n ∈ names) : level.declares setup.naming n = false := by
  obtain ⟨pairs, -, -, hpairs, hnames⟩ := h
  obtain ⟨p, hp, -, hundeclared⟩ := (hnames n).mp hn
  obtain ⟨r, -, hr⟩ := (hpairs p hp).rendered.result
  rw [RendererCall.undeclared, hr] at hundeclared
  have hdeclares := (List.mem_filter.mp hundeclared).2
  rw [(hpairs p hp).sameLevel.declares] at hdeclares
  simpa using hdeclares

theorem not_mem_registered_of_hoist {naming : Naming} {scope : Scope} {blocks : List Block}
    {inner : Hoisted} (hinner : hoist naming scope blocks = .ok inner) {d : Declaration}
    (hd : d ∈ inner.all) : naming d.name ∉ scope.registered naming := by
  intro hregistered
  have hmem : naming d.name ∈ inner.all.map (naming ·.name) := List.mem_map_of_mem hd
  have hknown : ∀ name, naming name = naming d.name →
      (scope.resolve naming name).isSome = (scope.resolve naming d.name).isSome :=
    fun name hname => by rw [resolve_congr hname]
  have hsome := isSome_kindOf.mpr hmem
  rw [kindOf_of_hoist hinner hknown, if_pos hregistered] at hsome
  cases hsome

theorem mem_taken_routine {naming : Naming} {scope : Scope} {kind : RoutineKind} {name : Name}
    {slot : Option Ident} {parameters : List Parameter} {inner : Hoisted} {id : Ident}
    (h : id ∈ parameters.map (naming ·.name) ∨ id ∈ inner.stored.map (naming ·.name)) :
    id ∈ ((scope.insideRoutine kind name slot parameters).declare inner).taken naming := by
  simp only [Scope.taken, Scope.declare, Scope.insideRoutine, Scope.insideBody, Hoisted.stored,
    List.map_append, List.map_map, List.mem_append] at h ⊢
  rcases h with hparameter | hvar | hconstant
  · have hmem : id ∈ List.map ((fun d : Declaration => naming d.name) ∘
        fun p : Parameter => ⟨p.name, .function⟩) parameters := hparameter
    tauto
  · tauto
  · tauto

/-- A temporary that is also the identifier of a source name belongs to a WITH block. -/
theorem stem_eq_with {naming : Naming} (hnaming : naming.IsCapitalFree) {n : Name} {stem : String}
    {j : Nat} (hstem : stem ∈ bodyStems) (h : naming n = temporary stem j) : stem = "with" := by
  by_contra hne
  have hcapital : ∀ stem ∈ bodyStems, stem = "with" ∨ stem.toList.any Char.isUpper = true := by
    decide
  exact hnaming.ne_temporary ((hcapital stem hstem).resolve_left hne) n j h

theorem returnSlot_apart (hnaming : setup.naming.IsCapitalFree) {kind : RoutineKind}
    {scope : Scope} {s t : Session} {slot : Option Ident}
    (h : Gives (returnSlot setup kind scope) s slot t) :
    AllocatedBetween s.nextTemporary t.nextTemporary slot.toList ∧
      ∀ id ∈ slot, ∀ n, setup.naming n ≠ id := by
  obtain ⟨-, rfl, rfl⟩ | ⟨-, id, rfl, hid⟩ := gives_returnSlot h
  · exact ⟨allocated_nil, by simp⟩
  · refine ⟨(freshFrom_of_gives (by decide) hid).allocated, ?_⟩
    obtain ⟨k, -, rfl, -⟩ := gives_freshTemporary.mp hid
    intro id hid n
    cases hid
    exact hnaming.ne_temporary (by decide) n k

section Body

variable {kind : RoutineKind} {name : Name} {slot : Option Ident} {parameters : List Parameter}
  {body : List Block} {inner : Hoisted} {level : Output Code}

theorem nodup_parameters_locals {naming : Naming} {scope : Scope}
    (hparameters : (parameters.map (naming ·.name)).Nodup)
    (hinner : hoist naming (scope.insideRoutine kind name slot parameters) body = .ok inner)
    (hdeclarations : level.declarations = inner.stored) :
    (parameters.map (naming ·.name) ++ level.localIdents naming).Nodup := by
  refine List.nodup_append.mpr ⟨hparameters, nodup_distinctFrom _ _ _, ?_⟩
  rintro id hparameter _ hlocal rfl
  obtain ⟨d, hd, rfl⟩ := List.mem_map.mp ((mem_localIdents hdeclarations id).mp hlocal)
  have hall : d ∈ inner.all := List.mem_append_left _ hd
  refine not_mem_registered_of_hoist hinner hall (mem_registered_routine.mpr (.inr ?_))
  simpa using hparameter

theorem not_mem_undeclaredLocals
    (hok : hoist setup.naming (.outermost environment) program = .ok hoisted)
    (hmem : .routine kind name parameters body ∈ program)
    (hinner : hoist setup.naming (((Scope.outermost environment).declare hoisted).insideRoutine kind
      name slot parameters) body = .ok inner)
    (hundeclared : ∀ n ∈ level.undeclared, ((((Scope.outermost environment).declare
      hoisted).insideRoutine kind name slot parameters).declare inner).declares setup.naming n =
        false) {id : Ident}
    (hid : id ∈ parameters.map (setup.naming ·.name) ∨
      id ∈ inner.stored.map (setup.naming ·.name)) :
    id ∉ (level.undeclaredLocals setup.naming).map setup.naming := by
  intro hmem'
  rw [Output.undeclaredLocals, mem_distinctNames] at hmem'
  obtain ⟨n, hn, rfl⟩ := List.mem_map.mp hmem'
  have hnot := hundeclared n (List.mem_of_mem_filter hn)
  have hnone := (declares_routine hok hmem hinner n).mp hnot
  have hsome := (isSome_lookup_routine_iff hok hinner (setup.naming n)).mpr (hid.imp_right .inl)
  rw [hnone] at hsome
  cases hsome

theorem namesApart_routineBody (hnaming : setup.naming.IsCapitalFree)
    (hok : hoist setup.naming (.outermost environment) program = .ok hoisted)
    (hmem : .routine kind name parameters body ∈ program)
    (hparameters : (parameters.map (setup.naming ·.name)).Nodup) {around : Scope}
    {s u v : Session} (hslot : Gives (returnSlot setup kind around) s slot u)
    (hlevel : Gives (compileLevel setup body (((Scope.outermost environment).declare
      hoisted).insideRoutine kind name slot parameters) fun selection s =>
        compileBlocks setup selection s body) u level v) :
    NamesApart (parameters.map (setup.naming ·.name) ++ level.localIdents setup.naming)
        ((level.undeclaredLocals setup.naming).map setup.naming) slot.toList
        (Code.allTemporaries level.statements) ∧
      Code.allMethods level.statements = [] := by
  have hplace : (((Scope.outermost environment).declare hoisted).insideRoutine kind name slot
      parameters).enclosure ≠ .outermost := by
    cases kind <;> simp [Scope.insideRoutine, Scope.insideBody, RoutineKind.owner]
  obtain ⟨inner, hinner, hinside⟩ := insideLevel_level hplace hlevel
  obtain ⟨inner', hinner', hdeclarations, htraced⟩ :=
    traced_routineBody hok hmem (isSome_returnSlot hslot).1 (fun _ _ => trivial) hlevel
  obtain rfl : inner = inner' := Except.ok.inj (hinner.symm.trans hinner')
  obtain ⟨hslotFresh, hslotName⟩ := returnSlot_apart hnaming hslot
  have hsu := ((quiet_returnSlot _ kind around).growing.of_gives hslot).nextTemporary
  have huv := ((growing_level _ _ body).of_gives hlevel).nextTemporary
  have hnamed : ∀ id ∈ parameters.map (setup.naming ·.name) ++ level.localIdents setup.naming,
      id ∈ parameters.map (setup.naming ·.name) ∨
        id ∈ inner.stored.map (setup.naming ·.name) := by
    intro id hid
    rwa [List.mem_append, mem_localIdents hdeclarations] at hid
  have hsource : ∀ id, id ∈ parameters.map (setup.naming ·.name) ∨
      id ∈ inner.stored.map (setup.naming ·.name) → ∃ n, setup.naming n = id := by
    rintro id (hid | hid)
    · obtain ⟨p, -, rfl⟩ := List.mem_map.mp hid
      exact ⟨p.name, rfl⟩
    · obtain ⟨d, -, rfl⟩ := List.mem_map.mp hid
      exact ⟨d.name, rfl⟩
  refine ⟨⟨nodup_parameters_locals hparameters hinner hdeclarations, nodup_distinctFrom _ _ _,
    (hslotFresh.append hinside.fresh.allocated hsu huv).nodup, ?_, ?_, ?_, ?_⟩, hinside.methodFree⟩
  · intro id hid
    exact not_mem_undeclaredLocals hok hmem hinner
      (fun n => htraced.declares_eq_false) (hnamed id hid)
  · intro id hid htemporary
    exact hinside.fresh.untaken id htemporary (mem_taken_routine (hnamed id hid))
  · intro id hid
    have hid' : id ∈ slot := by simpa using hid
    constructor
    · intro hmem'
      obtain ⟨n, hn⟩ := hsource id (hnamed id hmem')
      exact hslotName id hid' n hn
    · intro hmem'
      obtain ⟨n, -, hn⟩ := List.mem_map.mp hmem'
      exact hslotName id hid' n hn
  · -- Nothing keeps a temporary away from an undeclared name but the capital in its stem.
    intro id hid htemporary
    obtain ⟨n, -, rfl⟩ := List.mem_map.mp hid
    obtain ⟨stem, hstem, j, hj⟩ := hinside.fresh.stem _ htemporary
    obtain rfl := stem_eq_with hnaming hstem hj
    exact ⟨j, hj⟩

theorem namesApart_routine (hnaming : setup.naming.IsCapitalFree)
    (hok : hoist setup.naming (.outermost environment) program = .ok hoisted)
    (hmem : .routine kind name parameters body ∈ program) {token : Option Ident} {s t : Session}
    {out : Output Code}
    (h : Gives (compileBlock setup (((Scope.outermost environment).declare
      hoisted).trappedBy token) (.routine kind name parameters body)) s out t) :
    ∀ c ∈ Code.allMethods out.statements, c.HasNamesApart := by
  obtain ⟨-, hparameters, hcases⟩ := gives_routine h
  have hnodup : (parameters.map (setup.naming ·.name)).Nodup :=
    (checkParameters_ok_iff.mp hparameters).1
  have hhead : (methodHead setup.naming kind name parameters).parameters.map (·.1) =
      parameters.map (setup.naming ·.name) := by
    simp [methodHead]
  obtain ⟨-, -, rfl⟩ | ⟨-, slot, u, level, v, hslot, hlevel, hmethod⟩ := hcases
  · intro c hc
    obtain rfl : c = emptyMethod (methodHead setup.naming kind name parameters) :=
      List.mem_singleton.mp hc
    refine .mk ⟨?_, by simp, ?_, by simp, by simp [Code.allTemporaries], ?_, by simp⟩
    · simpa [hhead] using hnodup
    · cases kind <;> simp [methodHead, MethodResult.slot?, Code.allTemporaries]
    · cases kind <;> simp [methodHead, MethodResult.slot?]
  · obtain ⟨-, rfl⟩ := gives_method hmethod
    have hlevel' : Gives (compileLevel setup body
        (((Scope.outermost environment).declare hoisted).insideRoutine kind name slot parameters)
        fun selection s => compileBlocks setup selection s body) u level v := by
      cases token <;> exact hlevel
    obtain ⟨hapart, hfree⟩ := namesApart_routineBody hnaming hok hmem hnodup hslot hlevel'
    intro c hc
    simp only [Output.ofStatements, Code.allMethods, Code.methods, hfree, List.append_nil,
      List.mem_singleton] at hc
    subst hc
    refine .mk ?_
    rw [slot_ofSlot]
    exact hhead ▸ hapart

end Body

/-- In no method of a program two names meet, but for an undeclared one and a WITH temporary. -/
theorem namesApart_level (hnaming : setup.naming.IsCapitalFree) {s t : Session} {out : Output Code}
    (h : Gives (compileLevel setup program (.outermost environment)
      fun selection s => compileBlocks setup selection s program) s out t) :
    ∀ c ∈ Code.allMethods out.statements, c.HasNamesApart := by
  obtain ⟨hoisted, token, u, body, v, routines, hok, -, hbody, hroutines, rfl⟩ := gives_level h
  have hjoin : ∀ {a b : Output Code}, (∀ c ∈ Code.allMethods a.statements, c.HasNamesApart) →
      (∀ c ∈ Code.allMethods b.statements, c.HasNamesApart) →
      ∀ c ∈ Code.allMethods (a ++ b).statements, c.HasNamesApart := by
    intro a b ha hb c hc
    simp only [Output.statements_append, Code.allMethods_append, List.mem_append] at hc
    exact hc.elim (ha c) (hb c)
  have hblock : ∀ b ∈ program, ∀ {s t : Session} {out : Output Code},
      Gives (compileBlock setup
        (((Scope.outermost environment).declare hoisted).trappedBy token) b) s out t →
      ∀ c ∈ Code.allMethods out.statements, c.HasNamesApart := by
    intro b hb s t out hout c hc
    by_cases hroutine : b.isRoutine = true
    · cases b <;> try cases hroutine
      exact namesApart_routine hnaming hok hb hout c hc
    · have hfree := (declaresFresh_block b (fun _ => by simpa using hroutine) hout).methodFree
      rw [hfree] at hc
      cases hc
  have hapart : ∀ {blocks : List Block} {s t : Session} {out : Output Code},
      (∀ b ∈ blocks, b ∈ program) →
      Gives (compileBlocks setup .all
        (((Scope.outermost environment).declare hoisted).trappedBy token) blocks) s out t →
      ∀ c ∈ Code.allMethods out.statements, c.HasNamesApart := by
    intro blocks s t out hblocks hout
    exact output_blocks (P := fun out => ∀ c ∈ Code.allMethods out.statements, c.HasNamesApart)
      (fun c hc => nomatch hc) hjoin (fun b hb => hblock b (hblocks b hb)) hout
  refine hjoin ?_ (hapart (fun b => mem_of_mem_unframed) hroutines)
  simpa [Output.mapStatements] using hapart (fun b => mem_of_mem_framed) hbody

end Routine

/-- In a program that compiles, the names that a method declares are pairwise distinct unless a WITH
block of the method keeps its target under a name that the method also declares because its body
uses it undeclared. -/
theorem method_names_distinct_iff {renderer : Renderer} {settings : Settings}
    {program : List Block} {p : Program} {session : Session}
    (h : traceProgram renderer settings program = (.ok p, session)) :
    ∃ out, Gives (compileOutermost (.caseless renderer) program
        (.outermost settings.environmentNames)) {} out session ∧
      p.lines = Code.allLines settings.names.support 0 out.statements ∧
      ∀ head locals undeclaredLocals body result,
        .method head locals undeclaredLocals body result ∈ Code.allMethods out.statements →
        ((methodNames head locals undeclaredLocals body result).Nodup ↔
          ∀ k, temporary "with" k ∈ undeclaredLocals →
            temporary "with" k ∉ Code.allTemporaries body) := by
  obtain ⟨out, hout, rfl⟩ := gives_of_traceProgram h
  refine ⟨out, hout, rfl, ?_⟩
  obtain ⟨level, u, hlevel, -, rfl⟩ := gives_outermost hout
  intro head locals undeclaredLocals body result hmethod
  have hnaming : (Setup.caseless renderer).naming.IsCapitalFree := isCapitalFree_caselessNaming
  obtain ⟨hapart⟩ := namesApart_level hnaming hlevel _ hmethod
  exact hapart.nodup_iff

theorem method_names_distinct_iff_function_with :
    let renderer := plainRenderer caselessNaming
    let program : List Block := [.routine .function ⟨"f", 0⟩ [⟨⟨"x", 0⟩, false⟩]
      [.withTarget [Token.ofText "x" 1] [.statement [Token.ofText "b" 2]]]]
    ∃ p session, traceProgram renderer {} program = (.ok p, session) ∧
      ∃ out, Gives (compileOutermost (.caseless renderer) program
          (.outermost ({} : Settings).environmentNames)) {} out session ∧
        p.lines = Code.allLines ({} : Settings).names.support 0 out.statements ∧
        ∀ head locals undeclaredLocals body result,
          .method head locals undeclaredLocals body result ∈ Code.allMethods out.statements →
          ((methodNames head locals undeclaredLocals body result).Nodup ↔
            ∀ k, temporary "with" k ∈ undeclaredLocals →
              temporary "with" k ∉ Code.allTemporaries body) := by
  intro renderer program
  have hok : (compileProgram renderer {} program).isOk = true := by decide +kernel
  obtain ⟨p, session, h⟩ := exists_traceProgram hok
  exact ⟨p, session, h, method_names_distinct_iff h⟩

def Code.declaresTwice : Code → Bool
  | .method head locals undeclaredLocals body result =>
    !decide (methodNames head locals undeclaredLocals body result).Nodup
  | _ => false

/-- `SUB f : WITH a : .b = 1 : END WITH : with1 = 2 : END SUB` keeps the target in `with1`. -/
theorem method_names_repeat_with_undeclared :
    let renderer := plainRenderer caselessNaming
    let program : List Block := [.routine .sub ⟨"f", 0⟩ []
      [.withTarget [Token.ofText "a" 1] [.statement [Token.ofText "." 2, Token.ofText "b" 2,
        Token.ofText "=" 2, Token.ofText "1" 2]],
        .statement [Token.ofText "with1" 3, Token.ofText "=" 3, Token.ofText "2" 3]]]
    ∃ p session out, traceProgram renderer {} program = (.ok p, session) ∧
      Gives (compileOutermost (.caseless renderer) program
        (.outermost ({} : Settings).environmentNames)) {} out session ∧
      ∃ head locals undeclaredLocals body result,
        .method head locals undeclaredLocals body result ∈ Code.allMethods out.statements ∧
        ¬ (methodNames head locals undeclaredLocals body result).Nodup := by
  intro renderer program
  have hok : (compileProgram renderer {} program).isOk = true := by decide +kernel
  have hrepeats : ((compileOutermost (.caseless renderer) program
      (.outermost ({} : Settings).environmentNames)).outcome {}).1.toOption.any
      (fun out => (Code.allMethods out.statements).any Code.declaresTwice) = true := by
    decide +kernel
  obtain ⟨p, session, h⟩ := exists_traceProgram hok
  obtain ⟨out, hout, -⟩ := gives_of_traceProgram h
  rw [hout] at hrepeats
  obtain ⟨c, hc, hrepeat⟩ := List.any_eq_true.mp hrepeats
  cases c <;> try cases hrepeat
  exact ⟨p, session, out, h, hout, _, _, _, _, _, hc, by simpa [Code.declaresTwice] using hrepeat⟩

end VbsCompiler
