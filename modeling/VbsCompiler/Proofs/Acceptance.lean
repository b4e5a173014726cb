import VbsCompiler.Proofs.Lexical

/-! Which programs compile. With a renderer that renders everything, a program compiles exactly if
it is valid, and validity is a property of its blocks alone; the errors that would show the compiler
at odds with itself never happen. -/

namespace VbsCompiler

open CompileM

inductive CompileError.IsStatic : CompileError → Prop where
  | nameRedefined {name : Name} : IsStatic (.nameRedefined name)
  | invalidExit {kind : ExitKind} {line : Nat} : IsStatic (.invalidExit kind line)
  | nestedRoutine {name : Name} : IsStatic (.nestedRoutine name)
  | emptyWithTarget : IsStatic .emptyWithTarget

/-- From every session the action succeeds if `p` holds, with a result for which `post` holds, and
fails with a static error if it does not. -/
def CompileM.Settles {α : Type} (x : CompileM α) (p : Prop) (post : α → Prop) : Prop :=
  ∀ s, (p ∧ ∃ a t, Gives x s a t ∧ post a) ∨
    (¬ p ∧ ∃ e t, x.outcome s = (.error e, t) ∧ e.IsStatic)

section Settles

variable {α β : Type} {p q : Prop}

theorem settles_pure {post : α → Prop} {a : α} (h : post a) : Settles (pure a) True post :=
  fun s => .inl ⟨trivial, a, s, rfl, h⟩

theorem settles_throw {post : α → Prop} {e : CompileError} (he : e.IsStatic) :
    Settles (throw e : CompileM α) False post :=
  fun s => .inr ⟨not_false, e, s, rfl, he⟩

theorem settles_ofExcept {r : Except CompileError α} (h : ∀ e, r = .error e → e.IsStatic) :
    Settles (ofExcept r) (∃ a, r = .ok a) (r = .ok ·) := by
  intro s
  rcases hr : r with e | a
  · exact .inr ⟨by simp, e, s, rfl, h e hr⟩
  · exact .inl ⟨⟨a, rfl⟩, a, s, rfl, rfl⟩

theorem CompileM.Settles.congr {x : CompileM α} {post : α → Prop} (h : Settles x p post)
    (hpq : p ↔ q) : Settles x q post := by
  rwa [propext hpq] at h

theorem CompileM.Settles.mono {x : CompileM α} {post post' : α → Prop} (h : Settles x p post)
    (hpost : ∀ a, post a → post' a) : Settles x p post' := by
  intro s
  rcases h s with ⟨hp, a, t, ha, hpa⟩ | herror
  · exact .inl ⟨hp, a, t, ha, hpost a hpa⟩
  · exact .inr herror

theorem CompileM.Settles.bind {x : CompileM α} {f : α → CompileM β} {mid : α → Prop}
    {post : β → Prop} (hx : Settles x p mid) (hf : ∀ a, mid a → Settles (f a) q post) :
    Settles (x >>= f) (p ∧ q) post := by
  intro s
  rcases hx s with ⟨hp, a, t, ha, hmid⟩ | ⟨hp, e, t, he, hstatic⟩
  · rcases hf a hmid t with ⟨hq, b, u, hb, hpost⟩ | ⟨hq, e, u, he, hstatic⟩
    · exact .inl ⟨⟨hp, hq⟩, b, u, gives_bind.mpr ⟨a, t, ha, hb⟩, hpost⟩
    · refine .inr ⟨fun h => hq h.2, e, u, ?_, hstatic⟩
      rw [outcome_bind, show x.outcome s = (.ok a, t) from ha]
      exact he
  · refine .inr ⟨fun h => hp h.1, e, t, ?_, hstatic⟩
    rw [outcome_bind, he]

theorem CompileM.Settles.after {x : CompileM α} {f : α → CompileM β} {mid : α → Prop}
    {post : β → Prop} (hx : Settles x True mid) (hf : ∀ a, mid a → Settles (f a) q post) :
    Settles (x >>= f) q post :=
  (hx.bind hf).congr (iff_of_eq (true_and q))

theorem CompileM.Settles.then_pure {x : CompileM α} {f : α → β} {mid : α → Prop}
    {post : β → Prop} (hx : Settles x p mid) (hf : ∀ a, mid a → post (f a)) :
    Settles (x >>= fun a => pure (f a)) p post :=
  (hx.bind fun a ha => settles_pure (hf a ha)).congr (iff_of_eq (and_true p))

theorem settles_freshTemporary (naming : Naming) (stem : String) (scope : Scope) :
    Settles (freshTemporary naming stem scope) True fun _ => True :=
  fun _ => .inl ⟨trivial, _, _, rfl, trivial⟩

theorem settles_forM_reportUndeclared (names : List Name) :
    Settles (names.forM reportUndeclared) True fun _ => True :=
  fun s => .inl ⟨trivial, (), _, outcome_forM_reportUndeclared names s, trivial⟩

end Settles

theorem isStatic_of_hoistEvents {naming : Naming} {scope : Scope} {registered : List Ident}
    {hoisted : Hoisted} {events : List DeclarationEvent} {e : CompileError}
    (h : hoistEvents naming scope registered hoisted events = .error e) : e.IsStatic := by
  induction events generalizing registered hoisted with
  | nil => cases h
  | cons event rest ih =>
    cases event with
    | declares kind name =>
      rw [hoistEvents] at h
      split at h
      · cases h
        exact .nameRedefined
      · exact ih h
    | redims name =>
      rw [hoistEvents] at h
      split at h
      · exact ih h
      · exact ih h

theorem isStatic_of_checkParameters {naming : Naming} {seen : List Ident}
    {parameters : List Parameter} {e : CompileError}
    (h : checkParameters naming seen parameters = .error e) : e.IsStatic := by
  induction parameters generalizing seen with
  | nil => cases h
  | cons p rest ih =>
    rw [checkParameters] at h
    split at h
    · cases h
      exact .nameRedefined
    · exact ih h

theorem checkParameters_ok_iff {naming : Naming} {seen : List Ident}
    {parameters : List Parameter} :
    checkParameters naming seen parameters = .ok () ↔
      (parameters.map (naming ·.name)).Nodup ∧ ∀ p ∈ parameters, naming p.name ∉ seen := by
  induction parameters generalizing seen with
  | nil => simp [checkParameters]
  | cons p rest ih =>
    rw [checkParameters]
    split
    case isTrue hseen => simp [hseen]
    case isFalse hseen =>
      rw [ih]
      simp only [List.map_cons, List.nodup_cons, List.mem_map, List.mem_cons, not_or,
        forall_eq_or_imp]
      grind

/-- What a level registers depends on what its names refer to, and not on slots or frames. -/
theorem hoist_congr {naming : Naming} {scope scope' : Scope} (howner : scope.owner = scope'.owner)
    (hvars : scope.vars = scope'.vars)
    (hresolve : ∀ n, scope.resolve naming n = scope'.resolve naming n) (blocks : List Block) :
    hoist naming scope blocks = hoist naming scope' blocks := by
  have hloc : scope.location = scope'.location := congrArg Owner.location howner
  have hevents : ∀ (registered : List Ident) (hoisted : Hoisted) (events : List DeclarationEvent),
      hoistEvents naming scope registered hoisted events =
        hoistEvents naming scope' registered hoisted events := by
    intro registered hoisted events
    induction events generalizing registered hoisted with
    | nil => rfl
    | cons event rest ih =>
      cases event with
      | declares kind name => simp only [hoistEvents, hloc, ih]
      | redims name => simp only [hoistEvents, hloc, hresolve, ih]
  rw [hoist, hoist, hevents, Scope.registered, Scope.registered, howner, hvars, hloc]

section Statements

variable {setup : Setup} (htotal : ∀ demand run scope, ∃ r, setup.renderer demand run scope = .ok r)
include htotal

theorem settles_render (demand : Demand) (run : TokenRun) (scope : Scope) :
    Settles (render setup demand run scope) True fun _ => True := by
  intro s
  obtain ⟨r, hr⟩ := htotal demand run scope
  exact .inl ⟨trivial, r, _, gives_render.mpr ⟨hr, rfl⟩, trivial⟩

theorem settles_renderValues (scope : Scope) (runs : List TokenRun) :
    Settles (renderValues setup scope runs) True fun _ => True := by
  induction runs with
  | nil => exact settles_pure trivial
  | cons run rest ih =>
    refine (settles_render htotal _ _ _).after fun r _ => ?_
    exact ih.then_pure fun _ _ => trivial

theorem settles_const (item : ConstItem) (scope : Scope) :
    Settles (compileConst setup item scope) True fun _ => True := by
  refine (settles_render htotal _ _ _).after fun target _ => ?_
  exact (settles_render htotal _ _ _).then_pure fun _ _ => trivial

theorem settles_dim (item : DimItem) (scope : Scope) :
    Settles (compileDim setup item scope) True fun _ => True := by
  unfold compileDim
  split
  · exact settles_pure trivial
  · refine (settles_render htotal _ _ _).after fun target _ => ?_
    exact (settles_renderValues htotal _ _).then_pure fun _ _ => trivial

theorem settles_redim (preserve : Bool) (item : RedimItem) (scope : Scope) :
    Settles (compileRedim setup preserve item scope) True fun _ => True := by
  refine (settles_renderValues htotal _ _).after fun ⟨fragments, names⟩ _ => ?_
  dsimp only
  split
  · exact settles_pure trivial
  · exact (settles_render htotal _ _ _).then_pure fun _ _ => trivial

theorem settles_loopTest (test : Option LoopTest) (scope : Scope) :
    Settles (compileLoopTest setup test scope) True fun _ => True := by
  cases test with
  | none => exact settles_pure trivial
  | some test => exact (settles_render htotal _ _ _).then_pure fun _ _ => trivial

theorem settles_forHead (counter : Name) (first last : TokenRun) (step : Option TokenRun)
    (scope : Scope) : Settles (renderForHead setup counter first last step scope) True
      fun _ => True := by
  refine (settles_render htotal _ _ _).after fun _ _ => ?_
  refine (settles_render htotal _ _ _).after fun _ _ => ?_
  refine (settles_render htotal _ _ _).after fun _ _ => ?_
  cases step with
  | none => exact settles_pure trivial
  | some run => exact (settles_render htotal _ _ _).then_pure fun _ _ => trivial

end Statements

theorem settles_items {α : Type} {f : α → CompileM (Output Code)}
    (h : ∀ a, Settles (f a) True fun _ => True) (items : List α) :
    Settles (compileItems f items) True fun _ => True := by
  induction items with
  | nil => exact settles_pure trivial
  | cons a rest ih => exact (h a).after fun _ _ => ih.then_pure fun _ _ => trivial

theorem settles_loopFlag (setup : Setup) (kind : LoopKind) (body : List Block) (scope : Scope) :
    Settles (loopFlag setup kind body scope) True
      fun flag => Block.needsFlag kind body = true → flag.isSome := by
  unfold loopFlag
  split
  case isTrue => exact (settles_freshTemporary _ _ _).then_pure fun _ _ _ => rfl
  case isFalse hneeds => exact settles_pure fun h => absurd h hneeds

theorem settles_levelToken (setup : Setup) (blocks : List Block) (scope : Scope) :
    Settles (levelToken setup blocks scope) True
      fun token => token.isSome = Block.anyTrapsErrors blocks := by
  unfold levelToken
  split
  case isTrue htraps => exact (settles_freshTemporary _ _ _).then_pure fun _ _ => htraps.symm
  case isFalse htraps => exact settles_pure (by simpa using htraps)

theorem settles_returnSlot (setup : Setup) (kind : RoutineKind) (scope : Scope) :
    Settles (returnSlot setup kind scope) True fun slot => slot.isSome ↔ kind = .function := by
  cases kind with
  | function => exact (settles_freshTemporary _ _ _).then_pure fun _ _ => by simp
  | sub => exact settles_pure (by simp)

theorem settles_loopExit {kind : LoopKind} {line : Nat} {loops : List LoopFrame}
    (hflag : ∀ target, loops.find? (·.kind = kind) = some target →
      loops.head?.any (·.kind ≠ kind) = true → target.flag.isSome) :
    Settles (ofExcept (compileLoopExit kind line loops)) (kind ∈ loops.map (·.kind))
      fun _ => True := by
  cases loops with
  | nil => exact (settles_throw .invalidExit).congr (by simp)
  | cons nearest outer =>
    by_cases hk : nearest.kind = kind
    · rw [compileLoopExit, if_pos hk]
      exact (settles_pure trivial).congr (by simp [hk])
    · rw [List.find?_cons_of_neg (by simpa using hk)] at hflag
      rw [compileLoopExit, if_neg hk]
      cases hfind : outer.find? (·.kind = kind) with
      | none =>
        have hnone : kind ∉ (nearest :: outer).map (·.kind) := by
          have hne := List.find?_eq_none.mp hfind
          simp only [List.map_cons, List.mem_cons, List.mem_map, not_or, not_exists, not_and]
          exact ⟨fun h => hk h.symm, fun frame hframe h => hne frame hframe (by simpa using h)⟩
        exact (settles_throw .invalidExit).congr (by simpa using hnone)
      | some target =>
        obtain ⟨f, hf⟩ := Option.isSome_iff_exists.mp (hflag target hfind (by simpa using hk))
        have hmem : kind ∈ (nearest :: outer).map (·.kind) := by
          have htarget : target.kind = kind := by simpa using List.find?_some hfind
          exact List.mem_map.mpr
            ⟨target, List.mem_cons_of_mem _ (List.mem_of_find?_eq_some hfind), htarget⟩
        simp only [hf]
        exact (settles_pure trivial).congr (by simpa using hmem)

namespace Block

/-- What a block needs of itself and of the blocks around it. -/
def Proper (naming : Naming) (around : List Block) : Block → Prop
  | .routine _ _ parameters _ => around = [] ∧ (parameters.map (naming ·.name)).Nodup
  | .exit (.loop kind) _ => kind ∈ loopsAround around
  | .exit .function _ => ∃ name, ownerAround around = .function name
  | .exit .sub _ => ∃ name, ownerAround around = .sub name
  | .exit .property _ => False
  | .withTarget target _ => target ≠ []
  | _ => True

inductive WellPlaced (naming : Naming) : List Block → Block → Prop where
  | mk {around : List Block} {b : Block} : b.Proper naming around →
      (∀ c ∈ b.children, WellPlaced naming (b :: around) c) → WellPlaced naming around b

theorem wellPlaced_iff {naming : Naming} {around : List Block} {b : Block} :
    WellPlaced naming around b ↔
      b.Proper naming around ∧ ∀ c ∈ b.children, WellPlaced naming (b :: around) c :=
  ⟨fun | .mk hproper hinside => ⟨hproper, hinside⟩, fun h => .mk h.1 h.2⟩

theorem Occurs.wellPlaced {naming : Naming} {program : List Block}
    (h : ∀ around b, Occurs program around b → b.Proper naming around) {b : Block}
    {around : List Block} (hb : Occurs program around b) : WellPlaced naming around b := by
  induction b using Block.nested_induction generalizing around with
  | step b ih => exact .mk (h around b hb) fun c hc => ih c hc (hb.inside hc)

theorem forall_wellPlaced_iff {naming : Naming} {program : List Block} :
    (∀ b ∈ program, WellPlaced naming [] b) ↔
      ∀ around b, Occurs program around b → b.Proper naming around := by
  constructor
  · intro h around b hb
    have hplaced : WellPlaced naming around b := by
      induction hb with
      | top hmem => exact h _ hmem
      | inside _ hc ih => exact (wellPlaced_iff.mp ih).2 _ hc
    exact (wellPlaced_iff.mp hplaced).1
  · intro h b hb
    exact Occurs.wellPlaced h (.top hb)

/-- A program is valid if no level declares a name twice and all its blocks are proper. -/
structure Valid (naming : Naming) (environment : List Name) (program : List Block) : Prop where
  levels : ∃ hoisted, hoist naming (.outermost environment) program = .ok hoisted ∧
    ∀ kind name parameters body, .routine kind name parameters body ∈ program → body ≠ [] →
      ∃ inner, hoist naming (((Scope.outermost environment).declare hoisted).insideRoutine kind name
        none parameters) body = .ok inner
  proper : ∀ around b, Occurs program around b → b.Proper naming around

end Block

open Block

/-- Every loop that the block leaves from inside another loop has a flag. -/
def Scope.Flagged (scope : Scope) (b : Block) : Prop :=
  ∀ kind target, scope.loops.find? (·.kind = kind) = some target →
    b.exitsThrough kind (scope.loops.head?.any (·.kind ≠ kind)) = true → target.flag.isSome

theorem flagged_of_no_loops {scope : Scope} (h : scope.loops = []) (b : Block) :
    scope.Flagged b := by
  intro kind target htarget
  rw [h] at htarget
  cases htarget

theorem flagged_insideLoop {scope : Scope} {kind : LoopKind} {flag : Option Ident}
    {body : List Block} (hflag : needsFlag kind body = true → flag.isSome)
    (houter : ∀ other target, other ≠ kind → scope.loops.find? (·.kind = other) = some target →
      anyExitsThrough other true body = true → target.flag.isSome) {c : Block} (hc : c ∈ body) :
    (scope.insideLoop ⟨kind, flag⟩).Flagged c := by
  intro other target htarget hexits
  by_cases hk : kind = other
  · subst hk
    simp only [Scope.insideLoop, List.find?_cons, decide_true, Option.some.injEq] at htarget
    subst htarget
    refine hflag ?_
    rw [needsFlag, anyExitsThrough_eq_any, List.any_eq_true]
    exact ⟨c, hc, by simpa [Scope.insideLoop] using hexits⟩
  · rw [Scope.insideLoop, List.find?_cons_of_neg (by simpa using hk)] at htarget
    refine houter other target (Ne.symm hk) htarget ?_
    rw [anyExitsThrough_eq_any, List.any_eq_true]
    exact ⟨c, hc, by simpa [Scope.insideLoop, hk] using hexits⟩

theorem Scope.Flagged.insideDo {scope : Scope} {test : Option LoopTest} {flag : Option Ident}
    {body : List Block} (h : scope.Flagged (.doLoop test body))
    (hflag : needsFlag .doLoop body = true → flag.isSome) {c : Block} (hc : c ∈ body) :
    (scope.insideLoop ⟨.doLoop, flag⟩).Flagged c := by
  refine flagged_insideLoop hflag (fun other target hother htarget hexits => ?_) hc
  refine h other target htarget ?_
  simpa [exitsThrough, hother] using hexits

theorem Scope.Flagged.insideFor {scope : Scope} {counter : Name} {first last : TokenRun}
    {step : Option TokenRun} {flag : Option Ident} {body : List Block}
    (h : scope.Flagged (.forLoop counter first last step body))
    (hflag : needsFlag .forLoop body = true → flag.isSome) {c : Block} (hc : c ∈ body) :
    (scope.insideLoop ⟨.forLoop, flag⟩).Flagged c := by
  refine flagged_insideLoop hflag (fun other target hother htarget hexits => ?_) hc
  refine h other target htarget ?_
  simpa [exitsThrough, hother] using hexits

theorem Scope.Flagged.insideWith {scope : Scope} {target : TokenRun} {body : List Block}
    (h : scope.Flagged (.withTarget target body)) (w : WithReference) {c : Block} (hc : c ∈ body) :
    (scope.insideWith w).Flagged c := by
  intro kind frame hframe hexits
  refine h kind frame hframe ?_
  rw [exitsThrough, anyExitsThrough_eq_any, List.any_eq_true]
  exact ⟨c, hc, hexits⟩

def Accepted (naming : Naming) (scope : Scope) (around : List Block) (b : Block) : Prop :=
  b.WellPlaced naming around ∧
    ∀ kind name parameters body, b = .routine kind name parameters body → body ≠ [] →
      ∃ inner, hoist naming (scope.insideRoutine kind name none parameters) body = .ok inner

theorem accepted_iff_of_ne_nil {naming : Naming} {scope : Scope} {around : List Block} {b : Block}
    (h : around ≠ []) : Accepted naming scope around b ↔ b.WellPlaced naming around := by
  refine ⟨And.left, fun hb => ⟨hb, ?_⟩⟩
  rintro kind name parameters body rfl
  exact absurd (wellPlaced_iff.mp hb).1.1 h

theorem ownerAround_ne_property (around : List Block) (name : Name) :
    ownerAround around ≠ .property name := by
  induction around with
  | nil => simp [ownerAround]
  | cons b around ih =>
    cases b with
    | routine kind => cases kind <;> simp [ownerAround, RoutineKind.owner]
    | _ => exact ih

theorem allowsExit_iff_proper (naming : Naming) (around : List Block) {kind : ExitKind}
    (hkind : ∀ loopKind, kind ≠ .loop loopKind) (line : Nat) :
    (ownerAround around).allowsExit kind = true ↔
      (Block.exit kind line).Proper naming around := by
  have hproperty := ownerAround_ne_property around
  cases kind with
  | loop loopKind => exact absurd rfl (hkind loopKind)
  | function | sub | property =>
    cases howner : ownerAround around with
    | property name => exact absurd howner (hproperty name)
    | program | function | sub => simp [Owner.allowsExit, Proper, howner]

theorem accepted_routine_iff {naming : Naming} {scope : Scope} {around : List Block}
    {kind : RoutineKind} {name : Name} {parameters : List Parameter} {body : List Block} :
    Accepted naming scope around (.routine kind name parameters body) ↔
      (Block.routine kind name parameters body).WellPlaced naming around ∧ (body ≠ [] →
        ∃ inner,
          hoist naming (scope.insideRoutine kind name none parameters) body = .ok inner) := by
  refine and_congr_right fun _ => ⟨fun h => h kind name parameters body rfl, ?_⟩
  rintro h _ _ _ _ ⟨⟩
  exact h

theorem accepted_iff_of_not_routine {naming : Naming} {scope : Scope} {around : List Block}
    {b : Block} (h : b.isRoutine = false) :
    Accepted naming scope around b ↔
      b.Proper naming around ∧ ∀ c ∈ b.children, c.WellPlaced naming (b :: around) := by
  rw [← wellPlaced_iff]
  refine ⟨And.left, fun hb => ⟨hb, ?_⟩⟩
  rintro kind name parameters body rfl
  cases h

theorem settles_exit (naming : Naming) {program around : List Block} {scope : Scope}
    {kind : ExitKind} {line : Nat} (hfits : scope.Fits program around)
    (hflagged : scope.Flagged (.exit kind line)) :
    Settles (compileExit kind line scope) ((Block.exit kind line).Proper naming around)
      fun _ => True := by
  cases kind with
  | loop kind =>
    have hexit : Settles (ofExcept (compileLoopExit kind line scope.loops))
        (kind ∈ loopsAround around) fun _ => True := by
      rw [← hfits.loops]
      refine settles_loopExit fun target htarget hnot => hflagged kind target htarget ?_
      simpa [exitsThrough] using hnot
    exact hexit.then_pure fun _ _ => trivial
  | function | sub | property =>
    refine Settles.congr ?_ (allowsExit_iff_proper naming around (by rintro _ ⟨⟩) line)
    rw [← hfits.owner]
    simp only [compileExit]
    split
    case isTrue hallowed => exact (settles_pure trivial).congr (iff_of_true trivial hallowed)
    case isFalse hallowed => exact (settles_throw .invalidExit).congr (iff_of_false id hallowed)

theorem settles_onError {program around : List Block} {scope : Scope} {mode : TrapMode} {line : Nat}
    (hfits : scope.Fits program around) (hocc : Occurs program around (.onError mode line)) :
    Settles (compileOnError mode line scope) True fun _ => True := by
  have htrap : scope.trapToken.isSome = true := hfits.trap.trans (hocc.levelTraps rfl)
  obtain ⟨token, htoken⟩ := Option.isSome_iff_exists.mp htrap
  rw [compileOnError, htoken]
  exact settles_pure trivial

theorem settles_blocks_of_forall {setup : Setup} {scope : Scope} {blocks : List Block}
    {p : Block → Prop}
    (h : ∀ b ∈ blocks, Settles (compileBlock setup scope b) (p b) fun _ => True) :
    Settles (compileBlocks setup .all scope blocks) (∀ b ∈ blocks, p b) fun _ => True := by
  induction blocks with
  | nil => exact (settles_pure trivial).congr (by simp)
  | cons b rest ih =>
    have hrest := ih fun c hc => h c (List.mem_cons_of_mem _ hc)
    exact ((h b List.mem_cons_self).bind fun _ _ => hrest.then_pure fun _ _ => trivial).congr
      List.forall_mem_cons.symm

theorem settles_level_of_forall {setup : Setup} {scope : Scope} {blocks : List Block}
    {p : Hoisted → Block → Prop}
    (h : ∀ b ∈ blocks, ∀ hoisted token, token.isSome = anyTrapsErrors blocks →
      Settles (compileBlock setup ((scope.declare hoisted).trappedBy token) b) (p hoisted b)
        fun _ => True) :
    Settles (compileLevel setup blocks scope fun selection s =>
        compileBlocks setup selection s blocks)
      (∃ hoisted, hoist setup.naming scope blocks = .ok hoisted ∧ ∀ b ∈ blocks, p hoisted b)
      fun _ => True := by
  rw [compileLevel_eq]
  have hhoist : Settles (ofExcept (hoist setup.naming scope blocks))
      (∃ hoisted, hoist setup.naming scope blocks = .ok hoisted)
      (hoist setup.naming scope blocks = .ok ·) :=
    settles_ofExcept fun _ he => isStatic_of_hoistEvents he
  refine (hhoist.bind (q := ∀ hoisted, hoist setup.naming scope blocks = .ok hoisted →
    ∀ b ∈ blocks, p hoisted b) fun hoisted hok => ?_).congr ?_
  · refine (settles_levelToken setup blocks _).after fun token htoken => ?_
    have hframed := settles_blocks_of_forall fun b hb =>
      h b (mem_of_mem_framed hb) hoisted token htoken
    have hunframed := settles_blocks_of_forall fun b hb =>
      h b (mem_of_mem_unframed hb) hoisted token htoken
    refine (hframed.bind fun _ _ => hunframed.then_pure fun _ _ => trivial).congr ?_
    rw [forall_framed_and_unframed, hok]
    simp
  · constructor
    · rintro ⟨⟨hoisted, hok⟩, hall⟩
      exact ⟨hoisted, hok, hall hoisted hok⟩
    · rintro ⟨hoisted, hok, hall⟩
      refine ⟨⟨hoisted, hok⟩, fun other hother => ?_⟩
      obtain rfl : hoisted = other := Except.ok.inj (hok.symm.trans hother)
      exact hall

def Decided (setup : Setup) (program : List Block) (b : Block) : Prop :=
  ∀ {around : List Block} {scope : Scope}, Occurs program around b → scope.Fits program around →
    scope.Flagged b →
    Settles (compileBlock setup scope b) (Accepted setup.naming scope around b) fun _ => True

section Blocks

variable {setup : Setup} {program : List Block}

theorem settles_body {around : List Block} {scope : Scope} {b : Block}
    (hocc : Occurs program around b) (ih : ∀ c ∈ b.children, Decided setup program c)
    (hfits : scope.Fits program (b :: around)) (hflagged : ∀ c ∈ b.children, scope.Flagged c) :
    Settles (compileBlocks setup .all scope b.children)
      (∀ c ∈ b.children, c.WellPlaced setup.naming (b :: around)) fun _ => True := by
  refine settles_blocks_of_forall fun c hc => ?_
  exact (ih c hc (hocc.inside hc) hfits (hflagged c hc)).congr (accepted_iff_of_ne_nil (by simp))

theorem settles_routineBody (scope : Scope) {kind : RoutineKind} {name : Name}
    {parameters : List Parameter} {body : List Block} {slot : Option Ident}
    (ih : ∀ c ∈ body, Decided setup program c)
    (hocc : Occurs program [] (.routine kind name parameters body))
    (hslot : slot.isSome ↔ kind = .function) :
    Settles (compileLevel setup body (scope.insideRoutine kind name slot parameters)
        fun selection s => compileBlocks setup selection s body)
      (∃ inner, hoist setup.naming (scope.insideRoutine kind name none parameters) body =
          .ok inner ∧
        ∀ c ∈ body, c.WellPlaced setup.naming [.routine kind name parameters body])
      fun _ => True := by
  -- validity knows of no slots, and hoisting does not ask for them
  have hsame : hoist setup.naming (scope.insideRoutine kind name slot parameters) body =
      hoist setup.naming (scope.insideRoutine kind name none parameters) body := by
    refine hoist_congr ?_ ?_ (fun _ => ?_) body <;> rfl
  rw [← hsame]
  refine settles_level_of_forall fun c hc hoisted token htoken => ?_
  have hfits := fits_routine program [] scope kind name parameters hoisted hslot htoken
  have hflagged := flagged_of_no_loops (List.map_eq_nil_iff.mp hfits.loops) c
  exact (ih c hc (hocc.inside hc) hfits hflagged).congr (accepted_iff_of_ne_nil (by simp))

theorem settles_routine {scope : Scope} {kind : RoutineKind} {name : Name}
    {parameters : List Parameter} {body : List Block}
    (ih : ∀ c ∈ body, Decided setup program c)
    (hocc : Occurs program [] (.routine kind name parameters body))
    (hfits : scope.Fits program []) :
    Settles (compileBlock setup scope (.routine kind name parameters body))
      (Accepted setup.naming scope [] (.routine kind name parameters body)) fun _ => True := by
  have hwell : (Block.routine kind name parameters body).WellPlaced setup.naming [] ↔
      checkParameters setup.naming [] parameters = .ok () ∧
        ∀ c ∈ body, c.WellPlaced setup.naming [.routine kind name parameters body] := by
    rw [wellPlaced_iff, checkParameters_ok_iff]
    simp [Proper, children]
  have hparameters : Settles (ofExcept (checkParameters setup.naming [] parameters))
      (checkParameters setup.naming [] parameters = .ok ()) fun _ => True := by
    have hsettles : Settles (ofExcept (checkParameters setup.naming [] parameters)) _ _ :=
      settles_ofExcept fun _ he => isStatic_of_checkParameters he
    refine (hsettles.mono fun _ _ => trivial).congr ⟨?_, fun h => ⟨(), h⟩⟩
    rintro ⟨_, h⟩
    exact h
  have hplace : ¬ scope.enclosure ≠ .outermost := by simpa using hfits.outermost.mpr rfl
  rw [compileBlock, if_neg hplace]
  by_cases hbody : body = []
  · subst hbody
    refine (hparameters.then_pure fun _ _ => trivial).congr ?_
    simp [accepted_routine_iff, hwell]
  · have hmethod : ∀ slot level, Settles (compileMethod setup
        (methodHead setup.naming kind name parameters) slot level) True fun _ => True :=
      fun slot level => (settles_forM_reportUndeclared _).then_pure fun _ _ => trivial
    refine (hparameters.bind (q := ∃ inner, hoist setup.naming
      (scope.insideRoutine kind name none parameters) body = .ok inner ∧
        ∀ c ∈ body, c.WellPlaced setup.naming [.routine kind name parameters body])
      fun _ _ => ?_).congr ?_
    · rw [if_neg (by simpa using hbody)]
      refine (settles_returnSlot setup kind scope).after fun slot hslot => ?_
      have hlevel := settles_routineBody scope ih hocc hslot
      exact (hlevel.bind fun level _ => hmethod slot level).congr (by simp)
    · rw [accepted_routine_iff, hwell]
      grind

variable (htotal : ∀ demand run scope, ∃ r, setup.renderer demand run scope = .ok r)
include htotal

theorem decided_doLoop {test : Option LoopTest} {body : List Block}
    (ih : ∀ c ∈ body, Decided setup program c) : Decided setup program (.doLoop test body) := by
  intro around scope hocc hfits hflagged
  rw [compileBlock]
  refine (settles_loopTest htotal test scope).after fun result _ => ?_
  obtain ⟨head, names⟩ := result
  refine (settles_loopFlag setup .doLoop body scope).after fun flag hflag => ?_
  have hinside : ∀ c ∈ body, (scope.insideLoop ⟨.doLoop, flag⟩).Flagged c :=
    fun c hc => hflagged.insideDo hflag hc
  have hbody := settles_body hocc ih (hfits.insideDo test body flag) hinside
  exact (hbody.then_pure fun _ _ => trivial).congr
    (by simp [accepted_iff_of_not_routine (b := .doLoop test body) rfl, Proper])

theorem decided_forLoop {counter : Name} {first last : TokenRun} {step : Option TokenRun}
    {body : List Block} (ih : ∀ c ∈ body, Decided setup program c) :
    Decided setup program (.forLoop counter first last step body) := by
  intro around scope hocc hfits hflagged
  rw [compileBlock]
  refine (settles_forHead htotal counter first last step scope).after fun head _ => ?_
  refine (settles_freshTemporary _ _ _).after fun lastName _ => ?_
  refine (settles_freshTemporary _ _ _).after fun stepName _ => ?_
  refine (settles_loopFlag setup .forLoop body scope).after fun flag hflag => ?_
  have hinside : ∀ c ∈ body, (scope.insideLoop ⟨.forLoop, flag⟩).Flagged c :=
    fun c hc => hflagged.insideFor hflag hc
  have hbody := settles_body hocc ih (hfits.insideFor counter first last step body flag) hinside
  exact (hbody.then_pure fun _ _ => trivial).congr
    (by simp [accepted_iff_of_not_routine (b := .forLoop counter first last step body) rfl, Proper])

theorem decided_withTarget {target : TokenRun} {body : List Block}
    (ih : ∀ c ∈ body, Decided setup program c) :
    Decided setup program (.withTarget target body) := by
  intro around scope hocc hfits hflagged
  rw [accepted_iff_of_not_routine rfl, compileBlock]
  cases target with
  | nil => exact (settles_throw .emptyWithTarget).congr (by simp [Proper])
  | cons token rest =>
    refine (settles_render htotal _ _ _).after fun r _ => ?_
    refine (settles_forM_reportUndeclared _).after fun _ _ => ?_
    refine (settles_freshTemporary _ _ _).after fun name _ => ?_
    have hinside : ∀ c ∈ body, (scope.insideWith ⟨name, token.line⟩).Flagged c :=
      fun c hc => hflagged.insideWith _ hc
    have hbody := settles_body hocc ih (hfits.insideWith rfl body name) hinside
    exact (hbody.then_pure fun _ _ => trivial).congr (by simp [Proper])

/-- By induction on the nesting, with any scope that fits what is around the block. -/
theorem decided_block (b : Block) : Decided setup program b := by
  induction b using Block.nested_induction with
  | step b ih =>
    cases b with
    | doLoop test body => exact decided_doLoop htotal ih
    | forLoop counter first last step body => exact decided_forLoop htotal ih
    | withTarget target body => exact decided_withTarget htotal ih
    | routine kind name parameters body =>
      intro around scope hocc hfits _
      by_cases haround : around = []
      · subst haround
        exact settles_routine ih hocc hfits
      · have hplace : scope.enclosure ≠ .outermost := fun h => haround (hfits.outermost.mp h)
        rw [compileBlock, if_pos hplace]
        refine (settles_throw .nestedRoutine).congr (iff_of_false id fun h => ?_)
        exact haround (wellPlaced_iff.mp h.1).1.1
    | exit kind line =>
      intro around scope _ hfits hflagged
      rw [accepted_iff_of_not_routine rfl, compileBlock]
      exact (settles_exit setup.naming hfits hflagged).congr (by simp [children])
    | consts items =>
      intro around scope _ _ _
      rw [accepted_iff_of_not_routine rfl, compileBlock]
      exact (settles_items (settles_const htotal · scope) items).congr (by simp [Proper, children])
    | dim items =>
      intro around scope _ _ _
      rw [accepted_iff_of_not_routine rfl, compileBlock]
      exact (settles_items (settles_dim htotal · scope) items).congr (by simp [Proper, children])
    | redim preserve items =>
      intro around scope _ _ _
      rw [accepted_iff_of_not_routine rfl, compileBlock]
      exact (settles_items (settles_redim htotal preserve · scope) items).congr
        (by simp [Proper, children])
    | onError mode line =>
      intro around scope hocc hfits _
      rw [accepted_iff_of_not_routine rfl, compileBlock]
      exact (settles_onError hfits hocc).congr (by simp [Proper, children])
    | statement run =>
      intro around scope _ _ _
      rw [accepted_iff_of_not_routine rfl, compileBlock]
      exact ((settles_render htotal _ _ _).then_pure fun _ _ => trivial).congr
        (by simp [Proper, children])

end Blocks

theorem settles_outermost (setup : Setup) (program : List Block)
    (htotal : ∀ demand run scope, ∃ r, setup.renderer demand run scope = .ok r)
    (environment : List Name) :
    Settles (compileOutermost setup program (.outermost environment))
      (Valid setup.naming environment program) fun _ => True := by
  have hlevel : Settles (compileLevel setup program (.outermost environment) fun selection s =>
        compileBlocks setup selection s program)
      (∃ hoisted, hoist setup.naming (.outermost environment) program = .ok hoisted ∧
        ∀ b ∈ program, Accepted setup.naming ((Scope.outermost environment).declare hoisted) [] b)
      fun _ => True := by
    refine settles_level_of_forall fun b hb hoisted token htoken => ?_
    have hfits := fits_outermost environment hoisted htoken
    have hflagged := flagged_of_no_loops (List.map_eq_nil_iff.mp hfits.loops) b
    have hdecided := decided_block htotal b (.top hb) hfits hflagged
    cases token <;> exact hdecided
  refine (hlevel.bind fun level _ =>
    (settles_forM_reportUndeclared _).then_pure fun _ _ => trivial).congr ?_
  rw [and_true]
  constructor
  · rintro ⟨hoisted, hok, hall⟩
    refine ⟨⟨hoisted, hok, fun kind name parameters body hb => ?_⟩, ?_⟩
    · exact (accepted_routine_iff.mp (hall _ hb)).2
    · exact forall_wellPlaced_iff.mp fun b hb => (hall b hb).1
  · rintro ⟨⟨hoisted, hok, hroutines⟩, hproper⟩
    refine ⟨hoisted, hok, fun b hb => ⟨Occurs.wellPlaced hproper (.top hb), ?_⟩⟩
    rintro kind name parameters body rfl
    exact hroutines kind name parameters body hb

/-- With a renderer that never fails, exactly the valid programs compile. Where one does not, the
error is a static one: exits always have their flags and ON ERROR its frame. -/
theorem compiles_iff_valid {renderer : Renderer}
    (htotal : ∀ demand run scope, ∃ r, renderer demand run scope = .ok r) (settings : Settings)
    (program : List Block) :
    ((∃ p, compileProgram renderer settings program = .ok p) ↔
        Valid caselessNaming settings.environmentNames program) ∧
      ∀ e, compileProgram renderer settings program = .error e → e.IsStatic := by
  have hsettles := settles_outermost (.caseless renderer) program htotal
    settings.environmentNames {}
  rw [compileProgram, traceProgram_eq]
  rcases hsettles with ⟨hvalid, out, t, hgives, -⟩ | ⟨hvalid, e, t, herror, hstatic⟩
  · rw [show _ = (Except.ok out, t) from hgives]
    exact ⟨⟨fun _ => hvalid, fun _ => ⟨_, rfl⟩⟩, nofun⟩
  · rw [herror]
    refine ⟨⟨nofun, fun h => absurd h hvalid⟩, ?_⟩
    rintro _ ⟨⟩
    exact hstatic

theorem compiles_iff_valid_exit_sub :
    Valid caselessNaming []
        [.routine .sub ⟨"s", 0⟩ [] [.doLoop none [.exit .sub 1, .exit (.loop .doLoop) 2]]] ∧
      ¬ Valid caselessNaming [] [.routine .sub ⟨"s", 0⟩ [] [.exit (.loop .doLoop) 2]] := by
  have htotal : ∀ demand run scope,
      ∃ r, (fun _ _ _ => .ok ⟨"", []⟩ : Renderer) demand run scope = .ok r :=
    fun _ _ _ => ⟨_, rfl⟩
  refine ⟨(compiles_iff_valid htotal ⟨{}, []⟩ _).1.mp ⟨_, rfl⟩, fun h => ?_⟩
  obtain ⟨p, hp⟩ := (compiles_iff_valid htotal ⟨{}, []⟩ _).1.mpr h
  cases hp

end VbsCompiler
