import VbsCompiler.Proofs.Lexical

/-! Spellings of names. Two spellings with one identifier are the same name to everything that
compares names: two scopes that differ in spellings resolve alike, and two programs that do have
the same loops, frames and declarations. -/

namespace VbsCompiler

open CompileM

/-- Another spelling of a name of a certain sort. The identifier and the line stay. -/
def Name.Respells (naming : Naming) (sort : Name → Prop) (n n' : Name) : Prop :=
  n = n' ∨ sort n ∧ sort n' ∧ naming n = naming n' ∧ n.line = n'.line

section Relations

variable (same : Name → Name → Prop)

structure Parameter.Respells (p p' : Parameter) : Prop where
  name : same p.name p'.name
  byRef : p.byRef = p'.byRef

structure ConstItem.Respells (i i' : ConstItem) : Prop where
  name : same i.name i'.name
  value : i.value = i'.value

structure DimItem.Respells (i i' : DimItem) : Prop where
  name : same i.name i'.name
  bounds : i.bounds = i'.bounds

structure RedimItem.Respells (i i' : RedimItem) : Prop where
  name : same i.name i'.name
  bounds : i.bounds = i'.bounds

/-- The blocks are the same but for the spelling of the names they declare or count with. -/
inductive Block.Respells : Block → Block → Prop where
  | doLoop {test : Option LoopTest} {body body' : List Block} :
      List.Forall₂ Respells body body' → Respells (.doLoop test body) (.doLoop test body')
  | forLoop {counter counter' : Name} {first last : TokenRun} {step : Option TokenRun}
      {body body' : List Block} :
      same counter counter' → List.Forall₂ Respells body body' →
      Respells (.forLoop counter first last step body) (.forLoop counter' first last step body')
  | withTarget {target : TokenRun} {body body' : List Block} :
      List.Forall₂ Respells body body' →
      Respells (.withTarget target body) (.withTarget target body')
  | exit {kind : ExitKind} {line : Nat} : Respells (.exit kind line) (.exit kind line)
  | routine {kind : RoutineKind} {name name' : Name} {parameters parameters' : List Parameter}
      {body body' : List Block} :
      same name name' → List.Forall₂ (Parameter.Respells same) parameters parameters' →
      List.Forall₂ Respells body body' →
      Respells (.routine kind name parameters body) (.routine kind name' parameters' body')
  | consts {items items' : List ConstItem} :
      List.Forall₂ (ConstItem.Respells same) items items' →
      Respells (.consts items) (.consts items')
  | dim {items items' : List DimItem} :
      List.Forall₂ (DimItem.Respells same) items items' → Respells (.dim items) (.dim items')
  | redim {preserve : Bool} {items items' : List RedimItem} :
      List.Forall₂ (RedimItem.Respells same) items items' →
      Respells (.redim preserve items) (.redim preserve items')
  | onError {mode : TrapMode} {line : Nat} : Respells (.onError mode line) (.onError mode line)
  | statement {run : TokenRun} : Respells (.statement run) (.statement run)

structure Declaration.Respells (d d' : Declaration) : Prop where
  name : same d.name d'.name
  location : d.location = d'.location

inductive Owner.Respells : Owner → Owner → Prop where
  | program : Respells .program .program
  | function {n n' : Name} : same n n' → Respells (.function n) (.function n')
  | sub {n n' : Name} : same n n' → Respells (.sub n) (.sub n')
  | property {n n' : Name} : same n n' → Respells (.property n) (.property n')

structure Hoisted.Respells (h h' : Hoisted) : Prop where
  vars : List.Forall₂ (Declaration.Respells same) h.vars h'.vars
  constants : List.Forall₂ (Declaration.Respells same) h.constants h'.constants
  routines : List.Forall₂ (Declaration.Respells same) h.routines h'.routines

structure Scope.Respells (s s' : Scope) : Prop where
  enclosure : s.enclosure = s'.enclosure
  owner : Owner.Respells same s.owner s'.owner
  returnSlot : s.returnSlot = s'.returnSlot
  trapToken : s.trapToken = s'.trapToken
  withReference : s.withReference = s'.withReference
  environment : s.environment = s'.environment
  classes : s.classes = s'.classes
  routines : List.Forall₂ (Declaration.Respells same) s.routines s'.routines
  properties : s.properties = s'.properties
  constants : List.Forall₂ (Declaration.Respells same) s.constants s'.constants
  vars : List.Forall₂ (Declaration.Respells same) s.vars s'.vars
  loops : s.loops = s'.loops

inductive CompileError.Respells : CompileError → CompileError → Prop where
  | refl (e : CompileError) : Respells e e
  | nameRedefined {n n' : Name} : same n n' → Respells (.nameRedefined n) (.nameRedefined n')
  | nestedRoutine {n n' : Name} : same n n' → Respells (.nestedRoutine n) (.nestedRoutine n')

/-- Both succeed, with related results, or both fail, with the same error but for the name that it
quotes. -/
inductive SameEnd {α β : Type} (R : α → β → Prop) :
    Except CompileError α → Except CompileError β → Prop where
  | ok {a : α} {b : β} : R a b → SameEnd R (.ok a) (.ok b)
  | error {e e' : CompileError} : e.Respells same e' → SameEnd R (.error e) (.error e')

end Relations

structure KeepsIdentity (naming : Naming) (same : Name → Name → Prop) : Prop where
  ident : ∀ {n n'}, same n n' → naming n = naming n'
  line : ∀ {n n'}, same n n' → n.line = n'.line

theorem keepsIdentity_respells (naming : Naming) (sort : Name → Prop) :
    KeepsIdentity naming (Name.Respells naming sort) where
  ident := by
    rintro n n' (rfl | ⟨-, -, hident, -⟩)
    · rfl
    · exact hident
  line := by
    rintro n n' (rfl | ⟨-, -, -, hline⟩)
    · rfl
    · exact hline

section Lists

variable {α β γ : Type} {R : α → β → Prop}

theorem map_eq_of_forall₂ {f : α → γ} {g : β → γ} (hR : ∀ {a b}, R a b → f a = g b) {as : List α}
    {bs : List β} (h : List.Forall₂ R as bs) : as.map f = bs.map g := by
  induction h with
  | nil => rfl
  | cons hab _ ih => rw [List.map_cons, List.map_cons, hR hab, ih]

theorem map_eq_map_iff_forall₂ {f : α → γ} {as as' : List α} :
    as.map f = as'.map f ↔ List.Forall₂ (fun a a' => f a = f a') as as' := by
  rw [← List.forall₂_eq_eq_eq, List.forall₂_map_left_iff, List.forall₂_map_right_iff]

theorem forall₂_filter {p : α → Bool} {q : β → Bool} (hR : ∀ {a b}, R a b → p a = q b)
    {as : List α} {bs : List β} (h : List.Forall₂ R as bs) :
    List.Forall₂ R (as.filter p) (bs.filter q) := by
  induction h with
  | nil => exact .nil
  | @cons a b _ _ hab _ ih =>
    by_cases hp : p a = true
    · have hq : q b = true := hR hab ▸ hp
      rw [List.filter_cons_of_pos hp, List.filter_cons_of_pos hq]
      exact .cons hab ih
    · have hq : ¬ q b = true := hR hab ▸ hp
      rw [List.filter_cons_of_neg hp, List.filter_cons_of_neg hq]
      exact ih

end Lists

namespace Block

variable {same : Name → Name → Prop}

theorem isRoutine_respells {b b' : Block} (h : b.Respells same b') :
    b.isRoutine = b'.isRoutine := by
  cases h <;> rfl

/-- What is the same of two blocks that respell each other is the same of two lists of them. -/
theorem any_respells {f : Block → Bool} {blocks blocks' : List Block}
    (hf : ∀ b ∈ blocks, ∀ {b'}, b.Respells same b' → f b = f b')
    (h : List.Forall₂ (Respells same) blocks blocks') : blocks.any f = blocks'.any f := by
  induction h with
  | nil => rfl
  | cons hb _ ih =>
    rw [List.any_cons, List.any_cons, hf _ List.mem_cons_self hb,
      ih fun c hc => hf c (List.mem_cons_of_mem _ hc)]

theorem trapsErrors_respells {b b' : Block} (h : b.Respells same b') :
    b.trapsErrors = b'.trapsErrors := by
  induction b using nested_induction generalizing b' with
  | step b ih =>
    cases h with
    | doLoop hbody | forLoop _ hbody | withTarget hbody =>
      rw [trapsErrors, trapsErrors, anyTrapsErrors_eq_any, anyTrapsErrors_eq_any]
      exact any_respells (fun c hc _ => ih c hc) hbody
    | exit | routine | consts | dim | redim | onError | statement => rfl

theorem anyTrapsErrors_respells {blocks blocks' : List Block}
    (h : List.Forall₂ (Respells same) blocks blocks') :
    anyTrapsErrors blocks = anyTrapsErrors blocks' := by
  rw [anyTrapsErrors_eq_any, anyTrapsErrors_eq_any]
  exact any_respells (fun _ _ _ hb => trapsErrors_respells hb) h

theorem exitsThrough_respells {kind : LoopKind} {inOther : Bool} {b b' : Block}
    (h : b.Respells same b') : b.exitsThrough kind inOther = b'.exitsThrough kind inOther := by
  induction b using nested_induction generalizing b' inOther with
  | step b ih =>
    cases h with
    | doLoop hbody | forLoop _ hbody =>
      have hany := any_respells (f := exitsThrough kind true) (fun c hc _ => ih c hc) hbody
      rw [children] at hany
      simp only [exitsThrough, anyExitsThrough_eq_any, hany]
    | withTarget hbody =>
      have hany := any_respells (f := exitsThrough kind inOther) (fun c hc _ => ih c hc) hbody
      rw [children] at hany
      simp only [exitsThrough, anyExitsThrough_eq_any, hany]
    | exit | routine | consts | dim | redim | onError | statement => rfl

theorem needsFlag_respells {kind : LoopKind} {blocks blocks' : List Block}
    (h : List.Forall₂ (Respells same) blocks blocks') :
    needsFlag kind blocks = needsFlag kind blocks' := by
  rw [needsFlag, needsFlag, anyExitsThrough_eq_any, anyExitsThrough_eq_any]
  exact any_respells (fun _ _ _ hb => exitsThrough_respells hb) h

theorem framed_respells {blocks blocks' : List Block}
    (h : List.Forall₂ (Respells same) blocks blocks') :
    List.Forall₂ (Respells same) (framed blocks) (framed blocks') := by
  rw [framed, framed, anyTrapsErrors_respells h]
  split
  · exact forall₂_filter (fun hb => by rw [isRoutine_respells hb]) h
  · exact h

theorem unframed_respells {blocks blocks' : List Block}
    (h : List.Forall₂ (Respells same) blocks blocks') :
    List.Forall₂ (Respells same) (unframed blocks) (unframed blocks') := by
  rw [unframed, unframed, anyTrapsErrors_respells h]
  split
  · exact forall₂_filter (fun hb => isRoutine_respells hb) h
  · exact .nil

end Block

inductive DeclarationEvent.Respells (same : Name → Name → Prop) :
    DeclarationEvent → DeclarationEvent → Prop where
  | declares {kind : NameKind} {n n' : Name} :
      same n n' → Respells same (.declares kind n) (.declares kind n')
  | redims {n n' : Name} : same n n' → Respells same (.redims n) (.redims n')

section Events

variable {same : Name → Name → Prop} {location : Location}

theorem allEvents_respells_of_forall {blocks blocks' : List Block}
    (hblocks : ∀ b ∈ blocks, ∀ {b'}, b.Respells same b' →
      List.Forall₂ (DeclarationEvent.Respells same) (b.events location) (b'.events location))
    (h : List.Forall₂ (Block.Respells same) blocks blocks') :
    List.Forall₂ (DeclarationEvent.Respells same) (Block.allEvents location blocks)
      (Block.allEvents location blocks') := by
  induction h with
  | nil => exact .nil
  | cons hb _ ih =>
    rw [Block.allEvents, Block.allEvents]
    exact List.rel_append (hblocks _ List.mem_cons_self hb)
      (ih fun c hc => hblocks c (List.mem_cons_of_mem _ hc))

theorem events_respells {b b' : Block} (h : b.Respells same b') :
    List.Forall₂ (DeclarationEvent.Respells same) (b.events location) (b'.events location) := by
  induction b using Block.nested_induction generalizing b' with
  | step b ih =>
    cases h with
    | doLoop hbody | forLoop _ hbody | withTarget hbody =>
      exact allEvents_respells_of_forall (fun c hc _ => ih c hc) hbody
    | routine hname _ _ =>
      rw [Block.events, Block.events]
      split
      · exact .cons (.declares hname) .nil
      · exact .nil
    | consts hitems | dim hitems | redim hitems =>
      rw [Block.events, Block.events, List.forall₂_map_left_iff, List.forall₂_map_right_iff]
      exact hitems.imp fun _ _ hi => by constructor; exact hi.name
    | exit | onError | statement => exact .nil

theorem allEvents_respells {blocks blocks' : List Block}
    (h : List.Forall₂ (Block.Respells same) blocks blocks') :
    List.Forall₂ (DeclarationEvent.Respells same) (Block.allEvents location blocks)
      (Block.allEvents location blocks') :=
  allEvents_respells_of_forall (fun _ _ _ => events_respells) h

end Events

section Scopes

variable {naming : Naming} {same : Name → Name → Prop} (hsame : KeepsIdentity naming same)
  {scope scope' : Scope}

theorem Owner.Respells.location {owner owner' : Owner} (h : owner.Respells same owner') :
    owner.location = owner'.location := by
  cases h <;> rfl

theorem Scope.Respells.location (h : scope.Respells same scope') :
    scope.location = scope'.location :=
  h.owner.location

theorem Scope.Respells.flags (h : scope.Respells same scope') : scope.flags = scope'.flags := by
  rw [Scope.flags, Scope.flags, h.loops]

theorem Scope.Respells.offered (h : scope.Respells same scope') :
    scope.offered = scope'.offered := by
  rw [Scope.offered, Scope.offered, h.returnSlot, h.withReference]

include hsame

theorem Owner.Respells.map_name {owner owner' : Owner} (h : owner.Respells same owner') :
    owner.name?.map naming = owner'.name?.map naming := by
  cases h with
  | program => rfl
  | function hname | sub hname | property hname => simp [Owner.name?, hsame.ident hname]

theorem find_respells {ds ds' : List Declaration}
    (h : List.Forall₂ (Declaration.Respells same) ds ds') (id : Ident) (p : Location → Bool)
    (kind : NameKind) :
    (ds.find? fun d => p d.location && naming d.name = id).map (fun d => (kind, d.location)) =
      (ds'.find? fun d => p d.location && naming d.name = id).map
        fun d => (kind, d.location) := by
  induction h with
  | nil => rfl
  | @cons d d' _ _ hd _ ih =>
    simp only [List.find?_cons, hd.location, hsame.ident hd.name]
    split
    · simp [hd.location]
    · exact ih

theorem Scope.Respells.findDeclared (h : scope.Respells same scope') (id : Ident)
    (p : Location → Bool) :
    scope.findDeclared naming id (fun d => p d.location) =
      scope'.findDeclared naming id (fun d => p d.location) := by
  simp only [Scope.findDeclared, Scope.catalogs, List.findSome?_cons, List.findSome?_nil]
  rw [find_respells hsame h.vars, find_respells hsame h.constants, find_respells hsame h.routines,
    h.properties, h.classes]

theorem Scope.Respells.resolve (h : scope.Respells same scope') {n n' : Name}
    (hn : naming n = naming n') : scope.resolve naming n = scope'.resolve naming n' := by
  have hany := h.findDeclared hsame (naming n') fun _ => true
  have hhere := h.findDeclared hsame (naming n') fun l => decide (l = scope'.location)
  simp only [Scope.resolve, hn, h.location, h.environment]
  rw [hhere, hany]

theorem Scope.Respells.isOwnName (h : scope.Respells same scope') {n n' : Name}
    (hn : naming n = naming n') : scope.isOwnName naming n = scope'.isOwnName naming n' := by
  have hname := h.owner.map_name hsame
  rw [Scope.isOwnName, Scope.isOwnName, hn]
  cases hs : scope.owner.name? <;> cases hs' : scope'.owner.name? <;> simp_all

theorem Scope.Respells.declares (h : scope.Respells same scope') {n n' : Name}
    (hn : naming n = naming n') : scope.declares naming n = scope'.declares naming n' := by
  rw [Scope.declares, Scope.declares, h.isOwnName hsame hn, h.resolve hsame hn]

theorem idents_respells {ds ds' : List Declaration}
    (h : List.Forall₂ (Declaration.Respells same) ds ds') :
    ds.map (naming ·.name) = ds'.map (naming ·.name) :=
  map_eq_of_forall₂ (fun hd => hsame.ident hd.name) h

theorem Scope.Respells.taken (h : scope.Respells same scope') :
    scope.taken naming = scope'.taken naming := by
  simp only [Scope.taken, List.map_append, idents_respells hsame h.vars,
    idents_respells hsame h.constants, idents_respells hsame h.routines, h.properties, h.classes,
    h.environment]

theorem Scope.Respells.registered (h : scope.Respells same scope') :
    scope.registered naming = scope'.registered naming := by
  have hvars := forall₂_filter
    (fun hd => by rw [hd.location, h.location] :
      ∀ {d d' : Declaration}, d.Respells same d' →
        decide (d.location = scope.location) = decide (d'.location = scope'.location)) h.vars
  rw [Scope.registered, Scope.registered, h.owner.map_name hsame, idents_respells hsame hvars]

theorem Scope.Respells.undeclared (h : scope.Respells same scope') {names names' : List Name}
    (hnames : names.map naming = names'.map naming) :
    (scope.undeclared naming names).map naming = (scope'.undeclared naming names').map naming := by
  rw [map_eq_map_iff_forall₂] at hnames ⊢
  exact forall₂_filter (fun hn => by rw [h.declares hsame hn]) hnames

end Scopes

section Hoisting

variable {naming : Naming} {same : Name → Name → Prop} (hsame : KeepsIdentity naming same)
  {scope scope' : Scope}

theorem push_respells {h h' : Hoisted} (hh : h.Respells same h') {d d' : Declaration}
    (hd : d.Respells same d') (kind : NameKind) :
    (h.push kind d).Respells same (h'.push kind d') := by
  have hone : List.Forall₂ (Declaration.Respells same) [d] [d'] := .cons hd .nil
  cases kind
  case constant => exact ⟨hh.vars, List.rel_append hh.constants hone, hh.routines⟩
  case routine => exact ⟨hh.vars, hh.constants, List.rel_append hh.routines hone⟩
  all_goals exact ⟨List.rel_append hh.vars hone, hh.constants, hh.routines⟩

include hsame

theorem hoistEvents_respells (hscope : scope.Respells same scope')
    {events events' : List DeclarationEvent}
    (hevents : List.Forall₂ (DeclarationEvent.Respells same) events events')
    (registered : List Ident) {h h' : Hoisted} (hh : h.Respells same h') :
    SameEnd same (Hoisted.Respells same) (hoistEvents naming scope registered h events)
      (hoistEvents naming scope' registered h' events') := by
  induction hevents generalizing registered h h' with
  | nil => exact .ok hh
  | cons hevent _ ih =>
    cases hevent with
    | @declares kind n n' hn =>
      have hd : Declaration.Respells same ⟨n, scope.location⟩ ⟨n', scope'.location⟩ :=
        ⟨hn, hscope.location⟩
      rw [hoistEvents, hoistEvents, hsame.ident hn]
      split
      · exact .error (.nameRedefined hn)
      · exact ih _ (push_respells hh hd kind)
    | @redims n n' hn =>
      have hd : Declaration.Respells same ⟨n, scope.location⟩ ⟨n', scope'.location⟩ :=
        ⟨hn, hscope.location⟩
      rw [hoistEvents, hoistEvents, hsame.ident hn, hscope.resolve hsame (hsame.ident hn)]
      split
      · exact ih _ hh
      · exact ih _ (push_respells hh hd .variable)

theorem hoist_respells (hscope : scope.Respells same scope') {blocks blocks' : List Block}
    (hblocks : List.Forall₂ (Block.Respells same) blocks blocks') :
    SameEnd same (Hoisted.Respells same) (hoist naming scope blocks)
      (hoist naming scope' blocks') := by
  rw [hoist, hoist, hscope.registered hsame, hscope.location]
  exact hoistEvents_respells hsame hscope (allEvents_respells hblocks) _ ⟨.nil, .nil, .nil⟩

theorem checkParameters_respells {parameters parameters' : List Parameter}
    (h : List.Forall₂ (Parameter.Respells same) parameters parameters') (seen : List Ident) :
    SameEnd same (fun _ _ => True) (checkParameters naming seen parameters)
      (checkParameters naming seen parameters') := by
  induction h generalizing seen with
  | nil => exact .ok trivial
  | cons hp _ ih =>
    rw [checkParameters, checkParameters, hsame.ident hp.name]
    split
    · exact .error (.nameRedefined hp.name)
    · exact ih _

end Hoisting

section Derived

variable {same : Name → Name → Prop} {scope scope' : Scope} (h : scope.Respells same scope')
include h

theorem Scope.Respells.insideLoop (frame : LoopFrame) :
    (scope.insideLoop frame).Respells same (scope'.insideLoop frame) :=
  { h with enclosure := rfl, loops := congrArg (frame :: ·) h.loops }

theorem Scope.Respells.insideWith (reference : WithReference) :
    (scope.insideWith reference).Respells same (scope'.insideWith reference) :=
  { h with enclosure := rfl, withReference := rfl }

theorem Scope.Respells.trappedBy (token : Option Ident) :
    (scope.trappedBy token).Respells same (scope'.trappedBy token) := by
  cases token with
  | none => exact h
  | some token => exact { h with trapToken := rfl }

theorem Scope.Respells.declare {hoisted hoisted' : Hoisted} (hh : hoisted.Respells same hoisted') :
    (scope.declare hoisted).Respells same (scope'.declare hoisted') :=
  { h with
    vars := List.rel_append h.vars hh.vars
    constants := List.rel_append h.constants hh.constants
    routines := List.rel_append h.routines hh.routines }

theorem Scope.Respells.insideRoutine {kind : RoutineKind} {name name' : Name}
    (hname : same name name') (slot : Option Ident) {parameters parameters' : List Parameter}
    (hparameters : List.Forall₂ (Parameter.Respells same) parameters parameters') :
    (scope.insideRoutine kind name slot parameters).Respells same
      (scope'.insideRoutine kind name' slot parameters') := by
  have houter : ∀ {ds ds' : List Declaration},
      List.Forall₂ (Declaration.Respells same) ds ds' →
      List.Forall₂ (Declaration.Respells same) (Scope.outermostOnly ds)
        (Scope.outermostOnly ds') :=
    fun hds => forall₂_filter (fun hd => by rw [hd.location]) hds
  have hlocals : List.Forall₂ (Declaration.Respells same)
      (parameters.map fun p => ⟨p.name, .function⟩)
      (parameters'.map fun p => ⟨p.name, .function⟩) := by
    rw [List.forall₂_map_left_iff, List.forall₂_map_right_iff]
    exact hparameters.imp fun _ _ hp => ⟨hp.name, rfl⟩
  have howner : Owner.Respells same (kind.owner name) (kind.owner name') := by
    cases kind with
    | function => exact .function hname
    | sub => exact .sub hname
  exact {
    enclosure := by cases kind <;> rfl
    owner := howner
    returnSlot := rfl
    trapToken := rfl
    withReference := rfl
    environment := h.environment
    classes := h.classes
    routines := houter h.routines
    properties := h.properties
    constants := houter h.constants
    vars := List.rel_append (houter h.vars) hlocals
    loops := rfl }

end Derived

end VbsCompiler
