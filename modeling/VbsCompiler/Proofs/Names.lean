import Mathlib.Data.List.Find
import VbsCompiler.Proofs.Lexical

/-! What names refer to. The syntax of a program alone decides it, level by level: a name belongs
to the routine around it if that declares it, else to the outermost level, else to the environment.
The scopes that hoisting makes resolve every name in the same way. -/

namespace VbsCompiler

open CompileM

/-- What the first declaration of an identifier makes of it. A REDIM is a declaration only of what
is not known before. -/
def declaredAs (naming : Naming) (known : Bool) (id : Ident) :
    List DeclarationEvent → Option NameKind
  | [] => none
  | .declares kind name :: rest =>
    if naming name = id then some kind else declaredAs naming known id rest
  | .redims name :: rest =>
    if naming name = id && !known then some .variable else declaredAs naming known id rest

def environmentHas (naming : Naming) (environment : List Name) (id : Ident) : Bool :=
  environment.any fun e => naming e = id

def environmentLookup (naming : Naming) (environment : List Name) (id : Ident) :
    Option (NameKind × Location) :=
  if environmentHas naming environment id then some (.environment, .outermost) else none

@[simp] theorem isSome_environmentLookup (naming : Naming) (environment : List Name) (id : Ident) :
    (environmentLookup naming environment id).isSome = environmentHas naming environment id := by
  rw [environmentLookup]
  split <;> simp_all

def DeclarationEvent.name : DeclarationEvent → Name
  | .declares _ name => name
  | .redims name => name

theorem isSome_declaredAs {naming : Naming} {events : List DeclarationEvent} {e : DeclarationEvent}
    (he : e ∈ events) : (declaredAs naming false (naming e.name) events).isSome = true := by
  induction events with
  | nil => cases he
  | cons event rest ih =>
    rcases List.mem_cons.mp he with rfl | hrest
    · cases e <;> simp [declaredAs, DeclarationEvent.name]
    · have hlater := ih hrest
      cases event <;> rw [declaredAs] <;> split <;> simp_all

section Lookup

variable (naming : Naming) (environment : List Name) (program : List Block)

def outerKind (id : Ident) : Option NameKind :=
  declaredAs naming (environmentHas naming environment id) id (Block.allEvents .outermost program)

def outerLookup (id : Ident) : Option (NameKind × Location) :=
  (outerKind naming environment program id).map (·, .outermost) <|>
    environmentLookup naming environment id

/-- What a routine declares an identifier as: the parameters are its first variables, and its own
name is not among its locals. -/
def localKind (name : Name) (parameters : List Parameter) (body : List Block) (id : Ident) :
    Option NameKind :=
  if parameters.any (naming ·.name = id) then some .variable
  else if naming name = id then none
  else declaredAs naming (outerLookup naming environment program id).isSome id
    (Block.allEvents .function body)

/-- What an identifier refers to inside the blocks `around`. -/
def lookup : List Block → Ident → Option (NameKind × Location)
  | [], id => outerLookup naming environment program id
  | .routine _ name parameters body :: _, id =>
    (localKind naming environment program name parameters body id).map (·, .function) <|>
      outerLookup naming environment program id
  | _ :: around, id => lookup around id

variable {naming environment program}

theorem isSome_outerLookup (id : Ident) :
    (outerLookup naming environment program id).isSome =
      ((outerKind naming environment program id).isSome ||
        environmentHas naming environment id) := by
  rw [outerLookup, Option.orElse_eq_orElse, Option.orElse_eq_or, Option.isSome_or,
    isSome_environmentLookup, Option.isSome_map]

theorem isSome_lookup_routine (kind : RoutineKind) (name : Name) (parameters : List Parameter)
    (body around : List Block) (id : Ident) :
    (lookup naming environment program (.routine kind name parameters body :: around) id).isSome =
      ((localKind naming environment program name parameters body id).isSome ||
        (outerLookup naming environment program id).isSome) := by
  rw [lookup, Option.orElse_eq_orElse, Option.orElse_eq_or, Option.isSome_or, Option.isSome_map]

theorem isSome_outerLookup_of_mem_events (naming : Naming) (environment : List Name)
    {e : DeclarationEvent} (he : e ∈ Block.allEvents .outermost program) :
    (outerLookup naming environment program (naming e.name)).isSome = true := by
  rw [isSome_outerLookup, outerKind]
  cases environmentHas naming environment (naming e.name) with
  | true => simp
  | false => simp [isSome_declaredAs he]

theorem isSome_lookup_of_mem_events {e : DeclarationEvent} {kind : RoutineKind} {name : Name}
    {parameters : List Parameter} {body around : List Block}
    (hown : (outerLookup naming environment program (naming name)).isSome = true)
    (he : e ∈ Block.allEvents .function body) :
    (lookup naming environment program (.routine kind name parameters body :: around)
      (naming e.name)).isSome = true := by
  rw [isSome_lookup_routine, localKind]
  by_cases hown' : naming name = naming e.name
  · rw [← hown', hown, Bool.or_true]
  · rw [if_neg hown']
    cases (outerLookup naming environment program (naming e.name)).isSome with
    | true => simp
    | false =>
      rw [Bool.or_false]
      split
      · rfl
      · exact isSome_declaredAs he

end Lookup

namespace Hoisted

def kindOf (h : Hoisted) (naming : Naming) (id : Ident) : Option NameKind :=
  if h.vars.any (naming ·.name = id) then some .variable
  else if h.constants.any (naming ·.name = id) then some .constant
  else if h.routines.any (naming ·.name = id) then some .routine
  else none

def all (h : Hoisted) : List Declaration :=
  h.vars ++ h.constants ++ h.routines

def LocatedAt (h : Hoisted) (location : Location) : Prop :=
  ∀ d ∈ h.all, d.location = location

def append (h h' : Hoisted) : Hoisted :=
  ⟨h.vars ++ h'.vars, h.constants ++ h'.constants, h.routines ++ h'.routines⟩

instance : Append Hoisted := ⟨append⟩

def filter (h : Hoisted) (p : Declaration → Bool) : Hoisted :=
  ⟨h.vars.filter p, h.constants.filter p, h.routines.filter p⟩

theorem filter_eq_self {h : Hoisted} {p : Declaration → Bool} (hp : ∀ d ∈ h.all, p d = true) :
    h.filter p = h := by
  simp only [all, List.mem_append] at hp
  rw [filter, List.filter_eq_self.mpr fun d hd => hp d (.inl (.inl hd)),
    List.filter_eq_self.mpr fun d hd => hp d (.inl (.inr hd)),
    List.filter_eq_self.mpr fun d hd => hp d (.inr hd)]

theorem filter_eq_empty {h : Hoisted} {p : Declaration → Bool} (hp : ∀ d ∈ h.all, ¬ p d = true) :
    h.filter p = {} := by
  simp only [all, List.mem_append] at hp
  rw [filter, List.filter_eq_nil_iff.mpr fun d hd => hp d (.inl (.inl hd)),
    List.filter_eq_nil_iff.mpr fun d hd => hp d (.inl (.inr hd)),
    List.filter_eq_nil_iff.mpr fun d hd => hp d (.inr hd)]

theorem filter_append (h h' : Hoisted) (p : Declaration → Bool) :
    (h ++ h').filter p = h.filter p ++ h'.filter p := by
  change Hoisted.mk ((h.vars ++ h'.vars).filter p) ((h.constants ++ h'.constants).filter p)
    ((h.routines ++ h'.routines).filter p) = _
  simp only [List.filter_append]
  rfl

@[simp] theorem empty_append (h : Hoisted) : ({} : Hoisted) ++ h = h := rfl

@[simp] theorem append_empty (h : Hoisted) : h ++ ({} : Hoisted) = h := by
  change Hoisted.mk _ _ _ = h
  simp

end Hoisted

def Scope.hoisted (s : Scope) : Hoisted :=
  ⟨s.vars, s.constants, s.routines⟩

def NameKind.IsHoistable (kind : NameKind) : Prop :=
  kind = .variable ∨ kind = .constant ∨ kind = .routine

section Hoisting

variable {naming : Naming} {scope : Scope}

theorem kindOf_push_of_ne {h : Hoisted} {kind : NameKind} {d : Declaration} {id : Ident}
    (hne : naming d.name ≠ id) : (h.push kind d).kindOf naming id = h.kindOf naming id := by
  cases kind <;> simp [Hoisted.push, Hoisted.kindOf, hne]

theorem kindOf_eq_none_iff {h : Hoisted} {id : Ident} :
    h.kindOf naming id = none ↔
      h.vars.any (naming ·.name = id) = false ∧ h.constants.any (naming ·.name = id) = false ∧
        h.routines.any (naming ·.name = id) = false := by
  unfold Hoisted.kindOf
  generalize h.vars.any (naming ·.name = id) = inVars
  generalize h.constants.any (naming ·.name = id) = inConstants
  generalize h.routines.any (naming ·.name = id) = inRoutines
  cases inVars <;> cases inConstants <;> cases inRoutines <;> simp

theorem kindOf_push_self {h : Hoisted} {kind : NameKind} {d : Declaration}
    (hkind : kind.IsHoistable) (hnew : h.kindOf naming (naming d.name) = none) :
    (h.push kind d).kindOf naming (naming d.name) = some kind := by
  obtain ⟨hvars, hconstants, hroutines⟩ := kindOf_eq_none_iff.mp hnew
  rcases hkind with rfl | rfl | rfl <;>
    simp [Hoisted.push, Hoisted.kindOf, hvars, hconstants, -List.any_eq_true]

/-- Hoisting gives an identifier the kind that its first declaration says, unless the level already
has the identifier. -/
theorem kindOf_of_hoistEvents {registered : List Ident} {hoisted h : Hoisted}
    {events : List DeclarationEvent} {id : Ident}
    (hkinds : ∀ kind name, .declares kind name ∈ events → kind.IsHoistable)
    (hregistered : (hoisted.kindOf naming id).isSome → id ∈ registered)
    (hok : hoistEvents naming scope registered hoisted events = .ok h) {known : Bool}
    (hknown : ∀ name, naming name = id → (scope.resolve naming name).isSome = known) :
    h.kindOf naming id =
      if id ∈ registered then hoisted.kindOf naming id else declaredAs naming known id events := by
  induction events generalizing registered hoisted with
  | nil =>
    cases hok
    split
    · rfl
    · rename_i hid
      exact Option.not_isSome_iff_eq_none.mp fun h => hid (hregistered h)
  | cons event rest ih =>
    have hkinds' : ∀ kind name, .declares kind name ∈ rest → kind.IsHoistable :=
      fun kind name h => hkinds kind name (List.mem_cons_of_mem _ h)
    -- what is hoisted so far is registered, so that a new identifier has no kind yet
    have hnone : id ∉ registered → hoisted.kindOf naming id = none :=
      fun hid => Option.not_isSome_iff_eq_none.mp fun h => hid (hregistered h)
    have hpush : ∀ kind name, ((hoisted.push kind ⟨name, scope.location⟩).kindOf naming id).isSome →
        id ∈ naming name :: registered := by
      intro kind name hsome
      by_cases hid : naming name = id
      · simp [hid]
      · rw [kindOf_push_of_ne hid] at hsome
        exact List.mem_cons_of_mem _ (hregistered hsome)
    cases event with
    | declares kind name =>
      rw [hoistEvents] at hok
      split at hok
      case isTrue => cases hok
      case isFalse hnew =>
        rw [ih hkinds' (hpush kind name) hok, declaredAs]
        by_cases hid : naming name = id
        · subst hid
          have hself := kindOf_push_self (d := ⟨name, scope.location⟩)
            (hkinds kind name List.mem_cons_self) (hnone hnew)
          rw [if_pos List.mem_cons_self, if_neg hnew, if_pos rfl, hself]
        · rw [kindOf_push_of_ne hid, if_neg hid]
          simp [Ne.symm hid]
    | redims name =>
      rw [hoistEvents] at hok
      split at hok
      case isTrue hskip =>
        rw [ih hkinds' hregistered hok, declaredAs]
        by_cases hid : naming name = id
        · have := hknown name hid
          grind
        · simp [hid]
      case isFalse hnew =>
        simp only [Bool.or_eq_true, decide_eq_true_eq, not_or] at hnew
        rw [ih hkinds' (hpush .variable name) hok, declaredAs]
        by_cases hid : naming name = id
        · have hfalse : known = false := by
            rw [← hknown name hid]
            simpa using hnew.2
          subst hid
          have hself := kindOf_push_self (d := ⟨name, scope.location⟩) (.inl rfl) (hnone hnew.1)
          rw [if_pos List.mem_cons_self, if_neg hnew.1, hself, hfalse]
          simp
        · rw [kindOf_push_of_ne hid]
          simp [hid, Ne.symm hid]

theorem locatedAt_push {h : Hoisted} {location : Location} (hl : h.LocatedAt location)
    (kind : NameKind) (name : Name) : (h.push kind ⟨name, location⟩).LocatedAt location := by
  intro d hd
  have hmem : d ∈ h.all ∨ d = ⟨name, location⟩ := by
    cases kind <;>
      simp only [Hoisted.push, Hoisted.all, List.mem_append, List.mem_singleton] at hd ⊢ <;> tauto
  rcases hmem with hmem | rfl
  · exact hl d hmem
  · rfl

theorem locatedAt_of_hoistEvents {registered : List Ident} {hoisted h : Hoisted}
    {events : List DeclarationEvent} (hl : hoisted.LocatedAt scope.location)
    (hok : hoistEvents naming scope registered hoisted events = .ok h) :
    h.LocatedAt scope.location := by
  induction events generalizing registered hoisted with
  | nil =>
    cases hok
    exact hl
  | cons event rest ih =>
    cases event with
    | declares kind name =>
      rw [hoistEvents] at hok
      split at hok
      case isTrue => cases hok
      case isFalse => exact ih (locatedAt_push hl kind name) hok
    | redims name =>
      rw [hoistEvents] at hok
      split at hok
      case isTrue => exact ih hl hok
      case isFalse => exact ih (locatedAt_push hl .variable name) hok

theorem locatedAt_hoist {blocks : List Block} {h : Hoisted}
    (hok : hoist naming scope blocks = .ok h) : h.LocatedAt scope.location :=
  locatedAt_of_hoistEvents (fun d hd => by simp [Hoisted.all] at hd) hok

theorem mem_allEvents {location : Location} {e : DeclarationEvent} {blocks : List Block} :
    e ∈ Block.allEvents location blocks ↔ ∃ b ∈ blocks, e ∈ b.events location := by
  induction blocks with
  | nil => simp [Block.allEvents]
  | cons b rest ih => simp [Block.allEvents, ih]

theorem isSome_outerLookup_routine {program : List Block} (naming : Naming)
    (environment : List Name) {kind : RoutineKind} {name : Name} {parameters : List Parameter}
    {body : List Block} (hmem : .routine kind name parameters body ∈ program) :
    (outerLookup naming environment program (naming name)).isSome = true := by
  have hevent : .declares .routine name ∈ Block.allEvents .outermost program :=
    mem_allEvents.mpr ⟨_, hmem, by simp [Block.events]⟩
  exact isSome_outerLookup_of_mem_events naming environment hevent

theorem isHoistable_of_mem_events {location : Location} {b : Block} {kind : NameKind} {name : Name}
    (h : .declares kind name ∈ b.events location) : kind.IsHoistable := by
  induction b using Block.nested_induction with
  | step b ih =>
    cases b with
    | doLoop | forLoop | withTarget =>
      obtain ⟨c, hc, hmem⟩ := mem_allEvents.mp h
      exact ih c hc hmem
    | routine =>
      simp only [Block.events] at h
      split at h <;> simp_all [NameKind.IsHoistable]
    | consts =>
      obtain ⟨item, _, he⟩ := List.mem_map.mp h
      cases he
      exact .inr (.inl rfl)
    | dim =>
      obtain ⟨item, _, he⟩ := List.mem_map.mp h
      cases he
      exact .inl rfl
    | redim | exit | onError | statement => simp [Block.events] at h

theorem kindOf_of_hoist {blocks : List Block} {h : Hoisted}
    (hok : hoist naming scope blocks = .ok h) {id : Ident} {known : Bool}
    (hknown : ∀ name, naming name = id → (scope.resolve naming name).isSome = known) :
    h.kindOf naming id = if id ∈ scope.registered naming then none
      else declaredAs naming known id (Block.allEvents scope.location blocks) := by
  refine kindOf_of_hoistEvents (fun kind name hmem => ?_)
    (fun h => by simp [Hoisted.kindOf] at h) hok hknown
  obtain ⟨b, _, hb⟩ := mem_allEvents.mp hmem
  exact isHoistable_of_mem_events hb

end Hoisting

section Resolve

variable {naming : Naming} {scope : Scope}

@[simp] theorem resolve_trappedBy (scope : Scope) (token : Option Ident) (n : Name) :
    (scope.trappedBy token).resolve naming n = scope.resolve naming n := by
  cases token <;> rfl

theorem find_located {ds found : List Declaration} {p : Declaration → Bool} {location : Location}
    (hfound : ds.filter p = found) (hl : ∀ d ∈ found, d.location = location) (kind : NameKind)
    (id : Ident) :
    ((ds.find? fun d => p d && naming d.name = id).map fun d => (kind, d.location)) =
      if found.any (naming ·.name = id) then some (kind, location) else none := by
  have hfind : ds.find? (fun d => p d && naming d.name = id) =
      found.find? (naming ·.name = id) := by
    rw [← hfound, List.find?_filter]
    simp
  rw [hfind]
  clear hfound hfind
  induction found with
  | nil => rfl
  | cons d rest ih =>
    by_cases hd : naming d.name = id
    · simp [hd, hl d]
    · simpa [hd] using ih fun d hd => hl d (List.mem_cons_of_mem _ hd)

theorem findDeclared_eq {p : Declaration → Bool} {h : Hoisted} {location : Location}
    (hfilter : scope.hoisted.filter p = h) (hproperties : scope.properties = [])
    (hclasses : scope.classes = []) (hl : h.LocatedAt location) (naming : Naming) (id : Ident) :
    scope.findDeclared naming id p = (h.kindOf naming id).map (·, location) := by
  simp only [Hoisted.LocatedAt, Hoisted.all, List.mem_append] at hl
  have hvars : scope.vars.filter p = h.vars := congrArg Hoisted.vars hfilter
  have hconstants : scope.constants.filter p = h.constants := congrArg Hoisted.constants hfilter
  have hroutines : scope.routines.filter p = h.routines := congrArg Hoisted.routines hfilter
  simp only [Scope.findDeclared, Scope.catalogs, List.findSome?_cons, List.findSome?_nil,
    find_located hvars fun d hd => hl d (.inl (.inl hd)),
    find_located hconstants fun d hd => hl d (.inl (.inr hd)),
    find_located hroutines fun d hd => hl d (.inr hd), hproperties, hclasses, List.find?_nil,
    Option.map_none, Hoisted.kindOf]
  generalize h.vars.any (naming ·.name = id) = inVars
  generalize h.constants.any (naming ·.name = id) = inConstants
  generalize h.routines.any (naming ·.name = id) = inRoutines
  cases inVars <;> cases inConstants <;> cases inRoutines <;> rfl

/-- Where no declaration that satisfies `p` has the identifier, the others are left. -/
theorem findDeclared_any {p : Declaration → Bool} {id : Ident}
    (h : scope.findDeclared naming id p = none) :
    scope.findDeclared naming id (fun _ => true) = scope.findDeclared naming id (!p ·) := by
  have hfind : ∀ c ∈ scope.catalogs, (c.2.find? fun d => true && naming d.name = id) =
      c.2.find? fun d => !p d && naming d.name = id := by
    intro c hc
    have hnone := List.findSome?_eq_none_iff.mp h c hc
    simp only [Option.map_eq_none_iff, List.find?_eq_none] at hnone
    refine List.find?_congr fun d hd => ?_
    have hd := hnone d hd
    by_cases hid : naming d.name = id <;> simp_all
  simp only [Scope.findDeclared]
  generalize scope.catalogs = catalogs at hfind
  induction catalogs with
  | nil => rfl
  | cons c rest ih =>
    rw [List.findSome?_cons, List.findSome?_cons, hfind c List.mem_cons_self,
      ih fun c hc => hfind c (List.mem_cons_of_mem _ hc)]

/-- A scope has the declarations of its own level and, inside a routine, those of the outermost
one. -/
structure Scope.Stacks (scope : Scope) (outer here : Hoisted) : Prop where
  hoisted : scope.hoisted = outer ++ here
  properties : scope.properties = []
  classes : scope.classes = []
  located : here.LocatedAt scope.location
  outermost : outer.LocatedAt .outermost
  apart : ∀ d ∈ outer.all, d.location ≠ scope.location

theorem Scope.Stacks.resolve {outer here : Hoisted} (h : scope.Stacks outer here) (naming : Naming)
    (n : Name) :
    scope.resolve naming n =
      ((here.kindOf naming (naming n)).map (·, scope.location) <|>
        (outer.kindOf naming (naming n)).map (·, .outermost) <|>
        environmentLookup naming scope.environment (naming n)) := by
  have hhere : scope.hoisted.filter (·.location = scope.location) = here := by
    rw [h.hoisted, Hoisted.filter_append, Hoisted.filter_eq_empty (by simpa using h.apart),
      Hoisted.filter_eq_self (by simpa [Hoisted.LocatedAt] using h.located), Hoisted.empty_append]
  have houter : scope.hoisted.filter (fun d => !decide (d.location = scope.location)) = outer := by
    rw [h.hoisted, Hoisted.filter_append, Hoisted.filter_eq_self (by simpa using h.apart),
      Hoisted.filter_eq_empty (by simpa [Hoisted.LocatedAt] using h.located), Hoisted.append_empty]
  have hfound := findDeclared_eq hhere h.properties h.classes h.located naming (naming n)
  rw [Scope.resolve, hfound]
  cases hkind : here.kindOf naming (naming n) with
  | some kind => rfl
  | none =>
    rw [hkind] at hfound
    rw [findDeclared_any hfound, findDeclared_eq houter h.properties h.classes h.outermost]
    rfl

theorem stacks_outermost (environment : List Name) {h : Hoisted} (hl : h.LocatedAt .outermost) :
    ((Scope.outermost environment).declare h).Stacks {} h :=
  ⟨rfl, rfl, rfl, hl, fun d hd => by simp [Hoisted.all] at hd,
    fun d hd => by simp [Hoisted.all] at hd⟩

def Hoisted.afterParameters (h : Hoisted) (parameters : List Parameter) : Hoisted :=
  { h with vars := (parameters.map fun p => ⟨p.name, .function⟩) ++ h.vars }

theorem kindOf_afterParameters (h : Hoisted) (parameters : List Parameter) (id : Ident) :
    (h.afterParameters parameters).kindOf naming id =
      if parameters.any (naming ·.name = id) then some .variable else h.kindOf naming id := by
  simp only [Hoisted.kindOf, Hoisted.afterParameters, List.any_append, List.any_map,
    Function.comp_def]
  generalize parameters.any (naming ·.name = id) = isParameter
  cases isParameter <;> rfl

@[simp] theorem location_declare (scope : Scope) (h : Hoisted) :
    (scope.declare h).location = scope.location := rfl

@[simp] theorem location_trappedBy (scope : Scope) (token : Option Ident) :
    (scope.trappedBy token).location = scope.location := by
  cases token <;> rfl

@[simp] theorem location_insideRoutine (scope : Scope) (kind : RoutineKind) (name : Name)
    (slot : Option Ident) (parameters : List Parameter) :
    (scope.insideRoutine kind name slot parameters).location = .function := by
  cases kind <;> rfl

theorem declare_empty (scope : Scope) : scope.declare {} = scope := by
  simp [Scope.declare]

theorem stacks_routine (environment : List Name) {h inner : Hoisted} (hl : h.LocatedAt .outermost)
    (hi : inner.LocatedAt .function) (kind : RoutineKind) (name : Name) (slot : Option Ident)
    (parameters : List Parameter) :
    ((((Scope.outermost environment).declare h).insideRoutine kind name slot parameters).declare
      inner).Stacks h (inner.afterParameters parameters) := by
  have hlocation : (kind.owner name).location = .function := by cases kind <;> rfl
  refine ⟨?_, rfl, rfl, ?_, hl, ?_⟩
  · have hkeep := Hoisted.filter_eq_self (h := h) (p := (·.location = .outermost))
      (by simpa [Hoisted.LocatedAt] using hl)
    change Hoisted.mk ((h.filter _).vars ++ _ ++ inner.vars) ((h.filter _).constants ++
      inner.constants) ((h.filter _).routines ++ inner.routines) = _
    rw [hkeep, List.append_assoc]
    rfl
  · intro d hd
    simp only [Hoisted.all, Hoisted.afterParameters, List.mem_append, List.mem_map] at hd
    refine Eq.trans ?_ hlocation.symm
    simp only [Hoisted.LocatedAt, Hoisted.all, List.mem_append] at hi
    rcases hd with ((⟨p, _, rfl⟩ | hd) | hd) | hd
    · rfl
    · exact hi d (.inl (.inl hd))
    · exact hi d (.inl (.inr hd))
    · exact hi d (.inr hd)
  · intro d hd
    rw [hl d hd]
    exact fun h => absurd (h.trans hlocation) (by simp)

theorem kindOf_outermost {environment : List Name} {program : List Block} {h : Hoisted}
    (hok : hoist naming (.outermost environment) program = .ok h) (id : Ident) :
    h.kindOf naming id = outerKind naming environment program id := by
  have hempty : ({} : Hoisted).LocatedAt .outermost := by simp [Hoisted.LocatedAt, Hoisted.all]
  refine kindOf_of_hoist hok fun name hname => ?_
  have hresolve := (stacks_outermost environment hempty).resolve naming name
  rw [hname] at hresolve
  rw [show (Scope.outermost environment).resolve naming name =
    environmentLookup naming environment id from hresolve, isSome_environmentLookup]

/-- The scope of the outermost level resolves names as the syntax says. -/
theorem resolve_outermost {environment : List Name} {program : List Block} {h : Hoisted}
    (hok : hoist naming (.outermost environment) program = .ok h) (n : Name) :
    ((Scope.outermost environment).declare h).resolve naming n =
      lookup naming environment program [] (naming n) := by
  rw [(stacks_outermost environment (locatedAt_hoist hok)).resolve, kindOf_outermost hok]
  rfl

section Routine

variable {environment : List Name} {program around body : List Block} {h inner : Hoisted}
  {kind : RoutineKind} {name : Name} {slot : Option Ident} {parameters : List Parameter}

theorem resolve_declare_routine (hok : hoist naming (.outermost environment) program = .ok h)
    (hi : inner.LocatedAt .function) (n : Name) :
    ((((Scope.outermost environment).declare h).insideRoutine kind name slot parameters).declare
        inner).resolve naming n =
      ((if parameters.any (naming ·.name = naming n) then some .variable
          else inner.kindOf naming (naming n)).map (·, .function) <|>
        outerLookup naming environment program (naming n)) := by
  have hstacks := stacks_routine environment (locatedAt_hoist hok) hi kind name slot parameters
  rw [hstacks.resolve, kindOf_afterParameters, kindOf_outermost hok, location_declare,
    location_insideRoutine]
  rfl

theorem mem_registered_routine {scope : Scope} {id : Ident} :
    id ∈ (scope.insideRoutine kind name slot parameters).registered naming ↔
      naming name = id ∨ parameters.any (naming ·.name = id) = true := by
  have howner : (scope.insideRoutine kind name slot parameters).owner.name? = some name := by
    cases kind <;> rfl
  rw [Scope.registered, howner, location_insideRoutine]
  simp [Scope.insideRoutine, Scope.insideBody, Scope.outermostOnly, List.filter_map]
  grind

theorem kindOf_routine (hok : hoist naming (.outermost environment) program = .ok h)
    (hinner : hoist naming (((Scope.outermost environment).declare h).insideRoutine kind name slot
      parameters) body = .ok inner) {id : Ident}
    (hid : parameters.any (naming ·.name = id) = false) :
    inner.kindOf naming id = if naming name = id then none
      else declaredAs naming (outerLookup naming environment program id).isSome id
        (Block.allEvents .function body) := by
  have hempty : ({} : Hoisted).LocatedAt .function := by simp [Hoisted.LocatedAt, Hoisted.all]
  have hknown : ∀ n, naming n = id →
      ((((Scope.outermost environment).declare h).insideRoutine kind name slot parameters).resolve
        naming n).isSome = (outerLookup naming environment program id).isSome := by
    rintro n rfl
    rw [← declare_empty (Scope.insideRoutine ..), resolve_declare_routine hok hempty, hid]
    rfl
  rw [kindOf_of_hoist hinner hknown, location_insideRoutine]
  simp only [mem_registered_routine, hid, Bool.false_eq_true, or_false]

theorem localKind_eq (hok : hoist naming (.outermost environment) program = .ok h)
    (hinner : hoist naming (((Scope.outermost environment).declare h).insideRoutine kind name slot
      parameters) body = .ok inner) (id : Ident) :
    localKind naming environment program name parameters body id =
      if parameters.any (naming ·.name = id) then some .variable else inner.kindOf naming id := by
  rw [localKind]
  cases hid : parameters.any (naming ·.name = id) with
  | true => rfl
  | false => rw [kindOf_routine hok hinner hid]

/-- The scope of the body of a routine resolves names as the syntax says. -/
theorem resolve_routine (hok : hoist naming (.outermost environment) program = .ok h)
    (hinner : hoist naming (((Scope.outermost environment).declare h).insideRoutine kind name slot
      parameters) body = .ok inner) (n : Name) :
    ((((Scope.outermost environment).declare h).insideRoutine kind name slot parameters).declare
        inner).resolve naming n =
      lookup naming environment program (.routine kind name parameters body :: around)
        (naming n) := by
  have hi : inner.LocatedAt .function := by
    have hl := locatedAt_hoist hinner
    rwa [location_insideRoutine] at hl
  rw [resolve_declare_routine hok hi, lookup, localKind_eq hok hinner]

end Routine

end Resolve

end VbsCompiler
