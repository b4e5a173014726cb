import VbsCompiler.Proofs.MethodNames

/-! Which declarations of a level count. Every event is judged by the events before it: the level
fails at the first one that declares a name again, and if there is none, what is declared are the
CONST, DIM and routine names and each new name of a REDIM, once. -/

namespace VbsCompiler

open Block

namespace DeclarationEvent

variable (naming : Naming) (scope : Scope)

def kind : DeclarationEvent → NameKind
  | .declares kind _ => kind
  | .redims _ => .variable

def Occupies (id : Ident) : DeclarationEvent → Prop
  | .declares _ name => naming name = id
  | .redims name => naming name = id ∧ scope.resolve naming name = none

/-- The event declares a name that the level has without it. -/
def Redeclares (earlier : List DeclarationEvent) : DeclarationEvent → Prop
  | .declares _ name => naming name ∈ scope.registered naming ∨
      ∃ e ∈ earlier, e.Occupies naming scope (naming name)
  | .redims _ => False

/-- The event is among those that declare their name: a REDIM is only if nothing visible and no
earlier event has it. -/
def introduces (earlier : List DeclarationEvent) : DeclarationEvent → Bool
  | .declares _ _ => true
  | .redims name => naming name ∉ scope.registered naming && (scope.resolve naming name).isNone &&
      earlier.all fun e => naming e.name ≠ naming name

def introduced (earlier events : List DeclarationEvent) : List DeclarationEvent :=
  (events.zipIdx.filter fun (e, i) =>
    e.introduces naming scope (earlier ++ events.take i)).map (·.1)

def declarations (events : List DeclarationEvent) (location : Location) (kind : NameKind) :
    List Declaration :=
  (events.filter (·.kind = kind)).map fun e => ⟨e.name, location⟩

/-- Of the events that come after the earlier ones, the first that declares a name again. -/
def FirstRedeclared (earlier events : List DeclarationEvent) (e : DeclarationEvent) : Prop :=
  ∃ before after, events = before ++ e :: after ∧ e.Redeclares naming scope (earlier ++ before) ∧
    ∀ pre d post, before = pre ++ d :: post → ¬ d.Redeclares naming scope (earlier ++ pre)

end DeclarationEvent

open DeclarationEvent

section Events

variable {naming : Naming} {scope : Scope}

theorem not_firstRedeclared_nil (earlier : List DeclarationEvent) (e : DeclarationEvent) :
    ¬ FirstRedeclared naming scope earlier [] e := by
  rintro ⟨before, after, hsplit, -⟩
  simp at hsplit

theorem firstRedeclared_cons_iff {earlier rest : List DeclarationEvent} {d e : DeclarationEvent} :
    FirstRedeclared naming scope earlier (d :: rest) e ↔
      (e = d ∧ d.Redeclares naming scope earlier) ∨
        (¬ d.Redeclares naming scope earlier ∧
          FirstRedeclared naming scope (earlier ++ [d]) rest e) := by
  constructor
  · rintro ⟨before, after, hsplit, hredeclares, hfirst⟩
    cases before with
    | nil =>
      obtain ⟨rfl, rfl⟩ := List.cons.inj hsplit
      exact .inl ⟨rfl, by simpa using hredeclares⟩
    | cons c before =>
      obtain ⟨rfl, rfl⟩ := List.cons.inj hsplit
      have hnot := hfirst [] d before rfl
      refine .inr ⟨by simpa using hnot, before, after, rfl, by simpa using hredeclares, ?_⟩
      intro pre c post hpre
      have hlater := hfirst (d :: pre) c post (by simp [hpre])
      simpa using hlater
  · rintro (⟨rfl, hredeclares⟩ | ⟨hnot, before, after, rfl, hredeclares, hfirst⟩)
    · exact ⟨[], rest, rfl, by simpa using hredeclares, by simp⟩
    · refine ⟨d :: before, after, rfl, by simpa using hredeclares, ?_⟩
      intro pre c post hpre
      cases pre with
      | nil =>
        obtain ⟨rfl, rfl⟩ := List.cons.inj hpre
        simpa using hnot
      | cons b pre =>
        obtain ⟨rfl, hbefore⟩ := List.cons.inj hpre
        simpa using hfirst pre c post hbefore

theorem exists_firstRedeclared_iff {earlier events : List DeclarationEvent} :
    (∃ e, FirstRedeclared naming scope earlier events e) ↔
      ∃ before e after, events = before ++ e :: after ∧
        e.Redeclares naming scope (earlier ++ before) := by
  constructor
  · rintro ⟨e, before, after, hsplit, hredeclares, -⟩
    exact ⟨before, e, after, hsplit, hredeclares⟩
  · rintro ⟨before, e, after, hsplit, hredeclares⟩
    induction events generalizing earlier before with
    | nil => simp at hsplit
    | cons d rest ih =>
      by_cases hd : d.Redeclares naming scope earlier
      · exact ⟨d, firstRedeclared_cons_iff.mpr (.inl ⟨rfl, hd⟩)⟩
      · cases before with
        | nil =>
          obtain ⟨rfl, rfl⟩ := List.cons.inj hsplit
          rw [List.append_nil] at hredeclares
          exact absurd hredeclares hd
        | cons c before =>
          obtain ⟨rfl, rfl⟩ := List.cons.inj hsplit
          obtain ⟨f, hf⟩ : ∃ f, FirstRedeclared naming scope (earlier ++ [d]) _ f :=
            ih before rfl (by simpa using hredeclares)
          exact ⟨f, firstRedeclared_cons_iff.mpr (.inr ⟨hd, hf⟩)⟩

def Registers (naming : Naming) (scope : Scope) (registered : List Ident)
    (earlier : List DeclarationEvent) : Prop :=
  ∀ id, id ∈ registered ↔
    id ∈ scope.registered naming ∨ ∃ e ∈ earlier, e.Occupies naming scope id

theorem registers_nil : Registers naming scope (scope.registered naming) [] := by
  simp [Registers]

theorem Registers.push {registered : List Ident} {earlier : List DeclarationEvent}
    (h : Registers naming scope registered earlier) {e : DeclarationEvent}
    (he : e.Occupies naming scope (naming e.name)) :
    Registers naming scope (naming e.name :: registered) (earlier ++ [e]) := by
  have hid : ∀ id, e.Occupies naming scope id ↔ naming e.name = id := by
    intro id
    cases e with
    | declares kind name => exact Iff.rfl
    | redims name => exact and_iff_left he.2
  intro id
  simp only [List.mem_cons, h id, List.mem_append, or_and_right, exists_or, exists_eq_left,
    List.not_mem_nil, or_false, hid]
  rw [eq_comm (a := id), or_comm, or_assoc]

theorem Registers.skip {registered : List Ident} {earlier : List DeclarationEvent}
    (h : Registers naming scope registered earlier) {name : Name}
    (hskip : naming name ∈ registered ∨ (scope.resolve naming name).isSome = true) :
    Registers naming scope registered (earlier ++ [.redims name]) := by
  intro id
  -- A REDIM that is skipped gives its level nothing new.
  have hold : (DeclarationEvent.redims name).Occupies naming scope id → id ∈ registered := by
    rintro ⟨rfl, hnone⟩
    rcases hskip with hmem | hsome
    · exact hmem
    · rw [hnone] at hsome
      cases hsome
  rw [h id] at hold ⊢
  simp only [List.mem_append, or_and_right, exists_or, List.mem_singleton, exists_eq_left]
  rw [← or_assoc]
  exact (or_iff_left_of_imp hold).symm

theorem Registers.introduces_redims_iff {registered : List Ident} {earlier : List DeclarationEvent}
    (h : Registers naming scope registered earlier) {name : Name} :
    (DeclarationEvent.redims name).introduces naming scope earlier = true ↔
      naming name ∉ registered ∧ scope.resolve naming name = none := by
  have hoccupies : scope.resolve naming name = none → ∀ e : DeclarationEvent,
      e.Occupies naming scope (naming name) ↔ naming e.name = naming name := by
    intro hnone e
    cases e with
    | declares kind other => exact Iff.rfl
    | redims other =>
      refine and_iff_left_of_imp fun hname => ?_
      rw [resolve_congr hname, hnone]
  simp only [introduces, Bool.and_eq_true, decide_eq_true_eq, Option.isNone_iff_eq_none,
    List.all_eq_true, h (naming name)]
  constructor
  · rintro ⟨⟨hlevel, hnone⟩, hearlier⟩
    refine ⟨?_, hnone⟩
    rintro (hmem | ⟨e, he, hid⟩)
    · exact hlevel hmem
    · exact hearlier e he ((hoccupies hnone e).mp hid)
  · rintro ⟨hnew, hnone⟩
    refine ⟨⟨fun hmem => hnew (.inl hmem), hnone⟩, fun e he hid => ?_⟩
    exact hnew (.inr ⟨e, he, (hoccupies hnone e).mpr hid⟩)

/-- Hoisting stops exactly at the first redeclaration. -/
theorem hoistEvents_error_iff {registered : List Ident} {earlier : List DeclarationEvent}
    (hregisters : Registers naming scope registered earlier) {hoisted : Hoisted}
    {events : List DeclarationEvent} {error : CompileError} :
    hoistEvents naming scope registered hoisted events = .error error ↔
      ∃ e, FirstRedeclared naming scope earlier events e ∧ error = .nameRedefined e.name := by
  induction events generalizing registered earlier hoisted with
  | nil => simp [hoistEvents, not_firstRedeclared_nil]
  | cons event rest ih =>
    simp only [firstRedeclared_cons_iff]
    cases event with
    | declares kind name =>
      have hredeclares : naming name ∈ registered ↔
          (DeclarationEvent.declares kind name).Redeclares naming scope earlier := hregisters _
      rw [hoistEvents]
      split
      case isTrue hmem =>
        have hfirst := hredeclares.mp hmem
        constructor
        · rintro ⟨⟩
          exact ⟨_, .inl ⟨rfl, hfirst⟩, rfl⟩
        · rintro ⟨e, ⟨rfl, -⟩ | ⟨hnot, -⟩, rfl⟩
          · rfl
          · exact absurd hfirst hnot
      case isFalse hmem =>
        have hnot : ¬ (DeclarationEvent.declares kind name).Redeclares naming scope earlier :=
          fun h => hmem (hredeclares.mpr h)
        have hpush : Registers naming scope (naming name :: registered)
            (earlier ++ [.declares kind name]) :=
          hregisters.push (e := .declares kind name) rfl
        rw [ih hpush]
        simp [hnot]
    | redims name =>
      have hnot : ¬ (DeclarationEvent.redims name).Redeclares naming scope earlier := id
      rw [hoistEvents]
      split
      case isTrue hskip =>
        have hregisters' := hregisters.skip (by simpa using hskip)
        rw [ih hregisters']
        simp [hnot]
      case isFalse hnew =>
        obtain ⟨-, hnone⟩ : naming name ∉ registered ∧ scope.resolve naming name = none := by
          simpa using hnew
        have hpush : Registers naming scope (naming name :: registered)
            (earlier ++ [.redims name]) :=
          hregisters.push (e := .redims name) ⟨rfl, hnone⟩
        rw [ih hpush]
        simp [hnot]

theorem introduced_cons (earlier rest : List DeclarationEvent) (e : DeclarationEvent) :
    introduced naming scope earlier (e :: rest) =
      if e.introduces naming scope earlier then
        e :: introduced naming scope (earlier ++ [e]) rest
      else introduced naming scope (earlier ++ [e]) rest := by
  have hrest : ((rest.zipIdx 1).filter fun (d, i) =>
      d.introduces naming scope (earlier ++ (e :: rest).take i)).map (·.1) =
        introduced naming scope (earlier ++ [e]) rest := by
    rw [introduced, List.zipIdx_succ, List.filter_map, List.map_map]
    simp [Function.comp_def]
  rw [introduced, List.zipIdx_cons, List.filter_cons, ← hrest]
  simp only [List.take_zero, List.append_nil, Nat.zero_add]
  split <;> rfl

theorem mem_of_mem_introduced {earlier events : List DeclarationEvent} {e : DeclarationEvent}
    (h : e ∈ introduced naming scope earlier events) : e ∈ events := by
  obtain ⟨⟨d, i⟩, hd, rfl⟩ := List.mem_map.mp h
  exact List.fst_mem_of_mem_zipIdx (List.mem_of_mem_filter hd)

@[simp] theorem declarations_nil (location : Location) (kind : NameKind) :
    declarations [] location kind = [] := rfl

theorem declarations_cons (e : DeclarationEvent) (events : List DeclarationEvent)
    (location : Location) (kind : NameKind) :
    declarations (e :: events) location kind =
      (if e.kind = kind then [⟨e.name, location⟩] else []) ++
        declarations events location kind := by
  by_cases hkind : e.kind = kind <;> simp [declarations, hkind]

def Hoisted.pushAll (h : Hoisted) (events : List DeclarationEvent) (location : Location) :
    Hoisted :=
  ⟨h.vars ++ declarations events location .variable,
    h.constants ++ declarations events location .constant,
    h.routines ++ declarations events location .routine⟩

theorem pushAll_push (h : Hoisted) (events : List DeclarationEvent) (location : Location)
    {e : DeclarationEvent} (he : e.kind.IsHoistable) :
    (h.push e.kind ⟨e.name, location⟩).pushAll events location =
      h.pushAll (e :: events) location := by
  rcases he with hkind | hkind | hkind <;>
    simp [Hoisted.pushAll, Hoisted.push, declarations_cons, hkind]

/-- Hoisting that succeeds adds what the events introduce. -/
theorem hoistEvents_ok {registered : List Ident} {earlier : List DeclarationEvent}
    (hregisters : Registers naming scope registered earlier) {hoisted h : Hoisted}
    {events : List DeclarationEvent} (hkinds : ∀ e ∈ events, e.kind.IsHoistable)
    (hok : hoistEvents naming scope registered hoisted events = .ok h) :
    h = hoisted.pushAll (introduced naming scope earlier events) scope.location := by
  induction events generalizing registered earlier hoisted with
  | nil =>
    cases hok
    simp [Hoisted.pushAll, introduced]
  | cons event rest ih =>
    have hkinds' : ∀ e ∈ rest, e.kind.IsHoistable :=
      fun e he => hkinds e (List.mem_cons_of_mem _ he)
    have hkind := hkinds event List.mem_cons_self
    rw [introduced_cons]
    cases event with
    | declares kind name =>
      rw [hoistEvents] at hok
      split at hok
      case isTrue => cases hok
      case isFalse =>
        rw [ih (hregisters.push (e := .declares kind name) rfl) hkinds' hok]
        exact pushAll_push hoisted _ scope.location hkind
    | redims name =>
      rw [hoistEvents] at hok
      split at hok
      case isTrue hskip =>
        have hnot : ¬ (DeclarationEvent.redims name).introduces naming scope earlier = true := by
          rw [hregisters.introduces_redims_iff]
          rintro ⟨hnew, hnone⟩
          simp [hnew, hnone] at hskip
        rw [ih (hregisters.skip (by simpa using hskip)) hkinds' hok, if_neg hnot]
      case isFalse hnew =>
        obtain hnew : naming name ∉ registered ∧ scope.resolve naming name = none := by
          simpa using hnew
        have hpush := hregisters.push (e := .redims name) ⟨rfl, hnew.2⟩
        rw [ih hpush hkinds' hok, if_pos (hregisters.introduces_redims_iff.mpr hnew)]
        exact pushAll_push hoisted _ scope.location hkind

theorem isHoistable_of_mem_allEvents {location : Location} {blocks : List Block}
    {e : DeclarationEvent} (he : e ∈ allEvents location blocks) : e.kind.IsHoistable := by
  cases e with
  | declares kind name =>
    obtain ⟨b, -, hb⟩ := mem_allEvents.mp he
    exact isHoistable_of_mem_events hb
  | redims name => exact .inl rfl

end Events

section Resolution

variable {naming : Naming} {scope : Scope} {h : Hoisted}

theorem findDeclared_of_kindOf {p : Declaration → Bool} {found : Hoisted} {location : Location}
    (hfilter : scope.hoisted.filter p = found) (hl : found.LocatedAt location) {id : Ident}
    {kind : NameKind} (hkind : found.kindOf naming id = some kind) :
    scope.findDeclared naming id p = some (kind, location) := by
  simp only [Hoisted.LocatedAt, Hoisted.all, List.mem_append] at hl
  have hvars : scope.vars.filter p = found.vars := congrArg Hoisted.vars hfilter
  have hconstants : scope.constants.filter p = found.constants :=
    congrArg Hoisted.constants hfilter
  have hroutines : scope.routines.filter p = found.routines := congrArg Hoisted.routines hfilter
  simp only [Scope.findDeclared, Scope.catalogs, List.findSome?_cons,
    find_located hvars fun d hd => hl d (.inl (.inl hd)),
    find_located hconstants fun d hd => hl d (.inl (.inr hd)),
    find_located hroutines fun d hd => hl d (.inr hd)]
  unfold Hoisted.kindOf at hkind
  revert hkind
  generalize found.vars.any (naming ·.name = id) = inVars
  generalize found.constants.any (naming ·.name = id) = inConstants
  generalize found.routines.any (naming ·.name = id) = inRoutines
  cases inVars <;> cases inConstants <;> cases inRoutines <;> simp +contextual

/-- A name that a level declares anew is found at that level. -/
theorem resolve_declare_of_kindOf (hl : h.LocatedAt scope.location)
    (hconstants : scope.constants.filter (·.location = scope.location) = [])
    (hroutines : scope.routines.filter (·.location = scope.location) = []) {n : Name}
    (hnew : naming n ∉ scope.registered naming) {kind : NameKind}
    (hkind : h.kindOf naming (naming n) = some kind) :
    (scope.declare h).resolve naming n = some (kind, scope.location) := by
  have hown : scope.hoisted.filter (·.location = scope.location) =
      ⟨scope.vars.filter (·.location = scope.location), [], []⟩ := by
    simp only [Hoisted.filter, Scope.hoisted, hconstants, hroutines]
  have hfilter : (scope.declare h).hoisted.filter (·.location = scope.location) =
      ⟨scope.vars.filter (·.location = scope.location) ++ h.vars, h.constants, h.routines⟩ := by
    change (scope.hoisted ++ h).filter _ = _
    rw [Hoisted.filter_append, hown,
      Hoisted.filter_eq_self (by simpa [Hoisted.LocatedAt] using hl)]
    rfl
  have hlocated : Hoisted.LocatedAt
      ⟨scope.vars.filter (·.location = scope.location) ++ h.vars, h.constants, h.routines⟩
      scope.location := by
    intro d hd
    simp only [Hoisted.LocatedAt, Hoisted.all, List.mem_append] at hl hd
    rcases hd with ((hd | hd) | hd) | hd
    · simpa using (List.mem_filter.mp hd).2
    · exact hl d (.inl (.inl hd))
    · exact hl d (.inl (.inr hd))
    · exact hl d (.inr hd)
  have hvars : (scope.vars.filter (·.location = scope.location)).any
      (naming ·.name = naming n) = false := by
    rw [List.any_eq_false]
    intro d hd hid
    refine hnew (List.mem_append_right _ (List.mem_map.mpr ⟨d, hd, ?_⟩))
    simpa using hid
  have hfound : (scope.declare h).findDeclared naming (naming n)
      (·.location = (scope.declare h).location) = some (kind, scope.location) := by
    refine findDeclared_of_kindOf hfilter hlocated ?_
    rw [← hkind]
    simp only [Hoisted.kindOf, List.any_append, hvars, Bool.false_or]
  rw [Scope.resolve, hfound]
  rfl

theorem findDeclared_declare {id : Ident} (hid : id ∉ h.all.map (naming ·.name))
    (p : Declaration → Bool) :
    (scope.declare h).findDeclared naming id p = scope.findDeclared naming id p := by
  have hnone : ∀ ds : List Declaration, (∀ d ∈ ds, d ∈ h.all) →
      ds.find? (fun d => p d && naming d.name = id) = none := by
    intro ds hds
    rw [List.find?_eq_none]
    intro d hd hfound
    have hname : naming d.name = id := by simpa using (Bool.and_eq_true_iff.mp hfound).2
    exact hid (List.mem_map.mpr ⟨d, hds d hd, hname⟩)
  have hvars := hnone h.vars (by simp +contextual [Hoisted.all])
  have hconstants := hnone h.constants (by simp +contextual [Hoisted.all])
  have hroutines := hnone h.routines (by simp +contextual [Hoisted.all])
  simp only [Scope.findDeclared, Scope.catalogs, Scope.declare, List.findSome?_cons,
    List.find?_append, hvars, hconstants, hroutines, Option.or_none]

/-- What a level does not declare is found where it was before. -/
theorem resolve_declare_of_not_mem {n : Name} (hn : naming n ∉ h.all.map (naming ·.name)) :
    (scope.declare h).resolve naming n = scope.resolve naming n := by
  simp only [Scope.resolve, findDeclared_declare hn]
  rfl

end Resolution

theorem mem_declarations {d : Declaration} {events : List DeclarationEvent} {location : Location}
    {kind : NameKind} :
    d ∈ declarations events location kind ↔
      ∃ e ∈ events, e.kind = kind ∧ (⟨e.name, location⟩ : Declaration) = d := by
  simp [declarations, and_assoc]

/-- Where no identifier is declared twice, each one has the kind of its declaration. -/
theorem kindOf_pushAll {naming : Naming} {events : List DeclarationEvent} {location : Location}
    (hkinds : ∀ e ∈ events, e.kind.IsHoistable)
    (hnodup : ((({} : Hoisted).pushAll events location).all.map (naming ·.name)).Nodup)
    {e : DeclarationEvent} (he : e ∈ events) :
    (({} : Hoisted).pushAll events location).kindOf naming (naming e.name) = some e.kind := by
  have hmem : (⟨e.name, location⟩ : Declaration) ∈ declarations events location e.kind :=
    mem_declarations.mpr ⟨e, he, rfl, rfl⟩
  simp only [Hoisted.all, Hoisted.pushAll, List.nil_append, List.map_append, List.nodup_append,
    List.mem_append, List.mem_map] at hnodup
  obtain ⟨⟨-, -, hconstants⟩, -, hroutines⟩ := hnodup
  have hany : ∀ kind, (declarations events location kind).any (naming ·.name = naming e.name) =
      true ↔ ∃ d ∈ declarations events location kind, naming d.name = naming e.name := by
    simp
  simp only [Hoisted.kindOf, Hoisted.pushAll, List.nil_append, hany]
  rcases hkinds e he with hkind | hkind | hkind
  · rw [hkind] at hmem ⊢
    rw [if_pos ⟨_, hmem, rfl⟩]
  · rw [hkind] at hmem ⊢
    rw [if_neg ?_, if_pos ⟨_, hmem, rfl⟩]
    rintro ⟨d, hd, hid⟩
    exact hconstants _ ⟨d, hd, hid⟩ _ ⟨_, hmem, rfl⟩ rfl
  · rw [hkind] at hmem ⊢
    rw [if_neg ?_, if_neg ?_, if_pos ⟨_, hmem, rfl⟩]
    · rintro ⟨d, hd, hid⟩
      exact hroutines _ (.inr ⟨d, hd, hid⟩) _ ⟨_, hmem, rfl⟩ rfl
    · rintro ⟨d, hd, hid⟩
      exact hroutines _ (.inl ⟨d, hd, hid⟩) _ ⟨_, hmem, rfl⟩ rfl

section Level

variable {naming : Naming} {scope : Scope} {blocks : List Block} {h : Hoisted}

theorem hoist_error_iff {error : CompileError} :
    hoist naming scope blocks = .error error ↔
      ∃ e, FirstRedeclared naming scope [] (allEvents scope.location blocks) e ∧
        error = .nameRedefined e.name :=
  hoistEvents_error_iff registers_nil

theorem hoist_ok (hok : hoist naming scope blocks = .ok h) :
    h = ({} : Hoisted).pushAll (introduced naming scope [] (allEvents scope.location blocks))
      scope.location :=
  hoistEvents_ok registers_nil (fun _ he => isHoistable_of_mem_allEvents he) hok

theorem exists_hoist_error_iff :
    (∃ error, hoist naming scope blocks = .error error) ↔
      ∃ before e after, allEvents scope.location blocks = before ++ e :: after ∧
        e.Redeclares naming scope before := by
  have hsome : (∃ e, FirstRedeclared naming scope [] (allEvents scope.location blocks) e) ↔
      ∃ before e after, allEvents scope.location blocks = before ++ e :: after ∧
        e.Redeclares naming scope before :=
    exists_firstRedeclared_iff
  rw [← hsome]
  constructor
  · rintro ⟨error, hfails⟩
    obtain ⟨e, he, -⟩ := hoist_error_iff.mp hfails
    exact ⟨e, he⟩
  · rintro ⟨e, he⟩
    exact ⟨_, hoist_error_iff.mpr ⟨e, he, rfl⟩⟩

/-- What the level introduces is found there, whatever the levels around it declare. -/
theorem resolve_introduced (hconstants : ∀ d ∈ scope.constants, d.location ≠ scope.location)
    (hroutines : ∀ d ∈ scope.routines, d.location ≠ scope.location)
    (hok : hoist naming scope blocks = .ok h) {e : DeclarationEvent}
    (he : e ∈ introduced naming scope [] (allEvents scope.location blocks)) :
    (scope.declare h).resolve naming e.name = some (e.kind, scope.location) := by
  have hkinds : ∀ d ∈ introduced naming scope [] (allEvents scope.location blocks),
      d.kind.IsHoistable :=
    fun d hd => isHoistable_of_mem_allEvents (mem_of_mem_introduced hd)
  have hnodup := nodup_hoist hok
  have hkind : h.kindOf naming (naming e.name) = some e.kind := by
    rw [hoist_ok hok] at hnodup ⊢
    exact kindOf_pushAll hkinds hnodup he
  have hnew : naming e.name ∉ scope.registered naming := by
    obtain ⟨d, hd, hname⟩ := List.mem_map.mp (isSome_kindOf.mp (by rw [hkind]; rfl))
    rw [← hname]
    exact not_mem_registered_of_hoist hok hd
  exact resolve_declare_of_kindOf (locatedAt_hoist hok) (by simpa using hconstants)
    (by simpa using hroutines) hnew hkind

end Level

/-- Hoisting fails exactly if some declaration repeats a name of the level, and the error shows the
first that does. If it succeeds, the declared names are those that the events introduce, in source
order for each kind. They are distinct and new to the level, each is found there afterwards as what
it was declared as, and every other name is found where it was before. -/
theorem hoisting_declares_each_name_once {naming : Naming} {scope : Scope}
    (hconstants : ∀ d ∈ scope.constants, d.location ≠ scope.location)
    (hroutines : ∀ d ∈ scope.routines, d.location ≠ scope.location) (blocks : List Block) :
    let events := allEvents scope.location blocks
    let new := introduced naming scope [] events
    ((∃ error, hoist naming scope blocks = .error error) ↔
      ∃ before e after, events = before ++ e :: after ∧ e.Redeclares naming scope before) ∧
    (∀ error, hoist naming scope blocks = .error error ↔
      ∃ e, FirstRedeclared naming scope [] events e ∧ error = .nameRedefined e.name) ∧
    (∀ error, hoist naming scope blocks = .error error →
      ∃ e, FirstRedeclared naming scope [] events e ∧
        error.message = s!"Name redefined: '{e.name.content}' (line {e.name.line + 1})") ∧
    ∀ h, hoist naming scope blocks = .ok h →
      h.vars = declarations new scope.location .variable ∧
      h.constants = declarations new scope.location .constant ∧
      h.routines = declarations new scope.location .routine ∧
      (h.all.map (naming ·.name)).Nodup ∧
      (∀ d ∈ h.all, naming d.name ∉ scope.registered naming) ∧
      (∀ e ∈ new, (scope.declare h).resolve naming e.name = some (e.kind, scope.location)) ∧
      ∀ n, naming n ∉ h.all.map (naming ·.name) →
        (scope.declare h).resolve naming n = scope.resolve naming n := by
  intro events new
  refine ⟨exists_hoist_error_iff, fun error => hoist_error_iff, ?_, fun h hok => ?_⟩
  · intro error hfails
    obtain ⟨e, he, rfl⟩ := hoist_error_iff.mp hfails
    exact ⟨e, he, rfl⟩
  · have hnew : ∀ d ∈ h.all, naming d.name ∉ scope.registered naming :=
      fun d hd => not_mem_registered_of_hoist hok hd
    have hfound : ∀ e ∈ new,
        (scope.declare h).resolve naming e.name = some (e.kind, scope.location) :=
      fun e he => resolve_introduced hconstants hroutines hok he
    have hh : h = ({} : Hoisted).pushAll new scope.location := hoist_ok hok
    refine ⟨by simp [hh, Hoisted.pushAll], by simp [hh, Hoisted.pushAll],
      by simp [hh, Hoisted.pushAll], nodup_hoist hok, hnew, hfound, fun n hn => ?_⟩
    exact resolve_declare_of_not_mem hn

theorem hoisting_declares_each_name_once_dim_after_redim :
    let scope := ((Scope.outermost [⟨"wscript", 0⟩]).declare
      { vars := [⟨⟨"g", 0⟩, .outermost⟩] }).insideRoutine .function ⟨"f", 1⟩ none
        [⟨⟨"p", 1⟩, true⟩]
    let blocks : List Block :=
      [.doLoop none [.redim false [⟨⟨"g", 2⟩, []⟩, ⟨⟨"p", 2⟩, []⟩, ⟨⟨"x", 2⟩, []⟩]],
        .dim [⟨⟨"X", 3⟩, none⟩], .dim [⟨⟨"f", 4⟩, none⟩]]
    (∀ d ∈ scope.constants, d.location ≠ scope.location) ∧
      (∀ d ∈ scope.routines, d.location ≠ scope.location) ∧
      hoist caselessNaming scope blocks = .error (.nameRedefined ⟨"X", 3⟩) := by
  intro scope blocks
  have hconstants : ∀ d ∈ scope.constants, d.location ≠ scope.location := by decide
  have hroutines : ∀ d ∈ scope.routines, d.location ≠ scope.location := by decide
  refine ⟨hconstants, hroutines, ?_⟩
  refine ((hoisting_declares_each_name_once hconstants hroutines blocks).2.1 _).mpr ?_
  refine ⟨.declares .variable ⟨"X", 3⟩, ⟨[.redims ⟨"g", 2⟩, .redims ⟨"p", 2⟩, .redims ⟨"x", 2⟩],
    [.declares .variable ⟨"f", 4⟩], rfl, ?_, ?_⟩, rfl⟩
  · refine .inr ⟨.redims ⟨"x", 2⟩, by simp, ?_, ?_⟩ <;> decide +kernel
  · intro pre d post hsplit
    have hd : d ∈ pre ++ d :: post := by simp
    rw [← hsplit] at hd
    simp only [List.mem_cons, List.not_mem_nil, or_false] at hd
    rcases hd with rfl | rfl | rfl <;> exact id

end VbsCompiler
