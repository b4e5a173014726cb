import VbsCompiler.Proofs.Names

/-! What a level hoists. Its names are pairwise distinct, and in a program that compiles the
routines among them are the ones at the top. -/

namespace VbsCompiler

open CompileM Block

section Declared

variable {naming : Naming} {scope : Scope}

theorem isSome_kindOf {h : Hoisted} {id : Ident} :
    (h.kindOf naming id).isSome = true ↔ id ∈ h.all.map (naming ·.name) := by
  rw [← not_iff_not, Bool.not_eq_true, Option.isSome_eq_false_iff, Option.isNone_iff_eq_none,
    kindOf_eq_none_iff]
  simp only [List.any_eq_false, decide_eq_true_eq, Hoisted.all, List.map_append, List.mem_append,
    List.mem_map, not_or, not_exists, not_and, and_assoc]

theorem perm_push (h : Hoisted) (kind : NameKind) (d : Declaration) :
    (h.push kind d).all.Perm (d :: h.all) := by
  rw [List.perm_iff_count]
  intro e
  cases kind <;> simp only [Hoisted.push, Hoisted.all, List.count_append, List.count_cons,
    List.count_nil] <;> omega

theorem nodup_of_hoistEvents {registered : List Ident} {hoisted h : Hoisted}
    {events : List DeclarationEvent} (hnodup : (hoisted.all.map (naming ·.name)).Nodup)
    (hregistered : ∀ d ∈ hoisted.all, naming d.name ∈ registered)
    (hok : hoistEvents naming scope registered hoisted events = .ok h) :
    (h.all.map (naming ·.name)).Nodup := by
  induction events generalizing registered hoisted with
  | nil =>
    cases hok
    exact hnodup
  | cons event rest ih =>
    have hpush : ∀ kind name, naming name ∉ registered →
        ((hoisted.push kind ⟨name, scope.location⟩).all.map (naming ·.name)).Nodup ∧
          ∀ d ∈ (hoisted.push kind ⟨name, scope.location⟩).all,
            naming d.name ∈ naming name :: registered := by
      intro kind name hnew
      have hperm := perm_push hoisted kind ⟨name, scope.location⟩
      refine ⟨(hperm.map _).nodup_iff.mpr (List.nodup_cons.mpr ⟨?_, hnodup⟩), fun d hd => ?_⟩
      · intro hmem
        obtain ⟨d, hd, hname⟩ := List.mem_map.mp hmem
        have hd := hregistered d hd
        rw [hname] at hd
        exact hnew hd
      · rcases List.mem_cons.mp (hperm.mem_iff.mp hd) with rfl | hd
        · exact List.mem_cons_self
        · exact List.mem_cons_of_mem _ (hregistered d hd)
    cases event with
    | declares kind name =>
      rw [hoistEvents] at hok
      split at hok
      case isTrue => cases hok
      case isFalse hnew => exact ih (hpush kind name hnew).1 (hpush kind name hnew).2 hok
    | redims name =>
      rw [hoistEvents] at hok
      split at hok
      case isTrue => exact ih hnodup hregistered hok
      case isFalse hnew =>
        simp only [Bool.or_eq_true, decide_eq_true_eq, not_or] at hnew
        exact ih (hpush .variable name hnew.1).1 (hpush .variable name hnew.1).2 hok

/-- A level that is accepted declares no identifier twice. -/
theorem nodup_hoist {blocks : List Block} {h : Hoisted} (hok : hoist naming scope blocks = .ok h) :
    (h.all.map (naming ·.name)).Nodup :=
  nodup_of_hoistEvents (by simp [Hoisted.all]) (fun d hd => by simp [Hoisted.all] at hd) hok

def DeclarationEvent.routine? : DeclarationEvent → Option Name
  | .declares .routine name => some name
  | _ => none

theorem routines_of_hoistEvents {registered : List Ident} {hoisted h : Hoisted}
    {events : List DeclarationEvent}
    (hok : hoistEvents naming scope registered hoisted events = .ok h) :
    h.routines.map (·.name) =
      hoisted.routines.map (·.name) ++ events.filterMap DeclarationEvent.routine? := by
  induction events generalizing registered hoisted with
  | nil =>
    cases hok
    simp
  | cons event rest ih =>
    cases event with
    | declares kind name =>
      rw [hoistEvents] at hok
      split at hok
      case isTrue => cases hok
      case isFalse =>
        rw [ih hok]
        cases kind <;> simp [Hoisted.push, DeclarationEvent.routine?, List.filterMap_cons]
    | redims name =>
      rw [hoistEvents] at hok
      split at hok
      case isTrue => exact ih hok
      case isFalse =>
        rw [ih hok]
        rfl

theorem routines_hoist {blocks : List Block} {h : Hoisted}
    (hok : hoist naming scope blocks = .ok h) :
    h.routines.map (·.name) =
      (allEvents scope.location blocks).filterMap DeclarationEvent.routine? :=
  routines_of_hoistEvents hok

end Declared

section Routines

theorem filterMap_allEvents_eq_nil {location : Location} {blocks : List Block}
    (h : ∀ b ∈ blocks, (b.events location).filterMap DeclarationEvent.routine? = []) :
    (allEvents location blocks).filterMap DeclarationEvent.routine? = [] := by
  induction blocks with
  | nil => rfl
  | cons b rest ih =>
    rw [allEvents, List.filterMap_append, h b List.mem_cons_self,
      ih fun c hc => h c (List.mem_cons_of_mem _ hc), List.nil_append]

theorem no_routines_of_function (b : Block) :
    (b.events .function).filterMap DeclarationEvent.routine? = [] := by
  induction b using Block.nested_induction with
  | step b ih =>
    cases b with
    | doLoop | forLoop | withTarget => exact filterMap_allEvents_eq_nil ih
    | routine | exit | onError | statement => rfl
    | consts | dim | redim =>
      simp [events, DeclarationEvent.routine?]

/-- What compiles has routines at the top of the program only. -/
theorem no_routines_of_gives {setup : Setup} {b : Block} {scope : Scope} {s t : Session}
    {out : Output Code} (hplace : scope.enclosure = .outermost → b.isRoutine = false)
    (h : Gives (compileBlock setup scope b) s out t) (location : Location) :
    (b.events location).filterMap DeclarationEvent.routine? = [] := by
  induction b using Block.nested_induction generalizing scope s t out with
  | step b ih =>
    have hbody : ∀ {inner : Scope} {s t out}, inner.enclosure ≠ .outermost →
        Gives (compileBlocks setup .all inner b.children) s out t →
        (allEvents location b.children).filterMap DeclarationEvent.routine? = [] := by
      intro inner s t out hinner hbody
      refine filterMap_allEvents_eq_nil fun c hc => ?_
      obtain ⟨_, _, _, hcompiled⟩ := gives_of_mem_blocks hbody hc
      exact ih c hc (fun ho => absurd ho hinner) hcompiled
    cases b with
    | doLoop =>
      obtain ⟨_, _, _, _, _, _, -, -, hinner, -⟩ := gives_doLoop h
      exact hbody (insideLoop_ne_outermost _ _) hinner
    | forLoop =>
      obtain ⟨_, _, _, _, _, _, _, _, -, -, -, -, hinner, -⟩ := gives_forLoop h
      exact hbody (insideLoop_ne_outermost _ _) hinner
    | withTarget =>
      obtain ⟨_, _, _, _, _, -, -, -, hinner, -⟩ := gives_withTarget h
      exact hbody (by simp [Scope.insideWith]) hinner
    | routine => cases hplace (gives_routine h).1
    | exit | onError | statement => rfl
    | consts | dim | redim => simp [events, DeclarationEvent.routine?]

end Routines

def Block.routineNames (blocks : List Block) : List Name :=
  blocks.filterMap fun
    | .routine _ name _ _ => some name
    | _ => none

theorem mem_routineNames {blocks : List Block} {name : Name} :
    name ∈ routineNames blocks ↔
      ∃ kind parameters body, .routine kind name parameters body ∈ blocks := by
  rw [routineNames, List.mem_filterMap]
  constructor
  · rintro ⟨b, hb, hname⟩
    cases b <;> cases hname
    exact ⟨_, _, _, hb⟩
  · rintro ⟨kind, parameters, body, hb⟩
    exact ⟨_, hb, rfl⟩

theorem routineNames_filter (blocks : List Block) :
    routineNames (blocks.filter (·.isRoutine)) = routineNames blocks := by
  rw [routineNames, List.filterMap_filter, routineNames]
  congr 1
  funext b
  cases b <;> rfl

theorem filter_isRoutine_level (blocks : List Block) :
    (framed blocks ++ unframed blocks).filter (·.isRoutine) = blocks.filter (·.isRoutine) := by
  rw [framed, unframed]
  split
  · simp [List.filter_append, List.filter_filter]
  · rw [List.append_nil]

theorem routineNames_level (blocks : List Block) :
    routineNames (framed blocks ++ unframed blocks) = routineNames blocks := by
  rw [← routineNames_filter, filter_isRoutine_level, routineNames_filter]

/-- The routines that a level hoists are those at the top of the program. -/
theorem routineNames_eq {blocks : List Block}
    (h : ∀ b ∈ blocks, b.isRoutine = false →
      (b.events .outermost).filterMap DeclarationEvent.routine? = []) :
    (allEvents .outermost blocks).filterMap DeclarationEvent.routine? = routineNames blocks := by
  induction blocks with
  | nil => rfl
  | cons b rest ih =>
    rw [allEvents, List.filterMap_append, ih fun c hc => h c (List.mem_cons_of_mem _ hc)]
    cases b with
    | routine => rfl
    | _ =>
      rw [h _ List.mem_cons_self rfl]
      rfl

end VbsCompiler
