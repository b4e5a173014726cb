import VbsCompiler.Proofs.MethodNames
import VbsCompiler.Proofs.Supply
import VbsCompiler.Proofs.Visits

/-! Warnings of undeclared names. A name is warned of when it is met in the target of a WITH block,
when it becomes a local of a method or when the environment has to provide it; all three at once
leave one warning for each spelling and line, since a message tells which name it is about. -/

namespace VbsCompiler

open CompileM Block

def Name.warning (n : Name) : Diagnostic :=
  .undeclaredVariable n.content n.lineNumber

theorem text_warning (n : Name) : n.warning.text =
    (temporary ("Undeclared variable: \"" ++ n.content ++ "\" (line ") n.lineNumber).text ++ ")" :=
  rfl

theorem isStem_line (text : String) : IsStem (text ++ "\" (line ") := by
  intro c hc
  rw [String.toList_append, List.getLast?_append] at hc
  cases hc
  rfl

/-- The message shows the line last, and the spelling is what is left of it. -/
theorem eq_of_text_warning {m n : Name} (h : m.warning.text = n.warning.text) : m = n := by
  rw [text_warning, text_warning] at h
  have htext : temporary ("Undeclared variable: \"" ++ m.content ++ "\" (line ") m.lineNumber =
      temporary ("Undeclared variable: \"" ++ n.content ++ "\" (line ") n.lineNumber := by
    have hlist := congrArg String.toList h
    rw [String.toList_append, String.toList_append] at hlist
    exact congrArg Ident.mk (String.toList_inj.mp (List.append_cancel_right hlist))
  obtain ⟨hstem, hline⟩ := temporary_inj (isStem_line _) (isStem_line _) htext
  have hcontent : m.content = n.content := by
    have hlist := congrArg String.toList hstem
    simp only [String.toList_append] at hlist
    exact String.toList_inj.mp (List.append_cancel_left (List.append_cancel_right hlist))
  obtain ⟨content, line⟩ := m
  obtain ⟨content', line'⟩ := n
  simp only [Name.lineNumber] at hline
  simp only [Name.mk.injEq]
  exact ⟨hcontent, by omega⟩

namespace Session

/-- The warnings of the session are about these names, each once. -/
structure WarnsOf (s : Session) (names : List Name) : Prop where
  diagnostics : s.diagnostics = names.map Name.warning
  nodup : names.Nodup

variable {s t u : Session} {names : List Name}

theorem WarnsOf.of_diagnostics (h : s.WarnsOf names) (ht : t.diagnostics = s.diagnostics) :
    t.WarnsOf names :=
  ⟨ht.trans h.diagnostics, h.nodup⟩

theorem WarnsOf.reported (h : s.WarnsOf names) (n : Name) :
    (s.reported n).WarnsOf (if n ∈ names then names else names ++ [n]) := by
  have hknown : s.diagnostics.any (·.text = n.warning.text) = true ↔ n ∈ names := by
    rw [h.diagnostics, List.any_map, List.any_eq_true]
    constructor
    · rintro ⟨m, hm, htext⟩
      rwa [← eq_of_text_warning (by simpa using htext : m.warning.text = n.warning.text)]
    · intro hn
      exact ⟨n, hn, by simp⟩
  by_cases hn : n ∈ names
  · rw [if_pos hn]
    exact h.of_diagnostics (congrArg Session.diagnostics (if_pos (hknown.mpr hn)))
  · rw [if_neg hn]
    have hdiagnostics : (s.reported n).diagnostics = s.diagnostics ++ [n.warning] :=
      congrArg Session.diagnostics (if_neg (mt hknown.mp hn))
    refine ⟨?_, List.nodup_append.mpr ⟨h.nodup, by simp, ?_⟩⟩
    · rw [hdiagnostics, h.diagnostics, List.map_append]
      rfl
    · rintro m hm _ hn' rfl
      exact hn (List.mem_singleton.mp hn' ▸ hm)

theorem Step.warnsOf (h : Step s t) (hs : s.WarnsOf names) : ∃ names', t.WarnsOf names' := by
  cases h with
  | quiet hquiet => exact ⟨names, hs.of_diagnostics hquiet.diagnostics⟩
  | report n => exact ⟨_, hs.reported n⟩

theorem warnsOf_of_steps (h : Relation.ReflTransGen Step s t) (hs : s.WarnsOf names) :
    ∃ names', t.WarnsOf names' := by
  induction h with
  | refl => exact ⟨names, hs⟩
  | tail _ hstep ih =>
    obtain ⟨names', ht⟩ := ih
    exact hstep.warnsOf ht

/-- From `s` to `t` warnings of the names with the property come to those there are. -/
def Adds (s t : Session) (p : Name → Prop) : Prop :=
  ∀ names, s.WarnsOf names → ∃ names', t.WarnsOf names' ∧ ∀ n, n ∈ names' ↔ n ∈ names ∨ p n

variable {p q : Name → Prop}

theorem Adds.congr (h : s.Adds t p) (hpq : ∀ n, p n ↔ q n) : s.Adds t q := by
  intro names hs
  obtain ⟨names', ht, hnames⟩ := h names hs
  exact ⟨names', ht, fun n => by rw [hnames, hpq]⟩

theorem Adds.trans (h : s.Adds t p) (h' : t.Adds u q) : s.Adds u fun n => p n ∨ q n := by
  intro names hs
  obtain ⟨names', ht, hnames⟩ := h names hs
  obtain ⟨names'', hu, hmore⟩ := h' names' ht
  exact ⟨names'', hu, fun n => by rw [hmore, hnames, or_assoc]⟩

theorem adds_nothing (h : t.diagnostics = s.diagnostics) : s.Adds t fun _ => False :=
  fun names hs => ⟨names, hs.of_diagnostics h, by simp⟩

/-- A step that warns of nothing may come before. -/
theorem Adds.after (h' : t.Adds u q) (h : t.diagnostics = s.diagnostics) : s.Adds u q :=
  ((adds_nothing h).trans h').congr fun n => by simp

theorem adds_reported (s : Session) (more : List Name) :
    s.Adds (more.foldl reported s) fun n => n ∈ more := by
  induction more generalizing s with
  | nil => simpa using adds_nothing (s := s) rfl
  | cons n rest ih =>
    have hfirst : s.Adds (s.reported n) fun m => m = n := by
      intro names hs
      refine ⟨_, hs.reported n, fun m => ?_⟩
      by_cases hn : n ∈ names
      · rw [if_pos hn]
        exact ⟨.inl, fun hm => hm.elim id fun he => he ▸ hn⟩
      · rw [if_neg hn]
        simp
    exact (hfirst.trans (ih _)).congr fun m => by simp

end Session

/-- The target of the WITH block that is visited uses the name, and nothing declares it there. -/
def Visit.Targets (setup : Setup) (v : Visit) (n : Name) : Prop :=
  ∃ target body r, v.block = .withTarget target body ∧
    setup.renderer .reference target v.scope = .ok r ∧ n ∈ r.accessed ∧
    v.scope.declares setup.naming n = false

/-- The routine that is visited becomes the method, whose locals for what its body uses undeclared
are these names. -/
inductive Visit.Materialises (setup : Setup) : Visit → List Name → Code → Prop where
  | empty {scope : Scope} {s : Session} {kind : RoutineKind} {name : Name}
      {parameters : List Parameter} :
      Materialises setup ⟨scope, s, .routine kind name parameters []⟩ []
        (emptyMethod (methodHead setup.naming kind name parameters))
  | body {scope : Scope} {s u t : Session} {kind : RoutineKind} {name : Name}
      {parameters : List Parameter} {body : List Block} {slot : Option Ident}
      {level : Output Code} : body ≠ [] → Gives (returnSlot setup kind scope) s slot u →
      Gives (compileLevel setup body (scope.insideRoutine kind name slot parameters)
        fun selection s => compileBlocks setup selection s body) u level t →
      Materialises setup ⟨scope, s, .routine kind name parameters body⟩
        (level.undeclaredLocals setup.naming)
        (.method (methodHead setup.naming kind name parameters) (level.localIdents setup.naming)
          ((level.undeclaredLocals setup.naming).map setup.naming) level.statements
          (.ofSlot? slot))

def Visit.Warns (setup : Setup) (v : Visit) (n : Name) : Prop :=
  v.Targets setup n ∨ ∃ locals method, v.Materialises setup locals method ∧ n ∈ locals

/-- Compiling the blocks comes to a visit that warns of the name. -/
def Warned (setup : Setup) (scope : Scope) (s : Session) (blocks : List Block) (n : Name) : Prop :=
  ∃ around v, Visits setup scope s blocks around v ∧ v.Warns setup n

theorem mem_undeclared_iff {r : Rendering} {naming : Naming} {scope : Scope} {n : Name} :
    n ∈ r.undeclared naming scope ↔ n ∈ r.accessed ∧ scope.declares naming n = false := by
  simp [Rendering.undeclared, Scope.undeclared]

section Warned

variable {setup : Setup} {scope : Scope} {s t u : Session} {b : Block} {rest : List Block}
  {out : Output Code} {n : Name}

theorem not_warned_nil : ¬ Warned setup scope s [] n := by
  rintro ⟨around, v, hv, -⟩
  cases hv

theorem warned_cons (h : Gives (compileBlock setup scope b) s out u) :
    Warned setup scope s (b :: rest) n ↔
      Warned setup scope s [b] n ∨ Warned setup scope u rest n := by
  constructor
  · rintro ⟨around, v, hv, hwarns⟩
    rcases (visits_cons h).mp hv with hfirst | hlater
    · exact .inl ⟨around, v, hfirst, hwarns⟩
    · exact .inr ⟨around, v, hlater, hwarns⟩
  · rintro (⟨around, v, hfirst, hwarns⟩ | ⟨around, v, hlater, hwarns⟩)
    · exact ⟨around, v, (visits_cons h).mpr (.inl hfirst), hwarns⟩
    · exact ⟨around, v, (visits_cons h).mpr (.inr hlater), hwarns⟩

theorem warned_single : Warned setup scope s [b] n ↔ Visit.Warns setup ⟨scope, s, b⟩ n ∨
    ∃ inner t blocks, Visit.Enters setup ⟨scope, s, b⟩ inner t blocks ∧
      Warned setup inner t blocks n := by
  constructor
  · rintro ⟨around, v, hv, hwarns⟩
    cases hv with
    | head => exact .inl hwarns
    | tail _ hnone => cases hnone
    | inside henters hinside => exact .inr ⟨_, _, _, henters, _, v, hinside, hwarns⟩
  · rintro (hwarns | ⟨inner, t, blocks, henters, around, v, hinside, hwarns⟩)
    · exact ⟨[], _, .head, hwarns⟩
    · exact ⟨_, v, .inside henters hinside, hwarns⟩

theorem not_warns_of_loopKind? {kind : LoopKind} (hb : b.loopKind? = some kind) :
    ¬ Visit.Warns setup ⟨scope, s, b⟩ n := by
  rintro (⟨target, body, r, rfl, -⟩ | ⟨locals, method, hlocals, -⟩)
  · cases hb
  · cases hlocals <;> cases hb

theorem not_warned_of_not_isCompound (hb : b.isCompound = false) :
    ¬ Warned setup scope s [b] n := by
  rw [warned_single]
  rintro ((⟨target, body, r, rfl, -⟩ | ⟨locals, method, hlocals, -⟩) | ⟨inner, t, blocks, h, -⟩)
  · cases hb
  · cases hlocals <;> cases hb
  · cases h with
    | loop hloops => cases hloops <;> cases hb
    | withTarget | routine | behindFrame => cases hb

end Warned

def AddsWarned (setup : Setup) (b : Block) : Prop :=
  ∀ {scope : Scope} {s t : Session} {out : Output Code},
    Gives (compileBlock setup scope b) s out t → s.Adds t fun n => Warned setup scope s [b] n

section Blocks

variable {setup : Setup} {scope : Scope} {s t : Session} {b : Block} {out : Output Code}

theorem adds_blocks {blocks : List Block} (h : ∀ b ∈ blocks, AddsWarned setup b)
    (hgives : Gives (compileBlocks setup .all scope blocks) s out t) :
    s.Adds t fun n => Warned setup scope s blocks n := by
  induction blocks generalizing s out with
  | nil =>
    obtain ⟨-, rfl⟩ := gives_pure.mp hgives
    exact (Session.adds_nothing rfl).congr fun n => by simp [not_warned_nil]
  | cons b rest ih =>
    obtain ⟨here, u, later, hhere, hlater, -⟩ := gives_compileBlocks_cons.mp hgives
    have hfirst := h b List.mem_cons_self hhere
    have hrest := ih (fun c hc => h c (List.mem_cons_of_mem _ hc)) hlater
    exact (hfirst.trans hrest).congr fun n => (warned_cons hhere).symm

theorem adds_loop {kind : LoopKind} (hkind : b.loopKind? = some kind)
    (ih : ∀ c ∈ b.children, AddsWarned setup c) : AddsWarned setup b := by
  intro scope s t out h
  obtain ⟨flag, u, inner, hloops, hinner, -⟩ := loops_of_gives (v := ⟨scope, s, b⟩) hkind h
  refine ((adds_blocks ih hinner).after hloops.diagnostics).congr fun n => ?_
  rw [warned_single]
  constructor
  · exact fun hwarned => .inr ⟨_, u, _, .loop hloops, hwarned⟩
  · rintro (hwarns | ⟨inner', u', blocks, henters, hwarned⟩)
    · exact absurd hwarns (not_warns_of_loopKind? hkind)
    · cases henters with
      | loop hother =>
        obtain ⟨rfl, rfl⟩ := hother.unique hloops
        exact hwarned
      | withTarget | routine | behindFrame => cases hkind

theorem adds_withTarget {target : TokenRun} {body : List Block}
    (ih : ∀ c ∈ body, AddsWarned setup c) : AddsWarned setup (.withTarget target body) := by
  intro scope s t out h
  obtain ⟨line, r, name, u, inner, hline, hr, hname, hinner, -⟩ := gives_withTarget h
  have hreported := Session.adds_reported (s.called [⟨.reference, target, scope, .ok r⟩])
    (r.undeclared setup.naming scope)
  have hbody := (adds_blocks ih hinner).after
    ((quiet_freshTemporary _ (by decide) _).diagnostics hname)
  have hall : s.Adds t fun n => n ∈ r.undeclared setup.naming scope ∨
      Warned setup (scope.insideWith ⟨name, line⟩) u body n :=
    (hreported.trans hbody).after rfl
  refine hall.congr fun n => ?_
  rw [warned_single]
  refine or_congr ?_ ?_
  · constructor
    · intro hn
      exact .inl ⟨target, body, r, rfl, hr, mem_undeclared_iff.mp hn⟩
    · rintro (⟨target', body', r', hblock, hr', hn⟩ | ⟨_, _, hlocals, -⟩)
      · cases hblock
        cases hr.symm.trans hr'
        exact mem_undeclared_iff.mpr hn
      · cases hlocals
  · constructor
    · exact fun hwarned => ⟨_, u, body, .withTarget hline hr hname, hwarned⟩
    · rintro ⟨inner', u', blocks, henters, hwarned⟩
      cases henters with
      | loop hloops => cases hloops
      | withTarget hline' hr' hname' =>
        cases hline.symm.trans hline'
        cases hr.symm.trans hr'
        obtain ⟨rfl, rfl⟩ := hname.unique hname'
        exact hwarned

theorem adds_level_of_forall {blocks : List Block} (h : ∀ b ∈ blocks, AddsWarned setup b)
    {level : Output Code} (hgives : Gives (compileLevel setup blocks scope fun selection s =>
      compileBlocks setup selection s blocks) s level t) :
    s.Adds t fun n => ∃ around v, LevelVisits setup scope s blocks around v ∧ v.Warns setup n := by
  obtain ⟨hoisted, token, u, inside, w, behind, hhoist, htoken, hinside, hbehind, -⟩ :=
    gives_level hgives
  have hfirst := adds_blocks (fun b hb => h b (mem_of_mem_framed hb)) hinside
  have hlater := adds_blocks (fun b hb => h b (mem_of_mem_unframed hb)) hbehind
  have hquiet := (quiet_levelToken _ _ _).diagnostics htoken
  refine ((hfirst.trans hlater).after hquiet).congr fun n => ?_
  simp only [levelVisits_iff hhoist htoken hinside, Warned, or_and_right, exists_or]

theorem adds_routine {kind : RoutineKind} {name : Name} {parameters : List Parameter}
    {body : List Block} (ih : ∀ c ∈ body, AddsWarned setup c) :
    AddsWarned setup (.routine kind name parameters body) := by
  intro scope s t out h
  obtain ⟨hplace, hparameters, ⟨rfl, rfl, -⟩ | ⟨hbody, slot, u, level, x, hslot, hlevel,
    hmethod⟩⟩ := gives_routine h
  · refine (Session.adds_nothing rfl).congr fun n => iff_of_false id ?_
    rw [warned_single]
    rintro ((⟨_, _, _, hblock, -⟩ | ⟨locals, method, hlocals, hn⟩) | ⟨_, _, _, henters, -⟩)
    · cases hblock
    · cases hlocals with
      | empty => cases hn
      | body hbody => exact hbody rfl
    · exact not_enters_empty henters
  · obtain ⟨rfl, -⟩ := gives_method hmethod
    have hinside := adds_level_of_forall ih hlevel
    have hlocals := Session.adds_reported x (level.undeclaredLocals setup.naming)
    have hquiet := (quiet_returnSlot _ _ _).diagnostics hslot
    refine ((hinside.trans hlocals).after hquiet).congr fun n => ?_
    rw [warned_single, or_comm]
    refine or_congr ?_ ?_
    · constructor
      · exact fun hn => .inr ⟨_, _, .body hbody hslot hlevel, hn⟩
      · rintro (⟨_, _, _, hblock, -⟩ | ⟨locals, method, hmaterialises, hn⟩)
        · cases hblock
        · cases hmaterialises with
          | empty => exact absurd rfl hbody
          | body _ hslot' hlevel' =>
            obtain ⟨rfl, rfl⟩ := hslot.unique hslot'
            obtain ⟨rfl, -⟩ := hlevel.unique hlevel'
            exact hn
    · simp only [← visits_routine_iff hplace hparameters hbody hslot]
      constructor
      · rintro ⟨around, v, ⟨inner, y, blocks, henters, hv⟩, hwarns⟩
        exact ⟨inner, y, blocks, henters, around, v, hv, hwarns⟩
      · rintro ⟨inner, y, blocks, henters, around, v, hv, hwarns⟩
        exact ⟨around, v, ⟨inner, y, blocks, henters, hv⟩, hwarns⟩

/-- Exactly the visits of a block that compiles make it warn. -/
theorem adds_block (b : Block) : AddsWarned setup b := by
  induction b using Block.nested_induction with
  | step b ih =>
    cases b with
    | doLoop test body => exact adds_loop rfl ih
    | forLoop counter first last step body => exact adds_loop rfl ih
    | withTarget target body => exact adds_withTarget ih
    | routine kind name parameters body => exact adds_routine ih
    | exit | consts | dim | redim | onError | statement =>
      intro scope s t out h
      have hquiet := (quiet_of_not_isCompound setup scope rfl).diagnostics h
      refine (Session.adds_nothing hquiet).congr fun n => iff_of_false id ?_
      exact not_warned_of_not_isCompound rfl

theorem adds_level {blocks : List Block} {level : Output Code}
    (h : Gives (compileLevel setup blocks scope fun selection s =>
      compileBlocks setup selection s blocks) s level t) :
    s.Adds t fun n => ∃ around v, LevelVisits setup scope s blocks around v ∧ v.Warns setup n :=
  adds_level_of_forall (fun b _ => adds_block b) h

end Blocks

section Outermost

variable {setup : Setup} {scope : Scope} {s t : Session} {out : Output Code}

/-- The routines of the blocks and their methods, in order. -/
theorem methods_blocks {blocks : List Block}
    (h : Gives (compileBlocks setup .all scope blocks) s out t) :
    List.Forall₂ (fun b c => ∃ v locals, Visits setup scope s blocks [] v ∧ v.block = b ∧
        v.Materialises setup locals c)
      (blocks.filter (·.isRoutine)) (out.statements.filter (·.isMethod)) := by
  induction blocks generalizing s out with
  | nil =>
    obtain ⟨rfl, -⟩ := gives_pure.mp h
    exact .nil
  | cons b rest ih =>
    obtain ⟨here, u, later, hhere, hlater, rfl⟩ := gives_compileBlocks_cons.mp h
    have hrest : List.Forall₂ (fun c code => ∃ v locals,
        Visits setup scope s (b :: rest) [] v ∧ v.block = c ∧ v.Materialises setup locals code)
        (rest.filter (·.isRoutine)) (later.statements.filter (·.isMethod)) := by
      refine (ih hlater).imp fun c code hcode => ?_
      obtain ⟨v, locals, hv, hblock, hmaterialises⟩ := hcode
      exact ⟨v, locals, .tail hhere hv, hblock, hmaterialises⟩
    rw [Output.statements_append, List.filter_append]
    by_cases hb : b.isRoutine = true
    · rw [List.filter_cons_of_pos hb]
      cases b <;> try cases hb
      obtain ⟨-, -, ⟨rfl, -, rfl⟩ | ⟨hbody, slot, u, level, x, hslot, hlevel, hmethod⟩⟩ :=
        gives_routine hhere
      · exact .cons ⟨_, [], .head, rfl, .empty⟩ hrest
      · obtain ⟨-, rfl⟩ := gives_method hmethod
        exact .cons ⟨_, _, .head, rfl, .body hbody hslot hlevel⟩ hrest
    · have hnone : here.statements.filter (·.isMethod) = [] :=
        List.filter_eq_nil_iff.mpr fun c hc => by
          simp [methodFree_of_gives (fun _ => by simpa using hb) hhere c hc]
      rw [List.filter_cons_of_neg hb, hnone]
      exact hrest

theorem methods_level {program : List Block} {level : Output Code}
    (h : Gives (compileLevel setup program scope fun selection s =>
      compileBlocks setup selection s program) s level t) :
    List.Forall₂ (fun b c => ∃ v locals, LevelVisits setup scope s program [] v ∧ v.block = b ∧
        v.Materialises setup locals c)
      (program.filter (·.isRoutine)) (level.statements.filter (·.isMethod)) := by
  obtain ⟨hoisted, token, u, inside, w, behind, hhoist, htoken, hinside, hbehind, rfl⟩ :=
    gives_level h
  have hfirst := methods_blocks hinside
  have hlater := methods_blocks hbehind
  -- a frame is put around statements alone
  have hframe : (Code.frame token inside.statements).filter (·.isMethod) =
      inside.statements.filter (·.isMethod) := by
    cases token with
    | none => rfl
    | some token =>
      have htraps : anyTrapsErrors program = true := (isSome_levelToken htoken).1.symm
      have hnone : (framed program).filter (·.isRoutine) = [] := by
        simp [framed, htraps, List.filter_filter]
      rw [hnone] at hfirst
      rw [List.forall₂_nil_left_iff.mp hfirst]
      rfl
  have hstatements : ((inside.mapStatements (Code.frame token) ++ behind).addDeclarations
      hoisted.stored).statements = Code.frame token inside.statements ++ behind.statements := rfl
  rw [← filter_isRoutine_level, hstatements, List.filter_append, List.filter_append, hframe]
  refine List.rel_append (hfirst.imp fun b c h => ?_) (hlater.imp fun b c h => ?_)
  · obtain ⟨v, locals, hv, hmethod⟩ := h
    exact ⟨v, locals, .framed hhoist htoken hv, hmethod⟩
  · obtain ⟨v, locals, hv, hmethod⟩ := h
    exact ⟨v, locals, .unframed hhoist htoken hinside hv, hmethod⟩

theorem enters_undeclared {b : Block} (hb : b.isRoutine = false)
    (h : Gives (compileBlock setup scope b) s out t) {inner : Scope} {u : Session}
    {blocks : List Block} (henters : Visit.Enters setup ⟨scope, s, b⟩ inner u blocks) :
    ∃ inside w, Gives (compileBlocks setup .all inner blocks) u inside w ∧
      ∀ n ∈ inside.undeclared, n ∈ out.undeclared := by
  cases henters with
  | loop hloops =>
    cases b with
    | doLoop test body =>
      obtain ⟨head, names, x, flag, y, inside, hhead, hflag, hinside, rfl⟩ := gives_doLoop h
      obtain ⟨rfl, rfl⟩ := hloops.unique (.doLoop hhead hflag)
      exact ⟨inside, t, hinside, fun n hn => List.mem_append_right _ hn⟩
    | forLoop counter first last step body =>
      simp only [compileBlock, gives_bind, gives_pure] at h
      obtain ⟨head, _, hhead, lastName, x, hlast, stepName, y, hstep, flag, z, hflag, inside, _,
        hinside, rfl, rfl⟩ := h
      obtain ⟨rfl, rfl⟩ := hloops.unique (.forLoop hhead hlast hstep hflag)
      exact ⟨inside, t, hinside, fun n hn => List.mem_append_right _ hn⟩
    | withTarget | routine | exit | consts | dim | redim | onError | statement => cases hloops
  | withTarget hline hr hname =>
    obtain ⟨line, r, name, x, inside, hline', hr', hname', hinside, rfl⟩ := gives_withTarget h
    cases hline.symm.trans hline'
    cases hr.symm.trans hr'
    obtain ⟨rfl, rfl⟩ := hname.unique hname'
    exact ⟨inside, t, hinside, fun n hn => List.mem_append_left _ hn⟩
  | routine | behindFrame => cases hb

/-- What a WITH target uses undeclared stays undeclared up to the end of its level. -/
theorem mem_undeclared_of_targets {blocks : List Block} {around : List Visit} {v : Visit}
    (hv : Visits setup scope s blocks around v)
    (h : Gives (compileBlocks setup .all scope blocks) s out t)
    (haround : ∀ w ∈ around, w.block.isRoutine = false) {n : Name} (hn : v.Targets setup n) :
    n ∈ out.undeclared := by
  induction hv generalizing out t with
  | head =>
    obtain ⟨here, u, later, hhere, hlater, rfl⟩ := gives_compileBlocks_cons.mp h
    obtain ⟨target, body, r, rfl, hr, hn⟩ := hn
    obtain ⟨line, r', name, x, inside, -, hr', -, -, rfl⟩ := gives_withTarget hhere
    cases hr.symm.trans hr'
    exact List.mem_append_left _ (List.mem_append_right _ (mem_undeclared_iff.mpr hn))
  | tail hgives _ ih =>
    obtain ⟨here, u, later, hhere, hlater, rfl⟩ := gives_compileBlocks_cons.mp h
    obtain ⟨-, rfl⟩ := hgives.unique hhere
    exact List.mem_append_right _ (ih hlater haround hn)
  | inside henters _ ih =>
    obtain ⟨here, u, later, hhere, hlater, rfl⟩ := gives_compileBlocks_cons.mp h
    obtain ⟨hinside, hb⟩ := List.forall_mem_append.mp haround
    obtain ⟨inside, w, hgives, hundeclared⟩ :=
      enters_undeclared (hb _ (List.mem_singleton.mpr rfl)) hhere henters
    exact List.mem_append_left _ (hundeclared n (ih hgives hinside hn))

theorem mem_undeclared_of_level {blocks : List Block} {level : Output Code}
    (h : Gives (compileLevel setup blocks scope fun selection s =>
      compileBlocks setup selection s blocks) s level t) {around : List Visit} {v : Visit}
    (hv : LevelVisits setup scope s blocks around v)
    (haround : ∀ w ∈ around, w.block.isRoutine = false) {n : Name} (hn : v.Targets setup n) :
    n ∈ level.undeclared := by
  obtain ⟨hoisted, token, u, inside, w, behind, hhoist, htoken, hinside, hbehind, rfl⟩ :=
    gives_level h
  have hundeclared : ((inside.mapStatements (Code.frame token) ++ behind).addDeclarations
      hoisted.stored).undeclared = inside.undeclared ++ behind.undeclared := rfl
  rw [hundeclared]
  rcases (levelVisits_iff hhoist htoken hinside).mp hv with hv | hv
  · exact List.mem_append_left _ (mem_undeclared_of_targets hv hinside haround hn)
  · exact List.mem_append_right _ (mem_undeclared_of_targets hv hbehind haround hn)

theorem declares_of_mem_taken {naming : Naming} {n : Name} (h : naming n ∈ scope.taken naming) :
    scope.declares naming n = true := by
  rw [Scope.declares, isSome_resolve_iff.mpr h, Bool.or_true]

theorem mem_undeclaredLocals {naming : Naming} {kind : RoutineKind} {name : Name}
    {slot : Option Ident} {parameters : List Parameter} {level : Output Code} {inner : Hoisted}
    (hdeclarations : level.declarations = inner.stored) {n : Name} (hn : n ∈ level.undeclared)
    (hundeclared : ((scope.insideRoutine kind name slot parameters).declare inner).declares naming
      n = false) : naming n ∈ (level.undeclaredLocals naming).map naming := by
  have hlocal : naming n ∉ level.localIdents naming := by
    intro hlocal
    have hstored := (mem_localIdents hdeclarations _).mp hlocal
    have htaken : naming n ∈
        ((scope.insideRoutine kind name slot parameters).declare inner).taken naming :=
      mem_taken_routine (.inr hstored)
    rw [declares_of_mem_taken htaken] at hundeclared
    cases hundeclared
  rw [Output.undeclaredLocals, mem_distinctNames]
  exact List.mem_map_of_mem (List.mem_filter.mpr ⟨hn, by simpa using hlocal⟩)

end Outermost

section Program

variable {setup : Setup} {environment : List Name} {program : List Block} {hoisted : Hoisted}

/-- Inside a routine, what a WITH target uses undeclared becomes a local of the method. -/
theorem mem_locals_of_targets
    (hok : hoist setup.naming (.outermost environment) program = .ok hoisted)
    {kind : RoutineKind} {name : Name} {parameters : List Parameter} {body : List Block}
    (hmem : .routine kind name parameters body ∈ program) {token : Option Ident} {s t : Session}
    {out : Output Code}
    (h : Gives (compileBlock setup (((Scope.outermost environment).declare hoisted).trappedBy token)
      (.routine kind name parameters body)) s out t)
    {inner : Scope} {u : Session} {blocks : List Block} {around : List Visit} {v : Visit}
    (henters : Visit.Enters setup ⟨((Scope.outermost environment).declare hoisted).trappedBy token,
      s, .routine kind name parameters body⟩ inner u blocks)
    (hv : Visits setup inner u blocks around v) {n : Name} (hn : v.Targets setup n) :
    ∃ locals method, Visit.Materialises setup
        ⟨((Scope.outermost environment).declare hoisted).trappedBy token, s,
          .routine kind name parameters body⟩ locals method ∧
      setup.naming n ∈ locals.map setup.naming := by
  have haround := hv.no_routine henters.enclosure.1
  obtain ⟨hplace, hparameters, ⟨rfl, -, -⟩ | ⟨hbody, slot, w, level, x, hslot, hlevel, -⟩⟩ :=
    gives_routine h
  · exact absurd henters not_enters_empty
  · have hlevel' : Gives (compileLevel setup body (((Scope.outermost environment).declare
        hoisted).insideRoutine kind name slot parameters) fun selection s =>
          compileBlocks setup selection s body) w level x := by
      cases token <;> exact hlevel
    obtain ⟨inner', -, hdeclarations, htraced⟩ := traced_routineBody hok hmem
      (isSome_returnSlot hslot).1 (fun _ _ => trivial) hlevel'
    have hinside := (visits_routine_iff hplace hparameters hbody hslot).mp ⟨_, _, _, henters, hv⟩
    have hundeclared := mem_undeclared_of_level hlevel hinside haround hn
    exact ⟨_, _, .body hbody hslot hlevel,
      mem_undeclaredLocals hdeclarations hundeclared (htraced.declares_eq_false hundeclared)⟩

/-- A visit that is not straight at the outermost level is inside a routine of the program. -/
theorem targets_inside_routine
    (hok : hoist setup.naming (.outermost environment) program = .ok hoisted)
    {blocks : List Block} (hmem : ∀ b ∈ blocks, b ∈ program) {token : Option Ident}
    {s t : Session} {out : Output Code}
    (h : Gives (compileBlocks setup .all
      (((Scope.outermost environment).declare hoisted).trappedBy token) blocks) s out t)
    {around : List Visit} {v : Visit}
    (hv : Visits setup (((Scope.outermost environment).declare hoisted).trappedBy token) s blocks
      around v) (haround : ¬ ∀ w ∈ around, w.block.isRoutine = false) {n : Name}
    (hn : v.Targets setup n) :
    ∃ w ∈ around, ∃ locals method, w.Materialises setup locals method ∧
      setup.naming n ∈ locals.map setup.naming := by
  obtain ⟨b, hb, u, here, w, hhere, hat⟩ := hv.at_block h
  cases hat with
  | head => exact absurd (by simp) haround
  | tail _ hnone => cases hnone
  | inside henters hinside =>
    by_cases hroutine : b.isRoutine = true
    · cases b <;> try cases hroutine
      obtain ⟨locals, method, hmethod⟩ :=
        mem_locals_of_targets hok (hmem _ hb) hhere henters hinside hn
      exact ⟨_, List.mem_append_right _ (List.mem_singleton.mpr rfl), locals, method, hmethod⟩
    · have hrest := hinside.no_routine henters.enclosure.1
      refine absurd (List.forall_mem_append.mpr ⟨hrest, ?_⟩) haround
      simpa using hroutine

theorem targets_level {s t : Session} {level : Output Code}
    (h : Gives (compileLevel setup program (.outermost environment) fun selection s =>
      compileBlocks setup selection s program) s level t)
    {around : List Visit} {v : Visit}
    (hv : LevelVisits setup (.outermost environment) s program around v) {n : Name}
    (hn : v.Targets setup n) :
    (∃ w ∈ around, ∃ locals method, w.Materialises setup locals method ∧
        setup.naming n ∈ locals.map setup.naming) ∨
      (∀ w ∈ around, w.block.isRoutine = false) ∧ n ∈ level.undeclared := by
  by_cases haround : ∀ w ∈ around, w.block.isRoutine = false
  · exact .inr ⟨haround, mem_undeclared_of_level h hv haround hn⟩
  · obtain ⟨hoisted, token, u, inside, w, behind, hok, htoken, hinside, hbehind, -⟩ :=
      gives_level h
    rcases (levelVisits_iff hok htoken hinside).mp hv with hv | hv
    · exact .inl (targets_inside_routine hok (fun b => mem_of_mem_framed) hinside hv haround hn)
    · exact .inl (targets_inside_routine hok (fun b => mem_of_mem_unframed) hbehind hv haround hn)

/-- What the outermost level leaves undeclared, nothing provides. -/
theorem not_mem_environment {s t : Session} {level : Output Code}
    (h : Gives (compileLevel setup program (.outermost environment) fun selection s =>
      compileBlocks setup selection s program) s level t) :
    ∀ n ∈ level.undeclared, setup.naming n ∉ environment.map setup.naming := by
  obtain ⟨hoisted, token, u, inside, w, behind, hok, htoken, hinside, hbehind, rfl⟩ :=
    gives_level h
  have hblock : ∀ b ∈ program, ∀ {s t : Session} {out : Output Code},
      Gives (compileBlock setup
        (((Scope.outermost environment).declare hoisted).trappedBy token) b) s out t →
      ∀ n ∈ out.undeclared, setup.naming n ∉ environment.map setup.naming := by
    intro b hb s t out hout n hn henvironment
    by_cases hroutine : b.isRoutine = true
    · cases b <;> try cases hroutine
      obtain ⟨_, _, _, _, -, -, -, rfl⟩ := traced_routine hok hb (fun _ _ => trivial) hout
      cases hn
    · have htraced : Traced setup environment program (fun _ => True) _ _ _ _ _ :=
        traced_outermost hok (isSome_levelToken htoken).1 hb (by simpa using hroutine)
          (fun _ _ => trivial) hout
      have htaken : setup.naming n ∈
          ((Scope.outermost environment).declare hoisted).taken setup.naming :=
        List.mem_append_right _ henvironment
      have hdeclares := htraced.declares_eq_false hn
      rw [declares_of_mem_taken htaken] at hdeclares
      cases hdeclares
  have hblocks : ∀ {blocks : List Block} {s t : Session} {out : Output Code},
      (∀ b ∈ blocks, b ∈ program) → Gives (compileBlocks setup .all
        (((Scope.outermost environment).declare hoisted).trappedBy token) blocks) s out t →
      ∀ n ∈ out.undeclared, setup.naming n ∉ environment.map setup.naming := by
    intro blocks s t out hmem hout
    exact output_blocks (P := fun out => ∀ n ∈ out.undeclared,
      setup.naming n ∉ environment.map setup.naming) (fun n hn => nomatch hn)
      (fun ha hb => List.forall_mem_append.mpr ⟨ha, hb⟩) (fun b hb => hblock b (hmem b hb)) hout
  have hfirst := hblocks (fun b => mem_of_mem_framed) hinside
  have hlater := hblocks (fun b => mem_of_mem_unframed) hbehind
  exact List.forall_mem_append.mpr ⟨hfirst, hlater⟩

/-- The names that the environment has to provide besides those it is known to. -/
theorem mem_required_iff {naming : Naming} {environment names : List Name}
    (hnames : ∀ n ∈ names, naming n ∉ environment.map naming) (n : Name) :
    n ∈ distinctNames naming names ↔
      n ∈ distinctNames naming (environment ++ distinctNames naming names) ∧
        naming n ∉ environment.map naming := by
  have hrequired : ∀ m ∈ distinctNames naming names, naming m ∉ environment.map naming := by
    intro m hm henvironment
    obtain ⟨n, hn, heq⟩ := List.mem_map.mp (mem_distinctNames.mp (List.mem_map_of_mem hm))
    exact hnames n hn (heq ▸ henvironment)
  have happend : distinctNames naming (environment ++ distinctNames naming names) =
      distinctNames naming environment ++ distinctNames naming names :=
    distinctFrom_append (nodup_distinctFrom _ _ _) fun m hm =>
      ⟨List.not_mem_nil, hrequired m hm⟩
  rw [happend, List.mem_append]
  constructor
  · exact fun hn => ⟨.inr hn, hrequired n hn⟩
  · rintro ⟨hn | hn, hnot⟩
    · exact absurd (mem_distinctNames.mp (List.mem_map_of_mem hn)) hnot
    · exact hn

variable {t : Session} {out : Output Code}

theorem methods_outermost (h : Gives (compileOutermost setup program (.outermost environment)) {}
    out t) :
    List.Forall₂ (fun b c => ∃ v locals,
        LevelVisits setup (.outermost environment) {} program [] v ∧ v.block = b ∧
          v.Materialises setup locals c)
      (program.filter (·.isRoutine)) (out.statements.filter (·.isMethod)) := by
  obtain ⟨level, u, hlevel, -, rfl⟩ := gives_outermost h
  exact (methods_level hlevel :)

theorem warnsOf_outermost (h : Gives (compileOutermost setup program (.outermost environment)) {}
    out t) :
    ∃ names, t.WarnsOf names ∧ ∀ n, n ∈ names ↔
      (n ∈ distinctNames setup.naming (environment ++ out.undeclared) ∧
        setup.naming n ∉ environment.map setup.naming) ∨
      (∃ around v locals method,
        LevelVisits setup (.outermost environment) {} program around v ∧
        v.Materialises setup locals method ∧ n ∈ locals) ∨
      ∃ around v, LevelVisits setup (.outermost environment) {} program around v ∧
        v.Targets setup n := by
  obtain ⟨level, u, hlevel, rfl, rfl⟩ := gives_outermost h
  have hadds := (adds_level hlevel).trans
    (Session.adds_reported u (distinctNames setup.naming level.undeclared))
  obtain ⟨names, hwarns, hnames⟩ := hadds [] ⟨rfl, List.nodup_nil⟩
  refine ⟨names, hwarns, fun n => (hnames n).trans ?_⟩
  rw [← mem_required_iff (not_mem_environment hlevel)]
  constructor
  · rintro (hnone | ⟨around, v, hv, htargets | ⟨locals, method, hmethod, hn⟩⟩ | hrequired)
    · cases hnone
    · exact .inr (.inr ⟨around, v, hv, htargets⟩)
    · exact .inr (.inl ⟨around, v, locals, method, hv, hmethod, hn⟩)
    · exact .inl hrequired
  · rintro (hrequired | ⟨around, v, locals, method, hv, hmethod, hn⟩ | ⟨around, v, hv, htargets⟩)
    · exact .inr (.inr hrequired)
    · exact .inr (.inl ⟨around, v, hv, .inr ⟨locals, method, hmethod, hn⟩⟩)
    · exact .inr (.inl ⟨around, v, hv, .inl htargets⟩)

theorem targets_outermost (h : Gives (compileOutermost setup program (.outermost environment)) {}
    out t) {around : List Visit} {v : Visit} {n : Name}
    (hv : LevelVisits setup (.outermost environment) {} program around v)
    (hn : v.Targets setup n) :
    (∃ w ∈ around, ∃ locals method, w.Materialises setup locals method ∧
        setup.naming n ∈ locals.map setup.naming) ∨
      (∀ w ∈ around, w.block.isRoutine = false) ∧ setup.naming n ∈
        (distinctNames setup.naming (environment ++ out.undeclared)).map setup.naming := by
  obtain ⟨level, u, hlevel, -, rfl⟩ := gives_outermost h
  refine (targets_level hlevel hv hn).imp id fun hundeclared => ⟨hundeclared.1, ?_⟩
  have hprovided : setup.naming n ∈
      (distinctNames setup.naming level.undeclared).map setup.naming :=
    mem_distinctNames.mpr (List.mem_map_of_mem hundeclared.2)
  refine mem_distinctNames.mpr ?_
  rw [List.map_append]
  exact List.mem_append_right _ hprovided

end Program

def Session.afterRuns (s : Session) (runs : List Run) : Session :=
  runs.foldl (fun s r => r.leaves s) s

theorem steps_afterRuns (s : Session) (runs : List Run) :
    Relation.ReflTransGen Session.Step s (s.afterRuns runs) := by
  induction runs generalizing s with
  | nil => exact .refl
  | cons r rest ih => exact (r.steps s).trans (ih _)

def ProgramVisits (renderer : Renderer) (settings : Settings) (program : List Block) :
    List Visit → Visit → Prop :=
  LevelVisits (.caseless renderer) (.outermost settings.environmentNames) {} program

/-- Runs, failed ones included, only add warnings, and never two for one spelling and line. A
program that compiles is warned of exactly what the environment has to provide besides the names of
the settings, what becomes an undeclared local of a method, and what a WITH target uses where
nothing declares it. The last is also declared so by the method around or, outside of routines, left
to the environment. -/
theorem undeclared_warnings_exact {renderer : Renderer} {settings : Settings}
    {program : List Block} {p : Program} {session : Session}
    (h : traceProgram renderer settings program = (.ok p, session)) :
    (∀ start : Session, start.diagnostics = [] → ∀ earlier later : List Run,
      (start.afterRuns earlier).diagnostics <+: (start.afterRuns (earlier ++ later)).diagnostics ∧
      ∃ names, (start.afterRuns earlier).WarnsOf names) ∧
    ∃ (codes : List Code) (names : List Name),
      p.lines = Code.allLines settings.names.support 0 codes ∧
      List.Forall₂ (fun b c => ∃ v locals, ProgramVisits renderer settings program [] v ∧
          v.block = b ∧ v.Materialises (.caseless renderer) locals c)
        (program.filter (·.isRoutine)) (codes.filter (·.isMethod)) ∧
      p.diagnostics = names.map Name.warning ∧ names.Nodup ∧
      (∀ n, n ∈ names ↔
        (n ∈ p.environment ∧ caselessNaming n ∉ settings.environmentNames.map caselessNaming) ∨
        (∃ around v locals method, ProgramVisits renderer settings program around v ∧
          v.Materialises (.caseless renderer) locals method ∧ n ∈ locals) ∨
        ∃ around v, ProgramVisits renderer settings program around v ∧
          v.Targets (.caseless renderer) n) ∧
      ∀ around v n, ProgramVisits renderer settings program around v →
        v.Targets (.caseless renderer) n →
        (∃ w ∈ around, ∃ locals method, w.Materialises (.caseless renderer) locals method ∧
          caselessNaming n ∈ locals.map caselessNaming) ∨
        (∀ w ∈ around, w.block.isRoutine = false) ∧
          caselessNaming n ∈ p.environment.map caselessNaming := by
  refine ⟨fun start hstart earlier later => ⟨?_, ?_⟩, ?_⟩
  · have hsteps := steps_afterRuns (start.afterRuns earlier) later
    rw [Session.afterRuns, Session.afterRuns, List.foldl_append]
    exact (Session.grows_of_steps hsteps).diagnostics
  · have hnothing : start.WarnsOf [] := ⟨hstart, List.nodup_nil⟩
    exact Session.warnsOf_of_steps (steps_afterRuns start earlier) hnothing
  · obtain ⟨out, hout, rfl⟩ := gives_of_traceProgram h
    have hnaming : (Setup.caseless renderer).naming = caselessNaming := by rw [Setup.caseless]
    obtain ⟨names, hwarns, hnames⟩ := warnsOf_outermost hout
    have hmethods := methods_outermost hout
    refine ⟨out.statements, names, rfl, hmethods, hwarns.diagnostics, hwarns.nodup, ?_, ?_⟩
    · rwa [hnaming] at hnames
    · intro around v n hv hn
      have htargets := targets_outermost hout hv hn
      rwa [hnaming] at htargets

theorem undeclared_warnings_exact_with_in_sub :
    let renderer := plainRenderer caselessNaming
    let program : List Block := [
      .withTarget [Token.ofText "a" 0] [.statement [Token.ofText "b" 1]],
      .routine .sub ⟨"f", 2⟩ []
        [.withTarget [Token.ofText "c" 3] [.statement [Token.ofText "C" 4]]]]
    ∃ p session, traceProgram renderer {} program = (.ok p, session) ∧
      p.diagnostics = [⟨"a", 0⟩, ⟨"c", 3⟩, ⟨"C", 4⟩, ⟨"b", 1⟩].map Name.warning ∧
      ∃ names : List Name, p.diagnostics = names.map Name.warning ∧ names.Nodup ∧
        ∀ n, n ∈ names ↔
          (n ∈ p.environment ∧ caselessNaming n ∉ [Name.mk "wscript" 0].map caselessNaming) ∨
          (∃ around v locals method, ProgramVisits renderer {} program around v ∧
            v.Materialises (.caseless renderer) locals method ∧ n ∈ locals) ∨
          ∃ around v, ProgramVisits renderer {} program around v ∧
            v.Targets (.caseless renderer) n := by
  intro renderer program
  have hok : (compileProgram renderer {} program).isOk = true := by decide +kernel
  have hdiagnostics : (traceProgram renderer {} program).2.diagnostics =
      [⟨"a", 0⟩, ⟨"c", 3⟩, ⟨"C", 4⟩, ⟨"b", 1⟩].map Name.warning := by decide +kernel
  obtain ⟨p, session, h⟩ := exists_traceProgram hok
  obtain ⟨-, codes, names, -, -, hnames, hnodup, hexact, -⟩ := undeclared_warnings_exact h
  refine ⟨p, session, h, ?_, names, hnames, hnodup, hexact⟩
  obtain ⟨out, -, rfl⟩ := gives_of_traceProgram h
  rw [h] at hdiagnostics
  exact hdiagnostics

end VbsCompiler
