import VbsCompiler.Proofs.Acceptance

/-! Flags of loops and the exits that raise them. Whether a loop gets a flag is found by a search
through its body before that is compiled; which flag an exit raises is found by looking outwards
from the exit. The two agree wherever a compilation gets, also if it fails later on. -/

namespace VbsCompiler

open CompileM Block

namespace Block

def loopKind? : Block → Option LoopKind
  | .doLoop .. => some .doLoop
  | .forLoop .. => some .forLoop
  | _ => none

def Passes (kind : LoopKind) (b : Block) : Prop :=
  b.loopKind? ≠ some kind ∧ b.isRoutine = false

end Block

theorem Block.passes_of_loopKind? {b : Block} {kind other : LoopKind}
    (hb : b.loopKind? = some other) (hother : other ≠ kind) : b.Passes kind := by
  refine ⟨?_, ?_⟩
  · rw [hb]
    simpa using hother
  · cases b <;> first | rfl | cases hb

/-- A block that a compilation comes to, with the scope and the session it is compiled in. -/
structure Visit where
  scope : Scope
  session : Session
  block : Block

inductive Visit.Loops (setup : Setup) : Visit → LoopFrame → Session → Prop where
  | doLoop {scope : Scope} {s u t : Session} {test : Option LoopTest} {body : List Block}
      {head : LoopHead} {names : List Name} {flag : Option Ident} :
      Gives (compileLoopTest setup test scope) s (head, names) u →
      Gives (loopFlag setup .doLoop body scope) u flag t →
      Loops setup ⟨scope, s, .doLoop test body⟩ ⟨.doLoop, flag⟩ t
  | forLoop {scope : Scope} {s u v w t : Session} {counter : Name} {first last : TokenRun}
      {step : Option TokenRun} {body : List Block} {head : ForHead} {lastName stepName : Ident}
      {flag : Option Ident} :
      Gives (renderForHead setup counter first last step scope) s head u →
      Gives (freshTemporary setup.naming "loopEnd" scope) u lastName v →
      Gives (freshTemporary setup.naming "loopStep" scope) v stepName w →
      Gives (loopFlag setup .forLoop body scope) w flag t →
      Loops setup ⟨scope, s, .forLoop counter first last step body⟩ ⟨.forLoop, flag⟩ t

/-- Compiling the block comes to compiling the blocks in the scope from the session. -/
inductive Visit.Enters (setup : Setup) : Visit → Scope → Session → List Block → Prop where
  | loop {v : Visit} {frame : LoopFrame} {t : Session} : v.Loops setup frame t →
      Enters setup v (v.scope.insideLoop frame) t v.block.children
  | withTarget {scope : Scope} {s t : Session} {target : TokenRun} {body : List Block}
      {line : Nat} {r : Rendering} {name : Ident} : target.firstLine = some line →
      setup.renderer .reference target scope = .ok r →
      Gives (freshTemporary setup.naming "with" scope)
        ((r.undeclared setup.naming scope).foldl Session.reported
          (s.called [⟨.reference, target, scope, .ok r⟩])) name t →
      Enters setup ⟨scope, s, .withTarget target body⟩ (scope.insideWith ⟨name, line⟩) t body
  | routine {scope : Scope} {s u t : Session} {kind : RoutineKind} {name : Name}
      {parameters : List Parameter} {body : List Block} {slot token : Option Ident}
      {hoisted : Hoisted} : scope.enclosure = .outermost →
      checkParameters setup.naming [] parameters = .ok () → body ≠ [] →
      Gives (returnSlot setup kind scope) s slot u →
      hoist setup.naming (scope.insideRoutine kind name slot parameters) body = .ok hoisted →
      Gives (levelToken setup body
        ((scope.insideRoutine kind name slot parameters).declare hoisted)) u token t →
      Enters setup ⟨scope, s, .routine kind name parameters body⟩
        (((scope.insideRoutine kind name slot parameters).declare hoisted).trappedBy token) t
        (framed body)
  | behindFrame {scope inner : Scope} {s t u : Session} {kind : RoutineKind} {name : Name}
      {parameters : List Parameter} {body : List Block} {out : Output Code} :
      Enters setup ⟨scope, s, .routine kind name parameters body⟩ inner t (framed body) →
      Gives (compileBlocks setup .all inner (framed body)) t out u →
      Enters setup ⟨scope, s, .routine kind name parameters body⟩ inner u (unframed body)

/-- Compiling the blocks in the scope from the session comes to the visit, inside the visits
`around`, the nearest first. What stands before it is compiled already. -/
inductive Visits (setup : Setup) : Scope → Session → List Block → List Visit → Visit → Prop where
  | head {scope : Scope} {s : Session} {b : Block} {rest : List Block} :
      Visits setup scope s (b :: rest) [] ⟨scope, s, b⟩
  | tail {scope : Scope} {s t : Session} {b : Block} {rest : List Block} {out : Output Code}
      {around : List Visit} {v : Visit} : Gives (compileBlock setup scope b) s out t →
      Visits setup scope t rest around v → Visits setup scope s (b :: rest) around v
  | inside {scope inner : Scope} {s t : Session} {b : Block} {rest blocks : List Block}
      {around : List Visit} {v : Visit} : Visit.Enters setup ⟨scope, s, b⟩ inner t blocks →
      Visits setup inner t blocks around v →
      Visits setup scope s (b :: rest) (around ++ [⟨scope, s, b⟩]) v

/-- The visited block is an exit from a loop of the kind, compiled to raising the flag and leaving
the nearest loop. -/
def Visit.Raises (setup : Setup) (v : Visit) (kind : LoopKind) (flag : Ident) : Prop :=
  ∃ line, v.block = .exit (.loop kind) line ∧
    Gives (compileBlock setup v.scope v.block) v.session
      (.ofStatements [.raise line flag, .leave line]) v.session

section Frames

variable {setup : Setup}

inductive Framed (setup : Setup) : List Visit → List LoopFrame → Prop where
  | nil : Framed setup [] []
  | loop {v : Visit} {frame : LoopFrame} {t : Session} {around : List Visit}
      {frames : List LoopFrame} : v.Loops setup frame t → Framed setup around frames →
      Framed setup (v :: around) (frame :: frames)
  | passed {v : Visit} {around : List Visit} {frames : List LoopFrame} :
      (∀ kind, v.block.Passes kind) → Framed setup around frames → Framed setup (v :: around) frames
  | routine {v : Visit} {around : List Visit} : v.block.isRoutine = true →
      Framed setup (v :: around) []

theorem Visit.Loops.loopKind? {v : Visit} {frame : LoopFrame} {t : Session}
    (h : v.Loops setup frame t) : v.block.loopKind? = some frame.kind := by
  cases h <;> rfl

theorem trappedBy_declare_loops (scope : Scope) (hoisted : Hoisted) (token : Option Ident) :
    ((scope.declare hoisted).trappedBy token).loops = scope.loops := by
  cases token <;> rfl

theorem Visit.Enters.framed {v : Visit} {inner : Scope} {t : Session} {blocks : List Block}
    (h : v.Enters setup inner t blocks) {around : List Visit}
    (haround : Framed setup around v.scope.loops) : Framed setup (v :: around) inner.loops := by
  induction h with
  | loop hloops => exact .loop hloops haround
  | withTarget => exact .passed (fun kind => ⟨by simp [Block.loopKind?], rfl⟩) haround
  | routine =>
    rw [trappedBy_declare_loops]
    exact .routine rfl
  | behindFrame _ _ ih => exact ih haround

theorem Visits.framed {scope : Scope} {s : Session} {blocks : List Block} {inside : List Visit}
    {v : Visit} (h : Visits setup scope s blocks inside v) {around : List Visit}
    (haround : Framed setup around scope.loops) :
    Framed setup (inside ++ around) v.scope.loops := by
  induction h generalizing around with
  | head => exact haround
  | tail _ _ ih => exact ih haround
  | inside henters _ ih =>
    rw [List.append_assoc]
    exact ih (henters.framed haround)

/-- The frame that is found for a kind is that of the nearest loop of the kind. -/
theorem Framed.nearest {around : List Visit} {frames : List LoopFrame}
    (h : Framed setup around frames) {kind : LoopKind} {frame : LoopFrame}
    (hfind : frames.find? (·.kind = kind) = some frame) :
    ∃ nearer v further t, around = nearer ++ v :: further ∧ v.Loops setup frame t ∧
      frame.kind = kind ∧ ∀ u ∈ nearer, u.block.Passes kind := by
  induction h with
  | nil => cases hfind
  | @loop v first t around frames hloops _ ih =>
    by_cases hk : first.kind = kind
    · rw [List.find?_cons_of_pos (by simpa using hk)] at hfind
      obtain rfl := Option.some.inj hfind
      exact ⟨[], v, around, t, rfl, hloops, hk, by simp⟩
    · rw [List.find?_cons_of_neg (by simpa using hk)] at hfind
      obtain ⟨nearer, w, further, u, rfl, hw, hkind, hnearer⟩ := ih hfind
      have hpasses := passes_of_loopKind? hloops.loopKind? hk
      exact ⟨v :: nearer, w, further, u, rfl, hw, hkind,
        List.forall_mem_cons.mpr ⟨hpasses, hnearer⟩⟩
  | @passed v around frames hpasses _ ih =>
    obtain ⟨nearer, w, further, u, rfl, hw, hkind, hnearer⟩ := ih hfind
    exact ⟨v :: nearer, w, further, u, rfl, hw, hkind,
      List.forall_mem_cons.mpr ⟨hpasses kind, hnearer⟩⟩
  | routine => cases hfind

/-- Visits that the search for a loop passes by do not change what it finds. -/
theorem Visits.find?_eq {scope : Scope} {s : Session} {blocks : List Block} {around : List Visit}
    {v : Visit} (h : Visits setup scope s blocks around v) {kind : LoopKind}
    (haround : ∀ u ∈ around, u.block.Passes kind) :
    v.scope.loops.find? (·.kind = kind) = scope.loops.find? (·.kind = kind) := by
  induction h with
  | head => rfl
  | tail _ _ ih => exact ih haround
  | @inside scope inner s t b rest blocks around v henters _ ih =>
    obtain ⟨hinside, hb⟩ := List.forall_mem_append.mp haround
    obtain ⟨hkind, hroutine⟩ : b.Passes kind := hb _ (List.mem_singleton.mpr rfl)
    rw [ih hinside]
    cases henters with
    | loop hloops =>
      rw [hloops.loopKind?] at hkind
      exact List.find?_cons_of_neg (by simpa using hkind)
    | withTarget => rfl
    | routine | behindFrame => cases hroutine

theorem Visits.of_mem {scope : Scope} {s t : Session} {blocks : List Block} {out : Output Code}
    (h : Gives (compileBlocks setup .all scope blocks) s out t) {b : Block} (hb : b ∈ blocks) :
    ∃ u here w, Gives (compileBlock setup scope b) u here w ∧
      ∀ {around v}, Visits setup scope u [b] around v → Visits setup scope s blocks around v := by
  induction blocks generalizing s out with
  | nil => cases hb
  | cons c rest ih =>
    obtain ⟨here, u, later, hhere, hlater, rfl⟩ := gives_compileBlocks_cons.mp h
    rcases List.mem_cons.mp hb with rfl | hrest
    · refine ⟨s, here, u, hhere, fun hv => ?_⟩
      cases hv with
      | head => exact .head
      | tail _ hnone => cases hnone
      | inside henters hinside => exact .inside henters hinside
    · obtain ⟨u', here', w, hgives, hvisits⟩ := ih hlater hrest
      exact ⟨u', here', w, hgives, fun hv => .tail hhere (hvisits hv)⟩

theorem loops_of_gives {v : Visit} {kind : LoopKind} (hkind : v.block.loopKind? = some kind)
    {out : Output Code} {t : Session}
    (h : Gives (compileBlock setup v.scope v.block) v.session out t) :
    ∃ flag u inner, v.Loops setup ⟨kind, flag⟩ u ∧
      Gives (compileBlocks setup .all (v.scope.insideLoop ⟨kind, flag⟩) v.block.children) u
        inner t ∧
      (∃ before head codes after, out.statements = before ++ .loop head flag codes :: after) ∧
      flag.isSome = needsFlag kind v.block.children := by
  obtain ⟨scope, s, b⟩ := v
  have hneeds : ∀ {kind : LoopKind} {body : List Block} {s t : Session} {flag : Option Ident},
      Gives (loopFlag setup kind body scope) s flag t → flag.isSome = needsFlag kind body := by
    intro kind body s t flag hflag
    obtain ⟨hneeds, rfl, -⟩ | ⟨hneeds, id, rfl, -⟩ := gives_loopFlag hflag <;> rw [hneeds] <;> rfl
  cases b with
  | doLoop test body =>
    obtain rfl := Option.some.inj hkind
    obtain ⟨head, names, u, flag, w, inner, hhead, hflag, hinner, rfl⟩ := gives_doLoop h
    exact ⟨flag, w, inner, .doLoop hhead hflag, hinner,
      ⟨[], head, inner.statements, flagChecks scope, rfl⟩, hneeds hflag⟩
  | forLoop counter first last step body =>
    obtain rfl := Option.some.inj hkind
    simp only [compileBlock, gives_bind, gives_pure] at h
    obtain ⟨head, _, hhead, lastName, u, hlast, stepName, v, hstep, flag, w, hflag, inner, _,
      hinner, rfl, rfl⟩ := h
    exact ⟨flag, w, inner, .forLoop hhead hlast hstep hflag, hinner,
      ⟨[_, _], _, inner.statements, flagChecks scope, rfl⟩, hneeds hflag⟩
  | withTarget | exit | routine | consts | dim | redim | onError | statement => cases hkind

theorem Visits.trans {scope inner : Scope} {s t : Session} {blocks more : List Block}
    {around inside : List Visit} {v w : Visit} (h : Visits setup scope s blocks around v)
    (henters : v.Enters setup inner t more) (hinside : Visits setup inner t more inside w) :
    Visits setup scope s blocks (inside ++ v :: around) w := by
  induction h with
  | head => exact .inside henters hinside
  | tail hgives _ ih => exact .tail hgives (ih henters)
  | inside henters' _ ih => simpa using Visits.inside henters' (ih henters)

theorem enters_child {scope : Scope} {s t : Session} {b c : Block} {out : Output Code}
    (h : Gives (compileBlock setup scope b) s out t) (hc : c ∈ b.children) :
    ∃ inner u blocks innerOut w, Visit.Enters setup ⟨scope, s, b⟩ inner u blocks ∧ c ∈ blocks ∧
      Gives (compileBlocks setup .all inner blocks) u innerOut w := by
  have hloop : ∀ {kind}, b.loopKind? = some kind → ∃ inner u blocks innerOut w,
      Visit.Enters setup ⟨scope, s, b⟩ inner u blocks ∧ c ∈ blocks ∧
        Gives (compileBlocks setup .all inner blocks) u innerOut w := by
    intro kind hkind
    obtain ⟨flag, u, inner, hloops, hinner, -⟩ := loops_of_gives (v := ⟨scope, s, b⟩) hkind h
    exact ⟨_, u, _, inner, t, .loop hloops, hc, hinner⟩
  cases b with
  | doLoop | forLoop => exact hloop rfl
  | withTarget target body =>
    obtain ⟨line, r, name, u, inner, hline, hr, hname, hinner, -⟩ := gives_withTarget h
    exact ⟨_, u, body, inner, t, .withTarget hline hr hname, hc, hinner⟩
  | routine kind name parameters body =>
    obtain ⟨hplace, hparameters, ⟨rfl, -, -⟩ | ⟨hbody, slot, u, level, v, hslot, hlevel, -⟩⟩ :=
      gives_routine h
    · cases hc
    · obtain ⟨hoisted, token, w, first, x, behind, hhoist, htoken, hfirst, hbehind, -⟩ :=
        gives_level hlevel
      have henters := Visit.Enters.routine hplace hparameters hbody hslot hhoist htoken
      have hsplit : ∀ d ∈ body, d ∈ framed body ∨ d ∈ unframed body :=
        (forall_framed_and_unframed body).mp ⟨fun _ => .inl, fun _ => .inr⟩
      rcases hsplit c hc with hframed | hunframed
      · exact ⟨_, w, _, first, x, henters, hframed, hfirst⟩
      · exact ⟨_, x, _, behind, v, .behindFrame henters hfirst, hunframed, hbehind⟩
  | exit | consts | dim | redim | onError | statement => cases hc

/-- A compilation that succeeds comes to every block. -/
theorem Visits.of_occurs {scope : Scope} {s t : Session} {blocks : List Block} {out : Output Code}
    (h : Gives (compileBlocks setup .all scope blocks) s out t) {path : List Block} {b : Block}
    (hb : Occurs blocks path b) :
    ∃ around v, Visits setup scope s blocks around v ∧ v.block = b ∧
      around.map (·.block) = path ∧
      ∃ here u, Gives (compileBlock setup v.scope v.block) v.session here u := by
  induction hb with
  | top hb =>
    obtain ⟨u, here, w, hgives, hvisits⟩ := Visits.of_mem h hb
    exact ⟨[], ⟨scope, u, _⟩, hvisits .head, rfl, rfl, here, w, hgives⟩
  | inside _ hc ih =>
    obtain ⟨around, ⟨_, _, _⟩, hv, rfl, rfl, here, u, hgives⟩ := ih
    obtain ⟨inner, w, more, innerOut, x, henters, hmem, hinner⟩ := enters_child hgives hc
    obtain ⟨y, there, z, hchild, hvisits⟩ := Visits.of_mem hinner hmem
    exact ⟨_, ⟨inner, y, _⟩, hv.trans henters (hvisits .head), rfl, rfl, there, z, hchild⟩

theorem exit_of_raise {exitKind : ExitKind} {line origin : Nat} {f : Ident} {scope : Scope}
    {s t : Session} {out : Output Code}
    (h : Gives (compileBlock setup scope (.exit exitKind line)) s out t)
    (hmem : .raise origin f ∈ out.statements) :
    ∃ kind target, exitKind = .loop kind ∧ scope.loops.find? (·.kind = kind) = some target ∧
      target.flag = some f ∧ t = s ∧ out = .ofStatements [.raise line f, .leave line] := by
  rw [compileBlock] at h
  obtain ⟨rfl, ⟨kind, codes, rfl, hcodes, rfl⟩ | ⟨-, -, rfl⟩⟩ := gives_exit h
  · obtain ⟨target, htarget, ⟨-, rfl⟩ | ⟨g, hg, rfl⟩⟩ := compileLoopExit_ok hcodes
    · simp [Output.ofStatements] at hmem
    · obtain ⟨-, rfl⟩ : origin = line ∧ f = g := by simpa [Output.ofStatements] using hmem
      exact ⟨kind, target, rfl, htarget, hg, rfl, rfl⟩
  · simp [Output.ofStatements] at hmem

theorem loopExit_raises {kind : LoopKind} {line : Nat} {scope : Scope} {s t : Session}
    {out : Output Code} {target : LoopFrame}
    (h : Gives (compileBlock setup scope (.exit (.loop kind) line)) s out t)
    (htarget : scope.loops.find? (·.kind = kind) = some target)
    (hother : scope.loops.head?.any (·.kind ≠ kind) = true) :
    ∃ f, target.flag = some f ∧ t = s ∧ out = .ofStatements [.raise line f, .leave line] := by
  rw [compileBlock] at h
  obtain ⟨rfl, ⟨loopKind, codes, ⟨⟩, hcodes, rfl⟩ | ⟨hnot, -⟩⟩ := gives_exit h
  · obtain ⟨found, hfound, ⟨hhead, -⟩ | ⟨f, hf, rfl⟩⟩ := compileLoopExit_ok hcodes
    · have hkind : found.kind = kind := by simpa using List.find?_some hfound
      rw [hhead] at hother
      simp [hkind] at hother
    · obtain rfl := Option.some.inj (htarget.symm.trans hfound)
      exact ⟨f, hf, rfl, rfl⟩
  · exact absurd rfl (hnot kind)

def FindsRaised (setup : Setup) (b : Block) : Prop :=
  ∀ {scope : Scope} {s t : Session} {out : Output Code} {kind : LoopKind} {target : LoopFrame},
    Gives (compileBlock setup scope b) s out t →
    scope.loops.find? (·.kind = kind) = some target →
    b.exitsThrough kind (scope.loops.head?.any (·.kind ≠ kind)) = true →
    ∃ f around v, target.flag = some f ∧ Visits setup scope s [b] around v ∧
      v.Raises setup kind f ∧ ∀ u ∈ around, u.block.Passes kind

theorem findsRaised_body {body : List Block} (ih : ∀ c ∈ body, FindsRaised setup c) {scope : Scope}
    {s t : Session} {out : Output Code} {kind : LoopKind} {target : LoopFrame}
    (h : Gives (compileBlocks setup .all scope body) s out t)
    (htarget : scope.loops.find? (·.kind = kind) = some target)
    (hexits : anyExitsThrough kind (scope.loops.head?.any (·.kind ≠ kind)) body = true) :
    ∃ f around v, target.flag = some f ∧ Visits setup scope s body around v ∧
      v.Raises setup kind f ∧ ∀ u ∈ around, u.block.Passes kind := by
  rw [anyExitsThrough_eq_any, List.any_eq_true] at hexits
  obtain ⟨c, hc, hexit⟩ := hexits
  obtain ⟨u, here, w, hgives, hvisits⟩ := Visits.of_mem h hc
  obtain ⟨f, around, v, hf, hv, hraises, hpasses⟩ := ih c hc hgives htarget hexit
  exact ⟨f, around, v, hf, hvisits hv, hraises, hpasses⟩

theorem findsRaised_loop {b : Block} {other : LoopKind} (hb : b.loopKind? = some other)
    (hsearch : ∀ kind inOther, b.exitsThrough kind inOther = true →
      kind ≠ other ∧ anyExitsThrough kind true b.children = true)
    (ih : ∀ c ∈ b.children, FindsRaised setup c) : FindsRaised setup b := by
  intro scope s t out kind target h htarget hexits
  obtain ⟨hother, hany⟩ := hsearch kind _ hexits
  obtain ⟨flag, u, inner, hloops, hinner, -⟩ :=
    loops_of_gives (v := ⟨scope, s, b⟩) hb h
  have hfind : (scope.insideLoop ⟨other, flag⟩).loops.find? (·.kind = kind) = some target := by
    rw [Scope.insideLoop, List.find?_cons_of_neg (by simpa using Ne.symm hother)]
    exact htarget
  obtain ⟨f, around, v, hf, hv, hraises, hpasses⟩ := findsRaised_body ih hinner hfind
    (by simpa [Scope.insideLoop, Ne.symm hother] using hany)
  refine ⟨f, _, v, hf, .inside (.loop hloops) hv, hraises,
    List.forall_mem_append.mpr ⟨hpasses, ?_⟩⟩
  simpa using passes_of_loopKind? hb (Ne.symm hother)

theorem findsRaised (b : Block) : FindsRaised setup b := by
  induction b using Block.nested_induction with
  | step b ih =>
    cases b with
    | doLoop test body =>
      refine findsRaised_loop rfl (fun kind inOther hexits => ?_) ih
      simpa [exitsThrough, children] using hexits
    | forLoop counter first last step body =>
      refine findsRaised_loop rfl (fun kind inOther hexits => ?_) ih
      simpa [exitsThrough, children] using hexits
    | withTarget target body =>
      intro scope s t out kind frame h htarget hexits
      obtain ⟨line, r, name, u, inner, hline, hr, hname, hinner, rfl⟩ := gives_withTarget h
      have hfind : (scope.insideWith ⟨name, line⟩).loops.find? (·.kind = kind) = some frame :=
        htarget
      obtain ⟨f, around, v, hf, hv, hraises, hpasses⟩ := findsRaised_body ih hinner hfind hexits
      refine ⟨f, _, v, hf, .inside (.withTarget hline hr hname) hv, hraises,
        List.forall_mem_append.mpr ⟨hpasses, ?_⟩⟩
      simp [Passes, Block.loopKind?, Block.isRoutine]
    | exit exitKind line =>
      intro scope s t out kind frame h htarget hexits
      simp only [exitsThrough, Bool.and_eq_true, decide_eq_true_eq] at hexits
      obtain ⟨rfl, hother⟩ := hexits
      obtain ⟨f, hf, rfl, rfl⟩ := loopExit_raises h htarget hother
      exact ⟨f, [], ⟨scope, _, _⟩, hf, .head, ⟨line, rfl, h⟩, by simp⟩
    | routine | consts | dim | redim | onError | statement =>
      intro scope s t out kind frame h htarget hexits
      simp [exitsThrough] at hexits

end Frames

def CompileM.FindsFlags {α : Type} (setup : Setup) (x : CompileM α) : Prop :=
  ∀ s kind line t, x.outcome s = (.error (.flaglessExit kind line), t) →
    ∃ demand run scope, setup.renderer demand run scope = .error (.flaglessExit kind line)

section Failures

variable {α β : Type} {setup : Setup}

theorem findsFlags_of_gives {x : CompileM α} (h : ∀ s, ∃ a t, Gives x s a t) :
    FindsFlags setup x := by
  intro s kind line t hfails
  obtain ⟨a, u, hgives⟩ := h s
  cases hfails.symm.trans hgives

theorem findsFlags_pure (a : α) : FindsFlags setup (pure a) :=
  findsFlags_of_gives fun s => ⟨a, s, rfl⟩

theorem findsFlags_freshTemporary (naming : Naming) (stem : String) (scope : Scope) :
    FindsFlags setup (freshTemporary naming stem scope) :=
  findsFlags_of_gives fun _ => ⟨_, _, rfl⟩

theorem findsFlags_forM_reportUndeclared (names : List Name) :
    FindsFlags setup (names.forM reportUndeclared) :=
  findsFlags_of_gives fun s => ⟨(), _, outcome_forM_reportUndeclared names s⟩

theorem findsFlags_ofExcept {r : Except CompileError α}
    (h : ∀ kind line, r ≠ .error (.flaglessExit kind line)) : FindsFlags setup (ofExcept r) := by
  intro s kind line t hfails
  rw [outcome_ofExcept] at hfails
  exact absurd (congrArg Prod.fst hfails) (h kind line)

theorem findsFlags_of_isStatic {r : Except CompileError α}
    (h : ∀ {e}, r = .error e → e.IsStatic) : FindsFlags setup (ofExcept r) := by
  refine findsFlags_ofExcept fun kind line hfails => ?_
  cases h hfails

theorem findsFlags_throw {e : CompileError} (h : ∀ kind line, e ≠ .flaglessExit kind line) :
    FindsFlags setup (throw e : CompileM α) := by
  intro s kind line t hfails
  cases hfails
  exact absurd rfl (h kind line)

theorem CompileM.FindsFlags.bind {x : CompileM α} {f : α → CompileM β} (hx : FindsFlags setup x)
    (hf : ∀ {s a t}, Gives x s a t → FindsFlags setup (f a)) : FindsFlags setup (x >>= f) := by
  intro s kind line t hfails
  rw [outcome_bind] at hfails
  split at hfails
  case h_1 a u hgives => exact hf hgives u kind line t hfails
  case h_2 e u herror =>
    cases hfails
    exact hx s kind line _ herror

theorem CompileM.FindsFlags.then_pure {x : CompileM α} {f : α → β} (hx : FindsFlags setup x) :
    FindsFlags setup (x >>= fun a => pure (f a)) :=
  hx.bind fun _ => findsFlags_pure _

theorem findsFlags_render (demand : Demand) (run : TokenRun) (scope : Scope) :
    FindsFlags setup (render setup demand run scope) := by
  intro s kind line t hfails
  cases hr : setup.renderer demand run scope with
  | ok r =>
    rw [render, hr] at hfails
    cases hfails
  | error e =>
    rw [render, hr] at hfails
    cases hfails
    exact ⟨demand, run, scope, hr⟩

theorem findsFlags_renderValues (scope : Scope) (runs : List TokenRun) :
    FindsFlags setup (renderValues setup scope runs) := by
  induction runs with
  | nil => exact findsFlags_pure _
  | cons run rest ih => exact (findsFlags_render _ _ _).bind fun _ => ih.then_pure

theorem findsFlags_const (item : ConstItem) (scope : Scope) :
    FindsFlags setup (compileConst setup item scope) :=
  (findsFlags_render _ _ _).bind fun _ => (findsFlags_render _ _ _).then_pure

theorem findsFlags_dim (item : DimItem) (scope : Scope) :
    FindsFlags setup (compileDim setup item scope) := by
  unfold compileDim
  split
  · exact findsFlags_pure _
  · exact (findsFlags_render _ _ _).bind fun _ => (findsFlags_renderValues _ _).then_pure

theorem findsFlags_redim (preserve : Bool) (item : RedimItem) (scope : Scope) :
    FindsFlags setup (compileRedim setup preserve item scope) := by
  refine (findsFlags_renderValues _ _).bind fun {s values t} _ => ?_
  obtain ⟨fragments, names⟩ := values
  dsimp only
  split
  · exact findsFlags_pure _
  · exact (findsFlags_render _ _ _).then_pure

theorem findsFlags_items {f : α → CompileM (Output Code)} (h : ∀ a, FindsFlags setup (f a))
    (items : List α) : FindsFlags setup (compileItems f items) := by
  induction items with
  | nil => exact findsFlags_pure _
  | cons a rest ih => exact (h a).bind fun _ => ih.then_pure

theorem findsFlags_loopTest (test : Option LoopTest) (scope : Scope) :
    FindsFlags setup (compileLoopTest setup test scope) := by
  cases test with
  | none => exact findsFlags_pure _
  | some test => exact (findsFlags_render _ _ _).then_pure

theorem findsFlags_forHead (counter : Name) (first last : TokenRun) (step : Option TokenRun)
    (scope : Scope) : FindsFlags setup (renderForHead setup counter first last step scope) := by
  refine (findsFlags_render _ _ _).bind fun _ => ?_
  refine (findsFlags_render _ _ _).bind fun _ => ?_
  refine (findsFlags_render _ _ _).bind fun _ => ?_
  cases step with
  | none => exact findsFlags_pure _
  | some run => exact (findsFlags_render _ _ _).then_pure

theorem findsFlags_loopFlag (kind : LoopKind) (body : List Block) (scope : Scope) :
    FindsFlags setup (loopFlag setup kind body scope) := by
  unfold loopFlag
  split
  · exact (findsFlags_freshTemporary _ _ _).then_pure
  · exact findsFlags_pure _

theorem findsFlags_levelToken (blocks : List Block) (scope : Scope) :
    FindsFlags setup (levelToken setup blocks scope) := by
  unfold levelToken
  split
  · exact (findsFlags_freshTemporary _ _ _).then_pure
  · exact findsFlags_pure _

theorem findsFlags_returnSlot (kind : RoutineKind) (scope : Scope) :
    FindsFlags setup (returnSlot setup kind scope) := by
  cases kind with
  | function => exact (findsFlags_freshTemporary _ _ _).then_pure
  | sub => exact findsFlags_pure _

theorem findsFlags_onError (mode : TrapMode) (line : Nat) (scope : Scope) :
    FindsFlags setup (compileOnError mode line scope) := by
  unfold compileOnError
  split
  · exact findsFlags_pure _
  · exact findsFlags_throw (by simp)

theorem compileLoopExit_flagless {kind : LoopKind} {line : Nat} {loops : List LoopFrame}
    {exitKind : ExitKind} {number : Nat}
    (h : compileLoopExit kind line loops = .error (.flaglessExit exitKind number)) :
    ∃ target, loops.find? (·.kind = kind) = some target ∧
      loops.head?.any (·.kind ≠ kind) = true ∧ target.flag = none := by
  cases loops with
  | nil => cases h
  | cons nearest outer =>
    by_cases hk : nearest.kind = kind
    · rw [compileLoopExit, if_pos hk] at h
      cases h
    · rw [compileLoopExit, if_neg hk] at h
      split at h
      case h_1 => cases h
      case h_2 target htarget =>
        split at h
        case h_1 => cases h
        case h_2 hnone =>
          refine ⟨target, ?_, by simpa using hk, hnone⟩
          rw [List.find?_cons_of_neg (by simpa using hk)]
          exact htarget

theorem findsFlags_exit {kind : ExitKind} {line : Nat} {scope : Scope}
    (h : scope.Flagged (.exit kind line)) : FindsFlags setup (compileExit kind line scope) := by
  cases kind with
  | loop kind =>
    refine (findsFlags_ofExcept fun exitKind number hfails => ?_).then_pure
    obtain ⟨target, htarget, hother, hnone⟩ := compileLoopExit_flagless hfails
    have hflag := h kind target htarget (by simpa [exitsThrough] using hother)
    rw [hnone] at hflag
    cases hflag
  | function | sub | property =>
    simp only [compileExit]
    split
    · exact findsFlags_pure _
    · exact findsFlags_throw (by simp)

theorem findsFlags_blocks {scope : Scope} {blocks : List Block}
    (h : ∀ b ∈ blocks, FindsFlags setup (compileBlock setup scope b)) :
    FindsFlags setup (compileBlocks setup .all scope blocks) := by
  induction blocks with
  | nil => exact findsFlags_pure _
  | cons b rest ih =>
    have hrest := ih fun c hc => h c (List.mem_cons_of_mem _ hc)
    exact (h b List.mem_cons_self).bind fun _ => hrest.then_pure

theorem findsFlags_level {scope : Scope} {blocks : List Block} (hscope : scope.loops = [])
    (h : ∀ b ∈ blocks, ∀ {scope : Scope}, scope.Flagged b →
      FindsFlags setup (compileBlock setup scope b)) :
    FindsFlags setup (compileLevel setup blocks scope fun selection s =>
      compileBlocks setup selection s blocks) := by
  rw [compileLevel_eq]
  have hhoist : FindsFlags setup (ofExcept (hoist setup.naming scope blocks)) :=
    findsFlags_of_isStatic isStatic_of_hoistEvents
  refine hhoist.bind fun {_ hoisted _} _ => ?_
  refine (findsFlags_levelToken _ _).bind fun {_ token _} _ => ?_
  have hblocks : ∀ b ∈ blocks,
      FindsFlags setup (compileBlock setup ((scope.declare hoisted).trappedBy token) b) := by
    intro b hb
    refine h b hb (flagged_of_no_loops ?_ b)
    rw [trappedBy_declare_loops, hscope]
  refine (findsFlags_blocks fun b hb => hblocks b (mem_of_mem_framed hb)).bind fun _ => ?_
  exact (findsFlags_blocks fun b hb => hblocks b (mem_of_mem_unframed hb)).then_pure

theorem isSome_of_loopFlag {scope : Scope} {kind : LoopKind} {body : List Block} {s t : Session}
    {flag : Option Ident} (hflag : Gives (loopFlag setup kind body scope) s flag t)
    (hneeds : needsFlag kind body = true) : flag.isSome := by
  obtain ⟨hnot, -, -⟩ | ⟨-, id, rfl, -⟩ := gives_loopFlag hflag
  · rw [hnot] at hneeds
    cases hneeds
  · rfl

section Compound

variable {scope : Scope} {body : List Block}
  (ih : ∀ c ∈ body, ∀ {scope : Scope}, scope.Flagged c →
    FindsFlags setup (compileBlock setup scope c))
include ih

theorem findsFlags_doLoop {test : Option LoopTest} (hflagged : scope.Flagged (.doLoop test body)) :
    FindsFlags setup (compileBlock setup scope (.doLoop test body)) := by
  rw [compileBlock]
  refine (findsFlags_loopTest test scope).bind fun {_ result _} _ => ?_
  obtain ⟨head, names⟩ := result
  refine (findsFlags_loopFlag .doLoop body scope).bind fun hflag => ?_
  refine (findsFlags_blocks fun c hc => ih c hc ?_).then_pure
  exact hflagged.insideDo (isSome_of_loopFlag hflag) hc

theorem findsFlags_forLoop {counter : Name} {first last : TokenRun} {step : Option TokenRun}
    (hflagged : scope.Flagged (.forLoop counter first last step body)) :
    FindsFlags setup (compileBlock setup scope (.forLoop counter first last step body)) := by
  rw [compileBlock]
  refine (findsFlags_forHead counter first last step scope).bind fun _ => ?_
  refine (findsFlags_freshTemporary _ _ _).bind fun _ => ?_
  refine (findsFlags_freshTemporary _ _ _).bind fun _ => ?_
  refine (findsFlags_loopFlag .forLoop body scope).bind fun hflag => ?_
  refine (findsFlags_blocks fun c hc => ih c hc ?_).then_pure
  exact hflagged.insideFor (isSome_of_loopFlag hflag) hc

theorem findsFlags_withTarget {target : TokenRun}
    (hflagged : scope.Flagged (.withTarget target body)) :
    FindsFlags setup (compileBlock setup scope (.withTarget target body)) := by
  rw [compileBlock]
  split
  · exact findsFlags_throw (by simp)
  · refine (findsFlags_render _ _ _).bind fun _ => ?_
    refine (findsFlags_forM_reportUndeclared _).bind fun _ => ?_
    refine (findsFlags_freshTemporary _ _ _).bind fun _ => ?_
    exact (findsFlags_blocks fun c hc => ih c hc (hflagged.insideWith _ hc)).then_pure

theorem findsFlags_routine (kind : RoutineKind) (name : Name) (parameters : List Parameter) :
    FindsFlags setup (compileBlock setup scope (.routine kind name parameters body)) := by
  rw [compileBlock]
  split
  · exact findsFlags_throw (by simp)
  · have hparameters : FindsFlags setup (ofExcept (checkParameters setup.naming [] parameters)) :=
      findsFlags_of_isStatic isStatic_of_checkParameters
    refine hparameters.bind fun _ => ?_
    split
    · exact findsFlags_pure _
    · refine (findsFlags_returnSlot kind scope).bind fun _ => ?_
      refine (findsFlags_level rfl ih).bind fun _ => ?_
      exact (findsFlags_forM_reportUndeclared _).then_pure

end Compound

/-- No exit fails for want of a flag if every loop left from inside another one has its flag. -/
theorem findsFlags_block {b : Block} {scope : Scope} (hflagged : scope.Flagged b) :
    FindsFlags setup (compileBlock setup scope b) := by
  induction b using Block.nested_induction generalizing scope with
  | step b ih =>
    cases b with
    | doLoop test body => exact findsFlags_doLoop ih hflagged
    | forLoop counter first last step body => exact findsFlags_forLoop ih hflagged
    | withTarget target body => exact findsFlags_withTarget ih hflagged
    | routine kind name parameters body => exact findsFlags_routine ih kind name parameters
    | exit kind line =>
      rw [compileBlock]
      exact findsFlags_exit hflagged
    | consts items =>
      rw [compileBlock]
      exact findsFlags_items (fun item => findsFlags_const item scope) items
    | dim items =>
      rw [compileBlock]
      exact findsFlags_items (fun item => findsFlags_dim item scope) items
    | redim preserve items =>
      rw [compileBlock]
      exact findsFlags_items (fun item => findsFlags_redim preserve item scope) items
    | onError mode line =>
      rw [compileBlock]
      exact findsFlags_onError mode line scope
    | statement run =>
      rw [compileBlock]
      exact (findsFlags_render _ _ _).then_pure

end Failures

theorem Visit.Loops.unique {setup : Setup} {v : Visit} {frame other : LoopFrame} {t u : Session}
    (h : v.Loops setup frame t) (h' : v.Loops setup other u) : frame = other ∧ t = u := by
  cases h with
  | doLoop hhead hflag =>
    cases h' with
    | doLoop hhead' hflag' =>
      cases hhead.symm.trans hhead'
      cases hflag.symm.trans hflag'
      exact ⟨rfl, rfl⟩
  | forLoop hhead hlast hstep hflag =>
    cases h' with
    | forLoop hhead' hlast' hstep' hflag' =>
      cases hhead.symm.trans hhead'
      cases hlast.symm.trans hlast'
      cases hstep.symm.trans hstep'
      cases hflag.symm.trans hflag'
      exact ⟨rfl, rfl⟩

/-- The loop, compiled to `out`, has a flag exactly if the search through its body asks for one, and
exactly if an exit inside that leads to this loop raises that flag. -/
def Visit.FlagAgrees (setup : Setup) (v : Visit) (kind : LoopKind) (out : Output Code) : Prop :=
  ∃ flag start, (∀ frame u, v.Loops setup frame u ↔ frame = ⟨kind, flag⟩ ∧ u = start) ∧
    (∃ before head codes after, out.statements = before ++ .loop head flag codes :: after) ∧
    flag.isSome = needsFlag kind v.block.children ∧
    ∀ f, flag = some f ↔ ∃ inside w,
      Visits setup (v.scope.insideLoop ⟨kind, flag⟩) start v.block.children inside w ∧
      w.Raises setup kind f ∧ ∀ u ∈ inside, u.block.Passes kind

/-- The flag is that of the nearest loop of the kind among the visits. -/
def NearestFlag (setup : Setup) (around : List Visit) (kind : LoopKind) (flag : Ident) : Prop :=
  ∃ nearer w further start, around = nearer ++ w :: further ∧
    w.Loops setup ⟨kind, some flag⟩ start ∧ ∀ u ∈ nearer, u.block.Passes kind

/-- The search through the body and the look-up from an exit agree on one loop. -/
theorem flagAgrees_of_gives {setup : Setup} {v : Visit} {kind : LoopKind} {out : Output Code}
    {t : Session} (hkind : v.block.loopKind? = some kind)
    (hgives : Gives (compileBlock setup v.scope v.block) v.session out t) :
    v.FlagAgrees setup kind out := by
  obtain ⟨flag, start, inner, hloops, hinner, hout, hneeds⟩ := loops_of_gives hkind hgives
  have hfind : (v.scope.insideLoop ⟨kind, flag⟩).loops.find? (·.kind = kind) =
      some ⟨kind, flag⟩ := by
    simp [Scope.insideLoop]
  refine ⟨flag, start, fun frame u => ?_, hout, hneeds, fun f => ⟨fun hflag => ?_, ?_⟩⟩
  · constructor
    · exact fun hother => hother.unique hloops
    · rintro ⟨rfl, rfl⟩
      exact hloops
  · rw [hflag] at hneeds
    obtain ⟨g, inside, w, hg, hw, hraises, hpasses⟩ :=
      findsRaised_body (fun c _ => findsRaised c) hinner hfind
        (by simpa [Scope.insideLoop, needsFlag] using hneeds.symm)
    obtain rfl : g = f := Option.some.inj (hg.symm.trans hflag)
    exact ⟨inside, w, hw, hraises, hpasses⟩
  · rintro ⟨inside, w, hw, ⟨line, hexit, hraised⟩, hpasses⟩
    rw [hexit] at hraised
    obtain ⟨other, target, hkind', htarget, hf, -⟩ := exit_of_raise hraised List.mem_cons_self
    obtain rfl : kind = other := ExitKind.loop.inj hkind'
    rw [(hw.find?_eq hpasses).trans hfind] at htarget
    rw [← Option.some.inj htarget] at hf
    exact hf

theorem nearestFlag_of_raise {setup : Setup} {scope : Scope} (hscope : scope.loops = [])
    {s t : Session} {blocks : List Block} {around : List Visit} {v : Visit}
    (hv : Visits setup scope s blocks around v) {exitKind : ExitKind} {line : Nat}
    (hexit : v.block = .exit exitKind line) {out : Output Code}
    (hgives : Gives (compileBlock setup v.scope v.block) v.session out t)
    {origin : Nat} {f : Ident} (hmem : .raise origin f ∈ out.statements) :
    ∃ kind, exitKind = .loop kind ∧ v.Raises setup kind f ∧ NearestFlag setup around kind f := by
  rw [hexit] at hgives
  obtain ⟨kind, target, rfl, htarget, hf, rfl, rfl⟩ := exit_of_raise hgives hmem
  have hframed : Framed setup (around ++ []) v.scope.loops := hv.framed (hscope ▸ Framed.nil)
  rw [List.append_nil] at hframed
  obtain ⟨nearer, w, further, start, haround, hloops, hkind, hnearer⟩ := hframed.nearest htarget
  have htarget' : target = ⟨kind, some f⟩ := by
    rw [← hkind, ← hf]
  exact ⟨kind, rfl, ⟨line, hexit, by rwa [hexit]⟩, nearer, w, further, start, haround,
    htarget' ▸ hloops, hnearer⟩

theorem findsFlags_outermost {setup : Setup} {scope : Scope} (hscope : scope.loops = [])
    (blocks : List Block) : FindsFlags setup (compileOutermost setup blocks scope) := by
  have hlevel : FindsFlags setup (compileLevel setup blocks scope fun selection s =>
      compileBlocks setup selection s blocks) :=
    findsFlags_level hscope fun _ _ _ hflagged => findsFlags_block hflagged
  exact hlevel.bind fun _ => (findsFlags_forM_reportUndeclared _).then_pure

/-- Wherever a compilation outside of loops gets, the flags of the loops that compile agree with the
exits in them, and an exit that raises a flag raises that of the nearest loop of its kind. A
compilation that succeeds gets to every block, and none fails because a loop has no flag. -/
theorem flags_agree_with_exits (setup : Setup) {scope : Scope} (hscope : scope.loops = [])
    (s : Session) (blocks : List Block) :
    (∀ around v, Visits setup scope s blocks around v → ∀ out t,
      Gives (compileBlock setup v.scope v.block) v.session out t →
      (∀ kind, v.block.loopKind? = some kind → v.FlagAgrees setup kind out) ∧
      ∀ exitKind line, v.block = .exit exitKind line → ∀ origin f,
        .raise origin f ∈ out.statements →
        ∃ kind, exitKind = .loop kind ∧ v.Raises setup kind f ∧ NearestFlag setup around kind f) ∧
    (∀ out t, Gives (compileBlocks setup .all scope blocks) s out t →
      ∀ path b, Occurs blocks path b → ∃ around v, Visits setup scope s blocks around v ∧
        v.block = b ∧ around.map (·.block) = path ∧
        ∃ here u, Gives (compileBlock setup v.scope v.block) v.session here u) ∧
    (∀ kind line t,
      (compileBlocks setup .all scope blocks).outcome s = (.error (.flaglessExit kind line), t) →
      ∃ demand run inner, setup.renderer demand run inner = .error (.flaglessExit kind line)) ∧
    ∀ kind line t,
      (compileOutermost setup blocks scope).outcome s = (.error (.flaglessExit kind line), t) →
      ∃ demand run inner, setup.renderer demand run inner = .error (.flaglessExit kind line) := by
  have hblocks : FindsFlags setup (compileBlocks setup .all scope blocks) :=
    findsFlags_blocks fun b _ => findsFlags_block (flagged_of_no_loops hscope b)
  refine ⟨fun around v hv out t hgives => ⟨fun kind hkind => ?_, ?_⟩,
    fun out t h path b hb => Visits.of_occurs h hb, hblocks s, findsFlags_outermost hscope blocks s⟩
  · exact flagAgrees_of_gives hkind hgives
  · intro exitKind line hexit origin f hmem
    exact nearestFlag_of_raise hscope hv hexit hgives hmem

theorem flags_agree_with_exits_exit_for_inside_do :
    let setup := Setup.caseless fun _ _ _ => .ok ⟨"x", []⟩
    let loop : Block := .forLoop ⟨"i", 0⟩ [] [] none [.doLoop none [.exit (.loop .forLoop) 2]]
    let v : Visit := ⟨{}, {}, loop⟩
    Visits setup {} {} [loop] [] v ∧
      ∃ start f inside w, v.Loops setup ⟨.forLoop, some f⟩ start ∧
        Visits setup (v.scope.insideLoop ⟨.forLoop, some f⟩) start loop.children inside w ∧
        w.Raises setup .forLoop f ∧ ∀ u ∈ inside, u.block.Passes .forLoop := by
  intro setup loop v
  have hok : ((compileBlock setup {} loop).outcome {}).1.isOk = true := by decide +kernel
  obtain ⟨out, t, hgives⟩ := exists_gives hok
  obtain ⟨flag, start, hloops, -, hneeds, hraised⟩ :=
    ((flags_agree_with_exits setup rfl {} [loop]).1 [] v .head out t hgives).1 .forLoop rfl
  have hsome : flag.isSome = true := hneeds
  obtain ⟨f, rfl⟩ := Option.isSome_iff_exists.mp hsome
  obtain ⟨inside, w, hw⟩ := (hraised f).mp rfl
  exact ⟨.head, start, f, inside, w, (hloops _ _).mpr ⟨rfl, rfl⟩, hw⟩

end VbsCompiler
