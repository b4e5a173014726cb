import VbsCompiler.Proofs.ExitFlags
import VbsCompiler.Proofs.Growth

/-! Where a compilation comes to. The visits of a list of blocks are those of its blocks, one after
the other; those of a routine are those of its body, first what stands inside its frame and then
what stands behind it. -/

namespace VbsCompiler

open CompileM Block

section Blocks

variable {setup : Setup} {scope : Scope} {s t u : Session} {b : Block} {rest : List Block}
  {out : Output Code}

theorem visits_cons (h : Gives (compileBlock setup scope b) s out u) {around : List Visit}
    {v : Visit} : Visits setup scope s (b :: rest) around v ↔
      Visits setup scope s [b] around v ∨ Visits setup scope u rest around v := by
  constructor
  · intro hv
    cases hv with
    | head => exact .inl .head
    | tail hgives hlater =>
      obtain ⟨-, rfl⟩ := hgives.unique h
      exact .inr hlater
    | inside henters hinside => exact .inl (.inside henters hinside)
  · rintro (hv | hlater)
    · cases hv with
      | head => exact .head
      | tail _ hnone => cases hnone
      | inside henters hinside => exact .inside henters hinside
    · exact .tail h hlater

theorem Visits.at_block {blocks : List Block} {around : List Visit} {v : Visit}
    (hv : Visits setup scope s blocks around v)
    (h : Gives (compileBlocks setup .all scope blocks) s out t) :
    ∃ b ∈ blocks, ∃ u here w, Gives (compileBlock setup scope b) u here w ∧
      Visits setup scope u [b] around v := by
  induction blocks generalizing s out with
  | nil => cases hv
  | cons b rest ih =>
    obtain ⟨here, u, later, hhere, hlater, -⟩ := gives_compileBlocks_cons.mp h
    rcases (visits_cons hhere).mp hv with hfirst | hrest
    · exact ⟨b, List.mem_cons_self, s, here, u, hhere, hfirst⟩
    · obtain ⟨c, hc, hgives⟩ := ih hrest hlater
      exact ⟨c, List.mem_cons_of_mem _ hc, hgives⟩

theorem Visit.Loops.diagnostics {v : Visit} {frame : LoopFrame} (h : v.Loops setup frame t) :
    t.diagnostics = v.session.diagnostics := by
  cases h with
  | doLoop hhead hflag =>
    exact ((quiet_loopFlag _ _ _ _).diagnostics hflag).trans
      ((quiet_loopTest _ _ _).diagnostics hhead)
  | forLoop hhead hlast hstep hflag =>
    exact ((quiet_loopFlag _ _ _ _).diagnostics hflag).trans <|
      ((quiet_freshTemporary _ (by decide) _).diagnostics hstep).trans <|
      ((quiet_freshTemporary _ (by decide) _).diagnostics hlast).trans <|
      (quiet_forHead _ _ _ _ _ _).diagnostics hhead

/-- Inside a block no routine can stand, and one that is entered stands at the top. -/
theorem Visit.Enters.enclosure {v : Visit} {inner : Scope} {blocks : List Block}
    (h : v.Enters setup inner t blocks) : inner.enclosure ≠ .outermost ∧
      (v.block.isRoutine = true → v.scope.enclosure = .outermost) := by
  induction h with
  | loop hloops =>
    refine ⟨insideLoop_ne_outermost _ _, fun hroutine => ?_⟩
    cases hloops <;> cases hroutine
  | withTarget => exact ⟨by simp [Scope.insideWith], fun hroutine => nomatch hroutine⟩
  | @routine _ _ _ _ kind _ _ _ _ token _ hplace =>
    refine ⟨?_, fun _ => hplace⟩
    cases token <;> cases kind <;>
      simp [Scope.trappedBy, Scope.insideTrap, Scope.declare, Scope.insideRoutine,
        Scope.insideBody, RoutineKind.owner]
  | behindFrame _ _ ih => exact ih

theorem Visits.no_routine {blocks : List Block} {around : List Visit} {v : Visit}
    (h : Visits setup scope s blocks around v) (hscope : scope.enclosure ≠ .outermost) :
    ∀ w ∈ around, w.block.isRoutine = false := by
  induction h with
  | head => simp
  | tail _ _ ih => exact ih hscope
  | inside henters _ ih =>
    obtain ⟨hinner, houter⟩ := henters.enclosure
    refine List.forall_mem_append.mpr ⟨ih hinner, ?_⟩
    simpa using fun hroutine => hscope (houter hroutine)

end Blocks

inductive LevelVisits (setup : Setup) (scope : Scope) (s : Session) (blocks : List Block) :
    List Visit → Visit → Prop where
  | framed {hoisted : Hoisted} {token : Option Ident} {u : Session} {around : List Visit}
      {v : Visit} : hoist setup.naming scope blocks = .ok hoisted →
      Gives (levelToken setup blocks (scope.declare hoisted)) s token u →
      Visits setup ((scope.declare hoisted).trappedBy token) u (framed blocks) around v →
      LevelVisits setup scope s blocks around v
  | unframed {hoisted : Hoisted} {token : Option Ident} {u w : Session} {inside : Output Code}
      {around : List Visit} {v : Visit} : hoist setup.naming scope blocks = .ok hoisted →
      Gives (levelToken setup blocks (scope.declare hoisted)) s token u →
      Gives (compileBlocks setup .all ((scope.declare hoisted).trappedBy token) (framed blocks)) u
        inside w →
      Visits setup ((scope.declare hoisted).trappedBy token) w (unframed blocks) around v →
      LevelVisits setup scope s blocks around v

section Level

variable {setup : Setup} {scope : Scope} {s t u w : Session} {around : List Visit} {v : Visit}

theorem levelVisits_iff {blocks : List Block} {hoisted : Hoisted} {token : Option Ident}
    {inside : Output Code} (hhoist : hoist setup.naming scope blocks = .ok hoisted)
    (htoken : Gives (levelToken setup blocks (scope.declare hoisted)) s token u)
    (hinside : Gives (compileBlocks setup .all ((scope.declare hoisted).trappedBy token)
      (framed blocks)) u inside w) :
    LevelVisits setup scope s blocks around v ↔
      Visits setup ((scope.declare hoisted).trappedBy token) u (framed blocks) around v ∨
      Visits setup ((scope.declare hoisted).trappedBy token) w (unframed blocks) around v := by
  constructor
  · intro h
    cases h with
    | framed hhoist' htoken' hv =>
      cases hhoist.symm.trans hhoist'
      obtain ⟨rfl, rfl⟩ := htoken.unique htoken'
      exact .inl hv
    | unframed hhoist' htoken' hinside' hv =>
      cases hhoist.symm.trans hhoist'
      obtain ⟨rfl, rfl⟩ := htoken.unique htoken'
      obtain ⟨-, rfl⟩ := hinside.unique hinside'
      exact .inr hv
  · rintro (hv | hv)
    · exact .framed hhoist htoken hv
    · exact .unframed hhoist htoken hinside hv

theorem framed_ne_unframed {body : List Block} (hbody : body ≠ []) :
    framed body ≠ unframed body := by
  intro heq
  obtain ⟨b, hb⟩ := List.exists_mem_of_ne_nil body hbody
  by_cases htraps : anyTrapsErrors body = true
  · simp only [framed, unframed, if_pos htraps] at heq
    by_cases hroutine : b.isRoutine = true
    · have hmem := List.mem_filter.mpr ⟨hb, hroutine⟩
      rw [← heq] at hmem
      simp [hroutine] at hmem
    · have hmem : b ∈ body.filter (!·.isRoutine) :=
        List.mem_filter.mpr ⟨hb, by simpa using hroutine⟩
      rw [heq] at hmem
      exact hroutine (List.mem_filter.mp hmem).2
  · simp only [framed, unframed, if_neg htraps] at heq
    exact hbody heq

section Routine

variable {kind : RoutineKind} {name : Name} {parameters : List Parameter} {body : List Block}
  {slot : Option Ident} {inner : Scope} {blocks : List Block}

theorem not_enters_empty :
    ¬ Visit.Enters setup ⟨scope, s, .routine kind name parameters []⟩ inner t blocks := by
  intro h
  generalize hv : (⟨scope, s, .routine kind name parameters []⟩ : Visit) = v at h
  induction h with
  | loop hloops =>
    subst hv
    cases hloops
  | withTarget => cases hv
  | routine _ _ hbody =>
    cases hv
    exact hbody rfl
  | behindFrame _ _ ih =>
    cases hv
    exact ih rfl

/-- What a compilation visits inside a routine is what it visits at the level of its body. -/
theorem visits_routine_iff (hplace : scope.enclosure = .outermost)
    (hparameters : checkParameters setup.naming [] parameters = .ok ()) (hbody : body ≠ [])
    (hslot : Gives (returnSlot setup kind scope) s slot u) :
    (∃ inner t blocks,
      Visit.Enters setup ⟨scope, s, .routine kind name parameters body⟩ inner t blocks ∧
        Visits setup inner t blocks around v) ↔
      LevelVisits setup (scope.insideRoutine kind name slot parameters) u body around v := by
  constructor
  · rintro ⟨inner, t, blocks, henters, hv⟩
    cases henters with
    | loop hloops => cases hloops
    | routine _ _ _ hslot' hhoist htoken =>
      obtain ⟨rfl, rfl⟩ := hslot.unique hslot'
      exact .framed hhoist htoken hv
    | behindFrame hframed hinside =>
      generalize hblocks : framed body = blocks at hframed
      cases hframed with
      | loop hloops => cases hloops
      | routine _ _ _ hslot' hhoist htoken =>
        obtain ⟨rfl, rfl⟩ := hslot.unique hslot'
        exact .unframed hhoist htoken hinside hv
      | behindFrame => exact absurd hblocks (framed_ne_unframed hbody)
  · intro h
    cases h with
    | framed hhoist htoken hv =>
      exact ⟨_, _, _, .routine hplace hparameters hbody hslot hhoist htoken, hv⟩
    | unframed hhoist htoken hinside hv =>
      have henters := Visit.Enters.routine hplace hparameters hbody hslot hhoist htoken
      exact ⟨_, _, _, .behindFrame henters hinside, hv⟩

end Routine

end Level

end VbsCompiler
