import VbsCompiler.Proofs.Simulation
import VbsCompiler.Target.Layout

/-! Early exits. A loop of the source can be left from inside loops of the other kind; emitted code
can only break out of the nearest loop, so a raised flag carries the exit outwards. Main statement:
the emitted code does what the source does, in the same order, whatever the conditions answer and
however long the run. -/

namespace VbsCompiler

open CompileM

def FlagsOlder (loops : List LoopFrame) (n : Nat) : Prop :=
  ∀ frame ∈ loops, ∀ f ∈ frame.flag, f.Older n

theorem FlagsOlder.mono {loops : List LoopFrame} {n k : Nat} (h : FlagsOlder loops n)
    (hnk : n ≤ k) : FlagsOlder loops k :=
  fun frame hframe f hf => (h frame hframe f hf).mono hnk

/-- Whatever `compile` emits follows `run`, in every scope and from every state in which no exit is
under way. -/
def Simulated (setup : Setup) (compile : Scope → CompileM (Output Code))
    (run : (Nat → Bool) → Nat → SourceTrace → Ending ExitKind × SourceTrace) : Prop :=
  ∀ ⦃outer scope : Scope⦄ ⦃s t : Session⦄ ⦃out : Output Code⦄, outer.Within scope →
    Gives (compile scope) s out t → FlagsOlder scope.loops s.nextTemporary →
    ∀ (answers : Nat → Bool) (bound : Nat) ⦃trace : SourceTrace⦄ ⦃m : Machine⦄,
      Agrees setup outer trace m → Lowered scope.loops m →
      Follows setup outer s.nextTemporary m (Ends scope.loops) (run answers bound trace)
        (Code.runAll answers bound out.statements m)

section Parts

variable {setup : Setup}

theorem simulated_nothing : Simulated setup (fun _ => pure {}) fun _ _ t => (.finished, t) := by
  intro outer scope s t out _ h _ answers bound trace m hagrees hlow
  obtain ⟨rfl, rfl⟩ := gives_pure.mp h
  exact ⟨hagrees, .finished hlow, fun _ _ => rfl⟩

theorem Simulated.append {c c' : Scope → CompileM (Output Code)}
    {r r' : (Nat → Bool) → Nat → SourceTrace → Ending ExitKind × SourceTrace}
    (h : Simulated setup c r) (hgrow : ∀ scope, Growing (c scope)) (h' : Simulated setup c' r') :
    Simulated setup
      (fun scope => do
        let here ← c scope
        let later ← c' scope
        return here ++ later)
      fun answers bound t => andThen (r answers bound t) (r' answers bound) := by
  intro outer scope s u out hwithin hgives hold answers bound trace m hagrees hlow
  simp only [gives_bind, gives_pure] at hgives
  obtain ⟨here, t, hhere, later, _, hlater, rfl, rfl⟩ := hgives
  have hle : s.nextTemporary ≤ t.nextTemporary := ((hgrow scope).of_gives hhere).nextTemporary
  rw [Output.statements_append, Code.runAll_append]
  refine (h hwithin hhere hold answers bound hagrees hlow).andThen ?_
  intro trace' m' hagrees' hlow' hkept
  have hnext := (h' hwithin hlater (hold.mono hle) answers bound hagrees' hlow').older hle
  exact ⟨hnext.agrees, hnext.ends, fun id hid => (hnext.kept id hid).trans (hkept id hid)⟩

theorem simulated_action {compile : Scope → CompileM (Output Code)} {a : SourceAction}
    (h : ∀ {outer scope : Scope} {s t : Session} {out : Output Code}, outer.Within scope →
      Gives (compile scope) s out t → ∃ c b, out.statements = [c] ∧ Renders setup outer a b ∧
        ∀ answers bound m, c.run answers bound m = (.finished, m.act b)) :
    Simulated setup compile fun _ _ t => (.finished, t.act a) := by
  intro outer scope s t out hwithin hgives _ answers bound trace m hagrees hlow
  obtain ⟨c, b, hout, hrenders, hrun⟩ := h hwithin hgives
  rw [hout, Code.runAll_singleton, hrun]
  exact ⟨hagrees.act hrenders, .finished hlow, fun _ _ => rfl⟩

theorem simulated_items {α : Type} {compile : α → Scope → CompileM (Output Code)}
    {step : SourceTrace → α → SourceTrace} (hgrow : ∀ a scope, Growing (compile a scope))
    (h : ∀ a, Simulated setup (compile a) fun _ _ t => (.finished, step t a)) (items : List α) :
    Simulated setup (fun scope => compileItems (compile · scope) items)
      fun _ _ t => (.finished, items.foldl step t) := by
  induction items with
  | nil => exact simulated_nothing
  | cons a rest ih => exact (h a).append (hgrow a) ih

theorem renderedAll {outer scope : Scope} (hwithin : outer.Within scope) {runs : List TokenRun}
    {rs : List Rendering}
    (h : List.Forall₂ (fun run r => setup.renderer .value run scope = .ok r) runs rs) :
    List.Forall₂ (RendersTo setup outer .value) runs (rs.map (·.fragment scope)) := by
  induction h with
  | nil => exact .nil
  | cons hr _ ih => exact .cons ⟨scope, _, hwithin, hr, rfl⟩ ih

theorem simulated_statement (run : TokenRun) :
    Simulated setup (compileStatement setup run)
      fun _ _ t => (.finished, t.act (.perform run)) := by
  refine simulated_action fun {outer scope s t out} hwithin h => ?_
  obtain ⟨r, hr, -, rfl⟩ := gives_statement h
  rw [hwithin.trapToken]
  exact ⟨_, _, rfl, .perform ⟨scope, r, hwithin, hr, rfl⟩, fun _ _ _ => rfl⟩

theorem simulated_onError (mode : TrapMode) (line : Nat) :
    Simulated setup (compileOnError mode line)
      fun _ _ t => (.finished, t.act (.switchTrapping mode line)) := by
  refine simulated_action fun {outer scope s t out} hwithin h => ?_
  obtain ⟨token, htoken, -, rfl⟩ := gives_onError h
  rw [hwithin.trapToken] at htoken
  exact ⟨_, _, rfl, .switchTrapping htoken, fun _ _ _ => rfl⟩

theorem simulated_const (item : ConstItem) :
    Simulated setup (compileConst setup item) fun _ _ t => (.finished, t.act (.define item)) := by
  refine simulated_action fun {outer scope s t out} hwithin h => ?_
  obtain ⟨target, value, htarget, hvalue, -, rfl⟩ := gives_const h
  rw [hwithin.trapToken]
  exact ⟨_, _, rfl, .define ⟨scope, _, hwithin, htarget, rfl⟩ ⟨scope, _, hwithin, hvalue, rfl⟩,
    fun _ _ _ => rfl⟩

theorem simulated_dim (item : DimItem) :
    Simulated setup (compileDim setup item)
      fun _ _ t => (.finished, if item.bounds.isSome then t.act (.allocate item) else t) := by
  cases hb : item.bounds with
  | none =>
    intro outer scope s t out hwithin h _ answers bound trace m hagrees hlow
    obtain ⟨-, rfl, -⟩ | ⟨bounds, target, rs, hsome, -⟩ := gives_dim h
    · exact ⟨hagrees, .finished hlow, fun _ _ => rfl⟩
    · simp [hb] at hsome
  | some bounds =>
    refine simulated_action fun {outer scope s t out} hwithin h => ?_
    obtain ⟨hnone, -⟩ | ⟨bounds', target, rs, hsome, htarget, hrs, -, rfl⟩ := gives_dim h
    · simp [hb] at hnone
    · rw [hwithin.trapToken]
      exact ⟨_, _, rfl, .allocate hsome ⟨scope, _, hwithin, htarget, rfl⟩ (renderedAll hwithin hrs),
        fun _ _ _ => rfl⟩

theorem simulated_redim (preserve : Bool) (item : RedimItem) :
    Simulated setup (compileRedim setup preserve item)
      fun _ _ t => (.finished, t.act (.reallocate preserve item)) := by
  refine simulated_action fun {outer scope s t out} hwithin h => ?_
  obtain ⟨rs, hrs, -, -, ⟨hconst, -, hout⟩ | ⟨hconst, target, htarget, -, hout⟩⟩ := gives_redim h
  · simp only [hwithin.trapToken, hwithin.resolve] at hconst hout
    exact ⟨_, _, hout, .rejectReallocation hconst (renderedAll hwithin hrs), fun _ _ _ => rfl⟩
  · simp only [hwithin.trapToken, hwithin.resolve] at hconst hout
    exact ⟨_, _, hout,
      .reallocate hconst ⟨scope, _, hwithin, htarget, rfl⟩ (renderedAll hwithin hrs),
      fun _ _ _ => rfl⟩

end Parts

section Constructs

variable {setup : Setup}

theorem simulated_exit (kind : ExitKind) (line : Nat) :
    Simulated setup (compileExit kind line) fun _ _ t => (.leaving kind, t) := by
  intro outer scope s t out _ h _ answers bound trace m hagrees hlow
  obtain ⟨-, ⟨loopKind, codes, rfl, hcodes, rfl⟩ | ⟨hkind, -, rfl⟩⟩ := gives_exit h
  · obtain ⟨target, hfind, ⟨hhead, rfl⟩ | ⟨f, hf, rfl⟩⟩ := compileLoopExit_ok hcodes
    · refine ⟨hagrees, .exiting ⟨hfind, ?_⟩ (.inl hhead), fun _ _ => rfl⟩
      intro frame hframe g hg hraised
      exact absurd hraised (Bool.eq_false_iff.mp (hlow frame hframe g hg))
    · refine ⟨⟨hagrees.actions, hagrees.questions⟩, .exiting ⟨hfind, ?_⟩ (.inr ⟨f, hf, ?_⟩),
        fun _ _ => rfl⟩
      · intro frame hframe g hg hraised
        by_cases hgf : g = f
        · rw [hgf, hf]
        · change (m.raise f).raised g = true at hraised
          have hup : m.raised g = true := by simpa [Machine.raise, hgf] using hraised
          exact absurd hup (Bool.eq_false_iff.mp (hlow frame hframe g hg))
      · change (m.raise f).raised f = true
        simp [Machine.raise]
  · exact ⟨hagrees, .returning hkind, fun _ _ => rfl⟩

theorem follows_loop {body : List Block}
    (hbody : Simulated setup (compileBlocks setup .all · body)
      fun answers bound => Block.runAll answers bound body)
    {outer scope : Scope} {frame : LoopFrame} {s t : Session} {inner : Output Code}
    (hwithin : outer.Within scope)
    (hgives : Gives (compileBlocks setup .all (scope.insideLoop frame) body) s inner t)
    (hold : FlagsOlder (frame :: scope.loops) s.nextTemporary)
    (hnew : ∀ f ∈ frame.flag, ∀ frame' ∈ scope.loops, frame'.flag ≠ some f)
    {enter again : SourceTrace → Bool × SourceTrace} {enter' again' : Machine → Bool × Machine}
    {trace : SourceTrace} {m₀ m : Machine}
    (henter : DecidesAlike setup outer s.nextTemporary m₀ scope.loops enter enter')
    (hagain : DecidesAlike setup outer s.nextTemporary m₀ scope.loops again again')
    (answers : Nat → Bool) (bound : Nat)
    (h : BetweenRounds setup outer s.nextTemporary m₀ scope.loops trace m) :
    Follows setup outer s.nextTemporary m₀ (Ends scope.loops)
      (rounds enter again (Block.runAll answers bound body) (· = .loop frame.kind) bound trace)
      (andThen
        (rounds enter' again'
          (fun m => Code.runAll answers bound inner.statements (m.lower frame.flag))
          (· = .breakLoop) bound m)
        (Code.runAll answers bound (flagChecks scope))) := by
  refine follows_flagChecks (follows_rounds hnew henter hagain ?_ bound h)
  intro t' m' hm
  have hround := hbody (hwithin.insideLoop frame) hgives hold answers bound
    (hm.agrees.lower frame.flag) (lowered_lower hm.lowered)
  refine ⟨hround.agrees, hround.ends, fun id hid => ?_⟩
  rw [hround.kept id hid, Machine.bindings_lower, hm.kept id hid]

section Heads

variable {outer scope : Scope} {n : Nat} {m₀ : Machine} {loops : List LoopFrame}

theorem BetweenRounds.act {t : SourceTrace} {m : Machine} {a : SourceAction} {b : TargetAction}
    (h : BetweenRounds setup outer n m₀ loops t m) (hab : Renders setup outer a b) :
    BetweenRounds setup outer n m₀ loops (t.act a) (m.act b) :=
  ⟨h.agrees.act hab, h.lowered, h.kept⟩

theorem BetweenRounds.ask {t : SourceTrace} {m : Machine} {a : SourceAction} {b : TargetAction}
    (h : BetweenRounds setup outer n m₀ loops t m) (hab : Renders setup outer a b)
    (answers : Nat → Bool) :
    (t.ask answers a).1 = (m.ask answers b).1 ∧
      BetweenRounds setup outer n m₀ loops (t.ask answers a).2 (m.ask answers b).2 :=
  ⟨(h.agrees.ask hab answers).1, (h.agrees.ask hab answers).2, h.lowered, h.kept⟩

/-- A condition of a DO loop gets the same answer in both runs, and both take it the same way. -/
theorem BetweenRounds.test {t : SourceTrace} {m : Machine} {test : LoopTest} {f : Fragment}
    (h : BetweenRounds setup outer n m₀ loops t m)
    (hf : RendersTo setup outer .boolean test.condition f) (answers : Nat → Bool) :
    (test.ask answers t).1 = (LoopHead.test ⟨test.negated, f⟩ answers m).1 ∧
      BetweenRounds setup outer n m₀ loops (test.ask answers t).2
        (LoopHead.test ⟨test.negated, f⟩ answers m).2 := by
  have hask := h.ask (.test hf) answers
  exact ⟨congrArg (· != test.negated) hask.1, hask.2⟩

theorem loopTest_follows (n : Nat) (m₀ : Machine) (loops : List LoopFrame)
    {test : Option LoopTest} {head : LoopHead} {names : List Name} {s u : Session}
    (hwithin : outer.Within scope)
    (hhead : Gives (compileLoopTest setup test scope) s (head, names) u) (answers : Nat → Bool) :
    u.nextTemporary = s.nextTemporary ∧ (∀ m, head.begin m = m) ∧
    DecidesAlike setup outer n m₀ loops (LoopTest.enter test answers) (head.enter answers) ∧
    DecidesAlike setup outer n m₀ loops (LoopTest.again test answers) (head.again answers) := by
  obtain ⟨rfl, rfl, -, rfl⟩ | ⟨test, r, rfl, hr, rfl, -, rfl⟩ := gives_loopTest hhead
  · exact ⟨rfl, fun _ => rfl, fun t m h => ⟨rfl, h⟩, fun t m h => ⟨rfl, h⟩⟩
  · have hf : RendersTo setup outer .boolean test.condition (r.fragment scope) :=
      ⟨scope, r, hwithin, hr, rfl⟩
    obtain ⟨atStart, negated, condition⟩ := test
    cases atStart with
    | true => exact ⟨rfl, fun _ => rfl, fun t m h => h.test hf answers, fun t m h => ⟨rfl, h⟩⟩
    | false => exact ⟨rfl, fun _ => rfl, fun t m h => ⟨rfl, h⟩, fun t m h => h.test hf answers⟩

end Heads

theorem flag_new {loops : List LoopFrame} {n : Nat} {flag : Option Ident} {s t : Session}
    (hold : FlagsOlder loops n) (hle : n ≤ s.nextTemporary)
    (hfresh : ∀ id ∈ flag, FreshFrom s id t) :
    ∀ f ∈ flag, ∀ frame ∈ loops, frame.flag ≠ some f := by
  intro f hf frame hframe hflag
  exact (hfresh f hf).not_older ((hold frame hframe f hflag).mono hle)

theorem flagsOlder_cons {loops : List LoopFrame} {n : Nat} {kind : LoopKind} {flag : Option Ident}
    {s t : Session} (hold : FlagsOlder loops n) (hle : n ≤ t.nextTemporary)
    (hfresh : ∀ id ∈ flag, FreshFrom s id t) :
    FlagsOlder (⟨kind, flag⟩ :: loops) t.nextTemporary := by
  intro frame hframe f hf
  rcases List.mem_cons.mp hframe with rfl | hmem
  · exact (hfresh f hf).older
  · exact (hold frame hmem f hf).mono hle

theorem simulated_doLoop {test : Option LoopTest} {body : List Block}
    (hbody : Simulated setup (compileBlocks setup .all · body)
      fun answers bound => Block.runAll answers bound body) :
    Simulated setup (compileBlock setup · (.doLoop test body))
      fun answers bound => Block.run answers bound (.doLoop test body) := by
  intro outer scope s t out hwithin h hold answers bound trace m hagrees hlow
  obtain ⟨head, names, u, flag, v, inner, hhead, hflag, hinner, rfl⟩ := gives_doLoop h
  obtain ⟨hle, -, hfresh⟩ := loopFlag_fresh hflag
  obtain ⟨hu, hbegin, henter, hagain⟩ :=
    loopTest_follows v.nextTemporary m scope.loops hwithin hhead answers
  have hsv : s.nextTemporary ≤ v.nextTemporary := hu ▸ hle
  have hloop := follows_loop hbody hwithin hinner (flagsOlder_cons hold hsv hfresh)
    (flag_new hold (Nat.le_of_eq hu.symm) hfresh) henter hagain answers bound
    ⟨hagrees, hlow, fun _ _ => rfl⟩
  simp only [Output.statements_append, Output.mapStatements, List.nil_append, Code.runAll, Code.run,
    hbegin]
  exact hloop.older hsv

theorem stepRendersTo {outer scope : Scope} {counter : Name} {first last : TokenRun}
    {step : Option TokenRun} {head : ForHead} (hwithin : outer.Within scope)
    (h : head.RenderedFrom setup scope counter first last step) :
    StepRendersTo setup outer step (head.stepFragment scope) := by
  have hstep := h.step
  obtain ⟨c, f, l, rendered⟩ := head
  cases step with
  | none =>
    cases rendered with
    | none => rfl
    | some r => cases hstep
  | some run =>
    cases rendered with
    | none => cases hstep
    | some r =>
      cases hstep with
      | cons hr _ => exact ⟨scope, r, hwithin, hr, rfl⟩

section

variable {outer : Scope} {n : Nat} {m₀ : Machine}

/-- The limit and the step that a FOR loop was entered with stay bound through its rounds. -/
theorem counting_follows (loops : List LoopFrame) (f : Fragment) {counter : Name}
    {last : TokenRun} {step : Option TokenRun} {c l d : Fragment} {lastName stepName : Ident}
    (hc : RendersTo setup outer .reference counter.run c)
    (hl : RendersTo setup outer .value last l) (hd : StepRendersTo setup outer step d)
    (hlast : lastName.Older n ∧ m₀.bindings lastName = some l)
    (hstep : stepName.Older n ∧ m₀.bindings stepName = some d) (answers : Nat → Bool) :
    let head := LoopHead.counting counter.line c f lastName stepName
    DecidesAlike setup outer n m₀ loops (·.ask answers (.goesOn counter last step))
      (head.enter answers) ∧
    DecidesAlike setup outer n m₀ loops (fun t => (true, t.act (.advance counter step)))
      (head.again answers) := by
  constructor
  · intro t m h
    simp only [LoopHead.enter, h.kept _ hlast.1, hlast.2, h.kept _ hstep.1, hstep.2]
    exact h.ask (.goesOn hc hl hd) answers
  · intro t m h
    refine ⟨rfl, ?_⟩
    simp only [LoopHead.again, h.kept _ hstep.1, hstep.2]
    exact h.act (.advance hc hd)

end

theorem simulated_forLoop {counter : Name} {first last : TokenRun} {step : Option TokenRun}
    {body : List Block}
    (hbody : Simulated setup (compileBlocks setup .all · body)
      fun answers bound => Block.runAll answers bound body) :
    Simulated setup (compileBlock setup · (.forLoop counter first last step body))
      fun answers bound => Block.run answers bound (.forLoop counter first last step body) := by
  intro outer scope s t out hwithin h hold answers bound trace m hagrees hlow
  obtain ⟨head, lastName, u, stepName, v, flag, w, inner, hfrom, hlast, hstep, hflag, hinner,
    rfl⟩ := gives_forLoop h
  have hlastNew := freshFrom_of_gives (by decide) hlast
  have hstepNew := freshFrom_of_gives (by decide) hstep
  obtain ⟨hle, -, hfresh⟩ := loopFlag_fresh hflag
  have hsv : s.nextTemporary ≤ v.nextTemporary := Nat.le_trans hlastNew.grows hstepNew.grows
  have hsw : s.nextTemporary ≤ w.nextTemporary := Nat.le_trans hsv hle
  have hcounter : RendersTo setup outer .reference counter.run (head.counter.fragment scope) :=
    ⟨scope, _, hwithin, hfrom.counter, rfl⟩
  have hfirst : RendersTo setup outer .value first (head.first.fragment scope) :=
    ⟨scope, _, hwithin, hfrom.first, rfl⟩
  have hlimit : RendersTo setup outer .value last (head.last.fragment scope) :=
    ⟨scope, _, hwithin, hfrom.last, rfl⟩
  have hstride := stepRendersTo hwithin hfrom
  -- the machine as it comes to the loop, with the limit and the step bound
  let m₁ := (m.bind counter.line lastName (head.last.fragment scope)).bind counter.line stepName
    (head.stepFragment scope)
  have hne : lastName ≠ stepName := fun he => hstepNew.not_older (he ▸ hlastNew.older)
  have hboundLast : m₁.bindings lastName = some (head.last.fragment scope) := by
    rw [Machine.bindings_bind_of_ne _ _ _ hne, Machine.bindings_bind_self]
  have hlastOlder := (hlastNew.older.mono hstepNew.grows).mono hle
  have hcount := counting_follows scope.loops (head.first.fragment scope) hcounter hlimit hstride
    ⟨hlastOlder, hboundLast⟩ ⟨hstepNew.older.mono hle, Machine.bindings_bind_self ..⟩ answers
  have hstart : Agrees setup outer
      (((trace.act (.limit counter last)).act (.stride counter step)).act (.start counter first))
      (m₁.act (.start (head.counter.fragment scope) (head.first.fragment scope))) :=
    ((hagrees.bind (.limit hlimit) lastName).bind (.stride hstride) stepName).act
      (.start hcounter hfirst)
  have hloop := follows_loop hbody hwithin hinner (flagsOlder_cons hold hsw hfresh)
    (flag_new hold hsv hfresh) hcount.1 hcount.2 answers bound ⟨hstart, hlow, fun _ _ => rfl⟩
  refine ⟨hloop.agrees, hloop.ends, fun id hid => ?_⟩
  have hidLast : id ≠ lastName := fun he => hlastNew.not_older (he ▸ hid)
  have hidStep : id ≠ stepName := fun he => hstepNew.not_older (he ▸ hid.mono hlastNew.grows)
  exact (hloop.kept id (hid.mono hsw)).trans
    ((Machine.bindings_bind_of_ne _ _ _ hidStep).trans (Machine.bindings_bind_of_ne _ _ _ hidLast))

theorem simulated_withTarget {target : TokenRun} {body : List Block}
    (hbody : Simulated setup (compileBlocks setup .all · body)
      fun answers bound => Block.runAll answers bound body) :
    Simulated setup (compileBlock setup · (.withTarget target body))
      fun answers bound => Block.run answers bound (.withTarget target body) := by
  intro outer scope s t out hwithin h hold answers bound trace m hagrees hlow
  obtain ⟨line, r, name, u, inner, hline, hr, hname, hinner, rfl⟩ := gives_withTarget h
  have hnew := freshFrom_of_gives (by decide) hname
  have hsu : s.nextTemporary ≤ u.nextTemporary := by simpa using hnew.grows
  have hfollows := hbody (hwithin.insideWith ⟨name, line⟩) hinner (hold.mono hsu) answers bound
    (hagrees.bind (.enterWith hline ⟨scope, r, hwithin, hr, rfl⟩) name) hlow
  refine ⟨hfollows.agrees, hfollows.ends, fun id hid => ?_⟩
  have hid' : id ≠ name := fun he => hnew.not_older (he ▸ by simpa using hid)
  exact (hfollows.kept id (hid.mono hsu)).trans (Machine.bindings_bind_of_ne _ _ _ hid')

theorem simulated_routine (kind : RoutineKind) (name : Name) (parameters : List Parameter)
    (body : List Block) :
    Simulated setup (compileBlock setup · (.routine kind name parameters body))
      fun _ _ t => (.finished, t) := by
  intro outer scope s t out _ h _ answers bound trace m hagrees hlow
  obtain ⟨-, -, ⟨-, -, rfl⟩ | ⟨-, slot, u, level, v, -, -, hmethod⟩⟩ := gives_routine h
  · exact ⟨hagrees, .finished hlow, fun _ _ => rfl⟩
  · obtain ⟨-, rfl⟩ := gives_method hmethod
    exact ⟨hagrees, .finished hlow, fun _ _ => rfl⟩

theorem simulated_blocks_of_forall {blocks : List Block}
    (h : ∀ b ∈ blocks, Simulated setup (compileBlock setup · b)
      fun answers bound => Block.run answers bound b) :
    Simulated setup (compileBlocks setup .all · blocks)
      fun answers bound => Block.runAll answers bound blocks := by
  induction blocks with
  | nil => exact simulated_nothing
  | cons b rest ih =>
    exact (h b (by simp)).append (fun scope => growing_block setup scope b)
      (ih fun c hc => h c (by simp [hc]))

/-- By induction on the nesting, with a scope of any depth around the block. -/
theorem simulated_block (b : Block) :
    Simulated setup (compileBlock setup · b) fun answers bound => Block.run answers bound b := by
  induction b using Block.nested_induction with
  | step b ih =>
    cases b with
    | doLoop test body => exact simulated_doLoop (simulated_blocks_of_forall ih)
    | forLoop counter first last step body =>
      exact simulated_forLoop (simulated_blocks_of_forall ih)
    | withTarget target body => exact simulated_withTarget (simulated_blocks_of_forall ih)
    | routine kind name parameters body => exact simulated_routine kind name parameters body
    | exit kind line => exact simulated_exit kind line
    | consts items =>
      exact simulated_items (fun a scope => (quiet_const setup a scope).growing) simulated_const
        items
    | dim items =>
      exact simulated_items (fun a scope => (quiet_dim setup a scope).growing) simulated_dim items
    | redim preserve items =>
      exact simulated_items (fun a scope => (quiet_redim setup preserve a scope).growing)
        (simulated_redim preserve) items
    | onError mode line => exact simulated_onError mode line
    | statement run => exact simulated_statement run

end Constructs

/-- Blocks made of loops, WITH blocks, exits from loops and plain statements. -/
inductive Block.IsControl : Block → Prop where
  | doLoop {test : Option LoopTest} {body : List Block} : (∀ b ∈ body, b.IsControl) →
      IsControl (.doLoop test body)
  | forLoop {counter : Name} {first last : TokenRun} {step : Option TokenRun} {body : List Block} :
      (∀ b ∈ body, b.IsControl) → IsControl (.forLoop counter first last step body)
  | withTarget {target : TokenRun} {body : List Block} : (∀ b ∈ body, b.IsControl) →
      IsControl (.withTarget target body)
  | exit {kind : LoopKind} {line : Nat} : IsControl (.exit (.loop kind) line)
  | statement {run : TokenRun} : IsControl (.statement run)

inductive Code.IsControl : Code → Prop where
  | loop {head : LoopHead} {flag : Option Ident} {body : List Code} : (∀ c ∈ body, c.IsControl) →
      IsControl (.loop head flag body)
  | check {flags : List Ident} : IsControl (.check flags)
  | raise {origin : Nat} {flag : Ident} : IsControl (.raise origin flag)
  | leave {origin : Nat} : IsControl (.leave origin)
  | bind {origin : Nat} {name : Ident} {value : Fragment} : IsControl (.bind origin name value)
  | act {origin : Option Nat} {guard : Option Ident} {operations : List Operation} :
      IsControl (.act origin guard operations)

theorem isControl_flagChecks {scope : Scope} {c : Code} (h : c ∈ flagChecks scope) :
    c.IsControl := by
  unfold flagChecks at h
  split at h
  · exact absurd h List.not_mem_nil
  · rw [List.mem_singleton.mp h]
    exact .check

theorem isControl_blocks {setup : Setup} {blocks : List Block}
    (h : ∀ b ∈ blocks, ∀ {scope : Scope} {s t : Session} {out : Output Code},
      Gives (compileBlock setup scope b) s out t → ∀ c ∈ out.statements, c.IsControl)
    {scope : Scope} {s t : Session} {out : Output Code}
    (hgives : Gives (compileBlocks setup .all scope blocks) s out t) :
    ∀ c ∈ out.statements, c.IsControl := by
  refine output_blocks (P := fun out => ∀ c ∈ out.statements, c.IsControl) (by simp) ?_
    (fun b hb => h b hb) hgives
  intro a b ha hb c hc
  rcases List.mem_append.mp hc with hc | hc
  · exact ha c hc
  · exact hb c hc

theorem isControl_compiled {setup : Setup} {b : Block} (hb : b.IsControl) {scope : Scope}
    {s t : Session} {out : Output Code} (h : Gives (compileBlock setup scope b) s out t) :
    ∀ c ∈ out.statements, c.IsControl := by
  induction b using Block.nested_induction generalizing scope s t out with
  | step b ih =>
    cases hb with
    | doLoop hbody =>
      obtain ⟨head, names, u, flag, v, inner, -, -, hinner, rfl⟩ := gives_doLoop h
      have hcodes := isControl_blocks (fun b hb => ih b hb (hbody b hb)) hinner
      intro c hc
      rcases List.mem_cons.mp hc with rfl | hc
      · exact .loop hcodes
      · exact isControl_flagChecks hc
    | forLoop hbody =>
      obtain ⟨head, _, _, _, _, flag, _, inner, -, -, -, -, hinner, rfl⟩ := gives_forLoop h
      have hcodes := isControl_blocks (fun b hb => ih b hb (hbody b hb)) hinner
      intro c hc
      rcases List.mem_cons.mp hc with rfl | hc
      · exact .bind
      rcases List.mem_cons.mp hc with rfl | hc
      · exact .bind
      rcases List.mem_cons.mp hc with rfl | hc
      · exact .loop hcodes
      · exact isControl_flagChecks hc
    | withTarget hbody =>
      obtain ⟨line, r, name, u, inner, -, -, -, hinner, rfl⟩ := gives_withTarget h
      have hcodes := isControl_blocks (fun b hb => ih b hb (hbody b hb)) hinner
      intro c hc
      rcases List.mem_cons.mp hc with rfl | hc
      · exact .bind
      · exact hcodes c hc
    | exit =>
      rw [compileBlock] at h
      obtain ⟨-, ⟨kind, codes, -, hcodes, rfl⟩ | ⟨hkind, -⟩⟩ := gives_exit h
      · obtain ⟨target, -, ⟨-, rfl⟩ | ⟨f, -, rfl⟩⟩ := compileLoopExit_ok hcodes
        · intro c hc
          rw [List.mem_singleton.mp hc]
          exact .leave
        · intro c hc
          rcases List.mem_cons.mp hc with rfl | hc
          · exact .raise
          · rw [List.mem_singleton.mp hc]
            exact .leave
      · exact absurd rfl (hkind _)
    | statement =>
      rw [compileBlock] at h
      obtain ⟨r, -, -, rfl⟩ := gives_statement h
      intro c hc
      rw [List.mem_singleton.mp hc]
      exact .act

/-- The runs end the same way: both come to the end, both give back the value of a routine, or both
are stopped. -/
inductive SameEnding : Ending ExitKind → Ending Jump → Prop where
  | finished : SameEnding .finished .finished
  | returning {exit : ExitKind} {slot : Option Ident} : (∀ kind, exit ≠ .loop kind) →
      SameEnding (.leaving exit) (.leaving (.giveBack slot))
  | stopped : SameEnding .stopped .stopped

/-- Every run of the emitted program does what the run of the source with the same answers does,
whatever the flags are before they are declared. -/
def RunsLike (setup : Setup) (scope : Scope) (program : List Code) (blocks : List Block) : Prop :=
  ∀ (answers : Nat → Bool) (bound : Nat) (flags : Ident → Bool),
    let source := Block.runAll answers bound blocks {}
    let target := Code.runAll answers bound program { raised := flags }
    List.Forall₂ (Renders setup scope) source.2.actions target.2.trace.actions ∧
      source.2.questions = target.2.trace.questions ∧ SameEnding source.1 target.1

/-- Outside of loops the emitted code is a control program that runs like its source: an exit from
a loop leaves the loop and all loops in between, although a break leaves the nearest one only. -/
theorem emitted_program_runs_like_source {setup : Setup} {scope : Scope} {blocks : List Block}
    {s t : Session} {out : Output Code} (hloops : scope.loops = [])
    (h : Gives (compileBlocks setup .all scope blocks) s out t) (support : Ident) (depth : Nat) :
    ∃ program : List Code,
      (out.mapStatements (Code.allLines support depth)).statements =
        Code.allLines support depth program ∧
      ((∀ b ∈ blocks, b.IsControl) → ∀ c ∈ program, c.IsControl) ∧
      RunsLike setup scope program blocks := by
  refine ⟨out.statements, rfl, ?_, ?_⟩
  · intro hcontrol
    exact isControl_blocks (fun b hb => isControl_compiled (hcontrol b hb)) h
  · intro answers bound flags
    have hlow : Lowered scope.loops { raised := flags } := by simp [hloops, Lowered]
    have hagrees : Agrees setup scope {} { raised := flags } := ⟨.nil, rfl⟩
    have hfollows := simulated_blocks_of_forall (fun b _ => simulated_block b) .refl h
      (by simp [hloops, FlagsOlder]) answers bound hagrees hlow
    refine ⟨hfollows.agrees.actions, hfollows.agrees.questions, ?_⟩
    have hends := hfollows.ends
    rw [hloops] at hends
    dsimp only at hends
    generalize Block.runAll answers bound blocks {} = source at hends
    generalize Code.runAll answers bound out.statements { raised := flags } = target at hends
    obtain ⟨e, _⟩ := source
    obtain ⟨j, _⟩ := target
    cases hends with
    | finished => exact .finished
    | exiting hu => cases hu.nearest
    | returning he => exact .returning he
    | stopped => exact .stopped

theorem emitted_program_runs_like_source_exit_do_inside_for :
    let setup : Setup := ⟨exactNaming, fun _ _ _ => .ok ⟨"x", []⟩⟩
    let blocks : List Block :=
      [.doLoop none [.forLoop ⟨"i", 0⟩ [] [] none [.statement [], .exit (.loop .doLoop) 2]]]
    ∃ program, (∀ c ∈ program, c.IsControl) ∧ RunsLike setup (.outermost []) program blocks := by
  intro setup blocks
  obtain ⟨out, t, h⟩ : ∃ out t, Gives (compileBlocks setup .all (.outermost []) blocks) {} out t :=
    exists_gives rfl
  obtain ⟨program, -, hcontrol, hruns⟩ := emitted_program_runs_like_source rfl h ⟨"_"⟩ 0
  refine ⟨program, hcontrol ?_, hruns⟩
  simp only [blocks, List.mem_singleton, forall_eq]
  refine .doLoop ?_
  simp only [List.mem_singleton, forall_eq]
  refine .forLoop ?_
  simp only [List.mem_cons, List.not_mem_nil, or_false, forall_eq_or_imp, forall_eq]
  exact ⟨.statement, .exit⟩

end VbsCompiler
