import VbsCompiler.Proofs.Execution
import VbsCompiler.Proofs.Temporary

/-! What it means that a run of emitted code follows a run of the source. Both do the same, and
a flag is raised only while the exit it stands for is under way: then every other flag is down, and
the checks behind each loop pass the exit on. -/

namespace VbsCompiler

open CompileM

/-- The inner scope derives from the outer one by entering loops and WITH blocks. -/
inductive Scope.Within (outer : Scope) : Scope → Prop where
  | refl : Within outer outer
  | insideLoop {inner : Scope} (frame : LoopFrame) : Within outer inner →
      Within outer (inner.insideLoop frame)
  | insideWith {inner : Scope} (reference : WithReference) : Within outer inner →
      Within outer (inner.insideWith reference)

theorem Scope.Within.trapToken {outer inner : Scope} (h : outer.Within inner) :
    inner.trapToken = outer.trapToken := by
  induction h with
  | refl => rfl
  | insideLoop _ _ ih => exact ih
  | insideWith _ _ ih => exact ih

theorem Scope.Within.resolve {outer inner : Scope} (h : outer.Within inner) (naming : Naming)
    (n : Name) : inner.resolve naming n = outer.resolve naming n := by
  induction h with
  | refl => rfl
  | insideLoop _ _ ih => exact ih
  | insideWith _ _ ih => exact ih

section Renders

variable (setup : Setup) (outer : Scope)

def RendersTo (demand : Demand) (run : TokenRun) (f : Fragment) : Prop :=
  ∃ inner r, outer.Within inner ∧ setup.renderer demand run inner = .ok r ∧ f = r.fragment inner

def StepRendersTo : Option TokenRun → Fragment → Prop
  | none, f => f = ⟨"1", []⟩
  | some run, f => RendersTo setup outer .value run f

/-- What the emitted code does is the rendering of what the source does. -/
inductive Renders : SourceAction → TargetAction → Prop where
  | perform {run : TokenRun} {f : Fragment} : RendersTo setup outer .statement run f →
      Renders (.perform run) (.act run.firstLine outer.trapToken [.perform f])
  | define {item : ConstItem} {target value : Fragment} :
      RendersTo setup outer .reference item.name.run target →
      RendersTo setup outer .value item.value value →
      Renders (.define item)
        (.act (some item.name.line) outer.trapToken [.assign target value])
  | allocate {item : DimItem} {bounds : List TokenRun} {target : Fragment} {fs : List Fragment} :
      item.bounds = some bounds → RendersTo setup outer .reference item.name.run target →
      List.Forall₂ (RendersTo setup outer .value) bounds fs →
      Renders (.allocate item)
        (.act (some item.name.line) outer.trapToken [.newArray (some target) fs])
  | reallocate {preserve : Bool} {item : RedimItem} {target : Fragment} {fs : List Fragment} :
      (∀ location, outer.resolve setup.naming item.name ≠ some (.constant, location)) →
      RendersTo setup outer .reference item.name.run target →
      List.Forall₂ (RendersTo setup outer .value) item.bounds fs →
      Renders (.reallocate preserve item)
        (.act (some item.name.line) outer.trapToken
          [if preserve then .resizeArray target fs else .newArray (some target) fs])
  | rejectReallocation {preserve : Bool} {item : RedimItem} {fs : List Fragment} :
      (∃ location, outer.resolve setup.naming item.name = some (.constant, location)) →
      List.Forall₂ (RendersTo setup outer .value) item.bounds fs →
      Renders (.reallocate preserve item)
        (.act (some item.name.line) outer.trapToken
          [.newArray none fs, .rejectAssignment item.name.content])
  | switchTrapping {mode : TrapMode} {line : Nat} {token : Ident} :
      outer.trapToken = some token →
      Renders (.switchTrapping mode line) (.switchTrapping line mode token)
  | enterWith {target : TokenRun} {line : Nat} {f : Fragment} : target.firstLine = some line →
      RendersTo setup outer .reference target f → Renders (.enterWith target) (.evaluate line f)
  | test {condition : LoopTest} {f : Fragment} :
      RendersTo setup outer .boolean condition.condition f →
      Renders (.test condition) (.test ⟨condition.negated, f⟩)
  | limit {counter : Name} {last : TokenRun} {f : Fragment} :
      RendersTo setup outer .value last f →
      Renders (.limit counter last) (.evaluate counter.line f)
  | stride {counter : Name} {step : Option TokenRun} {f : Fragment} :
      StepRendersTo setup outer step f →
      Renders (.stride counter step) (.evaluate counter.line f)
  | start {counter : Name} {first : TokenRun} {c f : Fragment} :
      RendersTo setup outer .reference counter.run c → RendersTo setup outer .value first f →
      Renders (.start counter first) (.start c f)
  | goesOn {counter : Name} {last : TokenRun} {step : Option TokenRun} {c l d : Fragment} :
      RendersTo setup outer .reference counter.run c → RendersTo setup outer .value last l →
      StepRendersTo setup outer step d →
      Renders (.goesOn counter last step) (.goesOn c (some l) (some d))
  | advance {counter : Name} {step : Option TokenRun} {c d : Fragment} :
      RendersTo setup outer .reference counter.run c → StepRendersTo setup outer step d →
      Renders (.advance counter step) (.advance c (some d))

structure Agrees (t : SourceTrace) (m : Machine) : Prop where
  actions : List.Forall₂ (Renders setup outer) t.actions m.trace.actions
  questions : t.questions = m.trace.questions

end Renders

section Agreement

variable {setup : Setup} {outer : Scope} {t : SourceTrace} {m : Machine} {a : SourceAction}
  {b : TargetAction}

theorem Agrees.act (h : Agrees setup outer t m) (hab : Renders setup outer a b) :
    Agrees setup outer (t.act a) (m.act b) :=
  ⟨List.rel_append h.actions (.cons hab .nil), h.questions⟩

theorem Agrees.ask (h : Agrees setup outer t m) (hab : Renders setup outer a b)
    (answers : Nat → Bool) :
    (t.ask answers a).1 = (m.ask answers b).1 ∧
      Agrees setup outer (t.ask answers a).2 (m.ask answers b).2 := by
  refine ⟨congrArg answers h.questions, List.rel_append h.actions (.cons hab .nil), ?_⟩
  exact congrArg (· + 1) h.questions

theorem Agrees.bind (h : Agrees setup outer t m) {origin : Nat} {value : Fragment}
    (hab : Renders setup outer a (.evaluate origin value)) (name : Ident) :
    Agrees setup outer (t.act a) (m.bind origin name value) :=
  ⟨List.rel_append h.actions (.cons hab .nil), h.questions⟩

theorem Agrees.lower (h : Agrees setup outer t m) (flag : Option Ident) :
    Agrees setup outer t (m.lower flag) := by
  cases flag with
  | none => exact h
  | some flag => exact ⟨h.actions, h.questions⟩

end Agreement

section Combinators

variable {σ ε : Type}

@[simp] theorem andThen_pure (r : Ending ε × σ) : andThen r (fun s => (.finished, s)) = r := by
  obtain ⟨e, s⟩ := r
  cases e <;> rfl

theorem andThen_assoc (r : Ending ε × σ) (f g : σ → Ending ε × σ) :
    andThen (andThen r f) g = andThen r fun s => andThen (f s) g := by
  obtain ⟨e, s⟩ := r
  cases e <;> rfl

end Combinators

theorem Code.runAll_append (answers : Nat → Bool) (bound : Nat) (codes more : List Code)
    (m : Machine) :
    Code.runAll answers bound (codes ++ more) m =
      andThen (Code.runAll answers bound codes m) (Code.runAll answers bound more) := by
  induction codes generalizing m with
  | nil => rfl
  | cons c rest ih =>
    simp only [List.cons_append, Code.runAll, andThen_assoc]
    exact congrArg (andThen (c.run answers bound m)) (funext ih)

theorem Code.runAll_singleton (answers : Nat → Bool) (bound : Nat) (c : Code) (m : Machine) :
    Code.runAll answers bound [c] m = c.run answers bound m :=
  andThen_pure _

def Lowered (loops : List LoopFrame) (m : Machine) : Prop :=
  ∀ frame ∈ loops, ∀ f ∈ frame.flag, m.raised f = false

/-- The nearest loop of the kind is being left: no flag but its own is raised. -/
structure Unwinding (loops : List LoopFrame) (kind : LoopKind) (target : LoopFrame) (m : Machine) :
    Prop where
  nearest : loops.find? (·.kind = kind) = some target
  only : ∀ frame ∈ loops, ∀ f ∈ frame.flag, m.raised f = true → target.flag = some f

/-- How the run of emitted code inside the loops ends where the run of the source ends so. -/
inductive Ends (loops : List LoopFrame) (m : Machine) : Ending ExitKind → Ending Jump → Prop where
  | finished : Lowered loops m → Ends loops m .finished .finished
  | exiting {kind : LoopKind} {target : LoopFrame} : Unwinding loops kind target m →
      loops.head? = some target ∨ (∃ f ∈ target.flag, m.raised f = true) →
      Ends loops m (.leaving (.loop kind)) (.leaving .breakLoop)
  | returning {exit : ExitKind} {slot : Option Ident} : (∀ kind, exit ≠ .loop kind) →
      Ends loops m (.leaving exit) (.leaving (.giveBack slot))
  | stopped : Ends loops m .stopped .stopped

/-- The same right behind a loop, before the flags are checked: the emitted loop has ended, also
where an exit goes on outwards. -/
inductive LoopEnds (loops : List LoopFrame) (m : Machine) :
    Ending ExitKind → Ending Jump → Prop where
  | finished : Lowered loops m → LoopEnds loops m .finished .finished
  | exiting {kind : LoopKind} {target : LoopFrame} {f : Ident} : Unwinding loops kind target m →
      target.flag = some f → m.raised f = true →
      LoopEnds loops m (.leaving (.loop kind)) .finished
  | returning {exit : ExitKind} {slot : Option Ident} : (∀ kind, exit ≠ .loop kind) →
      LoopEnds loops m (.leaving exit) (.leaving (.giveBack slot))
  | stopped : LoopEnds loops m .stopped .stopped

/-- The run of the emitted code follows the run of the source, and keeps what the temporaries
allocated before number `n` are bound to. -/
structure Follows (setup : Setup) (outer : Scope) (n : Nat) (m : Machine)
    (ends : Machine → Ending ExitKind → Ending Jump → Prop) (source : Ending ExitKind × SourceTrace)
    (target : Ending Jump × Machine) : Prop where
  agrees : Agrees setup outer source.2 target.2
  ends : ends target.2 source.1 target.1
  kept : ∀ id : Ident, id.Older n → target.2.bindings id = m.bindings id

section Follows

variable {setup : Setup} {outer : Scope} {n : Nat} {m : Machine} {loops : List LoopFrame}

theorem Follows.andThen {source : Ending ExitKind × SourceTrace} {target : Ending Jump × Machine}
    {f : SourceTrace → Ending ExitKind × SourceTrace} {g : Machine → Ending Jump × Machine}
    (h : Follows setup outer n m (Ends loops) source target)
    (hnext : ∀ t m', Agrees setup outer t m' → Lowered loops m' →
      (∀ id : Ident, id.Older n → m'.bindings id = m.bindings id) →
      Follows setup outer n m (Ends loops) (f t) (g m')) :
    Follows setup outer n m (Ends loops) (andThen source f) (andThen target g) := by
  obtain ⟨e, t⟩ := source
  obtain ⟨j, m'⟩ := target
  cases h.ends with
  | finished hlow => exact hnext t m' h.agrees hlow h.kept
  | exiting hu hr => exact ⟨h.agrees, .exiting hu hr, h.kept⟩
  | returning he => exact ⟨h.agrees, .returning he, h.kept⟩
  | stopped => exact ⟨h.agrees, .stopped, h.kept⟩

theorem Follows.older {k : Nat} {ends : Machine → Ending ExitKind → Ending Jump → Prop}
    {source : Ending ExitKind × SourceTrace} {target : Ending Jump × Machine}
    (h : Follows setup outer k m ends source target) (hnk : n ≤ k) :
    Follows setup outer n m ends source target :=
  ⟨h.agrees, h.ends, fun id hid => h.kept id (hid.mono hnk)⟩

theorem mem_flags {scope : Scope} {f : Ident} :
    f ∈ scope.flags ↔ ∃ frame ∈ scope.loops, frame.flag = some f := by
  simp [Scope.flags]

/-- The checks behind a loop pass an exit on that is under way, and nothing else. -/
theorem follows_flagChecks {scope : Scope} {answers : Nat → Bool} {bound : Nat}
    {source : Ending ExitKind × SourceTrace} {target : Ending Jump × Machine}
    (h : Follows setup outer n m (LoopEnds scope.loops) source target) :
    Follows setup outer n m (Ends scope.loops) source
      (andThen target (Code.runAll answers bound (flagChecks scope))) := by
  obtain ⟨e, t⟩ := source
  obtain ⟨j, m'⟩ := target
  cases h.ends with
  | finished hlow =>
    have hrun : Code.runAll answers bound (flagChecks scope) m' = (.finished, m') := by
      unfold flagChecks
      split
      · rfl
      · have hany : scope.flags.any m'.raised = false := by
          rw [List.any_eq_false]
          intro f hf
          obtain ⟨frame, hframe, hflag⟩ := mem_flags.mp hf
          exact Bool.eq_false_iff.mp (hlow frame hframe f hflag)
        rw [Code.runAll_singleton, Code.run, hany]
        rfl
    change Follows setup outer n m (Ends scope.loops) (.finished, t)
      (Code.runAll answers bound (flagChecks scope) m')
    rw [hrun]
    exact ⟨h.agrees, .finished hlow, h.kept⟩
  | @exiting kind target f hu hf hraised =>
    have hmem : f ∈ scope.flags :=
      mem_flags.mpr ⟨target, List.mem_of_find?_eq_some hu.nearest, hf⟩
    have hrun : Code.runAll answers bound (flagChecks scope) m' = (.leaving .breakLoop, m') := by
      have hempty : scope.flags.isEmpty = false := by
        cases hs : scope.flags with
        | nil => simp [hs] at hmem
        | cons => rfl
      have hany : scope.flags.any m'.raised = true := List.any_eq_true.mpr ⟨f, hmem, hraised⟩
      rw [flagChecks, hempty, if_neg (by simp), Code.runAll_singleton, Code.run, hany]
      rfl
    change Follows setup outer n m (Ends scope.loops) (.leaving (.loop kind), t)
      (Code.runAll answers bound (flagChecks scope) m')
    rw [hrun]
    exact ⟨h.agrees, .exiting hu (.inr ⟨f, hf, hraised⟩), h.kept⟩
  | returning he => exact ⟨h.agrees, .returning he, h.kept⟩
  | stopped => exact ⟨h.agrees, .stopped, h.kept⟩

end Follows

section Loops

variable {setup : Setup} {outer : Scope} {n : Nat} {m₀ : Machine} {loops : List LoopFrame}
  {frame : LoopFrame}

theorem lowered_lower {m : Machine} (h : Lowered loops m) :
    Lowered (frame :: loops) (m.lower frame.flag) := by
  intro frame' hframe f hf
  cases hflag : frame.flag with
  | none =>
    rcases List.mem_cons.mp hframe with rfl | hmem
    · simp [hflag] at hf
    · exact h frame' hmem f hf
  | some g =>
    by_cases hfg : f = g
    · simp [Machine.lower, hfg]
    · rcases List.mem_cons.mp hframe with rfl | hmem
      · simp [hflag] at hf
        exact absurd hf.symm hfg
      · simpa [Machine.lower, hfg] using h frame' hmem f hf

/-- What an exit from the body of a loop means right behind the loop. The flag of the loop is none
of the flags further out, so it does not matter there. -/
theorem loopEnds_of_ends {m : Machine} {e : ExitKind} {j : Jump}
    (hnew : ∀ f ∈ frame.flag, ∀ frame' ∈ loops, frame'.flag ≠ some f)
    (h : Ends (frame :: loops) m (.leaving e) (.leaving j)) :
    LoopEnds loops m (if e = .loop frame.kind then .finished else .leaving e)
      (if j = .breakLoop then .finished else .leaving j) := by
  cases h with
  | @exiting kind target hu hr =>
    by_cases hk : frame.kind = kind
    · subst hk
      have htarget : target = frame := by
        have := hu.nearest
        simp at this
        exact this.symm
      subst htarget
      simp only [if_true]
      refine .finished fun frame' hmem f hf => ?_
      refine Bool.eq_false_iff.mpr fun hraised => ?_
      have hflag := hu.only frame' (List.mem_cons_of_mem _ hmem) f hf hraised
      exact hnew f hflag frame' hmem hf
    · have hfind : loops.find? (·.kind = kind) = some target := by
        have := hu.nearest
        rwa [List.find?_cons_of_neg (by simpa using hk)] at this
      have hne : target ≠ frame := by
        rintro rfl
        exact hk (by simpa using List.find?_some hfind)
      obtain ⟨f, hf, hraised⟩ : ∃ f ∈ target.flag, m.raised f = true := by
        refine hr.resolve_left fun hhead => hne ?_
        simpa using hhead.symm
      rw [if_neg (by simpa using fun h => hk h.symm), if_pos rfl]
      exact .exiting ⟨hfind, fun frame' hmem => hu.only frame' (List.mem_cons_of_mem _ hmem)⟩ hf
        hraised
  | returning he =>
    rw [if_neg (he _), if_neg (by simp)]
    exact .returning he

structure BetweenRounds (setup : Setup) (outer : Scope) (n : Nat) (m₀ : Machine)
    (loops : List LoopFrame) (t : SourceTrace) (m : Machine) : Prop where
  agrees : Agrees setup outer t m
  lowered : Lowered loops m
  kept : ∀ id : Ident, id.Older n → m.bindings id = m₀.bindings id

def DecidesAlike (setup : Setup) (outer : Scope) (n : Nat) (m₀ : Machine) (loops : List LoopFrame)
    (f : SourceTrace → Bool × SourceTrace) (g : Machine → Bool × Machine) : Prop :=
  ∀ t m, BetweenRounds setup outer n m₀ loops t m →
    (f t).1 = (g m).1 ∧ BetweenRounds setup outer n m₀ loops (f t).2 (g m).2

/-- By induction on the number of rounds that are allowed. -/
theorem follows_rounds {enter again : SourceTrace → Bool × SourceTrace}
    {enter' again' : Machine → Bool × Machine} {body : SourceTrace → Ending ExitKind × SourceTrace}
    {body' : Machine → Ending Jump × Machine}
    (hnew : ∀ f ∈ frame.flag, ∀ frame' ∈ loops, frame'.flag ≠ some f)
    (henter : DecidesAlike setup outer n m₀ loops enter enter')
    (hagain : DecidesAlike setup outer n m₀ loops again again')
    (hbody : ∀ t m, BetweenRounds setup outer n m₀ loops t m →
      Follows setup outer n m₀ (Ends (frame :: loops)) (body t) (body' m))
    (limit : Nat) {t : SourceTrace} {m : Machine} (h : BetweenRounds setup outer n m₀ loops t m) :
    Follows setup outer n m₀ (LoopEnds loops)
      (rounds enter again body (· = .loop frame.kind) limit t)
      (rounds enter' again' body' (· = .breakLoop) limit m) := by
  induction limit generalizing t m with
  | zero => exact ⟨h.agrees, .stopped, h.kept⟩
  | succ limit ih =>
    obtain ⟨heq, hin⟩ := henter t m h
    simp only [rounds]
    generalize enter t = entered at heq hin
    generalize enter' m = entered' at heq hin
    obtain ⟨go, t₁⟩ := entered
    obtain ⟨go', m₁⟩ := entered'
    obtain rfl : go = go' := heq
    cases go with
    | false => exact ⟨hin.agrees, .finished hin.lowered, hin.kept⟩
    | true =>
      have hb := hbody t₁ m₁ hin
      dsimp only
      generalize body t₁ = result at hb
      generalize body' m₁ = result' at hb
      obtain ⟨e, t₂⟩ := result
      obtain ⟨j, m₂⟩ := result'
      have hends := hb.ends
      cases e with
      | stopped =>
        cases hends
        exact ⟨hb.agrees, .stopped, hb.kept⟩
      | leaving exit =>
        have hleft : ∃ jump, j = .leaving jump := by cases hends <;> exact ⟨_, rfl⟩
        obtain ⟨jump, rfl⟩ := hleft
        exact ⟨hb.agrees, by simpa using loopEnds_of_ends hnew hends, hb.kept⟩
      | finished =>
        cases hends with
        | finished hlow =>
          have hmid : BetweenRounds setup outer n m₀ loops t₂ m₂ :=
            ⟨hb.agrees, fun frame' hmem => hlow frame' (List.mem_cons_of_mem _ hmem), hb.kept⟩
          obtain ⟨heq', hout⟩ := hagain t₂ m₂ hmid
          dsimp only
          generalize again t₂ = asked at heq' hout
          generalize again' m₂ = asked' at heq' hout
          obtain ⟨more, t₃⟩ := asked
          obtain ⟨more', m₃⟩ := asked'
          obtain rfl : more = more' := heq'
          cases more with
          | false => exact ⟨hout.agrees, .finished hout.lowered, hout.kept⟩
          | true => exact ih hout

end Loops

end VbsCompiler
