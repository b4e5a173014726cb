import VbsCompiler.Proofs.Temporary

/-! The temporaries that emitted code binds. No two bindings of a program have the same name, so a
name leads back to the one value it was bound to. -/

namespace VbsCompiler

open CompileM

structure Binding where
  origin : Nat
  name : Ident
  value : Fragment

namespace Code

mutual

def bindings : Code → List Binding
  | .bind origin name value => [⟨origin, name, value⟩]
  | .loop _ _ body => allBindings body
  | .trapped _ body => allBindings body
  | .method _ _ _ body _ => allBindings body
  | _ => []

def allBindings : List Code → List Binding
  | [] => []
  | c :: rest => c.bindings ++ allBindings rest

end

@[simp] theorem allBindings_append (codes more : List Code) :
    allBindings (codes ++ more) = allBindings codes ++ allBindings more := by
  induction codes with
  | nil => rfl
  | cons c rest ih => simp [allBindings, ih]

@[simp] theorem allBindings_flagChecks (scope : Scope) : allBindings (flagChecks scope) = [] := by
  unfold flagChecks
  split <;> rfl

@[simp] theorem allBindings_frame (token : Option Ident) (codes : List Code) :
    allBindings (Code.frame token codes) = allBindings codes := by
  cases token <;> simp [Code.frame, allBindings, bindings]

def boundNames (codes : List Code) : List Ident :=
  (allBindings codes).map (·.name)

end Code

/-- The names are distinct temporaries with numbers from `n` on and below `k`. -/
structure AllocatedBetween (n k : Nat) (ids : List Ident) : Prop where
  nodup : ids.Nodup
  fresh : ∀ id ∈ ids, ¬ id.Older n
  older : ∀ id ∈ ids, id.Older k

section Allocated

variable {n m k : Nat}

theorem allocated_nil : AllocatedBetween n k [] :=
  ⟨List.nodup_nil, by simp, by simp⟩

theorem allocated_of_no_bindings {codes : List Code} (h : Code.allBindings codes = []) :
    AllocatedBetween n k (Code.boundNames codes) := by
  rw [Code.boundNames, h]
  exact allocated_nil

theorem AllocatedBetween.append {ids more : List Ident} (h : AllocatedBetween n m ids)
    (hmore : AllocatedBetween m k more) (hnm : n ≤ m) (hmk : m ≤ k) :
    AllocatedBetween n k (ids ++ more) := by
  refine ⟨List.nodup_append.mpr ⟨h.nodup, hmore.nodup, ?_⟩, ?_, ?_⟩
  · rintro id hid _ hid' rfl
    exact hmore.fresh id hid' (h.older id hid)
  · intro id hid
    rcases List.mem_append.mp hid with hid | hid
    · exact h.fresh id hid
    · exact fun hold => hmore.fresh id hid (hold.mono hnm)
  · intro id hid
    rcases List.mem_append.mp hid with hid | hid
    · exact (h.older id hid).mono hmk
    · exact hmore.older id hid

theorem AllocatedBetween.widen {n' k' : Nat} {ids : List Ident} (h : AllocatedBetween n k ids)
    (hn : n' ≤ n) (hk : k ≤ k') : AllocatedBetween n' k' ids :=
  ⟨h.nodup, fun id hid hold => h.fresh id hid (hold.mono hn),
    fun id hid => (h.older id hid).mono hk⟩

theorem FreshFrom.allocated {s t : Session} {id : Ident} (h : FreshFrom s id t) :
    AllocatedBetween s.nextTemporary t.nextTemporary [id] :=
  ⟨by simp, by simpa using h.not_older, by simpa using h.older⟩

end Allocated

def BindsFresh (setup : Setup) (b : Block) : Prop :=
  ∀ {scope : Scope} {s t : Session} {out : Output Code},
    Gives (compileBlock setup scope b) s out t →
    AllocatedBetween s.nextTemporary t.nextTemporary (Code.boundNames out.statements)

section Blocks

variable {setup : Setup}

theorem bindsFresh_blocks {blocks : List Block} (h : ∀ b ∈ blocks, BindsFresh setup b)
    {scope : Scope} {s t : Session} {out : Output Code}
    (hgives : Gives (compileBlocks setup .all scope blocks) s out t) :
    AllocatedBetween s.nextTemporary t.nextTemporary (Code.boundNames out.statements) := by
  induction blocks generalizing s out with
  | nil =>
    obtain ⟨rfl, rfl⟩ := gives_pure.mp hgives
    exact allocated_nil
  | cons b rest ih =>
    obtain ⟨here, u, later, hhere, hlater, rfl⟩ := gives_compileBlocks_cons.mp hgives
    have hsu := ((growing_block setup scope b).of_gives hhere).nextTemporary
    have hut := ((growing_blocks setup scope rest).of_gives hlater).nextTemporary
    have hrest := ih (fun c hc => h c (List.mem_cons_of_mem _ hc)) hlater
    simpa [Code.boundNames] using (h b List.mem_cons_self hhere).append hrest hsu hut

theorem bindsFresh_level {blocks : List Block} (h : ∀ b ∈ blocks, BindsFresh setup b)
    {scope : Scope} {s t : Session} {out : Output Code}
    (hgives : Gives (compileLevel setup blocks scope fun selection s =>
      compileBlocks setup selection s blocks) s out t) :
    AllocatedBetween s.nextTemporary t.nextTemporary (Code.boundNames out.statements) := by
  obtain ⟨hoisted, token, u, body, v, routines, -, htoken, hbody, hroutines, rfl⟩ :=
    gives_level hgives
  have hsu := ((quiet_levelToken setup blocks _).growing.of_gives htoken).nextTemporary
  have huv := ((growing_blocks setup _ _).of_gives hbody).nextTemporary
  have hvt := ((growing_blocks setup _ _).of_gives hroutines).nextTemporary
  have hframed := bindsFresh_blocks (fun b hb => h b (Block.mem_of_mem_framed hb)) hbody
  have hunframed := bindsFresh_blocks (fun b hb => h b (Block.mem_of_mem_unframed hb)) hroutines
  have hboth := (hframed.append hunframed huv hvt).widen hsu (Nat.le_refl _)
  simpa [Code.boundNames, Output.addDeclarations, Output.mapStatements] using hboth

theorem allBindings_of_isPlain {codes : List Code} (h : ∀ c ∈ codes, c.IsPlain) :
    Code.allBindings codes = [] := by
  induction codes with
  | nil => rfl
  | cons c rest ih =>
    obtain ⟨hc, hrest⟩ := List.forall_mem_cons.mp h
    rw [Code.allBindings, ih hrest]
    cases c with
    | bind | loop | check | trapped | method => cases hc
    | act | trapping | raise | leave | giveBack => rfl

theorem bindsFresh_doLoop {test : Option LoopTest} {body : List Block}
    (ih : ∀ c ∈ body, BindsFresh setup c) : BindsFresh setup (.doLoop test body) := by
  intro scope s t out h
  obtain ⟨head, names, u, flag, v, inner, hhead, hflag, hinner, rfl⟩ := gives_doLoop h
  have hsu := ((quiet_loopTest setup test scope).growing.of_gives hhead).nextTemporary
  have huv := (loopFlag_fresh hflag).1
  have hbody := (bindsFresh_blocks ih hinner).widen (Nat.le_trans hsu huv) (Nat.le_refl _)
  simpa [Code.boundNames, Output.mapStatements, Code.allBindings, Code.bindings] using hbody

theorem bindsFresh_forLoop {counter : Name} {first last : TokenRun} {step : Option TokenRun}
    {body : List Block} (ih : ∀ c ∈ body, BindsFresh setup c) :
    BindsFresh setup (.forLoop counter first last step body) := by
  intro scope s t out h
  obtain ⟨head, lastName, u, stepName, v, flag, w, inner, -, hlast, hstep, hflag, hinner, rfl⟩ :=
    gives_forLoop h
  have hlast' := freshFrom_of_gives (by decide) hlast
  have hstep' := freshFrom_of_gives (by decide) hstep
  have hvw := (loopFlag_fresh hflag).1
  have hwt := ((growing_blocks setup _ body).of_gives hinner).nextTemporary
  have hbody := (bindsFresh_blocks ih hinner).widen hvw (Nat.le_refl _)
  have hsteps := hstep'.allocated.append hbody hstep'.grows (Nat.le_trans hvw hwt)
  have hall := hlast'.allocated.append hsteps hlast'.grows
    (Nat.le_trans hstep'.grows (Nat.le_trans hvw hwt))
  simpa [Code.boundNames, Output.mapStatements, Code.allBindings, Code.bindings] using hall

theorem bindsFresh_withTarget {target : TokenRun} {body : List Block}
    (ih : ∀ c ∈ body, BindsFresh setup c) : BindsFresh setup (.withTarget target body) := by
  intro scope s t out h
  obtain ⟨line, r, name, u, inner, -, -, hname, hinner, rfl⟩ := gives_withTarget h
  have hname' := freshFrom_of_gives (by decide) hname
  have hut := ((growing_blocks setup _ body).of_gives hinner).nextTemporary
  have hall := hname'.allocated.append (bindsFresh_blocks ih hinner) hname'.grows hut
  simpa [Code.boundNames, Output.pushFront, Output.addUndeclared, Code.allBindings, Code.bindings]
    using hall

theorem bindsFresh_routine {kind : RoutineKind} {name : Name} {parameters : List Parameter}
    {body : List Block} (ih : ∀ c ∈ body, BindsFresh setup c) :
    BindsFresh setup (.routine kind name parameters body) := by
  intro scope s t out h
  obtain ⟨-, -, ⟨-, rfl, rfl⟩ | ⟨-, slot, u, level, v, hslot, hlevel, hmethod⟩⟩ := gives_routine h
  · exact allocated_nil
  · obtain ⟨rfl, rfl⟩ := gives_method hmethod
    have hsu := ((quiet_returnSlot setup kind scope).growing.of_gives hslot).nextTemporary
    have hbody := (bindsFresh_level ih hlevel).widen hsu (Nat.le_refl _)
    simpa [Code.boundNames, Output.ofStatements, Code.allBindings, Code.bindings] using hbody

/-- No temporary is bound twice, since each is bound by the block it was allocated for. -/
theorem bindsFresh_block (b : Block) : BindsFresh setup b := by
  induction b using Block.nested_induction with
  | step b ih =>
    cases b with
    | doLoop test body => exact bindsFresh_doLoop ih
    | forLoop counter first last step body => exact bindsFresh_forLoop ih
    | withTarget target body => exact bindsFresh_withTarget ih
    | routine kind name parameters body => exact bindsFresh_routine ih
    | exit | consts | dim | redim | onError | statement =>
      intro scope s t out h
      exact allocated_of_no_bindings (allBindings_of_isPlain (isPlain_of_gives rfl h))

end Blocks

end VbsCompiler
