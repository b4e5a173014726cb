import VbsCompiler.Proofs.Storage
import VbsCompiler.Workbench.Scripted

/-! Writing arguments back after a call. A call that can be made invokes the member once; then
every argument that the member takes by reference is written back, whatever has failed before. -/

namespace VbsCompiler

open VbsCompiler.Action

variable {σ : Type}

/-- The object has no such member, or it is a property, which has no call with empty brackets. -/
def ObjectRef.Refuses (object : ObjectRef) (member : String) (args : Arguments σ) : Prop :=
  object.member? member = none ∨
    ∃ signature, object.member? member = some signature ∧ signature.kind = .property ∧
      args.count = 0 ∧ args.brackets = true

/-- One write-back: which argument, the value written and how that ended. -/
structure UpdateRun where
  index : Nat
  value : Value
  result : Except ScriptError Unit

namespace Arguments

def update? (args : Arguments σ) (index : Nat) : Option (Value → Action σ Unit) :=
  args.slots[index]?.bind (·.update?)

/-- The arguments to write back after a call of the member, in order. -/
def due (args : Arguments σ) (object : ObjectRef) (member : String) : List Nat :=
  (List.range args.count).filter fun i =>
    object.passesByRef member i && (args.update? i).isSome

/-- The write-backs are run one after the other, each from the world that the one before left. How
one ends has no effect on whether the next is run. -/
inductive Updates (args : Arguments σ) : World σ → List UpdateRun → World σ → Prop where
  | nil {w : World σ} : Updates args w [] w
  | cons {w u w' : World σ} {index : Nat} {update : Value → Action σ Unit} {v : Value}
      {result : Except ScriptError Unit} {rest : List UpdateRun} :
      args.update? index = some update → (update v).outcome w = (result, u) →
      Updates args u rest w' → Updates args w (⟨index, v, result⟩ :: rest) w'

theorem overwrite_of_none {args : Arguments σ} {index : Nat} (hindex : index < args.count)
    (h : args.update? index = Option.none) (v : Value) : args.overwrite index v = pure () := by
  have hslot : args.slots[index]? = some args.slots[index] := List.getElem?_eq_getElem hindex
  have hnone : args.slots[index].update? = Option.none := by
    simpa only [update?, hslot, Option.bind_some] using h
  simp only [overwrite, hslot, hnone]

theorem overwrite_of_some {args : Arguments σ} {index : Nat} {update : Value → Action σ Unit}
    (h : args.update? index = some update) (v : Value) : args.overwrite index v = update v := by
  obtain ⟨slot, hslot, hupdate⟩ := Option.bind_eq_some_iff.mp h
  simp only [overwrite, hslot, hupdate]

end Arguments

section WriteBack

variable {args : Arguments σ} {object : ObjectRef} {member : String}

theorem writeBack_skip {v : Value} {index : Nat} {rest : List (Value × Nat)}
    (h : object.passesByRef member index = false) :
    writeBack object member args ((v, index) :: rest) = writeBack object member args rest := by
  simp only [writeBack, h, Bool.false_eq_true, if_false]

/-- The write-back of one argument goes before the others, and its error is the one that is kept. -/
theorem run_writeBack_cons {v : Value} {index : Nat} {rest : List (Value × Nat)} {w u w' : World σ}
    {here later : Except ScriptError Unit} (h : object.passesByRef member index = true)
    (hhere : (args.overwrite index v).outcome w = (here, u))
    (hlater : (writeBack object member args rest).run u = (later, w')) :
    (writeBack object member args ((v, index) :: rest)).run w = (here >>= fun _ => later, w') := by
  have hrun : (args.overwrite index v).run.run w = (here, u) := hhere
  simp only [writeBack, h, if_true, StateT.run_bind]
  rw [hrun]
  cases here with
  | ok _ =>
    change (((writeBack object member args rest).run u).1,
      ((writeBack object member args rest).run u).2) = _
    rw [hlater]
    rfl
  | error e =>
    change (Except.error e, ((writeBack object member args rest).run u).2) = _
    rw [hlater]
    rfl

/-- All that is due is written back, in order, and the first error is kept. -/
theorem writeBack_runs (args : Arguments σ) (object : ObjectRef) (member : String)
    (values : List (Value × Nat)) (hvalues : ∀ p ∈ values, p.2 < args.count)
    (w : World σ) :
    ∃ runs w', args.Updates w runs w' ∧
      runs.map (·.index) = (values.map Prod.snd).filter (fun i =>
        object.passesByRef member i && (args.update? i).isSome) ∧
      (∀ run ∈ runs, (run.value, run.index) ∈ values) ∧
      (writeBack object member args values).run w = (runs.forM (·.result), w') := by
  induction values generalizing w with
  | nil => exact ⟨[], w, .nil, rfl, by simp, rfl⟩
  | cons p rest ih =>
    obtain ⟨v, index⟩ := p
    have hindex : index < args.count := hvalues _ List.mem_cons_self
    have ih := ih fun p hp => hvalues p (List.mem_cons_of_mem _ hp)
    by_cases hpasses : object.passesByRef member index = true
    · cases hupdate : args.update? index with
      | none =>
        -- The argument is taken by reference but was passed by value.
        obtain ⟨runs, w', hruns, hindices, hmem, hrun⟩ := ih w
        refine ⟨runs, w', hruns, ?_, fun run hr => List.mem_cons_of_mem _ (hmem run hr), ?_⟩
        · simp [hindices, hupdate]
        · have hhere : (args.overwrite index v).outcome w = (.ok (), w) := by
            rw [Arguments.overwrite_of_none hindex hupdate, outcome_pure]
          exact run_writeBack_cons hpasses hhere hrun
      | some update =>
        rcases hhere : (update v).outcome w with ⟨result, u⟩
        obtain ⟨runs, w', hruns, hindices, hmem, hrun⟩ := ih u
        refine ⟨⟨index, v, result⟩ :: runs, w', .cons hupdate hhere hruns, ?_, ?_, ?_⟩
        · simp [hindices, hupdate, hpasses]
        · rintro run (_ | ⟨_, hr⟩)
          · exact List.mem_cons_self
          · exact List.mem_cons_of_mem _ (hmem run hr)
        · rw [← Arguments.overwrite_of_some hupdate v] at hhere
          exact run_writeBack_cons hpasses hhere hrun
    · obtain ⟨runs, w', hruns, hindices, hmem, hrun⟩ := ih w
      have hskip : object.passesByRef member index = false := by simpa using hpasses
      refine ⟨runs, w', hruns, ?_, fun run hr => List.mem_cons_of_mem _ (hmem run hr), ?_⟩
      · simp [hindices, hskip]
      · rw [writeBack_skip hskip]
        exact hrun

theorem outcome_lift {α : Type} (x : StateM (World σ) α) (w : World σ) :
    outcome (ExceptT.lift x) w = (.ok (x.run w).1, (x.run w).2) := rfl

theorem outcome_invokeMember_of_refuses (host : Host σ) (h : object.Refuses member args)
    (w : World σ) :
    (invokeMember host object member args).outcome w = (.error (.notSupported member), w) := by
  unfold invokeMember
  rcases h with hnone | ⟨signature, hsome, hkind, hcount, hbrackets⟩
  · rw [hnone]
    rfl
  · simp only [hsome, hkind, hcount, hbrackets, decide_true, Bool.and_self, if_true]
    rfl

theorem invokeMember_of_not_refuses (host : Host σ) (h : ¬ object.Refuses member args) :
    invokeMember host object member args = do
      let (result, left) ← ExceptT.lift (host.invoke object member args.values.toArray.toVector)
      let written ← ExceptT.lift (writeBack object member args left.toList.zipIdx)
      let value ← ofExcept result
      ofExcept written
      return value := by
  unfold invokeMember
  cases hmember : object.member? member with
  | none => exact absurd (.inl hmember) h
  | some signature =>
    have hallowed : ¬ (signature.kind = .property && args.count = 0 && args.brackets) = true := by
      intro hrefused
      simp only [Bool.and_eq_true, decide_eq_true_eq] at hrefused
      exact h (.inr ⟨signature, hmember, hrefused.1.1, hrefused.1.2, hrefused.2⟩)
    dsimp only
    rw [if_neg hallowed]

theorem outcome_invokeMember (host : Host σ) (h : ¬ object.Refuses member args) {w u : World σ}
    {result : Except ScriptError Value} {left : Vector Value args.values.toArray.size}
    (hinvoke : (host.invoke object member args.values.toArray.toVector).run w =
      ((result, left), u)) :
    ∃ runs w', args.Updates u runs w' ∧ runs.map (·.index) = args.due object member ∧
      (∀ run ∈ runs, left.toList[run.index]? = some run.value) ∧
      (invokeMember host object member args).outcome w =
        (do let v ← result; runs.forM (·.result); return v, w') := by
  have hlength : left.toList.length = args.count := by
    rw [Vector.length_toList]
    simp [Arguments.values, Arguments.count]
  have hvalues : ∀ p ∈ left.toList.zipIdx, p.2 < args.count := by
    intro p hp
    have hlt := List.snd_lt_of_mem_zipIdx hp
    omega
  obtain ⟨runs, w', hruns, hindices, hmem, hrun⟩ :=
    writeBack_runs args object member left.toList.zipIdx hvalues u
  refine ⟨runs, w', hruns, ?_, fun run hr => List.mem_zipIdx_iff_getElem?.mp (hmem run hr), ?_⟩
  · rw [hindices, List.zipIdx_map_snd, ← List.range_eq_range', hlength]
    rfl
  · rw [invokeMember_of_not_refuses host h, outcome_bind, outcome_lift, hinvoke]
    dsimp only
    rw [outcome_bind, outcome_lift, hrun]
    cases result with
    | error e => rfl
    | ok v =>
      dsimp only
      rw [outcome_bind, outcome_ofExcept]
      dsimp only
      rw [outcome_bind, outcome_ofExcept]
      cases runs.forM (·.result) <;> rfl

/-- The path leads to the member: by its name, or by indexing an object of which it is the default
member. -/
def ObjectRef.Addresses (object : ObjectRef) (path : List String) (args : Arguments σ)
    (member : String) : Prop :=
  path = [member] ∨
    path = [] ∧ object.defaultMember = some member ∧ (args.count ≠ 0 ∨ args.brackets = true)

theorem call_eq_invokeMember (host : Host σ) {path : List String}
    (h : object.Addresses path args member) :
    (Library.mk (.standard host)).call (.object object) path args =
      invokeMember host object member args := by
  rcases h with rfl | ⟨rfl, hdefault, hargs⟩
  · rfl
  · have hindexes : ¬ (args.count = 0 && !args.brackets) = true := by
      simp only [Bool.and_eq_true, decide_eq_true_eq, Bool.not_eq_true']
      rintro ⟨hcount, hbrackets⟩
      rcases hargs with hcount' | hbrackets'
      · exact hcount' hcount
      · rw [hbrackets] at hbrackets'
        cases hbrackets'
    change callTarget host (.object object) args = _
    rw [callTarget, if_neg hindexes]
    simp only [hdefault]

/-- A call of a member that is not there, or of a property with empty brackets, fails with error 438
and does nothing. Every other call invokes the member once, on the values passed. Then, whether or
not that failed, each argument that the member takes by reference and that can be written back is
written back once, in order, with the value left in it, and no other is; that one write-back fails
does not stop the next. The call ends with the error of the member, else with the first error of a
write-back, else with the value of the member. -/
theorem call_writes_back (host : Host σ) (object : ObjectRef) (member : String)
    (args : Arguments σ) (path : List String) (hpath : object.Addresses path args member)
    (w : World σ) :
    let lib : Library σ := ⟨.standard host⟩
    (object.Refuses member args →
      (lib.call (.object object) path args).outcome w = (.error (.notSupported member), w) ∧
      (ScriptError.notSupported member).number = 438) ∧
    (¬ object.Refuses member args → ∃ result left u runs w',
      (host.invoke object member args.values.toArray.toVector).run w = ((result, left), u) ∧
      args.Updates u runs w' ∧ runs.map (·.index) = args.due object member ∧
      (∀ run ∈ runs, left.toList[run.index]? = some run.value) ∧
      (lib.call (.object object) path args).outcome w =
        (do let v ← result; runs.forM (·.result); return v, w')) := by
  intro lib
  have hcall : lib.call (.object object) path args = invokeMember host object member args :=
    call_eq_invokeMember host hpath
  rw [hcall]
  refine ⟨fun hrefuses => ⟨outcome_invokeMember_of_refuses host hrefuses w, rfl⟩, fun hallows => ?_⟩
  rcases hinvoke : (host.invoke object member args.values.toArray.toVector).run w with
    ⟨⟨result, left⟩, u⟩
  obtain ⟨runs, w', hruns, hindices, hvalues, houtcome⟩ :=
    outcome_invokeMember host hallows hinvoke
  exact ⟨result, left, u, runs, w', rfl, hruns, hindices, hvalues, houtcome⟩

end WriteBack

/-- The member leaves 7 in each of its arguments and fails; of the two that it takes by reference
the first cannot be written back, and the second still is. -/
theorem call_writes_back_after_two_failures :
    let member : ScriptedMember :=
      { signature := ⟨"m", .method, [0, 2]⟩
        writes := [(0, .long 7), (1, .long 7), (2, .long 7)]
        outcome := .fail (.raised .overflow none) }
    let script : ScriptedObject := ⟨"T", some "m", [member]⟩
    let w : World Stage := ⟨{}, { objects := #[script] }⟩
    let args : Arguments Stage :=
      { slots := [Stage.variableSlot "a" .empty (some (.raised .outOfMemory none)),
          Stage.variableSlot "b" .empty none, Stage.variableSlot "c" .empty none] }
    let lib : Library Stage := ⟨.standard Stage.host⟩
    (script.ref 0).Addresses [] args "m" ∧ ¬ (script.ref 0).Refuses "m" args ∧
    ∃ u runs w', args.Updates u runs w' ∧ runs.map (·.index) = [0, 2] ∧
      (lib.call (.object (script.ref 0)) [] args).outcome w =
        (.error (.raised .overflow none), w') ∧
      w'.objects.vars = [("c", .long 7)] := by
  intro member script w args lib
  have hpath : (script.ref 0).Addresses [] args "m" := .inr ⟨rfl, rfl, .inl (by decide)⟩
  have hallows : ¬ (script.ref 0).Refuses "m" args := by
    rintro (hnone | ⟨signature, hsome, hkind, -⟩)
    · cases hnone
    · cases hsome
      cases hkind
  obtain ⟨result, left, u, runs, w', -, hruns, hindices, -, houtcome⟩ :=
    (call_writes_back Stage.host (script.ref 0) "m" args [] hpath w).2 hallows
  have hworld : ((lib.call (.object (script.ref 0)) [] args).outcome w).2.objects.vars =
      [("c", .long 7)] := rfl
  have hresult : ((lib.call (.object (script.ref 0)) [] args).outcome w).1 =
      .error (.raised .overflow none) := rfl
  have hvars : w'.objects.vars = [("c", .long 7)] := by
    rw [houtcome] at hworld
    exact hworld
  refine ⟨hpath, hallows, u, runs, w', hruns, hindices, ?_, hvars⟩
  rw [houtcome] at hresult ⊢
  exact Prod.ext hresult rfl

end VbsCompiler
