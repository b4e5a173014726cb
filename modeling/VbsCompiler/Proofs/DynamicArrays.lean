import VbsCompiler.Compile.PlainRenderer
import VbsCompiler.Program
import VbsCompiler.Proofs.Inversion
import VbsCompiler.Proofs.Resizing

/-! Arrays that are declared without bounds. The compiler makes such a variable an array without
dimensions, and since an array keeps its number of dimensions when it is resized, it never gets
any. -/

namespace VbsCompiler

open CompileM

section Emitted

variable {setup : Setup} {scope : Scope} {s t : Session} {out : Output Code}

theorem gives_single_item {α : Type} {f : α → CompileM (Output Code)} {a : α}
    (h : Gives (compileItems f [a]) s out t) : ∃ here, Gives (f a) s here t ∧
      out.statements = here.statements := by
  obtain ⟨here, u, later, hhere, hlater, rfl⟩ := gives_compileItems_cons.mp h
  obtain ⟨rfl, rfl⟩ := gives_pure.mp hlater
  exact ⟨here, hhere, by simp⟩

theorem emitted_dim_without_bounds {name : Name}
    (h : Gives (compileBlock setup scope (.dim [⟨name, some []⟩])) s out t) :
    ∃ target, setup.renderer .reference name.run scope = .ok target ∧ out.statements =
      [.act (some name.line) scope.trapToken [.newArray (some (target.fragment scope)) []]] := by
  rw [compileBlock] at h
  obtain ⟨here, hhere, hout⟩ := gives_single_item h
  rcases gives_dim hhere with ⟨hbounds, -, -⟩ | ⟨bounds, target, rs, hbounds, htarget, hrs, -, rfl⟩
  · cases hbounds
  · obtain rfl : [] = bounds := Option.some.inj hbounds
    cases hrs
    exact ⟨target, htarget, hout⟩

theorem emitted_redim_preserve {name : Name} {runs : List TokenRun}
    (h : Gives (compileBlock setup scope (.redim true [⟨name, runs⟩])) s out t)
    (hvariable : ∀ location, scope.resolve setup.naming name ≠ some (.constant, location)) :
    ∃ target rs, setup.renderer .reference name.run scope = .ok target ∧
      List.Forall₂ (fun run r => setup.renderer .value run scope = .ok r) runs rs ∧
      out.statements = [.act (some name.line) scope.trapToken
        [.resizeArray (target.fragment scope) (rs.map (·.fragment scope))]] := by
  rw [compileBlock] at h
  obtain ⟨here, hhere, hout⟩ := gives_single_item h
  obtain ⟨rs, hrs, -, -, ⟨⟨location, hconstant⟩, -, -⟩ | ⟨-, target, htarget, -, hstatements⟩⟩ :=
    gives_redim hhere
  · exact absurd hconstant (hvariable location)
  · exact ⟨target, rs, htarget, hrs, hout.trans hstatements⟩

end Emitted

namespace Library

variable {σ : Type}

theorem shapeOfBounds_eq_nil_iff {bounds : List Value} {shape : Shape}
    (h : shapeOfBounds bounds = .ok shape) : shape = [] ↔ bounds = [] := by
  rw [← List.length_eq_zero_iff, length_of_mapM_ok h, List.length_eq_zero_iff]

/-- The array that a variable without bounds is given, and then its copy with the bounds. -/
def redimensioned (bounds : List Value) : Action σ Value := do
  let a ← newArray []
  resizeArray a bounds

theorem outcome_redimensioned (bounds : List Value) (w : World σ) :
    (redimensioned bounds).outcome w =
      (resizeArray (.array (w.heap.allocate (Grid.blank [])).1) bounds : Action σ Value).outcome
        { w with heap := (w.heap.allocate (Grid.blank [])).2 } := by
  have hmade : (newArray [] : Action σ Value).outcome w = placed w (.ok (Grid.blank [])) :=
    outcome_newArray [] w
  rw [redimensioned, Action.outcome_bind, hmade]
  rfl

theorem resizedContent_undimensioned {h : Heap} {r : ArrayRef} (hgrid : h.grid r = Grid.blank [])
    (shape : Shape) :
    resizedContent h (.array r) shape =
      if shape = [] then .ok (Grid.blank [])
      else .error
        (.about .subscriptOutOfRange "only the last dimension of an array may be resized") := by
  rw [resizedContent, hgrid]
  cases shape with
  | nil => rfl
  | cons l ls => rfl

theorem outcome_redimensioned_of_shape {bounds : List Value} {shape : Shape}
    (hshape : shapeOfBounds bounds = .ok shape) (w : World σ) :
    (redimensioned bounds).outcome w =
      placed { w with heap := (w.heap.allocate (Grid.blank [])).2 }
        (if bounds = [] then .ok (Grid.blank [])
          else .error
            (.about .subscriptOutOfRange "only the last dimension of an array may be resized")) := by
  have hcontent := resizedContent_undimensioned (Heap.grid_allocated w.heap (Grid.blank [])) shape
  simp only [shapeOfBounds_eq_nil_iff hshape] at hcontent
  rw [outcome_redimensioned, outcome_resizeArray, hshape, ← hcontent]
  rfl

theorem resizeArray_eq_newArray {v : Value} (hv : v.isArray = false) (bounds : List Value) :
    (resizeArray v bounds : Action σ Value) = newArray bounds := by
  cases v with
  | array r => cases hv
  | _ => rfl

end Library

/-- A declaration without bounds becomes a new array without dimensions, and a redimensioning of it
becomes a resizing of what the variable holds. Even where a new array has those bounds, this
succeeds only if there are none; else it fails since the array would get dimensions. A variable that
holds no array does get the new array. -/
theorem undimensioned_array_resizes_iff_no_bounds {σ : Type} :
    (∀ {setup : Setup} {scope : Scope} {name again : Name} {runs : List TokenRun} {s t : Session}
      {out : Output Code},
      Gives (compileBlocks setup .all scope [.dim [⟨name, some []⟩], .redim true [⟨again, runs⟩]])
        s out t →
      (∀ location, scope.resolve setup.naming again ≠ some (.constant, location)) →
      ∃ target held rs, setup.renderer .reference name.run scope = .ok target ∧
        setup.renderer .reference again.run scope = .ok held ∧
        List.Forall₂ (fun run r => setup.renderer .value run scope = .ok r) runs rs ∧
        out.statements =
          [.act (some name.line) scope.trapToken [.newArray (some (target.fragment scope)) []],
            .act (some again.line) scope.trapToken
              [.resizeArray (held.fragment scope) (rs.map (·.fragment scope))]] ∧
        ∀ support, (Operation.newArray (some (target.fragment scope)) []).text support =
          s!"{target.text} = {support.text}.NEWARRAY(new object[0]);") ∧
    ∀ (w : World σ) (bounds : List Value),
      (Library.newArray bounds : Action σ Value).Succeeds w →
      let redim : Action σ Value := Library.redimensioned bounds
      (redim.Succeeds w ↔ bounds = []) ∧
      (bounds = [] → ∃ r w', redim.outcome w = (.ok (.array r), w') ∧
        w'.heap.grid r = Grid.blank []) ∧
      (bounds ≠ [] → ∃ w', redim.outcome w = (.error (.about .subscriptOutOfRange
        "only the last dimension of an array may be resized"), w')) ∧
      ∀ v : Value, v.isArray = false →
        (Library.resizeArray v bounds : Action σ Value).outcome w =
          (Library.newArray bounds).outcome w := by
  constructor
  · intro setup scope name again runs s t out hgives hvariable
    obtain ⟨declared, u, rest, hdeclared, hrest, rfl⟩ := gives_compileBlocks_cons.mp hgives
    obtain ⟨resized, u', none, hresized, hnone, rfl⟩ := gives_compileBlocks_cons.mp hrest
    obtain ⟨rfl, -⟩ := gives_pure.mp hnone
    obtain ⟨target, htarget, hdim⟩ := emitted_dim_without_bounds hdeclared
    obtain ⟨held, rs, hheld, hrs, hredim⟩ := emitted_redim_preserve hresized hvariable
    refine ⟨target, held, rs, htarget, hheld, hrs, by simp [hdim, hredim], fun support => ?_⟩
    simp only [Operation.text, boundsText, List.isEmpty_nil, if_true, String.append_assoc]
    rfl
  · intro w bounds hnew redim
    obtain ⟨a, w', houtcome⟩ := hnew
    rw [Library.outcome_newArray, Library.placed_eq_ok_iff] at houtcome
    obtain ⟨content, hcontent, -, -⟩ := houtcome
    obtain ⟨shape, hshape, -⟩ := Library.bind_eq_ok_iff.mp hcontent
    have hredim : redim.outcome w = _ := Library.outcome_redimensioned_of_shape hshape w
    by_cases hnil : bounds = []
    · rw [if_pos hnil] at hredim
      refine ⟨⟨fun _ => hnil, fun _ => ⟨_, _, hredim⟩⟩,
        fun _ => ⟨_, _, hredim, Heap.grid_allocated _ _⟩, fun hne => absurd hnil hne, ?_⟩
      exact fun v hv => by rw [Library.resizeArray_eq_newArray hv]
    · rw [if_neg hnil] at hredim
      refine ⟨⟨?_, fun h => absurd h hnil⟩, fun h => absurd h hnil, fun _ => ⟨_, hredim⟩, ?_⟩
      · rintro ⟨b, u, hsucceeds⟩
        cases hsucceeds.symm.trans hredim
      · exact fun v hv => by rw [Library.resizeArray_eq_newArray hv]

theorem undimensioned_array_resizes_iff_no_bounds_one_bound :
    let setup : Setup := .caseless (plainRenderer caselessNaming)
    let blocks : List Block :=
      [.dim [⟨⟨"a", 0⟩, some []⟩], .redim true [⟨⟨"A", 1⟩, [[Token.ofText "5" 1]]⟩]]
    let w : World Unit := ⟨{}, ()⟩
    (∃ out t target, Gives (compileBlocks setup .all (.outermost []) blocks) {} out t ∧
      out.statements.head? = some (.act (some 0) none [.newArray (some target) []])) ∧
    (Library.newArray [.long 5] : Action Unit Value).Succeeds w ∧
    ¬ (Library.redimensioned [.long 5] : Action Unit Value).Succeeds w := by
  intro setup blocks w
  obtain ⟨hemitted, hredim⟩ := undimensioned_array_resizes_iff_no_bounds (σ := Unit)
  have hok : ((compileBlocks setup .all (.outermost []) blocks).outcome {}).1.isOk = true := by
    decide +kernel
  have hfree : (Scope.outermost []).resolve setup.naming ⟨"A", 1⟩ = none := by
    decide +kernel
  obtain ⟨out, t, hgives⟩ := exists_gives hok
  obtain ⟨target, held, rs, -, -, -, hstatements, -⟩ :=
    hemitted hgives fun location => by simp [hfree]
  have hnew : (Library.newArray [.long 5] : Action Unit Value).Succeeds w := ⟨_, _, rfl⟩
  refine ⟨⟨out, t, _, hgives, by rw [hstatements]; rfl⟩, hnew, fun hsucceeds => ?_⟩
  obtain ⟨hiff, -⟩ := hredim w [.long 5] hnew
  cases hiff.mp hsucceeds

/-- The two emitted lines compile from a declaration without bounds and its redimensioning, and the
second fails where a new array of that size can be made. -/
theorem declared_dynamic_array_not_redimensioned :
    let blocks : List Block :=
      [.dim [⟨⟨"a", 0⟩, some []⟩], .redim true [⟨⟨"a", 1⟩, [[Token.ofText "5" 1]]⟩]]
    let w : World Unit := ⟨{}, ()⟩
    (compileProgram (plainRenderer caselessNaming) {} blocks).toOption.map
        (·.lines.map (·.content)) =
      some ["_outer.a = _.NEWARRAY(new object[0]);",
        "_outer.a = _.RESIZEARRAY(_outer.a, new object[] \x7b V(5) \x7d);"] ∧
    (Library.newArray [.long 5] : Action Unit Value).Succeeds w ∧
    ∃ w', (Library.redimensioned [.long 5]).outcome w = (.error (.about .subscriptOutOfRange
      "only the last dimension of an array may be resized"), w') := by
  intro blocks w
  refine ⟨?_, ⟨_, _, rfl⟩, _, rfl⟩
  decide +kernel

end VbsCompiler
