import VbsCompiler.Compile.PlainRenderer
import VbsCompiler.Proofs.Bindings

/-! The supply of temporaries. The search for a number ends at the first one whose temporary is
not the identifier of a visible name, and the counter only moves up; so runs that share a supply,
failed ones included, never allocate a temporary twice. -/

namespace VbsCompiler

open CompileM

/-- From `k` on, `m` is the first number whose temporary is not taken. -/
structure FirstFree (stem : String) (taken : List Ident) (k m : Nat) : Prop where
  le : k ≤ m
  passed : ∀ j, k ≤ j → j < m → temporary stem j ∈ taken
  free : temporary stem m ∉ taken

/-- The search from `k` on, number by number, ends at `m`. -/
inductive SearchEnds (stem : String) (taken : List Ident) : Nat → Nat → Prop
  | free {k : Nat} (hfree : temporary stem k ∉ taken) : SearchEnds stem taken k k
  | clash {k m : Nat} (hclash : temporary stem k ∈ taken)
      (hrest : SearchEnds stem taken (k + 1) m) : SearchEnds stem taken k m

section Search

variable {stem : String} {taken : List Ident} {k m : Nat}

theorem SearchEnds.firstFree (h : SearchEnds stem taken k m) : FirstFree stem taken k m := by
  induction h with
  | free hfree => exact ⟨Nat.le_refl _, fun j hj hlt => by omega, hfree⟩
  | @clash k m hclash _ ih =>
    have hle := ih.le
    refine ⟨by omega, fun j hj hlt => ?_, ih.free⟩
    by_cases hjk : j = k
    · exact hjk ▸ hclash
    · exact ih.passed j (by omega) hlt

/-- The search makes one step less from the next number on. -/
theorem FirstFree.searchEnds (h : FirstFree stem taken k m) : SearchEnds stem taken k m := by
  have hle := h.le
  obtain ⟨n, hn⟩ : ∃ n, m = k + n := ⟨m - k, by omega⟩
  induction n generalizing k with
  | zero =>
    have hkm : k = m := by omega
    subst hkm
    exact .free h.free
  | succ n ih =>
    have hclash := h.passed k (by omega) (by omega)
    have hnext : FirstFree stem taken (k + 1) m :=
      ⟨by omega, fun j hj hlt => h.passed j (by omega) hlt, h.free⟩
    exact .clash hclash (ih hnext (by omega) (by omega))

theorem FirstFree.unique {m' : Nat} (h : FirstFree stem taken k m)
    (h' : FirstFree stem taken k m') : m' = m := by
  have hle := h.le
  have hle' := h'.le
  have hnot : ¬ m < m' := fun hlt => h.free (h'.passed m hle hlt)
  have hnot' : ¬ m' < m := fun hlt => h'.free (h.passed m' hle' hlt)
  omega

theorem firstFree_freshNumber (stem : String) (taken : List Ident) (k : Nat) :
    FirstFree stem taken k (freshNumber stem taken k) := by
  refine ⟨le_freshNumber _ _ _, fun j hj hlt => ?_, temporary_freshNumber_not_mem _ _ _⟩
  obtain ⟨i, rfl⟩ : ∃ i, j = k + i := ⟨j - k, by omega⟩
  have hi : i < (List.range (taken.length + 1)).findIdx
      fun i => !taken.contains (temporary stem (k + i)) := by
    rw [freshNumber] at hlt
    omega
  have htaken := List.not_of_lt_findIdx hi
  simpa using htaken

theorem searchEnds_iff : SearchEnds stem taken k m ↔ m = freshNumber stem taken k := by
  constructor
  · intro h
    exact (firstFree_freshNumber stem taken k).unique h.firstFree
  · rintro rfl
    exact (firstFree_freshNumber stem taken k).searchEnds

example : freshNumber "exitDo" [⟨"exitDo3"⟩, ⟨"exitDo2"⟩, ⟨"exitFor4"⟩] 2 = 4 := by decide

end Search

section Resolve

variable {naming : Naming} {scope : Scope}

theorem isSome_findDeclared_iff {id : Ident} {p : Declaration → Bool} :
    (scope.findDeclared naming id p).isSome ↔
      ∃ c ∈ scope.catalogs, ∃ d ∈ c.2, p d = true ∧ naming d.name = id := by
  simp only [Scope.findDeclared, List.isSome_findSome?, Option.isSome_map, List.any_eq_true,
    List.isSome_find?, Bool.and_eq_true, decide_eq_true_eq]

theorem mem_taken_iff {id : Ident} :
    id ∈ scope.taken naming ↔ (∃ c ∈ scope.catalogs, ∃ d ∈ c.2, naming d.name = id) ∨
      ∃ e ∈ scope.environment, naming e = id := by
  simp [Scope.taken, Scope.catalogs, or_assoc, or_and_right, exists_or]

/-- The search for a free number looks at the very names that references find. -/
theorem isSome_resolve_iff {n : Name} :
    (scope.resolve naming n).isSome ↔ naming n ∈ scope.taken naming := by
  have henvironment : ((if scope.environment.any (fun e => naming e = naming n)
      then some (NameKind.environment, Location.outermost) else none).isSome = true) ↔
        ∃ e ∈ scope.environment, naming e = naming n := by
    simp
  simp only [Scope.resolve, Option.orElse_eq_orElse, Option.orElse_eq_or, Option.isSome_or,
    Bool.or_eq_true, isSome_findDeclared_iff, henvironment, mem_taken_iff]
  constructor
  · rintro (⟨c, hc, d, hd, -, hid⟩ | ⟨c, hc, d, hd, -, hid⟩ | he)
    · exact .inl ⟨c, hc, d, hd, hid⟩
    · exact .inl ⟨c, hc, d, hd, hid⟩
    · exact .inr he
  · rintro (⟨c, hc, d, hd, hid⟩ | he)
    · exact .inr (.inl ⟨c, hc, d, hd, trivial, hid⟩)
    · exact .inr (.inr he)

end Resolve

namespace Session

/-- The temporaries of the session are distinct, have numbers from `start` on, below the counter,
and stems that compilations use. -/
structure SuppliedFrom (start : Nat) (s : Session) : Prop where
  le : start ≤ s.nextTemporary
  allocated : AllocatedBetween start s.nextTemporary s.temporaries
  stem : ∀ id ∈ s.temporaries, ∃ stem ∈ temporaryStems, ∃ k, start ≤ k ∧ id = temporary stem k

def suppliedBy (own supply : Session) : Session :=
  { own with nextTemporary := supply.nextTemporary, temporaries := supply.temporaries }

variable {start : Nat} {s t : Session}

theorem suppliedFrom_start (start : Nat) : SuppliedFrom start { nextTemporary := start } :=
  ⟨Nat.le_refl _, allocated_nil, by simp⟩

theorem SuppliedFrom.suppliedBy (h : SuppliedFrom start s) (own : Session) :
    SuppliedFrom start (own.suppliedBy s) :=
  ⟨h.le, h.allocated, h.stem⟩

theorem SuppliedFrom.allocate (h : SuppliedFrom start s) {stem : String}
    (hstem : stem ∈ temporaryStems) (naming : Naming) (scope : Scope) :
    SuppliedFrom start
      (s.allocated stem (freshNumber stem (scope.taken naming) s.nextTemporary)) := by
  have hends : IsStem stem := by
    have hall : ∀ stem ∈ temporaryStems, IsStem stem := by decide
    exact hall stem hstem
  have hle := Nat.le_trans h.le (le_freshNumber stem (scope.taken naming) s.nextTemporary)
  have hfresh := freshFrom_of_gives hends (outcome_freshTemporary naming stem scope s)
  have hgrows := hfresh.grows
  refine ⟨Nat.le_trans h.le hgrows, h.allocated.append hfresh.allocated h.le hgrows,
    fun id hid => ?_⟩
  rcases List.mem_append.mp hid with hid | hid
  · exact h.stem id hid
  · exact ⟨stem, hstem, _, hle, List.mem_singleton.mp hid⟩

theorem QuietStep.suppliedFrom (hstep : QuietStep s t) (h : SuppliedFrom start s) :
    SuppliedFrom start t := by
  cases hstep with
  | call call => exact ⟨h.le, h.allocated, h.stem⟩
  | allocate hstem naming scope => exact h.allocate hstem naming scope

theorem Step.suppliedFrom (hstep : Step s t) (h : SuppliedFrom start s) : SuppliedFrom start t := by
  cases hstep with
  | quiet hquiet => exact hquiet.suppliedFrom h
  | report name =>
    obtain ⟨-, hnext, htemporaries⟩ := reported_fields s name
    refine ⟨?_, ?_, ?_⟩
    · rw [hnext]
      exact h.le
    · rw [hnext, htemporaries]
      exact h.allocated
    · rw [htemporaries]
      exact h.stem

/-- No run of a session takes a number twice. -/
theorem suppliedFrom_of_steps (hsteps : Relation.ReflTransGen Step s t)
    (h : SuppliedFrom start s) : SuppliedFrom start t := by
  induction hsteps with
  | refl => exact h
  | tail _ hstep ih => exact hstep.suppliedFrom ih

end Session

/-- The supply after runs that share it, each in a session of its own compiler. -/
def supplyAfter (start : Nat) (runs : List (Session × Run)) : Session :=
  runs.foldl (fun supply own => own.2.leaves (own.1.suppliedBy supply)) { nextTemporary := start }

theorem suppliedFrom_supplyAfter (start : Nat) (runs : List (Session × Run)) :
    (supplyAfter start runs).SuppliedFrom start := by
  unfold supplyAfter
  have hstart := Session.suppliedFrom_start start
  generalize ({ nextTemporary := start } : Session) = supply at hstart
  induction runs generalizing supply with
  | nil => exact hstart
  | cons own rest ih =>
    exact ih _ (Session.suppliedFrom_of_steps (own.2.steps _) (hstart.suppliedBy own.1))

/-- Allocating a temporary ends, at the first number whose temporary clashes with no visible name,
and no name of that identifier refers to anything in the scope. Runs that share a supply, each
with its own compiler or not, fail or not, never allocate a temporary twice. -/
theorem temporaries_fresh_and_distinct :
    (∀ (naming : Naming) (stem : String) (scope : Scope) (s : Session), ∃ k,
      FirstFree stem (scope.taken naming) s.nextTemporary k ∧
      (∀ m, SearchEnds stem (scope.taken naming) s.nextTemporary m ↔ m = k) ∧
      (freshTemporary naming stem scope).outcome s = (.ok (temporary stem k),
        { s with nextTemporary := k + 1, temporaries := s.temporaries ++ [temporary stem k] }) ∧
      ∀ n, naming n = temporary stem k → scope.resolve naming n = none) ∧
    ∀ (start : Nat) (runs : List (Session × Run)),
      (supplyAfter start runs).temporaries.Nodup ∧
      ∀ id ∈ (supplyAfter start runs).temporaries,
        ∃ stem ∈ temporaryStems, ∃ k, start ≤ k ∧ id = temporary stem k := by
  refine ⟨fun naming stem scope s => ?_, fun start runs => ?_⟩
  · have hfirst := firstFree_freshNumber stem (scope.taken naming) s.nextTemporary
    refine ⟨_, hfirst, fun m => searchEnds_iff, rfl, fun n hn => ?_⟩
    by_contra hsome
    have hmem := isSome_resolve_iff.mp (Option.isSome_iff_ne_none.mpr hsome)
    rw [hn] at hmem
    exact hfirst.free hmem
  · have hsupplied := suppliedFrom_supplyAfter start runs
    exact ⟨hsupplied.allocated.nodup, hsupplied.stem⟩

/-- A run that fails in `WITH a : EXIT DO` before one that succeeds, with a compiler each. -/
theorem temporaries_fresh_and_distinct_after_failure :
    let setup := Setup.caseless (plainRenderer caselessNaming)
    let failing : Run := ⟨setup, {}, .outermost [],
      [.withTarget [Token.ofText "a" 0] [.exit (.loop .doLoop) 1]]⟩
    let working : Run := ⟨setup, {}, .outermost [],
      [.withTarget [Token.ofText "a" 0] [.onError .start 1]]⟩
    (supplyAfter 1 [({}, failing), ({}, working)]).temporaries =
        [⟨"with1"⟩, ⟨"errOn2"⟩, ⟨"with3"⟩] ∧
      (supplyAfter 1 [({}, failing), ({}, working)]).temporaries.Nodup := by
  intro setup failing working
  exact ⟨by decide +kernel, (temporaries_fresh_and_distinct.2 1 _).1⟩

end VbsCompiler
