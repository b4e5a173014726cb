import Mathlib.Algebra.BigOperators.Ring.List
import Mathlib.Algebra.GroupWithZero.Nat
import Mathlib.Data.List.Perm.Basic
import Mathlib.Data.List.TakeWhile
import VbsCompiler.Proofs.Storage

/-! Which arrays can be allocated. The number of elements is multiplied up from the left in a
machine word before it is compared with the limit, so an empty dimension saves an array from the
limit only if the product of the lengths before it still fits the word. -/

namespace VbsCompiler

namespace Shape

/-- The lengths before the first empty dimension. -/
def leading (shape : Shape) : Shape :=
  shape.takeWhile (· ≠ 0)

theorem count_eq_prod (shape : Shape) : count shape = shape.prod := by
  induction shape with
  | nil => rfl
  | cons l ls ih => rw [count, ih, List.prod_cons]

theorem ne_zero_of_mem_leading {shape : Shape} {l : Nat} (h : l ∈ shape.leading) : l ≠ 0 := by
  have hne := List.mem_takeWhile_imp h
  simpa using hne

theorem count_leading_pos (shape : Shape) : 0 < count shape.leading := by
  rw [count_eq_prod]
  exact Nat.pos_of_ne_zero (List.prod_ne_zero fun hmem => ne_zero_of_mem_leading hmem rfl)

theorem leading_cons_zero (ls : Shape) : leading (0 :: ls) = [] := by
  simp [leading]

theorem leading_cons {l : Nat} (hl : l ≠ 0) (ls : Shape) :
    leading (l :: ls) = l :: leading ls := by
  simp [leading, hl]

/-- The running product from `start` stays in the word exactly if it does so up to the first empty
dimension; from there on it is zero. -/
theorem foldlM_word_eq_some_iff {shape : Shape} {start n : Nat} (hstart : start < wordSize) :
    shape.foldlM (fun n l => if n * l < wordSize then some (n * l) else none) start = some n ↔
      start * count shape.leading < wordSize ∧ n = start * count shape := by
  induction shape generalizing start with
  | nil => simp [leading, count, hstart, eq_comm]
  | cons l ls ih =>
    rw [List.foldlM_cons]
    by_cases hl : l = 0
    · subst hl
      have hzero : (0 : Nat) < wordSize := by decide
      have hrest := ih hzero
      simp only [Nat.mul_zero, Nat.zero_mul, hzero, if_true, Option.bind_eq_bind, Option.bind_some,
        true_and] at hrest ⊢
      rw [hrest, leading_cons_zero]
      simp [count, hstart]
    · rw [leading_cons hl, count, count, ← Nat.mul_assoc, ← Nat.mul_assoc]
      by_cases hnext : start * l < wordSize
      · rw [if_pos hnext]
        exact ih hnext
      · have hpos := count_leading_pos ls
        have hle : start * l ≤ start * l * count (leading ls) := Nat.le_mul_of_pos_right _ hpos
        have hlarge : ¬ start * l * count (leading ls) < wordSize := by omega
        rw [if_neg hnext]
        simp [hlarge]

theorem wordCount?_eq_some_iff {shape : Shape} {n : Nat} :
    shape.wordCount? = some n ↔ count shape.leading < wordSize ∧ n = count shape := by
  have hone : 1 < wordSize := by decide
  rw [wordCount?, foldlM_word_eq_some_iff hone, Nat.one_mul, Nat.one_mul]

theorem check_eq_ok_iff {shape : Shape} :
    shape.check = .ok () ↔ count shape.leading < wordSize ∧ count shape ≤ maxCount := by
  have hany : shape.wordCount?.any (· ≤ maxCount) = true ↔
      count shape.leading < wordSize ∧ count shape ≤ maxCount := by
    rw [Option.any_eq_true]
    simp only [wordCount?_eq_some_iff, decide_eq_true_eq]
    constructor
    · rintro ⟨n, ⟨hfits, rfl⟩, hle⟩
      exact ⟨hfits, hle⟩
    · rintro ⟨hfits, hle⟩
      exact ⟨_, ⟨hfits, rfl⟩, hle⟩
  rw [check, ← hany]
  by_cases hfits : shape.wordCount?.any (· ≤ maxCount) = true
  · rw [if_pos hfits]
    exact iff_of_true rfl hfits
  · rw [if_neg hfits]
    simp [hfits]

theorem check_eq_error {shape : Shape} {e : ScriptError} (h : shape.check = .error e) :
    e = .about .outOfMemory s!"array dimensions {shape.text}" := by
  rw [check] at h
  split at h
  · cases h
  · exact (Except.error.inj h).symm

theorem leading_eq_self {shape : Shape} (h : 0 ∉ shape) : shape.leading = shape := by
  rw [leading, List.takeWhile_eq_self_iff]
  intro l hl
  have hne : l ≠ 0 := fun hzero => h (hzero ▸ hl)
  simp [hne]

theorem prod_leading_le (shape : Shape) : shape.leading.prod ≤ (shape.filter (· ≠ 0)).prod := by
  have hleading : shape.leading.filter (· ≠ 0) = shape.leading :=
    List.filter_eq_self.mpr fun _ hl => decide_eq_true (ne_zero_of_mem_leading hl)
  have hsplit : shape.filter (· ≠ 0) =
      shape.leading ++ (shape.dropWhile (· ≠ 0)).filter (· ≠ 0) := by
    calc shape.filter (· ≠ 0)
        = (shape.leading ++ shape.dropWhile (· ≠ 0)).filter (· ≠ 0) := by
          rw [leading, List.takeWhile_append_dropWhile]
      _ = shape.leading ++ (shape.dropWhile (· ≠ 0)).filter (· ≠ 0) := by
          rw [List.filter_append, hleading]
  have hpos : ((shape.dropWhile (· ≠ 0)).filter (· ≠ 0)).prod ≠ 0 := by
    apply List.prod_ne_zero
    intro hmem
    have hne := (List.mem_filter.mp hmem).2
    simp at hne
  rw [hsplit, List.prod_append]
  exact Nat.le_mul_of_pos_right _ (Nat.pos_of_ne_zero hpos)

/-- The word is not overflowed before an empty dimension, whatever the order of the dimensions. -/
def FitsInAnyOrder (shape : Shape) : Prop :=
  0 ∈ shape → (shape.filter (· ≠ 0)).prod < wordSize

theorem fitsInAnyOrder_perm {shape shape' : Shape} (h : shape'.Perm shape) :
    shape'.FitsInAnyOrder ↔ shape.FitsInAnyOrder := by
  rw [FitsInAnyOrder, FitsInAnyOrder, h.mem_iff, (h.filter _).prod_eq]

theorem check_eq_ok_iff_prod {shape : Shape} :
    shape.check = .ok () ↔
      shape.prod ≤ maxCount ∧ (0 ∈ shape → shape.leading.prod < wordSize) := by
  rw [check_eq_ok_iff, count_eq_prod, count_eq_prod]
  by_cases hempty : 0 ∈ shape
  · simp [hempty, and_comm]
  · have hlimit : maxCount < wordSize := by decide
    rw [leading_eq_self hempty]
    simp only [hempty, false_imp_iff, and_true, and_iff_right_iff_imp]
    omega

/-- If the word is not overflowed before an empty dimension, only the limit decides. -/
theorem check_eq_ok_iff_of_fits {shape : Shape} (h : shape.FitsInAnyOrder) :
    shape.check = .ok () ↔ shape.prod ≤ maxCount := by
  rw [check_eq_ok_iff_prod, and_iff_left_iff_imp]
  intro _ hempty
  exact Nat.lt_of_le_of_lt (prod_leading_le shape) (h hempty)

def ofBounds (us : List Int32) : Shape :=
  us.map fun u => (u.toInt + 1).toNat

end Shape

theorem Grid.allocate_eq_ok_iff {shape : Shape} {g : Grid} :
    allocate shape = .ok g ↔ shape.check = .ok () ∧ g = blank shape := by
  rw [allocate]
  cases shape.check with
  | error e => simp [Except.map]
  | ok u => simp [Except.map, eq_comm]

theorem Grid.allocate_eq_error {shape : Shape} {e : ScriptError} (h : allocate shape = .error e) :
    e = .about .outOfMemory s!"array dimensions {shape.text}" := by
  rw [allocate] at h
  cases hcheck : shape.check with
  | error e' =>
    rw [hcheck] at h
    obtain rfl : e' = e := Except.error.inj h
    exact Shape.check_eq_error hcheck
  | ok u =>
    rw [hcheck] at h
    cases h

def Action.Succeeds {σ α : Type} (x : Action σ α) (w : World σ) : Prop :=
  ∃ a w', x.outcome w = (.ok a, w')

namespace Library

variable {σ : Type}

theorem lengthOfBound_eq_ok_iff {v : Value} {l : Nat} :
    lengthOfBound v = .ok l ↔
      ∃ u, v.toIndex = .ok u ∧ (-1 ≤ u.toInt ∧ u.toInt < Value.maxIndex) ∧
        l = (u.toInt + 1).toNat := by
  rw [lengthOfBound]
  cases v.toIndex with
  | error e =>
    simp only [reduceCtorEq, false_and, exists_false, iff_false]
    intro h
    cases h
  | ok u =>
    have hlt : u.toInt < 2 ^ 31 := u.toInt_lt
    have hmax : Value.maxIndex = 2 ^ 31 - 1 := by decide
    change (if u.toInt = Value.maxIndex then _ else if u.toInt < -1 then _ else _) = _ ↔ _
    by_cases htop : u.toInt = Value.maxIndex
    · rw [if_pos htop]
      simp [htop]
    · by_cases hlow : u.toInt < -1
      · rw [if_neg htop, if_pos hlow]
        simp only [reduceCtorEq, Except.ok.injEq, exists_eq_left', false_iff]
        omega
      · rw [if_neg htop, if_neg hlow]
        simp only [Except.ok.injEq, exists_eq_left']
        omega

theorem shapeOfBounds_of_indices {bounds : List Value} {us : List Int32}
    (hus : bounds.mapM Value.toIndex = .ok us)
    (hrange : ∀ u ∈ us, -1 ≤ u.toInt ∧ u.toInt < Value.maxIndex) :
    shapeOfBounds bounds = .ok (Shape.ofBounds us) := by
  rw [mapM_eq_ok_iff] at hus
  rw [shapeOfBounds, mapM_eq_ok_iff, Shape.ofBounds, List.forall₂_map_right_iff]
  rw [List.forall₂_iff_zip] at hus ⊢
  refine ⟨hus.1, fun {v u} hmem => ?_⟩
  exact lengthOfBound_eq_ok_iff.mpr ⟨u, hus.2 hmem, hrange u (List.of_mem_zip hmem).2, rfl⟩

theorem bind_eq_ok_iff {ε α β : Type} {x : Except ε α} {f : α → Except ε β} {b : β} :
    x >>= f = .ok b ↔ ∃ a, x = .ok a ∧ f a = .ok b := by
  cases x with
  | error e =>
    simp only [reduceCtorEq, false_and, exists_false, iff_false]
    intro h
    cases h
  | ok a => exact ⟨fun h => ⟨a, rfl, h⟩, fun ⟨_, ha, h⟩ => Except.ok.inj ha ▸ h⟩

def placed (w : World σ) : Except ScriptError Grid → Except ScriptError Value × World σ
  | .ok g => (.ok (.array (w.heap.allocate g).1), { w with heap := (w.heap.allocate g).2 })
  | .error e => (.error e, w)

theorem placed_eq_ok_iff {w w' : World σ} {content : Except ScriptError Grid} {a : Value} :
    placed w content = (.ok a, w') ↔
      ∃ g, content = .ok g ∧ a = .array (w.heap.allocate g).1 ∧
        w' = { w with heap := (w.heap.allocate g).2 } := by
  cases content with
  | error e => simp [placed]
  | ok g => simp [placed, eq_comm]

theorem outcome_place (content : Except ScriptError Grid) (w : World σ) :
    (ofExcept content >>= Action.allocate : Action σ Value).outcome w = placed w content := by
  cases content with
  | error e => rfl
  | ok g => rfl

theorem outcome_newArray (bounds : List Value) (w : World σ) :
    (newArray bounds : Action σ Value).outcome w =
      placed w (shapeOfBounds bounds >>= Grid.allocate) := by
  rw [newArray, Action.outcome_bind, Action.outcome_ofExcept]
  cases shapeOfBounds bounds with
  | error e => rfl
  | ok shape => exact outcome_place (Grid.allocate shape) w

theorem succeeds_newArray_iff {bounds : List Value} {shape : Shape}
    (hshape : shapeOfBounds bounds = .ok shape) (w : World σ) :
    (newArray bounds : Action σ Value).Succeeds w ↔ shape.check = .ok () := by
  simp only [Action.Succeeds, outcome_newArray, placed_eq_ok_iff, bind_eq_ok_iff, hshape,
    Except.ok.injEq, exists_eq_left', Grid.allocate_eq_ok_iff]
  constructor
  · rintro ⟨a, w', g, ⟨hcheck, -⟩, -, -⟩
    exact hcheck
  · intro hcheck
    exact ⟨_, _, _, ⟨hcheck, rfl⟩, rfl, rfl⟩

end Library

/-- A new array is allocated exactly if its elements are within the limit and, where a dimension is
empty, the lengths before the first empty one fit the word; otherwise memory runs out and nothing
changes. Only if the lengths of the dimensions that are not empty leave the word does it matter
where the empty ones stand. -/
theorem allocated_iff_within_limit_and_word {σ : Type} (w : World σ) {bounds : List Value}
    {us : List Int32} (hus : bounds.mapM Value.toIndex = .ok us)
    (hrange : ∀ u ∈ us, -1 ≤ u.toInt ∧ u.toInt < Value.maxIndex) :
    let lengths : List Nat := us.map fun u => (u.toInt + 1).toNat
    let made : Action σ Value := Library.newArray bounds
    (made.Succeeds w ↔ lengths.prod ≤ Shape.maxCount ∧
      (0 ∈ lengths → (lengths.takeWhile (· ≠ 0)).prod < Shape.wordSize)) ∧
    (¬ made.Succeeds w → ∃ detail, made.outcome w = (.error (.about .outOfMemory detail), w)) ∧
    ((0 ∈ lengths → (lengths.filter (· ≠ 0)).prod < Shape.wordSize) →
      (made.Succeeds w ↔ lengths.prod ≤ Shape.maxCount) ∧
      ∀ reordered, reordered.Perm bounds →
        ((Library.newArray reordered : Action σ Value).Succeeds w ↔ made.Succeeds w)) := by
  intro lengths made
  have hshape := Library.shapeOfBounds_of_indices hus hrange
  have hiff := Library.succeeds_newArray_iff (σ := σ) hshape w
  refine ⟨hiff.trans Shape.check_eq_ok_iff_prod, fun hfails => ?_, fun hfits => ?_⟩
  · cases hcheck : Grid.allocate (Shape.ofBounds us) with
    | ok g => exact absurd (hiff.mpr (Grid.allocate_eq_ok_iff.mp hcheck).1) hfails
    | error e =>
      have houtcome : made.outcome w = Library.placed w (Grid.allocate (Shape.ofBounds us)) := by
        rw [Library.outcome_newArray, hshape]
        rfl
      rw [houtcome, hcheck, Grid.allocate_eq_error hcheck]
      exact ⟨_, rfl⟩
  · have hfits : (Shape.ofBounds us).FitsInAnyOrder := hfits
    have hlimit := Shape.check_eq_ok_iff_of_fits hfits
    refine ⟨hiff.trans hlimit, fun reordered hperm => ?_⟩
    obtain ⟨us', hus', husPerm⟩ := List.perm_comp_forall₂ hperm (mapM_eq_ok_iff.mp hus)
    have hlengths : (Shape.ofBounds us').Perm (Shape.ofBounds us) := husPerm.map _
    have hshape' := Library.shapeOfBounds_of_indices (mapM_eq_ok_iff.mpr hus')
      fun u hu => hrange u (husPerm.mem_iff.mp hu)
    have hlimit' := Shape.check_eq_ok_iff_of_fits ((Shape.fitsInAnyOrder_perm hlengths).mpr hfits)
    rw [Library.succeeds_newArray_iff hshape', hlimit', hiff, hlimit, hlengths.prod_eq]

theorem allocated_iff_within_limit_and_word_empty_dimension :
    let w : World Unit := ⟨{}, ()⟩
    let long (n : Int32) : Value := .long n
    (Library.newArray [long 2147483646, .boolean true, long 2147483646] :
      Action Unit Value).Succeeds w ∧
    (Library.newArray [long 2147483646, long 2147483646, .boolean true] :
      Action Unit Value).Succeeds w := by
  intro w long
  have hus : [long 2147483646, .boolean true, long 2147483646].mapM Value.toIndex =
      .ok [2147483646, -1, 2147483646] := rfl
  have hrange : ∀ u ∈ ([2147483646, -1, 2147483646] : List Int32),
      -1 ≤ u.toInt ∧ u.toInt < Value.maxIndex := by
    simp only [List.forall_mem_cons, List.not_mem_nil, false_imp_iff, implies_true, and_true]
    decide
  obtain ⟨-, -, hfits⟩ := allocated_iff_within_limit_and_word w hus hrange
  obtain ⟨hlimit, hreordered⟩ := hfits (fun _ => by decide)
  have hsucceeds := hlimit.mpr (by decide)
  exact ⟨hsucceeds, (hreordered _ (.cons _ (.swap _ _ _))).mpr hsucceeds⟩

/-- An array without elements cannot be allocated if its empty dimension stands last. -/
theorem empty_array_out_of_memory :
    let w : World Unit := ⟨{}, ()⟩
    let long : Value := .long 1000000000
    let bounds := [long, long, long, .long (-1)]
    let us : List Int32 := [1000000000, 1000000000, 1000000000, -1]
    bounds.mapM Value.toIndex = .ok us ∧ (us.map fun u => (u.toInt + 1).toNat).prod = 0 ∧
    (Library.newArray bounds).outcome w = (.error (.about .outOfMemory
      "array dimensions [1000000001, 1000000001, 1000000001, 0]"), w) ∧
    (Library.newArray [.long (-1), long, long, long] : Action Unit Value).Succeeds w := by
  exact ⟨rfl, rfl, rfl, _, _, rfl⟩

end VbsCompiler
