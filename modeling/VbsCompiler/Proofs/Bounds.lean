import VbsCompiler.Proofs.Evolution
import VbsCompiler.Proofs.Resizing

/-! The bounds of arrays. The bounds that an array answers are those it was made with, for as long
as it exists, and they tell exactly which of its elements can be read. -/

namespace VbsCompiler

theorem mapM_eq_error_iff {α β ε : Type} {f : α → Except ε β} {as : List α} {e : ε} :
    as.mapM f = .error e ↔
      ∃ before a after, as = before ++ a :: after ∧ (∀ x ∈ before, ∃ b, f x = .ok b) ∧
        f a = .error e := by
  induction as with
  | nil =>
    simp only [List.nil_eq, List.append_eq_nil_iff, reduceCtorEq, and_false, false_and,
      exists_false, iff_false]
    intro h
    cases h
  | cons a as ih =>
    rw [List.mapM_cons]
    cases ha : f a with
    | error e' =>
      constructor
      · intro h
        obtain rfl : e' = e := Except.error.inj h
        exact ⟨[], a, as, rfl, by simp, ha⟩
      · rintro ⟨_ | ⟨x, before⟩, y, after, hsplit, hbefore, hy⟩
        · obtain ⟨rfl, rfl⟩ := List.cons.inj hsplit
          obtain rfl : e' = e := Except.error.inj (ha.symm.trans hy)
          rfl
        · obtain ⟨rfl, rfl⟩ := List.cons.inj hsplit
          obtain ⟨b, hb⟩ := hbefore a List.mem_cons_self
          rw [ha] at hb
          cases hb
    | ok b =>
      have hrest : (Except.ok b >>= fun b => as.mapM f >>= fun bs => pure (b :: bs)) = .error e ↔
          as.mapM f = .error e := by
        cases as.mapM f with
        | error e' => rfl
        | ok bs => exact iff_of_false (fun h => nomatch h) (fun h => nomatch h)
      rw [hrest, ih]
      constructor
      · rintro ⟨before, y, after, rfl, hbefore, hy⟩
        exact ⟨a :: before, y, after, rfl, by simpa [ha] using hbefore, hy⟩
      · rintro ⟨_ | ⟨x, before⟩, y, after, hsplit, hbefore, hy⟩
        · obtain ⟨rfl, rfl⟩ := List.cons.inj hsplit
          rw [ha] at hy
          cases hy
        · obtain ⟨rfl, rfl⟩ := List.cons.inj hsplit
          exact ⟨before, y, after, rfl, fun z hz => hbefore z (List.mem_cons_of_mem _ hz), hy⟩

namespace Library

variable {σ : Type}

theorem shapeOfBounds_eq_ok_iff {bounds : List Value} {us : List Int32} {shape : Shape}
    (hus : bounds.mapM Value.toIndex = .ok us) :
    shapeOfBounds bounds = .ok shape ↔
      (∀ u ∈ us, -1 ≤ u.toInt ∧ u.toInt < Value.maxIndex) ∧ shape = Shape.ofBounds us := by
  constructor
  · intro hshape
    rw [shapeOfBounds, mapM_eq_ok_iff] at hshape
    rw [mapM_eq_ok_iff] at hus
    induction hus generalizing shape with
    | nil =>
      cases hshape
      simp [Shape.ofBounds]
    | @cons v u bounds us hv _ ih =>
      cases hshape with
      | cons hlength hshape =>
        obtain ⟨u', hu', hrange, rfl⟩ := lengthOfBound_eq_ok_iff.mp hlength
        obtain rfl : u = u' := Except.ok.inj (hv.symm.trans hu')
        obtain ⟨hrest, rfl⟩ := ih hshape
        exact ⟨by simpa using ⟨hrange, hrest⟩, rfl⟩
  · rintro ⟨hrange, rfl⟩
    exact shapeOfBounds_of_indices hus hrange

theorem outcome_dimensionLength (lib : Library σ) (r : ArrayRef) (k : Nat) (function : String)
    (w : World σ) :
    (lib.dimensionLength (.array r) k function).outcome w =
      match (w.heap.grid r).length? k with
      | some length => (.ok length, w)
      | none => (.error (.about .subscriptOutOfRange s!"'{function}'"), w) := by
  have hgrid : (lib.dimensionLength (.array r) k function).outcome w =
      Action.outcome (match (w.heap.grid r).length? k with
        | some length => return length
        | none => throw (.about .subscriptOutOfRange s!"'{function}'")) w := rfl
  rw [hgrid]
  cases (w.heap.grid r).length? k with
  | some length => rfl
  | none => rfl

def InBounds (lib : Library σ) (a : Value) (k : Nat) (i : Int32) (w : World σ) : Prop :=
  ∃ lower upper, (lib.lowerBound a k).outcome w = (.ok lower, w) ∧
    (lib.upperBound a k).outcome w = (.ok upper, w) ∧ lower ≤ i.toInt ∧ i.toInt ≤ upper

end Library

/-- Some argument stands for no subscript; the error is that of the first such one. -/
def Arguments.Uncoercible {σ : Type} (args : Arguments σ) (e : ScriptError) : Prop :=
  ∃ before v after, args.values = before ++ v :: after ∧
    (∀ x ∈ before, ∃ i, x.toIndex = .ok i) ∧ v.toIndex = .error e

/-- The dimensions of the array go from zero up to the given bounds, and just what lies in them can
be read. -/
structure Library.Describes {σ : Type} (lib : Library σ) (a : Value) (us : List Int32)
    (w : World σ) : Prop where
  inside : ∀ k u, us[k]? = some u →
    (lib.lowerBound a (k + 1)).outcome w = (.ok 0, w) ∧
    (lib.upperBound a (k + 1)).outcome w = (.ok u.toInt, w)
  outside : ∀ k, k = 0 ∨ us.length < k →
    (lib.lowerBound a k).outcome w = (.error (.about .subscriptOutOfRange "'LBound'"), w) ∧
    (lib.upperBound a k).outcome w = (.error (.about .subscriptOutOfRange "'UBound'"), w)
  readable_iff : ∀ args : Arguments σ, args.count ≠ 0 →
    ((lib.call a [] args).Succeeds w ↔ args.count = us.length ∧
      ∃ indices, args.indices = .ok indices ∧
        ∀ k i, indices[k]? = some i → lib.InBounds a (k + 1) i w)
  unreadable : ∀ args : Arguments σ, args.count ≠ 0 →
    ∀ e w', (lib.call a [] args).outcome w = (.error e, w') → w' = w ∧
      (args.Uncoercible e ∨
        (∃ indices, args.indices = .ok indices) ∧ ∃ detail, e = .about .subscriptOutOfRange detail)

section Described

variable {σ : Type} {us : List Int32} {r : ArrayRef} {w : World σ}

theorem length?_ofBounds {g : Grid} (hshape : g.shape = Shape.ofBounds us) (k : Nat) :
    g.length? (k + 1) = us[k]?.map fun u => (u.toInt + 1).toNat := by
  rw [Grid.length?, hshape, Shape.ofBounds, List.getElem?_map]

theorem length?_outside {g : Grid} (hshape : g.shape = Shape.ofBounds us) {k : Nat}
    (hk : k = 0 ∨ us.length < k) : g.length? k = none := by
  cases k with
  | zero => rfl
  | succ d =>
    have hlength : us.length ≤ d := by omega
    rw [length?_ofBounds hshape, List.getElem?_eq_none hlength]
    rfl

theorem bounds_inside (lib : Library σ) (hshape : (w.heap.grid r).shape = Shape.ofBounds us)
    (hrange : ∀ u ∈ us, -1 ≤ u.toInt ∧ u.toInt < Value.maxIndex) {k : Nat} {u : Int32}
    (hu : us[k]? = some u) :
    (lib.lowerBound (.array r) (k + 1)).outcome w = (.ok 0, w) ∧
      (lib.upperBound (.array r) (k + 1)).outcome w = (.ok u.toInt, w) := by
  have hlength : (w.heap.grid r).length? (k + 1) = some (u.toInt + 1).toNat := by
    rw [length?_ofBounds hshape, hu]
    rfl
  obtain ⟨hlow, hhigh⟩ := hrange u (List.mem_of_getElem? hu)
  have hnat : ((u.toInt + 1).toNat : Int) = u.toInt + 1 := by omega
  have hle : ((u.toInt + 1).toNat : Int) ≤ Value.maxIndex := by omega
  constructor
  · rw [Library.lowerBound, Action.outcome_bind, Library.outcome_dimensionLength, hlength]
    rfl
  · rw [Library.upperBound, Action.outcome_bind, Library.outcome_dimensionLength, hlength]
    change Action.outcome (if _ then _ else _) w = _
    rw [if_pos hle, hnat, Int.add_sub_cancel]
    rfl

theorem bounds_outside (lib : Library σ) (hshape : (w.heap.grid r).shape = Shape.ofBounds us)
    {k : Nat} (hk : k = 0 ∨ us.length < k) :
    (lib.lowerBound (.array r) k).outcome w =
        (.error (.about .subscriptOutOfRange "'LBound'"), w) ∧
      (lib.upperBound (.array r) k).outcome w =
        (.error (.about .subscriptOutOfRange "'UBound'"), w) := by
  have hlength := length?_outside hshape hk
  constructor
  · rw [Library.lowerBound, Action.outcome_bind, Library.outcome_dimensionLength, hlength]
    rfl
  · rw [Library.upperBound, Action.outcome_bind, Library.outcome_dimensionLength, hlength]
    rfl

theorem inBounds_iff (lib : Library σ) (hshape : (w.heap.grid r).shape = Shape.ofBounds us)
    (hrange : ∀ u ∈ us, -1 ≤ u.toInt ∧ u.toInt < Value.maxIndex) {k : Nat} {u i : Int32}
    (hu : us[k]? = some u) :
    lib.InBounds (.array r) (k + 1) i w ↔ 0 ≤ i.toInt ∧ i.toInt < (u.toInt + 1).toNat := by
  obtain ⟨hlower, hupper⟩ := bounds_inside lib hshape hrange hu
  obtain ⟨hlow, -⟩ := hrange u (List.mem_of_getElem? hu)
  constructor
  · rintro ⟨lower, upper, hlower', hupper', hle, hle'⟩
    cases hlower.symm.trans hlower'
    cases hupper.symm.trans hupper'
    omega
  · rintro ⟨hle, hlt⟩
    exact ⟨0, u.toInt, hlower, hupper, hle, by omega⟩

theorem contains_ofBounds_iff (lib : Library σ)
    (hshape : (w.heap.grid r).shape = Shape.ofBounds us)
    (hrange : ∀ u ∈ us, -1 ≤ u.toInt ∧ u.toInt < Value.maxIndex) {indices : List Int32} :
    (w.heap.grid r).shape.Contains indices ↔ indices.length = us.length ∧
      ∀ k i, indices[k]? = some i → lib.InBounds (.array r) (k + 1) i w := by
  rw [hshape, Shape.Contains, Shape.ofBounds, List.forall₂_map_right_iff, List.forall₂_iff_get]
  refine and_congr_right fun hlength => ?_
  constructor
  · intro hall k i hi
    obtain ⟨hk, rfl⟩ := List.getElem?_eq_some_iff.mp hi
    have hk' : k < us.length := by omega
    exact (inBounds_iff lib hshape hrange (List.getElem?_eq_getElem hk')).mpr (hall k hk hk')
  · intro hall k hk hk'
    exact (inBounds_iff lib hshape hrange (List.getElem?_eq_getElem hk')).mp
      (hall k _ (List.getElem?_eq_getElem hk))

/-- The world of a call that indexes an array stays as it is. -/
theorem outcome_call_array (host : Host σ) (r : ArrayRef) (args : Arguments σ) (w : World σ) :
    ((⟨.standard host⟩ : Library σ).call (.array r) [] args).outcome w =
      (w.heap.indexed r args, w) :=
  outcome_callTarget_array host r args w

theorem advance_error {start l : Nat} {i : Int32} {e : ScriptError}
    (h : Shape.advance start i l = .error e) :
    ∃ detail, e = .about .subscriptOutOfRange detail := by
  rw [Shape.advance] at h
  split at h
  · cases h
  · exact ⟨_, (Except.error.inj h).symm⟩

theorem offsetFrom_error {shape : Shape} {indices : List Int32} {start : Nat} {e : ScriptError}
    (h : Shape.offsetFrom start shape indices = .error e) :
    ∃ detail, e = .about .subscriptOutOfRange detail := by
  induction shape generalizing indices start with
  | nil =>
    rw [Shape.offsetFrom] at h
    · cases h
    · simp
  | cons l ls ih =>
    cases indices with
    | nil => cases h
    | cons i is =>
      rw [Shape.offsetFrom] at h
      cases hnext : Shape.advance start i l with
      | error e' =>
        rw [hnext] at h
        obtain rfl : e' = e := Except.error.inj h
        exact advance_error hnext
      | ok next =>
        rw [hnext] at h
        exact ih h

theorem offset_error {shape : Shape} {indices : List Int32} {e : ScriptError}
    (h : shape.offset indices = .error e) : ∃ detail, e = .about .subscriptOutOfRange detail := by
  rw [Shape.offset] at h
  split at h
  · exact ⟨_, (Except.error.inj h).symm⟩
  · exact offsetFrom_error h

/-- What an array answers about its bounds depends on its shape alone. -/
theorem describes_of_shape (host : Host σ) (hshape : (w.heap.grid r).shape = Shape.ofBounds us)
    (hrange : ∀ u ∈ us, -1 ≤ u.toInt ∧ u.toInt < Value.maxIndex) :
    (⟨.standard host⟩ : Library σ).Describes (.array r) us w where
  inside _ _ := bounds_inside _ hshape hrange
  outside _ := bounds_outside _ hshape
  readable_iff args hargs := by
    simp only [Action.Succeeds, outcome_call_array, Prod.mk.injEq, exists_and_left, exists_eq',
      and_true]
    cases hindices : args.indices with
    | error e => simp [indexed_of_error hargs hindices]
    | ok indices =>
      have hcount : indices.length = args.count := by
        rw [length_of_mapM_ok hindices, Arguments.values, List.length_map, Arguments.count]
      rw [indexed_of_indices hargs hindices, Heap.exists_get_iff,
        contains_ofBounds_iff ⟨.standard host⟩ hshape hrange, hcount]
      simp
  unreadable args hargs e w' houtcome := by
    rw [outcome_call_array] at houtcome
    obtain ⟨hindexed, rfl⟩ := Prod.mk.inj houtcome
    refine ⟨rfl, ?_⟩
    cases hindices : args.indices with
    | error e' =>
      rw [indexed_of_error hargs hindices] at hindexed
      obtain rfl : e' = e := Except.error.inj hindexed
      exact .inl (mapM_eq_error_iff.mp hindices)
    | ok indices =>
      rw [indexed_of_indices hargs hindices, Heap.get, Grid.get_eq] at hindexed
      refine .inr ⟨⟨indices, rfl⟩, ?_⟩
      cases hoffset : (w.heap.grid r).shape.offset indices with
      | error e' =>
        rw [hoffset] at hindexed
        obtain rfl : e' = e := Except.error.inj hindexed
        exact offset_error hoffset
      | ok p =>
        rw [hoffset] at hindexed
        cases hindexed

end Described

/-- The array was made with these upper bounds, as a new one or by resizing. -/
inductive Library.Makes {σ : Type} (bounds : List Value) (w : World σ) (a : Value)
    (w' : World σ) : Prop where
  | newArray : (newArray bounds).outcome w = (.ok a, w') → Makes bounds w a w'
  | resizeArray (v : Value) : (resizeArray v bounds).outcome w = (.ok a, w') →
      Makes bounds w a w'

theorem resizedContent_shape {h : Heap} {v : Value} {shape : Shape} {content : Grid}
    (hcontent : Library.resizedContent h v shape = .ok content) : content.shape = shape := by
  cases v with
  | array r => exact (Library.resizedContent_array_keeps hcontent).1
  | _ =>
    obtain ⟨-, rfl⟩ := Grid.allocate_eq_ok_iff.mp hcontent
    rfl

theorem Library.Makes.shape {σ : Type} {bounds : List Value} {w w' : World σ} {a : Value}
    (h : Makes bounds w a w') :
    ∃ r, a = .array r ∧ w'.heap.contains r = true ∧
      shapeOfBounds bounds = .ok (w'.heap.grid r).shape := by
  obtain ⟨shape, content, hshape, hcontent, rfl, rfl⟩ : ∃ shape content,
      shapeOfBounds bounds = .ok shape ∧ content.shape = shape ∧
      a = .array (w.heap.allocate content).1 ∧
      w' = { w with heap := (w.heap.allocate content).2 } := by
    cases h with
    | newArray h =>
      rw [outcome_newArray, placed_eq_ok_iff] at h
      obtain ⟨content, hcontent, ha, hw⟩ := h
      obtain ⟨shape, hshape, hblank⟩ := bind_eq_ok_iff.mp hcontent
      obtain ⟨-, rfl⟩ := Grid.allocate_eq_ok_iff.mp hblank
      exact ⟨shape, _, hshape, rfl, ha, hw⟩
    | resizeArray v h =>
      rw [outcome_resizeArray, placed_eq_ok_iff] at h
      obtain ⟨content, hcontent, ha, hw⟩ := h
      obtain ⟨shape, hshape, hresized⟩ := bind_eq_ok_iff.mp hcontent
      exact ⟨shape, content, hshape, resizedContent_shape hresized, ha, hw⟩
  refine ⟨_, rfl, ?_, ?_⟩
  · simp [Heap.contains, Heap.allocate]
  · rw [Heap.grid_allocated, hcontent, hshape]

/-- An array that was made with upper bounds, as a new one or by resizing, answers those bounds for
its dimensions and has no other dimensions. Reading it succeeds exactly if there is one subscript
for each dimension, between its bounds, and fails otherwise, with the error of the first argument
that is no subscript if there is one. All this stays so behind any operations of the library in
which the objects and the write-backs change arrays only by allocating them and setting elements. -/
theorem bounds_describe_readable_elements {σ : Type} (host : Host σ) {w w' : World σ}
    {bounds : List Value} {us : List Int32} {a : Value}
    (hus : bounds.mapM Value.toIndex = .ok us) (hmade : Library.Makes bounds w a w') :
    let lib : Library σ := ⟨.standard host⟩
    lib.Describes a us w' ∧
    (host.Evolving → ∀ operations : List (Library.Operation σ),
      (∀ operation ∈ operations, operation.Evolving) →
      lib.Describes a us (Library.Operation.performAll lib w' operations)) := by
  intro lib
  obtain ⟨r, rfl, hcontains, hshape⟩ := hmade.shape
  obtain ⟨hrange, hbounds⟩ := (Library.shapeOfBounds_eq_ok_iff hus).mp hshape
  refine ⟨describes_of_shape host hbounds hrange, fun hhost operations hoperations => ?_⟩
  have hlater := Library.Operation.evolves_performAll hhost hoperations w'
  obtain ⟨-, hkept⟩ := hlater.shape hcontains
  exact describes_of_shape host (hkept.trans hbounds) hrange

/-- Afterwards an element is set, then the same element through an object that keeps the array, and
a method of that object increases a variable passed to it. -/
theorem bounds_describe_readable_elements_resized_then_set :
    let lib : Library Stage := ⟨.standard Stage.host⟩
    let keeper : ScriptedObject := ⟨"Keeper", none,
      [{ signature := ⟨"Data", .property, []⟩, field := .array ⟨1⟩ },
        { signature := ⟨"Next", .method, [0]⟩, increments := [0], outcome := .argument 0 }]⟩
    let w : World Stage := ⟨⟨#[Grid.blank [2, 3]]⟩, { objects := #[keeper] }⟩
    let args (i j : Int32) : Arguments Stage := { slots := [⟨.long i, none⟩, ⟨.long j, none⟩] }
    let counter : Slot Stage := Stage.variableSlot "k" (.long 7) none
    let operations : List (Library.Operation Stage) :=
      [.set .null (.array ⟨1⟩) none (args 1 0),
        .set (.long 5) (.object (keeper.ref 0)) (some "Data") (args 1 0),
        .call (.object (keeper.ref 0)) ["Next"] { slots := [counter] }]
    ∃ a w', (Library.resizeArray (.array ⟨0⟩) [.long 1, .boolean false]).outcome w = (.ok a, w') ∧
      let later := Library.Operation.performAll lib w' operations
      (lib.lowerBound a 2).outcome later = (.ok 0, later) ∧
      (lib.upperBound a 2).outcome later = (.ok 0, later) ∧
      ∀ v u, (lib.call a [] (args 1 1)).outcome later ≠ (.ok v, u) := by
  intro lib keeper w args counter operations
  have hus : [Value.long 1, .boolean false].mapM Value.toIndex = .ok [1, 0] := rfl
  have hsucceeds : (Library.resizeArray (.array ⟨0⟩) [.long 1, .boolean false]).Succeeds w :=
    Library.succeeds_resizeArray_array_iff.mpr ⟨[2, 1], rfl, rfl, rfl, _, rfl⟩
  obtain ⟨a, w', houtcome⟩ := hsucceeds
  obtain ⟨-, hlater⟩ := bounds_describe_readable_elements Stage.host hus
    (.resizeArray (.array ⟨0⟩) houtcome)
  have hcounter : Arguments.Evolving { slots := [counter] } :=
    evolving_of_slot (evolving_update_variableSlot "k" (.long 7) none)
  have hdescribes := hlater evolving_stageHost operations
    (by simpa [operations, Library.Operation.Evolving] using hcounter)
  obtain ⟨hlower, hupper⟩ := hdescribes.inside 1 0 rfl
  refine ⟨a, w', houtcome, hlower, hupper, fun v u hread => ?_⟩
  obtain ⟨-, indices, hindices, hin⟩ := (hdescribes.readable_iff (args 1 1) (by decide)).mp
    ⟨v, u, hread⟩
  obtain rfl : [1, 1] = indices := Except.ok.inj hindices
  obtain ⟨lower, upper, -, hupper', -, hle⟩ := hin 1 1 rfl
  obtain rfl : (0 : Int) = upper := by
    cases hupper.symm.trans hupper'
    rfl
  exact absurd hle (by decide)

end VbsCompiler
