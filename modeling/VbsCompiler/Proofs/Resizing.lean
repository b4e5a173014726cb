import VbsCompiler.Proofs.Allocation

/-! Copies of arrays with another shape. The walk over the elements counts their subscripts up in
the mixed radix of the lengths, so it meets every element once, at its own subscripts, and no
element that is kept overwrites another. -/

namespace VbsCompiler

namespace Shape

def Within (shape : Shape) (coords : List Nat) : Prop :=
  List.Forall₂ (· < ·) coords shape

theorem holds_iff {shape : Shape} {coords : List Nat} (hlength : coords.length = shape.length) :
    shape.holds coords = true ↔ shape.Within coords := by
  rw [Within, List.forall₂_iff_zip, holds, List.all_eq_true]
  simp [hlength]

theorem foldl_position {shape : Shape} {coords : List Nat} (start : Nat)
    (hlength : coords.length = shape.length) :
    (coords.zip shape).foldl (fun n (c, l) => n * l + c) start =
      start * count shape + position shape coords := by
  induction shape generalizing coords start with
  | nil => simp [position, count]
  | cons l ls ih =>
    cases coords with
    | nil => cases hlength
    | cons c cs =>
      have hrest : cs.length = ls.length := Nat.succ.inj hlength
      have hstart := ih (start * l + c) hrest
      have hzero := ih (0 * l + c) hrest
      simp only [position, List.zip_cons_cons, List.foldl_cons] at hstart hzero ⊢
      rw [hstart, hzero, count]
      simp only [Nat.zero_mul, Nat.zero_add, Nat.add_mul, Nat.mul_assoc, Nat.add_assoc]

theorem position_cons {l c : Nat} {ls : Shape} {cs : List Nat} (hlength : cs.length = ls.length) :
    position (l :: ls) (c :: cs) = c * count ls + position ls cs := by
  have h := foldl_position (0 * l + c) hlength
  simpa [position] using h

theorem position_lt {shape : Shape} {coords : List Nat} (h : shape.Within coords) :
    position shape coords < count shape := by
  induction h with
  | nil => simp [position, count]
  | @cons c l cs ls hc hcs ih =>
    have hle : (c + 1) * count ls ≤ l * count ls := Nat.mul_le_mul_right _ hc
    have hsucc : (c + 1) * count ls = c * count ls + count ls := Nat.succ_mul c (count ls)
    rw [position_cons hcs.length_eq, count]
    omega

theorem position_injective {shape : Shape} {cs ds : List Nat} (hc : shape.Within cs)
    (hd : shape.Within ds) (h : position shape cs = position shape ds) : cs = ds := by
  induction hc generalizing ds with
  | nil =>
    cases hd
    rfl
  | @cons c l cs ls hcl hcs ih =>
    cases hd with
    | @cons d _ ds _ hdl hds =>
      rw [position_cons hcs.length_eq, position_cons hds.length_eq] at h
      have hlt := position_lt hcs
      have hlt' := position_lt hds
      obtain rfl : c = d := by
        rw [← quotient_of_digit (q := c) hlt, h, quotient_of_digit hlt']
      rw [ih hds (by omega)]

/-- Counting up adds one to the position; a carry out of the first subscript takes the number of
elements away again. -/
theorem position_countUp {shape : Shape} {coords : List Nat} (h : shape.Within coords) :
    shape.Within (countUp shape coords).1 ∧
      position shape (countUp shape coords).1 +
        (if (countUp shape coords).2 then count shape else 0) = position shape coords + 1 := by
  induction h with
  | nil => exact ⟨.nil, rfl⟩
  | @cons c l cs ls hc hcs ih =>
    obtain ⟨hrest, heq⟩ := ih
    have hlt := position_lt hcs
    rw [position_cons hcs.length_eq, countUp]
    rcases hup : countUp ls cs with ⟨rest, _ | _⟩
    · simp only [hup, Bool.false_eq_true, if_false] at hrest heq ⊢
      refine ⟨.cons hc hrest, ?_⟩
      have hposition := position_cons (l := l) (c := c) hrest.length_eq
      omega
    · simp only [hup, if_true] at hrest heq ⊢
      have hsucc : (c + 1) * count ls = c * count ls + count ls := Nat.succ_mul c (count ls)
      by_cases hl : c + 1 < l
      · have hposition := position_cons (l := l) (c := c + 1) hrest.length_eq
        simp only [hl, if_true, Bool.false_eq_true, if_false]
        exact ⟨.cons hl hrest, by omega⟩
      · obtain rfl : l = c + 1 := by omega
        have hposition := position_cons (l := c + 1) (c := 0) hrest.length_eq
        simp only [hl, if_false, if_true, count]
        exact ⟨.cons (Nat.succ_pos c) hrest, by omega⟩

theorem position_next {shape : Shape} {coords : List Nat} (h : shape.Within coords)
    (hlt : position shape coords + 1 < count shape) :
    shape.Within (shape.next coords) ∧
      position shape (shape.next coords) = position shape coords + 1 := by
  obtain ⟨hwithin, heq⟩ := position_countUp h
  refine ⟨hwithin, ?_⟩
  -- A carry would need a position of at least the number of elements.
  by_cases hcarry : (countUp shape coords).2 = true
  · rw [if_pos hcarry] at heq
    omega
  · rw [if_neg hcarry] at heq
    exact heq

theorem position_zeros (shape : Shape) (hpos : 0 < count shape) :
    shape.Within (List.replicate shape.length 0) ∧
      position shape (List.replicate shape.length 0) = 0 := by
  induction shape with
  | nil => exact ⟨.nil, rfl⟩
  | cons l ls ih =>
    have hl : 0 < l := Nat.pos_of_mul_pos_right hpos
    have hls : 0 < count ls := Nat.pos_of_mul_pos_left hpos
    obtain ⟨hwithin, heq⟩ := ih hls
    rw [List.length_cons, List.replicate_succ, position_cons (by simp)]
    exact ⟨.cons hl hwithin, by omega⟩

/-- The subscripts as natural numbers; a negative one becomes zero. -/
def coords (indices : List Int32) : List Nat :=
  indices.map fun i => i.toInt.toNat

theorem contains_iff {shape : Shape} {indices : List Int32} (hpos : ∀ i ∈ indices, 0 ≤ i.toInt) :
    shape.Contains indices ↔ shape.Within (coords indices) := by
  rw [Within, coords, List.forall₂_map_left_iff, Contains]
  constructor
  · intro h
    exact h.imp fun i l hi => by omega
  · intro h
    rw [List.forall₂_iff_zip] at h ⊢
    refine ⟨h.1, fun {i l} hmem => ?_⟩
    have hi := hpos i (List.of_mem_zip hmem).1
    have hlt := h.2 hmem
    omega

theorem Contains.nonneg {shape : Shape} {indices : List Int32} (h : shape.Contains indices) :
    ∀ i ∈ indices, 0 ≤ i.toInt := by
  induction h with
  | nil => simp
  | cons hi _ ih => simpa using ⟨hi.1, ih⟩

theorem Contains.within {shape : Shape} {indices : List Int32} (h : shape.Contains indices) :
    shape.Within (coords indices) :=
  (contains_iff h.nonneg).mp h

theorem offsetFrom_of_contains {shape : Shape} {indices : List Int32} (start : Nat)
    (h : shape.Contains indices) :
    offsetFrom start shape indices =
      .ok (start * count shape + position shape (coords indices)) := by
  induction h generalizing start with
  | nil => simp [offsetFrom, count, coords, position]
  | @cons i l is ls hi his ih =>
    have hlength : (coords is).length = ls.length := Contains.within his |>.length_eq
    rw [offsetFrom_cons_eq_ok.mpr ⟨hi, ih _⟩]
    have hcons : position (l :: ls) (coords (i :: is)) =
        i.toInt.toNat * count ls + position ls (coords is) := position_cons hlength
    rw [hcons, count, Nat.add_mul, Nat.mul_assoc, Nat.add_assoc]

theorem offset_of_contains {shape : Shape} {indices : List Int32} (h : shape.Contains indices) :
    shape.offset indices = .ok (position shape (coords indices)) := by
  have hoffset := offsetFrom_of_contains 0 h
  rw [offset, if_neg (not_not.mpr h.length_eq), hoffset]
  simp

end Shape

namespace Grid

def element (g : Grid) (coords : List Nat) : Value :=
  g.items.getD (g.shape.position coords) .empty

theorem get_of_contains {g : Grid} {indices : List Int32} (h : g.shape.Contains indices) :
    g.get indices = .ok (g.element (Shape.coords indices)) := by
  rw [get_eq, Shape.offset_of_contains h]
  rfl

theorem element_blank (shape : Shape) (coords : List Nat) :
    (blank shape).element coords = .empty := by
  rw [element, blank, Array.getD_eq_getD_getElem?, Array.getElem?_replicate]
  split
  · rfl
  · rfl

theorem element_put {g : Grid} {cs ds : List Nat} (hc : g.shape.Within cs)
    (hd : g.shape.Within ds) (v : Value) :
    (g.put (g.shape.position cs) v).element ds = if ds = cs then v else g.element ds := by
  have hshape : (g.put (g.shape.position cs) v).shape = g.shape := rfl
  have hlt : g.shape.position cs < g.items.size := by
    rw [g.size_items]
    exact Shape.position_lt hc
  rw [element, hshape]
  by_cases hds : ds = cs
  · subst hds
    simp [put, Array.getD, hlt]
  · have hne : g.shape.position cs ≠ g.shape.position ds := by
      intro heq
      exact hds (Shape.position_injective hd hc heq.symm)
    simp [put, hds, element, Array.getD_eq_getD_getElem?, Array.getElem?_setIfInBounds_ne hne]

/-- After the first `k` elements of an array were taken over: the walk stands at the subscripts of
the next one, and the copy has the elements met so far, each at its own subscripts. -/
structure TakenOver (g : Grid) (shape : Shape) (k : Nat) (state : List Nat × Grid) : Prop where
  shape_eq : state.2.shape = shape
  reached : k < g.items.size → g.shape.Within state.1 ∧ g.shape.position state.1 = k
  kept : ∀ coords, shape.Within coords → g.shape.Within coords → g.shape.position coords < k →
    state.2.element coords = g.element coords
  unmet : ∀ coords, shape.Within coords →
    ¬ (g.shape.Within coords ∧ g.shape.position coords < k) → state.2.element coords = .empty

theorem takenOver_start (g : Grid) (shape : Shape) :
    TakenOver g shape 0 (List.replicate g.rank 0, blank shape) where
  shape_eq := rfl
  reached hpos := by
    rw [g.size_items] at hpos
    exact g.shape.position_zeros hpos
  kept _ _ _ hlt := absurd hlt (Nat.not_lt_zero _)
  unmet coords _ _ := element_blank shape coords

/-- One more element: it is stored if its subscripts lie in the copy, and left out if not. -/
theorem TakenOver.step {g : Grid} {shape : Shape} {k : Nat} {state : List Nat × Grid}
    (h : TakenOver g shape k state) (hrank : shape.length = g.rank) (hk : k < g.items.size) :
    TakenOver g shape (k + 1) (takeOver g.shape state g.items[k]) := by
  obtain ⟨coords, copy⟩ := state
  obtain ⟨hwithin, hposition⟩ : g.shape.Within coords ∧ g.shape.position coords = k :=
    h.reached hk
  have hshape : copy.shape = shape := h.shape_eq
  have helement : g.element coords = g.items[k] := by
    simp [element, hposition, Array.getD, hk]
  -- Whether or not the copy has the subscripts, nothing but its element there changes.
  have hcopy : ∀ others, shape.Within others →
      (takeOver g.shape (coords, copy) g.items[k]).2.element others =
        if others = coords then g.items[k] else copy.element others := by
    intro others hothers
    have hlength : coords.length = copy.shape.length := by
      rw [hshape, hrank]
      exact hwithin.length_eq
    by_cases hholds : copy.shape.holds coords = true
    · rw [takeOver, if_pos hholds]
      exact element_put ((Shape.holds_iff hlength).mp hholds) (hshape ▸ hothers) _
    · rw [takeOver, if_neg hholds, if_neg]
      rintro rfl
      exact hholds ((Shape.holds_iff hlength).mpr (hshape ▸ hothers))
  have hsame : ∀ others, g.shape.Within others → g.shape.position others = k → others = coords :=
    fun others hothers heq =>
      Shape.position_injective hothers hwithin (heq.trans hposition.symm)
  refine ⟨?_, fun hk' => ?_, fun others hothers hin hlt => ?_, fun others hothers hout => ?_⟩
  · rw [takeOver]
    split
    · exact hshape
    · exact hshape
  · rw [g.size_items] at hk'
    have hnext := Shape.position_next hwithin (by omega)
    rw [hposition] at hnext
    exact hnext
  · rw [hcopy others hothers]
    by_cases heq : others = coords
    · rw [if_pos heq, heq, helement]
    · have hne : g.shape.position others ≠ k := fun hp => heq (hsame others hin hp)
      rw [if_neg heq]
      exact h.kept others hothers hin (by omega)
  · rw [hcopy others hothers, if_neg]
    · exact h.unmet others hothers fun ⟨hin, hlt⟩ => hout ⟨hin, by omega⟩
    · rintro rfl
      exact hout ⟨hwithin, by omega⟩

theorem takenOver_all (g : Grid) (shape : Shape) (hrank : shape.length = g.rank) :
    TakenOver g shape g.items.size
      (g.items.foldl (takeOver g.shape) (List.replicate g.rank 0, blank shape)) :=
  Array.foldl_induction (fun k state => TakenOver g shape k state) (takenOver_start g shape)
    fun k _ hstate => hstate.step hrank k.isLt

/-- Of the elements of a copy, those that the array has too are the same, and the others are
Empty. -/
def Keeps (copy g : Grid) : Prop :=
  ∀ indices, copy.shape.Contains indices →
    (g.shape.Contains indices → copy.get indices = g.get indices) ∧
    (¬ g.shape.Contains indices → copy.get indices = .ok .empty)

theorem TakenOver.keeps {g : Grid} {shape : Shape} {state : List Nat × Grid}
    (h : TakenOver g shape g.items.size state) : state.2.Keeps g := by
  intro indices hin
  have hwithin : shape.Within (Shape.coords indices) := h.shape_eq ▸ hin.within
  rw [get_of_contains hin]
  constructor
  · intro hold
    have hlt : g.shape.position (Shape.coords indices) < g.items.size := by
      rw [g.size_items]
      exact Shape.position_lt hold.within
    rw [get_of_contains hold, h.kept _ hwithin hold.within hlt]
  · intro hout
    rw [h.unmet _ hwithin]
    rintro ⟨hold, -⟩
    exact hout ((Shape.contains_iff hin.nonneg).mpr hold)

theorem exists_allocate_of_resized {g copy : Grid} {shape : Shape}
    (h : g.resized shape = .ok copy) : ∃ blank, allocate shape = .ok blank := by
  cases hblank : allocate shape with
  | ok blank => exact ⟨blank, rfl⟩
  | error e =>
    rw [resized, hblank] at h
    cases h

theorem exists_resized {g : Grid} {shape : Shape} (hrank : shape.length = g.rank)
    (hblank : ∃ blank, allocate shape = .ok blank) :
    ∃ copy, g.resized shape = .ok copy ∧ copy.shape = shape ∧ copy.Keeps g := by
  obtain ⟨copy, hcopy⟩ := hblank
  obtain ⟨-, rfl⟩ := allocate_eq_ok_iff.mp hcopy
  have htaken := takenOver_all g shape hrank
  refine ⟨_, ?_, htaken.shape_eq, htaken.keeps⟩
  have hrank' : (blank shape).rank = g.rank := hrank
  rw [resized, hcopy]
  change (if (blank shape).rank = g.rank then _ else _) = _
  rw [if_pos hrank']
  rfl

end Grid

namespace Library

variable {σ : Type}

def resizedContent (h : Heap) (v : Value) (shape : Shape) : Except ScriptError Grid :=
  match v with
  | .array r =>
    if sameButLast (h.grid r).shape shape then (h.grid r).resized shape
    else .error (.about .subscriptOutOfRange "only the last dimension of an array may be resized")
  | _ => Grid.allocate shape

theorem outcome_resizeArray (v : Value) (bounds : List Value) (w : World σ) :
    (resizeArray v bounds : Action σ Value).outcome w =
      placed w (shapeOfBounds bounds >>= resizedContent w.heap v) := by
  rw [resizeArray, Action.outcome_bind, Action.outcome_ofExcept]
  cases shapeOfBounds bounds with
  | error e => rfl
  | ok shape =>
    change _ = placed w (resizedContent w.heap v shape)
    cases v with
    | array r =>
      simp only [resizedContent, Action.outcome_bind, Action.outcome_grid]
      split
      · exact outcome_place _ w
      · rfl
    | _ => exact outcome_place _ w

theorem sameButLast_iff {old new : Shape} :
    sameButLast old new = true ↔ new.length = old.length ∧ new.dropLast = old.dropLast := by
  rw [sameButLast, Bool.and_eq_true, decide_eq_true_eq, decide_eq_true_eq,
    eq_comm (a := new.length), eq_comm (a := new.dropLast)]

theorem resizedContent_array_eq_ok_iff {h : Heap} {r : ArrayRef} {shape : Shape} {copy : Grid} :
    resizedContent h (.array r) shape = .ok copy ↔
      (shape.length = (h.grid r).rank ∧ shape.dropLast = (h.grid r).shape.dropLast) ∧
        (h.grid r).resized shape = .ok copy := by
  rw [resizedContent, Grid.rank, ← sameButLast_iff]
  by_cases hsame : sameButLast (h.grid r).shape shape = true
  · simp [hsame]
  · simp [hsame]

theorem resizedContent_array_keeps {h : Heap} {r : ArrayRef} {shape : Shape} {copy : Grid}
    (hcontent : resizedContent h (.array r) shape = .ok copy) :
    copy.shape = shape ∧ copy.Keeps (h.grid r) := by
  obtain ⟨⟨hrank, -⟩, hresized⟩ := resizedContent_array_eq_ok_iff.mp hcontent
  obtain ⟨copy', hcopy, hkeeps⟩ :=
    Grid.exists_resized hrank (Grid.exists_allocate_of_resized hresized)
  obtain rfl : copy' = copy := Except.ok.inj (hcopy.symm.trans hresized)
  exact hkeeps

theorem succeeds_resizeArray_array_iff {bounds : List Value} {r : ArrayRef} {w : World σ} :
    (resizeArray (.array r) bounds : Action σ Value).Succeeds w ↔
      ∃ shape, shapeOfBounds bounds = .ok shape ∧ shape.length = (w.heap.grid r).rank ∧
        shape.dropLast = (w.heap.grid r).shape.dropLast ∧
        ∃ blank, Grid.allocate shape = .ok blank := by
  simp only [Action.Succeeds, outcome_resizeArray, placed_eq_ok_iff, bind_eq_ok_iff,
    resizedContent_array_eq_ok_iff]
  constructor
  · rintro ⟨a, w', copy, ⟨shape, hshape, ⟨hrank, hdrop⟩, hresized⟩, -, -⟩
    exact ⟨shape, hshape, hrank, hdrop, Grid.exists_allocate_of_resized hresized⟩
  · rintro ⟨shape, hshape, hrank, hdrop, hblank⟩
    obtain ⟨copy, hcopy, -, -⟩ := Grid.exists_resized hrank hblank
    exact ⟨_, _, copy, ⟨shape, hshape, ⟨hrank, hdrop⟩, hcopy⟩, rfl, rfl⟩

end Library

/-- If the number of dimensions stays and an array of the new lengths can be allocated, the copy
has those lengths and keeps exactly the elements whose subscripts are in both shapes. So an array is
resized exactly if its new lengths can be allocated and differ in the last one at most; the result
is a new array with the elements at their own subscripts, and all other arrays stay as they are. -/
theorem resized_array_keeps_common_elements {σ : Type} :
    (∀ (g : Grid) (shape : Shape), shape.length = g.rank →
      (∃ blank, Grid.allocate shape = .ok blank) →
      ∃ copy, g.resized shape = .ok copy ∧ copy.shape = shape ∧ copy.Keeps g) ∧
    ∀ (w : World σ) (r : ArrayRef) (bounds : List Value),
      let resize : Action σ Value := Library.resizeArray (.array r) bounds
      (resize.Succeeds w ↔ ∃ shape, Library.shapeOfBounds bounds = .ok shape ∧
        shape.length = (w.heap.grid r).rank ∧
        shape.dropLast = (w.heap.grid r).shape.dropLast ∧
        ∃ blank, Grid.allocate shape = .ok blank) ∧
      ∀ a w', resize.outcome w = (.ok a, w') → ∃ r', a = .array r' ∧
        w.heap.contains r' = false ∧
        Library.shapeOfBounds bounds = .ok (w'.heap.grid r').shape ∧
        (w'.heap.grid r').Keeps (w.heap.grid r) ∧
        w'.objects = w.objects ∧
        ∀ other, w.heap.contains other = true → w'.heap.grid other = w.heap.grid other := by
  refine ⟨fun g shape => Grid.exists_resized, ?_⟩
  intro w r bounds resize
  refine ⟨Library.succeeds_resizeArray_array_iff, fun a w' houtcome => ?_⟩
  rw [Library.outcome_resizeArray, Library.placed_eq_ok_iff] at houtcome
  obtain ⟨copy, hcontent, rfl, rfl⟩ := houtcome
  obtain ⟨shape, hshape, hresized⟩ := Library.bind_eq_ok_iff.mp hcontent
  obtain ⟨hcopyShape, hkeeps⟩ := Library.resizedContent_array_keeps hresized
  refine ⟨_, rfl, Heap.contains_allocated _ _, ?_, ?_, rfl, ?_⟩
  · rw [Heap.grid_allocated, hshape, hcopyShape]
  · rw [Heap.grid_allocated]
    exact hkeeps
  · intro other hother
    exact Heap.grid_allocate_of_contains copy hother

theorem resized_array_keeps_common_elements_two_dimensions :
    let long (n : Int32) : Value := .long n
    let g : Grid := ⟨[2, 3], #[long 0, long 1, long 2, long 3, long 4, long 5], rfl⟩
    let w : World Unit := ⟨⟨#[g]⟩, ()⟩
    (∃ copy, g.resized [3, 2] = .ok copy ∧ copy.get [1, 1] = .ok (long 4) ∧
      copy.get [2, 1] = .ok .empty) ∧
    ∃ a w', (Library.resizeArray (.array ⟨0⟩) [long 1, long 3]).outcome w = (.ok a, w') ∧
      w'.heap.grid ⟨0⟩ = g := by
  intro long g w
  obtain ⟨hcopies, hresizes⟩ := resized_array_keeps_common_elements (σ := Unit)
  constructor
  · obtain ⟨copy, hcopy, hshape, hkeeps⟩ := hcopies g [3, 2] rfl ⟨_, rfl⟩
    refine ⟨copy, hcopy, ?_, ?_⟩
    · refine (hkeeps [1, 1] ?_).1 ?_
      · rw [hshape]
        exact .cons (by decide) (.cons (by decide) .nil)
      · exact .cons (by decide) (.cons (by decide) .nil)
    · refine (hkeeps [2, 1] ?_).2 ?_
      · rw [hshape]
        exact .cons (by decide) (.cons (by decide) .nil)
      · rintro (_ | ⟨hin, -⟩)
        exact absurd hin (by decide)
  · obtain ⟨hsucceeds, hresult⟩ := hresizes w ⟨0⟩ [long 1, long 3]
    obtain ⟨a, w', houtcome⟩ := hsucceeds.mpr ⟨[2, 4], rfl, rfl, rfl, _, rfl⟩
    obtain ⟨r', -, -, -, -, -, hothers⟩ := hresult a w' houtcome
    exact ⟨a, w', houtcome, hothers ⟨0⟩ rfl⟩

end VbsCompiler
