import Mathlib.Data.List.Induction
import VbsCompiler.Proofs.Bounds

/-! Arrays and the machine word. Positions of elements are multiplied up from the left, and a
product is taken before the subscripts after it are looked at. Since an array was allocated with a
product of lengths that stayed in the word up to its first empty dimension, and subscripts never get
past an empty dimension, no position on the way leaves the word either. -/

namespace VbsCompiler

namespace Shape

/-- The lengths up to the first empty dimension multiply within the machine word. -/
def FitsWord (shape : Shape) : Prop :=
  count shape.leading < wordSize

/-- Wherever a subscript is reached and lies in its dimension, neither the product with the length
nor the sum leaves the machine word, whatever the subscripts after it are. -/
def OffsetFits (shape : Shape) (indices : List Int32) : Prop :=
  ∀ k l i start next, shape[k]? = some l → indices[k]? = some i →
    offsetFrom 0 (shape.take k) (indices.take k) = .ok start → advance start i l = .ok next →
    start * l < wordSize ∧ next < wordSize

def PositionFits (shape : Shape) (coords : List Nat) : Prop :=
  ∀ k l c, shape[k]? = some l → coords[k]? = some c →
    position (shape.take k) (coords.take k) * l < wordSize ∧
    position (shape.take k) (coords.take k) * l + c < wordSize

theorem count_take_le_leading {shape : Shape} {k : Nat} (h : 0 < count (shape.take k)) :
    count (shape.take k) ≤ count shape.leading := by
  induction shape generalizing k with
  | nil => simp [leading]
  | cons l ls ih =>
    cases k with
    | zero => exact count_leading_pos (l :: ls)
    | succ k =>
      -- A product that is not zero has met no empty dimension yet.
      rw [List.take_succ_cons, count] at h ⊢
      have hl : l ≠ 0 := Nat.pos_iff_ne_zero.mp (Nat.pos_of_mul_pos_right h)
      have hrest : 0 < count (ls.take k) := Nat.pos_of_mul_pos_left h
      rw [leading_cons hl, count]
      exact Nat.mul_le_mul_left l (ih hrest)

theorem FitsWord.lt_of_lt_count {shape : Shape} (h : shape.FitsWord) {k p : Nat}
    (hp : p < count (shape.take k)) : p < wordSize := by
  have hle := count_take_le_leading (Nat.zero_lt_of_lt hp)
  exact Nat.lt_of_lt_of_le hp (hle.trans (Nat.le_of_lt h))

theorem offsetFrom_append {shape later : Shape} {indices others : List Int32} {start : Nat}
    (hlength : indices.length = shape.length) :
    offsetFrom start (shape ++ later) (indices ++ others) =
      offsetFrom start shape indices >>= (offsetFrom · later others) := by
  induction shape generalizing indices start with
  | nil =>
    obtain rfl := List.eq_nil_of_length_eq_zero hlength
    rfl
  | cons l ls ih =>
    cases indices with
    | nil => cases hlength
    | cons i is =>
      rw [List.cons_append, List.cons_append, offsetFrom, offsetFrom]
      cases advance start i l with
      | error e => rfl
      | ok next => exact ih (Nat.succ.inj hlength)

theorem length_take_of_getElem? {α β : Type} {as : List α} {bs : List β} {k : Nat} {a : α} {b : β}
    (ha : as[k]? = some a) (hb : bs[k]? = some b) :
    (bs.take k).length = (as.take k).length ∧
      (bs.take (k + 1)).length = (as.take (k + 1)).length := by
  obtain ⟨hk, -⟩ := List.getElem?_eq_some_iff.mp ha
  obtain ⟨hk', -⟩ := List.getElem?_eq_some_iff.mp hb
  simp only [List.length_take]
  omega

theorem offsetFrom_take_succ {shape : Shape} {indices : List Int32} {k l start : Nat} {i : Int32}
    (hl : shape[k]? = some l) (hi : indices[k]? = some i)
    (hstart : offsetFrom 0 (shape.take k) (indices.take k) = .ok start) :
    offsetFrom 0 (shape.take (k + 1)) (indices.take (k + 1)) = advance start i l := by
  rw [List.take_add_one, List.take_add_one, hl, hi, Option.toList_some, Option.toList_some,
    offsetFrom_append (length_take_of_getElem? hl hi).1, hstart]
  change (advance start i l >>= fun p => .ok p) = _
  cases advance start i l with
  | error e => rfl
  | ok next => rfl

theorem offsetFits_of_fitsWord {shape : Shape} (h : shape.FitsWord) (indices : List Int32) :
    shape.OffsetFits indices := by
  intro k l i start next hl hi hstart hnext
  -- The sum is itself the position of one subscript more, and so below the product of the lengths.
  have hreached := offsetFrom_take_succ hl hi hstart
  rw [hnext] at hreached
  have hlt : next < count (shape.take (k + 1)) := by
    simpa using offsetFrom_lt (length_take_of_getElem? hl hi).2 Nat.zero_lt_one hreached
  have hword := h.lt_of_lt_count hlt
  obtain ⟨-, rfl⟩ := advance_eq_ok_iff.mp hnext
  exact ⟨by omega, hword⟩

theorem position_take_succ {shape : Shape} {coords : List Nat} {k l c : Nat}
    (hl : shape[k]? = some l) (hc : coords[k]? = some c) :
    position (shape.take (k + 1)) (coords.take (k + 1)) =
      position (shape.take k) (coords.take k) * l + c := by
  rw [List.take_add_one, List.take_add_one, hl, hc, position, Option.toList_some,
    Option.toList_some, List.zip_append (length_take_of_getElem? hl hc).1, List.foldl_append]
  rfl

theorem positionFits_of_within {shape : Shape} {coords : List Nat} (h : shape.FitsWord)
    (hwithin : shape.Within coords) : shape.PositionFits coords := by
  intro k l c hl hc
  have hlt := position_lt (List.forall₂_take (k + 1) hwithin)
  rw [position_take_succ hl hc] at hlt
  have hword := h.lt_of_lt_count hlt
  exact ⟨by omega, hword⟩

theorem Within.lt_count {shape : Shape} {coords : List Nat} (h : shape.Within coords) :
    ∀ c ∈ coords, c < count shape := by
  induction h with
  | nil => simp
  | @cons c l cs ls hc hcs ih =>
    have hpos : 0 < count ls := Nat.zero_lt_of_lt (position_lt hcs)
    intro d hd
    rw [count]
    rcases List.mem_cons.mp hd with rfl | hd
    · exact Nat.lt_of_lt_of_le hc (Nat.le_mul_of_pos_right l hpos)
    · exact Nat.lt_of_lt_of_le (ih d hd) (Nat.le_mul_of_pos_left _ (Nat.zero_lt_of_lt hc))

end Shape

namespace Grid

/-- The arrays that can come about: a blank one, one with the elements of a list in memory, and what
setting an element or changing the shape makes of such an array. -/
inductive Built : Grid → Prop where
  | allocated {shape : Shape} {g : Grid} : allocate shape = .ok g → Built g
  | ofValues {values : List Value} : values.length < Shape.wordSize → Built (ofValues values)
  | set {g g' : Grid} {indices : List Int32} {v : Value} :
      Built g → g.set indices v = .ok g' → Built g'
  | resized {g g' : Grid} {shape : Shape} : Built g → g.resized shape = .ok g' → Built g'

/-- While the elements of an array are taken over into a blank copy of another shape, no subscript
that is counted up and no position of an element leaves the machine word, and every element that is
stored has its place in the copy. -/
def CopyFits (g : Grid) (shape : Shape) : Prop :=
  ∀ before v after, g.items.toList = before ++ v :: after →
    let (coords, copy) :=
      before.foldl (takeOver g.shape) (List.replicate g.rank 0, blank shape)
    (∀ c ∈ coords, c + 1 < Shape.wordSize) ∧
    (copy.shape.holds coords = true →
      copy.shape.PositionFits coords ∧ copy.shape.position coords < copy.items.size)

theorem shape_of_resized {g copy : Grid} {shape : Shape} (h : g.resized shape = .ok copy) :
    shape.check = .ok () ∧ copy.shape = shape := by
  obtain ⟨made, hmade⟩ := exists_allocate_of_resized h
  obtain ⟨hcheck, rfl⟩ := allocate_eq_ok_iff.mp hmade
  refine ⟨hcheck, ?_⟩
  by_cases hrank : shape.length = g.rank
  · obtain ⟨copy', hcopy', hshape, -⟩ := exists_resized hrank ⟨_, hmade⟩
    obtain rfl : copy' = copy := Except.ok.inj (hcopy'.symm.trans h)
    exact hshape
  · rw [resized, hmade] at h
    have hrank' : ¬ (blank shape).rank = g.rank := hrank
    change (if (blank shape).rank = g.rank then _ else _) = _ at h
    rw [if_neg hrank'] at h
    cases h
    rfl

theorem fitsWord_of_check {g : Grid} (h : g.shape.check = .ok ()) :
    g.shape.FitsWord ∧ g.items.size < Shape.wordSize := by
  have hlimit : Shape.maxCount < Shape.wordSize := by decide
  obtain ⟨hfits, hle⟩ := Shape.check_eq_ok_iff.mp h
  rw [g.size_items]
  exact ⟨hfits, Nat.lt_of_le_of_lt hle hlimit⟩

theorem fitsWord_ofValues {values : List Value} (h : values.length < Shape.wordSize) :
    (ofValues values).shape.FitsWord ∧ (ofValues values).items.size < Shape.wordSize := by
  refine ⟨?_, by simpa [ofValues] using h⟩
  change Shape.FitsWord [values.length]
  rw [Shape.FitsWord]
  cases hlength : values.length with
  | zero => decide
  | succ n =>
    rw [Shape.leading_cons (Nat.succ_ne_zero n)]
    simpa [Shape.count, Shape.leading, hlength] using h

theorem Built.fitsWord {g : Grid} (h : g.Built) :
    g.shape.FitsWord ∧ g.items.size < Shape.wordSize := by
  induction h with
  | allocated hmade =>
    obtain ⟨hcheck, rfl⟩ := allocate_eq_ok_iff.mp hmade
    exact fitsWord_of_check hcheck
  | ofValues hlt => exact fitsWord_ofValues hlt
  | set _ hset ih =>
    obtain ⟨p, -, rfl⟩ := set_eq_ok_iff.mp hset
    exact ⟨ih.1, by simpa [put] using ih.2⟩
  | resized _ hresized _ =>
    obtain ⟨hcheck, rfl⟩ := shape_of_resized hresized
    exact fitsWord_of_check hcheck

theorem takenOver_before {g : Grid} {shape : Shape} (hrank : shape.length = g.rank)
    {before after : List Value} (hitems : g.items.toList = before ++ after) :
    TakenOver g shape before.length
      (before.foldl (takeOver g.shape) (List.replicate g.rank 0, blank shape)) := by
  induction before using List.reverseRecOn generalizing after with
  | nil => exact takenOver_start g shape
  | append_singleton before v ih =>
    have hrest : g.items.toList = before ++ v :: after := by simpa using hitems
    have hsize : g.items.size = before.length + (after.length + 1) := by
      rw [← Array.length_toList, hrest]
      simp
    have hk : before.length < g.items.size := by omega
    have hv : g.items[before.length] = v := by
      rw [← Array.getElem_toList hk]
      simp [hrest]
    have hstep := (ih hrest).step hrank hk
    rw [hv] at hstep
    simpa using hstep

/-- The walk over the old elements stays inside the old array and writes only inside the copy. -/
theorem copyFits_of_check {g : Grid} {shape : Shape} (hsize : g.items.size < Shape.wordSize)
    (hcheck : shape.check = .ok ()) (hrank : shape.length = g.rank) : g.CopyFits shape := by
  intro before v after hitems
  have htaken := takenOver_before hrank hitems
  have hk : before.length < g.items.size := by
    rw [← Array.length_toList, hitems]
    simp
  obtain ⟨hwithin, -⟩ := htaken.reached hk
  have hshape := htaken.shape_eq
  rcases hstate : before.foldl (takeOver g.shape) (List.replicate g.rank 0, blank shape) with
    ⟨coords, copy⟩
  rw [hstate] at hwithin hshape
  subst hshape
  refine ⟨fun c hc => ?_, fun hholds => ?_⟩
  · have hlt := hwithin.lt_count c hc
    rw [← g.size_items] at hlt
    omega
  · have hlength : coords.length = copy.shape.length := by
      rw [hrank]
      exact hwithin.length_eq
    have hin := (Shape.holds_iff hlength).mp hholds
    refine ⟨Shape.positionFits_of_within (Shape.check_eq_ok_iff.mp hcheck).1 hin, ?_⟩
    rw [copy.size_items]
    exact Shape.position_lt hin

theorem access_cases (g : Grid) (indices : List Int32) (v : Value) :
    (∃ detail, g.get indices = .error (.about .subscriptOutOfRange detail) ∧
      g.set indices v = .error (.about .subscriptOutOfRange detail)) ∨
    ∃ p, ∃ hp : p < g.items.size, g.shape.offset indices = .ok p ∧
      g.get indices = .ok g.items[p] ∧
      ∃ g', g.set indices v = .ok g' ∧ g'.shape = g.shape ∧ g'.items = g.items.set p v := by
  cases hoffset : g.shape.offset indices with
  | error e =>
    obtain ⟨detail, rfl⟩ := offset_error hoffset
    have hget : g.get indices = .error (.about .subscriptOutOfRange detail) := by
      rw [get_eq, hoffset]
      rfl
    exact .inl ⟨detail, hget, set_eq_error_iff.mpr hget⟩
  | ok p =>
    have hp := offset_lt_size hoffset
    have hget : g.get indices = .ok g.items[p] := by
      rw [get_eq, hoffset]
      simp [Except.map, Array.getD, hp]
    exact .inr ⟨p, hp, rfl, hget, _, set_eq_ok_iff.mpr ⟨p, hoffset, rfl⟩, rfl,
      by simp [put, Array.setIfInBounds, hp]⟩

end Grid

/-- Every array that can come about has as many elements as its lengths multiply to. Reading or
setting an element of it fails with a subscript out of range or has a position among them, and
neither the position of subscripts, also of those that turn out to lie outside, nor the walk that
copies the array into another shape leaves the machine word or the arrays. -/
theorem array_positions_stay_in_array_and_word {g : Grid} (h : g.Built) :
    g.items.size = g.shape.prod ∧
    (∀ indices v,
      (∃ detail, g.get indices = .error (.about .subscriptOutOfRange detail) ∧
        g.set indices v = .error (.about .subscriptOutOfRange detail)) ∨
      ∃ p, ∃ hp : p < g.items.size, g.shape.offset indices = .ok p ∧
        g.get indices = .ok g.items[p] ∧
        ∃ g', g.set indices v = .ok g' ∧ g'.shape = g.shape ∧ g'.items = g.items.set p v) ∧
    (∀ indices, g.shape.OffsetFits indices) ∧
    ∀ shape, (∃ made, Grid.allocate shape = .ok made) → shape.length = g.rank →
      g.CopyFits shape := by
  obtain ⟨hfits, hsize⟩ := h.fitsWord
  refine ⟨?_, g.access_cases, Shape.offsetFits_of_fitsWord hfits, ?_⟩
  · rw [g.size_items, Shape.count_eq_prod]
  · rintro shape ⟨made, hmade⟩ hrank
    exact Grid.copyFits_of_check hsize (Grid.allocate_eq_ok_iff.mp hmade).1 hrank

theorem array_positions_stay_in_array_and_word_empty_last_dimension :
    let g : Grid := Grid.blank [4294967296, 4294967295, 0]
    let copied : Grid := Grid.ofValues [.long 1, .long 2]
    (∃ detail, g.get [2147483647, 2147483647, 0] = .error (.about .subscriptOutOfRange detail)) ∧
    2147483647 * 4294967295 + 2147483647 < Shape.wordSize ∧
    ∃ wider, copied.resized [3] = .ok wider ∧ wider.items.size = 3 ∧ copied.CopyFits [3] := by
  intro g copied
  have hmade : Grid.allocate [4294967296, 4294967295, 0] = .ok g := rfl
  have hempty : g.Built := .allocated hmade
  have hcopied : copied.Built := .ofValues (by decide)
  obtain ⟨-, haccess, hoffset, -⟩ := array_positions_stay_in_array_and_word hempty
  obtain ⟨-, -, -, hcopy⟩ := array_positions_stay_in_array_and_word hcopied
  obtain ⟨wider, hwider, -⟩ : ∃ wider, copied.resized [3] = .ok wider ∧ _ :=
    Grid.exists_resized rfl ⟨_, rfl⟩
  obtain ⟨hsize, -⟩ := array_positions_stay_in_array_and_word (.resized hcopied hwider)
  refine ⟨?_, ?_, wider, hwider, ?_, hcopy [3] ⟨_, rfl⟩ rfl⟩
  · rcases haccess [2147483647, 2147483647, 0] .empty with ⟨detail, hget, -⟩ | ⟨p, hp, -⟩
    · exact ⟨detail, hget⟩
    · exact absurd hp (by simp [g, Grid.blank, Shape.count])
  · exact (hoffset [2147483647, 2147483647, 0] 1 _ _ 2147483647 _ rfl rfl rfl rfl).2
  · rw [hsize, (Grid.shape_of_resized hwider).2]
    rfl

end VbsCompiler
