import Mathlib.Data.List.Forall2
import VbsCompiler.Support.Library

/-! The laws of array elements. Subscripts in range have a position of their own, so an element that
is set is the only one that changes, and reading and setting fail alike. -/

namespace VbsCompiler

namespace Shape

def Contains (shape : Shape) (indices : List Int32) : Prop :=
  List.Forall₂ (fun (i : Int32) (l : Nat) => 0 ≤ i.toInt ∧ i.toInt < l) indices shape

theorem advance_eq_ok_iff {start next l : Nat} {i : Int32} :
    advance start i l = .ok next ↔
      (0 ≤ i.toInt ∧ i.toInt < l) ∧ next = start * l + i.toInt.toNat := by
  unfold advance
  split
  · rename_i hi
    simp only [Except.ok.injEq, hi, and_self, true_and]
    exact eq_comm
  · rename_i hi
    simp [hi]

theorem offsetFrom_cons_eq_ok {start p l : Nat} {ls : Shape} {i : Int32} {is : List Int32} :
    offsetFrom start (l :: ls) (i :: is) = .ok p ↔
      (0 ≤ i.toInt ∧ i.toInt < l) ∧ offsetFrom (start * l + i.toInt.toNat) ls is = .ok p := by
  rw [offsetFrom]
  cases hadvance : advance start i l with
  | error e =>
    have hout : ¬ (0 ≤ i.toInt ∧ i.toInt < l) := by
      intro hi
      rw [advance_eq_ok_iff.mpr ⟨hi, rfl⟩] at hadvance
      cases hadvance
    simp only [hout, false_and, iff_false]
    intro h
    cases h
  | ok next =>
    obtain ⟨hi, rfl⟩ := advance_eq_ok_iff.mp hadvance
    simp only [hi, and_self, true_and]
    exact Iff.rfl

theorem exists_offsetFrom_iff {shape : Shape} {indices : List Int32} (start : Nat)
    (hlength : indices.length = shape.length) :
    (∃ p, offsetFrom start shape indices = .ok p) ↔ shape.Contains indices := by
  induction shape generalizing indices start with
  | nil =>
    obtain rfl := List.eq_nil_of_length_eq_zero hlength
    exact ⟨fun _ => .nil, fun _ => ⟨start, rfl⟩⟩
  | cons l ls ih =>
    cases indices with
    | nil => cases hlength
    | cons i is =>
      have hrest := ih (start * l + i.toInt.toNat) (Nat.succ.inj hlength)
      simp only [offsetFrom_cons_eq_ok, exists_and_left, hrest]
      rw [Contains, Contains, List.forall₂_cons]

theorem exists_offset_iff {shape : Shape} {indices : List Int32} :
    (∃ p, offset shape indices = .ok p) ↔ shape.Contains indices := by
  unfold offset
  split
  · rename_i hlength
    constructor
    · rintro ⟨p, h⟩
      cases h
    · intro h
      exact absurd h.length_eq hlength
  · rename_i hlength
    exact exists_offsetFrom_iff 0 (Decidable.not_not.mp hlength)

theorem quotient_of_digit {q l k : Nat} (hk : k < l) : (q * l + k) / l = q := by
  rw [Nat.mul_comm q l, Nat.mul_add_div (by omega), Nat.div_eq_of_lt hk, Nat.add_zero]

/-- The digits of a number in the mixed radix of the lengths are unique. -/
theorem offsetFrom_injective {shape : Shape} {is js : List Int32} {start start' p : Nat}
    (hi : is.length = shape.length) (hj : js.length = shape.length)
    (h : offsetFrom start shape is = .ok p) (h' : offsetFrom start' shape js = .ok p) :
    start = start' ∧ is = js := by
  induction shape generalizing is js start start' with
  | nil =>
    obtain rfl := List.eq_nil_of_length_eq_zero hi
    obtain rfl := List.eq_nil_of_length_eq_zero hj
    cases h
    cases h'
    exact ⟨rfl, rfl⟩
  | cons l ls ih =>
    cases is with
    | nil => cases hi
    | cons i is =>
      cases js with
      | nil => cases hj
      | cons j js =>
        obtain ⟨hi', h⟩ := offsetFrom_cons_eq_ok.mp h
        obtain ⟨hj', h'⟩ := offsetFrom_cons_eq_ok.mp h'
        obtain ⟨hnext, rfl⟩ := ih (Nat.succ.inj hi) (Nat.succ.inj hj) h h'
        -- Dividing by the length gives back the position of the subscripts before.
        obtain rfl : start = start' := by
          rw [← quotient_of_digit (q := start) (l := l) (k := i.toInt.toNat) (by omega), hnext,
            quotient_of_digit (by omega)]
        have hindex : i = j := Int32.toInt_inj.mp (by omega)
        exact ⟨rfl, by rw [hindex]⟩

/-- Different subscripts have different positions. -/
theorem offset_injective {shape : Shape} {is js : List Int32} {p : Nat}
    (h : offset shape is = .ok p) (h' : offset shape js = .ok p) : is = js := by
  unfold offset at h h'
  split at h
  · cases h
  · rename_i hi
    split at h'
    · cases h'
    · rename_i hj
      exact (offsetFrom_injective (Decidable.not_not.mp hi) (Decidable.not_not.mp hj) h h').2

end Shape

namespace Grid

variable {g g' : Grid} {indices : List Int32} {v : Value}

theorem offset_lt_size {p : Nat} (h : g.shape.offset indices = .ok p) : p < g.items.size := by
  rw [g.size_items]
  exact Shape.offset_lt h

theorem get_eq (g : Grid) (indices : List Int32) :
    g.get indices = (g.shape.offset indices).map (g.items.getD · .empty) := by
  unfold get
  split
  · rename_i e he
    rw [he]
    rfl
  · rename_i p hp
    have hlt := offset_lt_size hp
    simp [hp, Except.map, Array.getD, hlt]

theorem set_eq (g : Grid) (indices : List Int32) (v : Value) :
    g.set indices v = (g.shape.offset indices).map (g.put · v) := by
  unfold set
  split
  · rename_i e he
    rw [he]
    rfl
  · rename_i p hp
    have hlt := offset_lt_size hp
    simp [hp, Except.map, put, Array.setIfInBounds, hlt]

theorem set_eq_error_iff {e : ScriptError} :
    g.set indices v = .error e ↔ g.get indices = .error e := by
  rw [get_eq, set_eq]
  cases g.shape.offset indices <;> simp [Except.map]

theorem set_eq_ok_iff :
    g.set indices v = .ok g' ↔ ∃ p, g.shape.offset indices = .ok p ∧ g' = g.put p v := by
  rw [set_eq]
  cases g.shape.offset indices with
  | error e => simp [Except.map]
  | ok p => simp [Except.map, eq_comm]

theorem get_set_self (h : g.set indices v = .ok g') : g'.get indices = .ok v := by
  obtain ⟨p, hp, rfl⟩ := set_eq_ok_iff.mp h
  have hlt := offset_lt_size hp
  have hp' : (g.put p v).shape.offset indices = .ok p := hp
  rw [get_eq, hp']
  simp [Except.map, put, Array.getD, hlt]

theorem get_set_of_ne (h : g.set indices v = .ok g') {others : List Int32}
    (hne : others ≠ indices) : g'.get others = g.get others := by
  obtain ⟨p, hp, rfl⟩ := set_eq_ok_iff.mp h
  have hshape : (g.put p v).shape = g.shape := rfl
  rw [get_eq, get_eq, hshape]
  cases hothers : g.shape.offset others with
  | error e => rfl
  | ok q =>
    have hpq : p ≠ q := by
      rintro rfl
      exact hne (Shape.offset_injective hothers hp)
    simp [Except.map, put, Array.getD_eq_getD_getElem?, Array.getElem?_setIfInBounds_ne hpq]

end Grid

namespace Heap

variable {h h' : Heap} {r : ArrayRef} {indices : List Int32} {v : Value}

theorem set_eq_error_iff {e : ScriptError} :
    h.set r indices v = .error e ↔ h.get r indices = .error e := by
  rw [set, get, ← Grid.set_eq_error_iff (v := v)]
  cases (h.grid r).set indices v <;> simp [Except.map]

theorem exists_get_iff : (∃ v, h.get r indices = .ok v) ↔ (h.grid r).shape.Contains indices := by
  rw [get, Grid.get_eq, ← Shape.exists_offset_iff]
  cases (h.grid r).shape.offset indices <;> simp [Except.map]

theorem exists_set_iff :
    (∃ h', h.set r indices v = .ok h') ↔ (h.grid r).shape.Contains indices := by
  rw [set, Grid.set_eq, ← Shape.exists_offset_iff]
  cases (h.grid r).shape.offset indices <;> simp [Except.map]

/-- Of a reference that leads nowhere there is only the element without subscripts. -/
theorem contains_of_subscripts (hindices : indices ≠ [])
    (hin : (h.grid r).shape.Contains indices) : h.contains r = true := by
  by_contra hout
  have hdefault : h.grid r = default := by
    have hnone : h.arrays.size ≤ r.id := by simpa [contains] using hout
    simp [grid, Array.getD, Nat.not_lt.mpr hnone]
  rw [hdefault] at hin
  cases hin
  exact hindices rfl

theorem set_eq_ok (hset : h.set r indices v = .ok h') :
    ∃ g, (h.grid r).set indices v = .ok g ∧ h' = ⟨h.arrays.setIfInBounds r.id g⟩ := by
  rw [set] at hset
  cases hgrid : (h.grid r).set indices v with
  | error e =>
    rw [hgrid] at hset
    cases hset
  | ok g =>
    rw [hgrid] at hset
    cases hset
    exact ⟨g, rfl, rfl⟩

theorem grid_set_self (hcontains : h.contains r = true) (hset : h.set r indices v = .ok h') :
    (h.grid r).set indices v = .ok (h'.grid r) := by
  obtain ⟨g, hg, rfl⟩ := set_eq_ok hset
  have hlt : r.id < h.arrays.size := by simpa [contains] using hcontains
  have hgrid : (⟨h.arrays.setIfInBounds r.id g⟩ : Heap).grid r = g := by
    simp [grid, Array.getD, hlt]
  rw [hgrid, hg]

theorem grid_set_of_ne (hset : h.set r indices v = .ok h') {r' : ArrayRef} (hne : r' ≠ r) :
    h'.grid r' = h.grid r' := by
  obtain ⟨g, hg, rfl⟩ := set_eq_ok hset
  have hid : r.id ≠ r'.id := by
    intro hid
    exact hne (by cases r; cases r'; cases hid; rfl)
  simp [grid, Array.getD_eq_getD_getElem?, Array.getElem?_setIfInBounds_ne hid]

theorem get_set_self (hindices : indices ≠ []) (hset : h.set r indices v = .ok h') :
    h'.get r indices = .ok v := by
  have hcontains := contains_of_subscripts hindices (exists_set_iff.mp ⟨h', hset⟩)
  exact Grid.get_set_self (grid_set_self hcontains hset)

theorem get_set_of_ne (hindices : indices ≠ []) (hset : h.set r indices v = .ok h')
    {r' : ArrayRef} {others : List Int32} (hne : r' ≠ r ∨ others ≠ indices) :
    h'.get r' others = h.get r' others := by
  by_cases hr : r' = r
  · subst hr
    have hcontains := contains_of_subscripts hindices (exists_set_iff.mp ⟨h', hset⟩)
    exact Grid.get_set_of_ne (grid_set_self hcontains hset) (hne.resolve_left (· rfl))
  · rw [get, get, grid_set_of_ne hset hr]

theorem contains_allocated (h : Heap) (g : Grid) : h.contains (h.allocate g).1 = false := by
  simp [contains, allocate]

theorem grid_allocated (h : Heap) (g : Grid) : (h.allocate g).2.grid (h.allocate g).1 = g := by
  simp [grid, allocate, Array.getD_eq_getD_getElem?]

theorem grid_allocate_of_contains (g : Grid) (hr : h.contains r = true) :
    (h.allocate g).2.grid r = h.grid r := by
  have hlt : r.id < h.arrays.size := by simpa [contains] using hr
  simp [grid, allocate, Array.getD_eq_getD_getElem?, Array.getElem?_push_lt hlt, hlt]

end Heap

namespace Action

variable {σ α β : Type}

def outcome (x : Action σ α) (w : World σ) : Except ScriptError α × World σ :=
  x.run.run w

@[simp] theorem outcome_pure (a : α) (w : World σ) :
    outcome (pure a) w = (.ok a, w) := rfl

@[simp] theorem outcome_grid (r : ArrayRef) (w : World σ) :
    (grid r).outcome w = (.ok (w.heap.grid r), w) := rfl

theorem outcome_bind (x : Action σ α) (f : α → Action σ β) (w : World σ) :
    (x >>= f).outcome w =
      match x.outcome w with
      | (.ok a, u) => (f a).outcome u
      | (.error e, u) => (.error e, u) := by
  simp only [outcome, ExceptT.run_bind, StateT.run_bind]
  rcases x.run.run w with ⟨result, u⟩
  cases result <;> rfl

@[simp] theorem outcome_ofExcept (result : Except ScriptError α) (w : World σ) :
    outcome (ofExcept result) w = (result, w) := by
  cases result <;> rfl

@[simp] theorem outcome_element (r : ArrayRef) (indices : List Int32) (w : World σ) :
    (element r indices).outcome w = (w.heap.get r indices, w) := by
  rw [element]
  exact outcome_ofExcept _ w

theorem outcome_setElement (r : ArrayRef) (indices : List Int32) (v : Value) (w : World σ) :
    (setElement r indices v).outcome w =
      match w.heap.set r indices v with
      | .ok heap => (.ok (), { w with heap })
      | .error e => (.error e, w) := by
  have hget : (setElement r indices v).outcome w =
      ((ofExcept (w.heap.set r indices v) : Action σ Heap) >>= fun heap =>
        set { w with heap }).outcome w := rfl
  rw [hget, outcome_bind, outcome_ofExcept]
  cases w.heap.set r indices v <;> rfl

end Action

section Arguments

variable {σ : Type} {args : Arguments σ}

/-- The arguments stand for the subscripts of an element that the array has. -/
def Arguments.Selects (args : Arguments σ) (h : Heap) (r : ArrayRef) (indices : List Int32) :
    Prop :=
  args.indices = .ok indices ∧ (h.grid r).shape.Contains indices

theorem mapM_eq_ok_iff {α β ε : Type} {f : α → Except ε β} {as : List α} {bs : List β} :
    as.mapM f = .ok bs ↔ List.Forall₂ (fun a b => f a = .ok b) as bs := by
  induction as generalizing bs with
  | nil => simp [pure, Except.pure, eq_comm]
  | cons a as ih =>
    rw [List.mapM_cons, List.forall₂_cons_left_iff]
    constructor
    · intro h
      cases ha : f a with
      | error e =>
        rw [ha] at h
        cases h
      | ok b =>
        cases has : as.mapM f with
        | error e =>
          rw [ha, has] at h
          cases h
        | ok rest =>
          rw [ha, has] at h
          exact ⟨b, rest, rfl, ih.mp has, (Except.ok.inj h).symm⟩
    · rintro ⟨b, rest, ha, hrest, rfl⟩
      rw [ha, ih.mpr hrest]
      rfl

theorem length_of_mapM_ok {α β ε : Type} {f : α → Except ε β} {as : List α} {bs : List β}
    (h : as.mapM f = .ok bs) : bs.length = as.length :=
  (mapM_eq_ok_iff.mp h).length_eq.symm

theorem subscripts_ne_nil {indices : List Int32} (hargs : args.count ≠ 0)
    (h : args.indices = .ok indices) : indices ≠ [] := by
  rintro rfl
  have hlength := length_of_mapM_ok h
  simp [Arguments.values] at hlength
  exact hargs (by simp [Arguments.count, ← hlength])

def Heap.indexed (h : Heap) (r : ArrayRef) (args : Arguments σ) : Except ScriptError Value :=
  if args.count = 0 && !args.brackets then .ok (.array r)
  else args.indices >>= h.get r

theorem indexed_of_indices (hargs : args.count ≠ 0) {indices : List Int32}
    (hindices : args.indices = .ok indices) (h : Heap) (r : ArrayRef) :
    h.indexed r args = h.get r indices := by
  rw [Heap.indexed, if_neg (by simp [hargs]), hindices]
  rfl

theorem indexed_of_error (hargs : args.count ≠ 0) {e : ScriptError}
    (hindices : args.indices = .error e) (h : Heap) (r : ArrayRef) :
    h.indexed r args = .error e := by
  rw [Heap.indexed, if_neg (by simp [hargs]), hindices]
  rfl

@[simp] theorem outcome_callTarget_array (host : Host σ) (r : ArrayRef) (args : Arguments σ)
    (w : World σ) :
    (callTarget host (.array r) args).outcome w = (w.heap.indexed r args, w) := by
  rw [callTarget, Heap.indexed]
  split
  · rfl
  · rw [Action.outcome_bind, Action.outcome_ofExcept]
    cases args.indices with
    | error e => rfl
    | ok indices => exact Action.outcome_element r indices w

theorem outcome_assignTo_array (host : Host σ) (v : Value) (r : ArrayRef) (hargs : args.count ≠ 0)
    (w : World σ) :
    (assignTo host v (.array r) none args).outcome w =
      match args.indices >>= (w.heap.set r · v) with
      | .ok heap => (.ok (), { w with heap })
      | .error e => (.error e, w) := by
  rw [assignTo, if_neg hargs, Action.outcome_bind, Action.outcome_ofExcept]
  cases args.indices with
  | error e => rfl
  | ok indices => exact Action.outcome_setElement r indices v w

/-- An assignment to an element either does nothing or stores the value. -/
theorem assignTo_array_cases (host : Host σ) (v : Value) (r : ArrayRef) (hargs : args.count ≠ 0)
    (w : World σ) :
    (∃ e, (assignTo host v (.array r) none args).outcome w = (.error e, w) ∧
      w.heap.indexed r args = .error e) ∨
    ∃ indices heap, args.Selects w.heap r indices ∧ w.heap.set r indices v = .ok heap ∧
      (assignTo host v (.array r) none args).outcome w = (.ok (), { w with heap }) := by
  rw [outcome_assignTo_array host v r hargs w]
  cases hindices : args.indices with
  | error e => exact .inl ⟨e, rfl, indexed_of_error hargs hindices w.heap r⟩
  | ok indices =>
    have hbind : (Except.ok indices >>= (w.heap.set r · v)) = w.heap.set r indices v := rfl
    rw [hbind]
    cases hset : w.heap.set r indices v with
    | error e =>
      refine .inl ⟨e, rfl, ?_⟩
      rw [indexed_of_indices hargs hindices]
      exact Heap.set_eq_error_iff.mp hset
    | ok heap =>
      have hin := Heap.exists_set_iff.mp ⟨heap, hset⟩
      exact .inr ⟨indices, heap, ⟨hindices, hin⟩, hset, rfl⟩

/-- Arguments that do not select the element that was set give what they gave before. -/
theorem indexed_set_of_ne {h h' : Heap} {r r' : ArrayRef} {indices : List Int32} {v : Value}
    (hindices : indices ≠ []) (hset : h.set r indices v = .ok h') (args : Arguments σ)
    (hne : r' ≠ r ∨ ¬ args.Selects h r' indices) : h'.indexed r' args = h.indexed r' args := by
  rw [Heap.indexed, Heap.indexed]
  split
  · rfl
  · cases hothers : args.indices with
    | error e => rfl
    | ok others =>
      refine Heap.get_set_of_ne hindices hset ?_
      by_cases hr : r' = r
      · subst hr
        refine .inr ?_
        rintro rfl
        exact hne.resolve_left (· rfl) ⟨hothers, Heap.exists_set_iff.mp ⟨h', hset⟩⟩
      · exact .inl hr

/-- Reading and setting an element fail alike, and a set that fails does nothing. After a set that
succeeds the element has the value, and no arguments that select another element or none give
anything else than before. -/
theorem array_store_laws (host : Host σ) (w : World σ) (r : ArrayRef) (args : Arguments σ)
    (v : Value) (hargs : args.count ≠ 0) :
    let lib : Library σ := ⟨.standard host⟩
    (∀ e, ((lib.set v (.array r) none args).outcome w).1 = .error e ↔
      ((lib.call (.array r) [] args).outcome w).1 = .error e) ∧
    (∀ e w', (lib.set v (.array r) none args).outcome w = (.error e, w') → w' = w) ∧
    ∀ w', (lib.set v (.array r) none args).outcome w = (.ok (), w') →
      (lib.call (.array r) [] args).outcome w' = (.ok v, w') ∧
      ∃ indices, args.Selects w.heap r indices ∧
        ∀ (r' : ArrayRef) (args' : Arguments σ),
          r' ≠ r ∨ ¬ args'.Selects w.heap r' indices →
          (lib.call (.array r') [] args').outcome w' =
            (((lib.call (.array r') [] args').outcome w).1, w') := by
  intro lib
  have hread : ∀ (r : ArrayRef) (args : Arguments σ) (w : World σ),
      (lib.call (.array r) [] args).outcome w = (w.heap.indexed r args, w) :=
    outcome_callTarget_array host
  have hwrite : lib.set v (.array r) none args = assignTo host v (.array r) none args := rfl
  simp only [hread, hwrite]
  obtain ⟨e, hfails, hindexed⟩ | ⟨indices, heap, hselects, hset, hdone⟩ :=
    assignTo_array_cases host v r hargs w
  · rw [hfails, hindexed]
    refine ⟨fun e' => by simp, ?_, ?_⟩
    · rintro e' w' ⟨⟩
      rfl
    · rintro w' ⟨⟩
  · have hindices := subscripts_ne_nil hargs hselects.1
    rw [hdone]
    refine ⟨fun e => ?_, ?_, ?_⟩
    · rw [indexed_of_indices hargs hselects.1, ← Heap.set_eq_error_iff (v := v), hset]
      simp
    · rintro e w' ⟨⟩
    · rintro w' ⟨⟩
      refine ⟨?_, indices, hselects, fun r' args' hne => ?_⟩
      · rw [indexed_of_indices hargs hselects.1, Heap.get_set_self hindices hset]
      · rw [indexed_set_of_ne hindices hset args' hne]

end Arguments

theorem array_store_laws_two_dimensions :
    let host : Host Unit := ⟨fun _ _ args => pure (.ok .empty, args), fun _ _ _ _ => pure ()⟩
    let lib : Library Unit := ⟨.standard host⟩
    let w : World Unit := ⟨⟨#[Grid.blank [2, 3]]⟩, ()⟩
    let args (i j : Int32) : Arguments Unit := { slots := [⟨.long i, none⟩, ⟨.long j, none⟩] }
    ∃ w', (lib.set (.boolean true) (.array ⟨0⟩) none (args 1 2)).outcome w = (.ok (), w') ∧
      (lib.call (.array ⟨0⟩) [] (args 1 2)).outcome w' = (.ok (.boolean true), w') ∧
      (lib.call (.array ⟨0⟩) [] (args 0 2)).outcome w' = (.ok .empty, w') := by
  intro host lib w args
  obtain ⟨-, -, hlaws⟩ := array_store_laws host w ⟨0⟩ (args 1 2) (.boolean true) (by decide)
  have hset : (lib.set (.boolean true) (.array ⟨0⟩) none (args 1 2)).outcome w =
      (.ok (), ⟨⟨#[(Grid.blank [2, 3]).put 5 (.boolean true)]⟩, ()⟩) := rfl
  obtain ⟨hself, indices, hselects, hframe⟩ := hlaws _ hset
  refine ⟨_, hset, hself, hframe ⟨0⟩ (args 0 2) (.inr ?_)⟩
  have hone : (args 1 2).indices = .ok [1, 2] := rfl
  have hzero : (args 0 2).indices = .ok [0, 2] := rfl
  obtain rfl : [1, 2] = indices := Except.ok.inj (hone.symm.trans hselects.1)
  rintro ⟨hother, -⟩
  exact absurd (Except.ok.inj (hzero.symm.trans hother)) (by decide)

end VbsCompiler
