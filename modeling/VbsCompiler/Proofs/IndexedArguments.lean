import VbsCompiler.Proofs.Evolution

/-! Indexed elements as arguments. The chain is followed call by call; if everything on the way is
an array, the argument can be written back, and since arrays keep their shapes the write-back finds
its element whatever has happened in the meantime. -/

namespace VbsCompiler

open VbsCompiler.Action

variable {σ : Type}

/-- What is wrong with a chain: it is empty, or some step has no arguments, of which the first is
named. -/
inductive ChainFault : List (Arguments σ) → ArgumentFault → Prop where
  | noProviders : ChainFault [] .noProviders
  | emptyProvider {chain : List (Arguments σ)} {i : Nat} {args : Arguments σ} :
      chain[i]? = some args → args.count = 0 →
      (∀ j, j < i → ∀ earlier ∈ chain[j]?, earlier.count ≠ 0) →
      ChainFault chain (.emptyProvider i)

/-- Following a chain: one call for each step from the left, up to the first that fails. `indexed`
are the values that were indexed. -/
inductive Indexing (access : Access σ) :
    World σ → Value → (chain : List (Arguments σ)) → (indexed : List Value) →
      Except ScriptError Value → World σ → Prop where
  | fail {w w' : World σ} {target : Value} {args : Arguments σ} {rest : List (Arguments σ)}
      {e : ScriptError} : (access.call none target [] args).outcome w = (.error e, w') →
      Indexing access w target (args :: rest) [target] (.error e) w'
  | last {w w' : World σ} {target v : Value} {args : Arguments σ} :
      (access.call none target [] args).outcome w = (.ok v, w') →
      Indexing access w target [args] [target] (.ok v) w'
  | step {w u w' : World σ} {target next : Value} {args : Arguments σ}
      {rest : List (Arguments σ)} {indexed : List Value} {result : Except ScriptError Value} :
      (access.call none target [] args).outcome w = (.ok next, u) →
      Indexing access u next rest indexed result w' →
      Indexing access w target (args :: rest) (target :: indexed) result w'

/-- The slot for the result of a chain: what was indexed last can be set if all that was indexed
are arrays. -/
def slotFor (access : Access σ) (addressable : Bool) (chain : List (Arguments σ))
    (indexed : List Value) (v : Value) : Slot σ :=
  ⟨v, if addressable && indexed.all Value.isArray then
      indexed.getLast?.bind fun target => chain.getLast?.map fun args v =>
        access.set none v target none args
    else none⟩

theorem Indexing.indexed_ne_nil {access : Access σ} {w w' : World σ} {target : Value}
    {chain : List (Arguments σ)} {indexed : List Value} {result : Except ScriptError Value}
    (h : Indexing access w target chain indexed result w') : indexed ≠ [] := by
  cases h <;> simp

theorem update_slotFor {access : Access σ} {chain : List (Arguments σ)} {indexed : List Value}
    {last : Value} {args : Arguments σ} (hlast : indexed.getLast? = some last)
    (hchain : chain.getLast? = some args) (v : Value) :
    (slotFor access true chain indexed v).update? =
      if indexed.all Value.isArray then some fun v => access.set none v last none args
      else none := by
  simp [slotFor, hlast, hchain]

theorem isSome_update_slotFor (access : Access σ) {chain : List (Arguments σ)}
    {indexed : List Value} (hindexed : indexed ≠ []) (hchain : chain ≠ []) (v : Value) :
    (slotFor access true chain indexed v).update?.isSome = true ↔
      ∀ x ∈ indexed, x.isArray = true := by
  rw [update_slotFor (List.getLast?_eq_getLast_of_ne_nil hindexed)
    (List.getLast?_eq_getLast_of_ne_nil hchain)]
  rw [← List.all_eq_true]
  cases indexed.all Value.isArray <;> simp

theorem slotFor_cons (access : Access σ) (addressable : Bool) (target v : Value)
    (args next : Arguments σ) (rest : List (Arguments σ)) {indexed : List Value}
    (h : indexed ≠ []) :
    slotFor access addressable (args :: next :: rest) (target :: indexed) v =
      slotFor access (addressable && target.isArray) (next :: rest) indexed v := by
  obtain ⟨first, others, rfl⟩ := List.exists_cons_of_ne_nil h
  rw [slotFor, slotFor, List.all_cons, ← Bool.and_assoc, List.getLast?_cons_cons,
    List.getLast?_cons_cons]

/-- By recursion on the chain; `addressable` sums up what was indexed before. -/
theorem indexThrough_follows (access : Access σ) (target : Value) (addressable : Bool)
    (args : Arguments σ) (rest : List (Arguments σ)) (w : World σ) :
    ∃ indexed result w', Indexing access w target (args :: rest) indexed result w' ∧
      (indexThrough access target addressable args rest).outcome w =
        (result.map (slotFor access addressable (args :: rest) indexed), w') := by
  induction rest generalizing target addressable args w with
  | nil =>
    rw [indexThrough, outcome_bind]
    rcases hcall : (access.call none target [] args).outcome w with ⟨result, w'⟩
    cases result with
    | error e => exact ⟨_, _, _, .fail hcall, rfl⟩
    | ok v =>
      refine ⟨_, _, _, .last hcall, ?_⟩
      by_cases harray : (addressable && target.isArray) = true
      · simp [harray, Except.map, slotFor]
      · simp [harray, Except.map, slotFor]
  | cons next rest ih =>
    rw [indexThrough, outcome_bind]
    rcases hcall : (access.call none target [] args).outcome w with ⟨result, u⟩
    cases result with
    | error e => exact ⟨_, _, _, .fail hcall, rfl⟩
    | ok inner =>
      obtain ⟨indexed, result, w', hindexing, houtcome⟩ :=
        ih inner (addressable && target.isArray) next u
      refine ⟨_, _, _, .step hcall hindexing, houtcome.trans ?_⟩
      cases result with
      | error e => rfl
      | ok v =>
        simp only [Except.map]
        rw [slotFor_cons access addressable target v args next rest hindexing.indexed_ne_nil]

theorem indexedSlot_of_fault {chain : List (Arguments σ)} {fault : ArgumentFault}
    (h : ChainFault chain fault) (access : Access σ) (target : Value) (w : World σ) :
    (indexedSlot access target chain).outcome w = (.error (.arguments fault), w) := by
  cases h with
  | noProviders => rfl
  | @emptyProvider _ i args hi hcount hearlier =>
    obtain ⟨hlt, rfl⟩ := List.getElem?_eq_some_iff.mp hi
    have hfirst : chain.findIdx? (·.count = 0) = some i := by
      refine List.findIdx?_eq_some_iff_getElem.mpr ⟨hlt, by simpa using hcount, fun j hj => ?_⟩
      have hlt' : j < chain.length := Nat.lt_trans hj hlt
      simpa using hearlier j hj chain[j] (List.getElem?_eq_getElem hlt')
    obtain ⟨first, rest, rfl⟩ : ∃ first rest, chain = first :: rest :=
      List.exists_cons_of_length_pos (Nat.zero_lt_of_lt hlt)
    rw [indexedSlot, hfirst]
    rfl

theorem exists_chainFault_iff {chain : List (Arguments σ)} :
    (∃ fault, ChainFault chain fault) ↔ chain = [] ∨ ∃ args ∈ chain, args.count = 0 := by
  constructor
  · rintro ⟨fault, h⟩
    cases h with
    | noProviders => exact .inl rfl
    | emptyProvider hi hcount _ => exact .inr ⟨_, List.mem_of_getElem? hi, hcount⟩
  · rintro (rfl | ⟨args, hargs, hcount⟩)
    · exact ⟨_, .noProviders⟩
    · cases hfirst : chain.findIdx? (·.count = 0) with
      | none =>
        have hnone := List.findIdx?_eq_none_iff.mp hfirst args hargs
        simp [hcount] at hnone
      | some i =>
        obtain ⟨hlt, hzero, hearlier⟩ := List.findIdx?_eq_some_iff_getElem.mp hfirst
        refine ⟨.emptyProvider i, .emptyProvider (List.getElem?_eq_getElem hlt)
          (by simpa using hzero) fun j hj earlier hearlier' => ?_⟩
        obtain ⟨hlt', rfl⟩ := List.getElem?_eq_some_iff.mp hearlier'
        simpa using hearlier j hj

theorem findIdx?_eq_none_of_counts {chain : List (Arguments σ)}
    (h : ∀ args ∈ chain, args.count ≠ 0) : chain.findIdx? (·.count = 0) = none := by
  rw [List.findIdx?_eq_none_iff]
  intro args hargs
  simpa using h args hargs

theorem indexedSlot_follows {chain : List (Arguments σ)} (hchain : chain ≠ [])
    (hcounts : ∀ args ∈ chain, args.count ≠ 0) (access : Access σ) (target : Value)
    (w : World σ) :
    ∃ indexed result w', Indexing access w target chain indexed result w' ∧
      (indexedSlot access target chain).outcome w =
        (result.map (slotFor access true chain indexed), w') := by
  obtain ⟨first, rest, rfl⟩ := List.exists_cons_of_ne_nil hchain
  rw [indexedSlot, findIdx?_eq_none_of_counts hcounts]
  exact indexThrough_follows access target true first rest w

theorem evolving_update_slotFor {host : Host σ} (hhost : host.Evolving) (addressable : Bool)
    (chain : List (Arguments σ)) (indexed : List Value) (v : Value) :
    ∀ update ∈ (slotFor (.standard host) addressable chain indexed v).update?,
      ∀ v', (update v').Evolving := by
  intro update hupdate v'
  rw [slotFor] at hupdate
  split at hupdate
  · obtain ⟨last, -, hlast⟩ := Option.bind_eq_some_iff.mp hupdate
    obtain ⟨args, -, rfl⟩ := Option.map_eq_some_iff.mp hlast
    exact evolving_assignTo hhost v' last none args
  · cases hupdate

/-- Writing back an indexed element changes arrays as the library does, so such slots may be passed
to its operations. -/
theorem evolving_update_indexedSlot {host : Host σ} (hhost : host.Evolving) {target : Value}
    {chain : List (Arguments σ)} {slot : Slot σ} {w w' : World σ}
    (h : (indexedSlot (.standard host) target chain).outcome w = (.ok slot, w')) :
    ∀ update ∈ slot.update?, ∀ v, (update v).Evolving := by
  by_cases hfault : ∃ fault, ChainFault chain fault
  · obtain ⟨fault, hfault⟩ := hfault
    rw [indexedSlot_of_fault hfault] at h
    cases h
  · obtain ⟨hchain, hcounts⟩ : chain ≠ [] ∧ ∀ args ∈ chain, args.count ≠ 0 := by
      simpa [exists_chainFault_iff] using hfault
    obtain ⟨indexed, result, u, -, houtcome⟩ :=
      indexedSlot_follows hchain hcounts (.standard host) target w
    rw [houtcome] at h
    cases result with
    | error e => cases h
    | ok v =>
      cases h
      exact evolving_update_slotFor hhost true chain indexed v

theorem Indexing.exists_ok {access : Access σ}
    (hcalls : ∀ target args w, ∃ v w', (access.call none target [] args).outcome w = (.ok v, w'))
    {w w' : World σ} {target : Value} {chain : List (Arguments σ)} {indexed : List Value}
    {result : Except ScriptError Value} (h : Indexing access w target chain indexed result w') :
    ∃ v, result = .ok v := by
  induction h with
  | @fail w w' target args rest e hcall =>
    obtain ⟨v, u, hok⟩ := hcalls target args w
    rw [hok] at hcall
    cases hcall
  | last _ => exact ⟨_, rfl⟩
  | step _ _ ih => exact ih

/-- The chain is refused whatever the accesses would do exactly if it has a fault. -/
theorem refused_iff (target : Value) (chain : List (Arguments σ)) (w : World σ) :
    (∀ (access : Access σ) (w : World σ), ∃ e,
      (indexedSlot access target chain).outcome w = (.error e, w)) ↔
      chain = [] ∨ ∃ args ∈ chain, args.count = 0 := by
  constructor
  · intro hrefused
    by_contra hsound
    obtain ⟨hchain, hcounts⟩ : chain ≠ [] ∧ ∀ args ∈ chain, args.count ≠ 0 := by
      simpa using hsound
    let access : Access σ := ⟨fun _ _ _ _ => pure .empty, fun _ _ _ _ _ => pure ()⟩
    obtain ⟨e, hfails⟩ := hrefused access w
    obtain ⟨indexed, result, w', hindexing, houtcome⟩ :=
      indexedSlot_follows hchain hcounts access target w
    obtain ⟨v, rfl⟩ := hindexing.exists_ok fun _ _ w => ⟨.empty, w, rfl⟩
    rw [houtcome] at hfails
    cases hfails
  · intro hfault access w
    obtain ⟨fault, hchain⟩ := exists_chainFault_iff.mpr hfault
    exact ⟨_, indexedSlot_of_fault hchain access target w⟩

/-- In that world the argument can be overwritten wherever the slot is passed; this sets the
element and no other. -/
def Slot.WritesTo (slot : Slot σ) (r : ArrayRef) (indices : List Int32) (w : World σ) : Prop :=
  ∀ (args : Arguments σ) (i : Nat), args.slots[i]? = some slot → ∀ v, ∃ heap,
    (args.overwrite i v).outcome w = (.ok (), { w with heap }) ∧ heap.get r indices = .ok v ∧
    ∀ (r' : ArrayRef) (others : List Int32), r' ≠ r ∨ others ≠ indices →
      heap.get r' others = w.heap.get r' others

def Slot.Ignores (slot : Slot σ) : Prop :=
  ∀ (args : Arguments σ) (i : Nat), args.slots[i]? = some slot →
    ∀ v w, (args.overwrite i v).outcome w = (.ok (), w)

theorem ignores_of_none {slot : Slot σ} (h : slot.update? = none) : slot.Ignores := by
  intro args i hi v w
  rw [Arguments.overwrite, hi]
  dsimp only
  rw [h]
  rfl

theorem exists_array {x : Value} (h : x.isArray = true) : ∃ r, x = .array r := by
  cases x <;> try cases h
  exact ⟨_, rfl⟩

section Element

variable {host : Host σ} {w w' : World σ} {target v : Value} {chain : List (Arguments σ)}
  {indexed : List Value}

/-- Where the value of a chain of arrays was read. -/
theorem Indexing.element {result : Except ScriptError Value}
    (h : Indexing (.standard host) w target chain indexed result w')
    (hcounts : ∀ args ∈ chain, args.count ≠ 0) (harrays : ∀ x ∈ indexed, x.isArray = true)
    (hresult : result = .ok v) :
    ∃ r args indices, indexed.getLast? = some (.array r) ∧ chain.getLast? = some args ∧
      args.indices = .ok indices ∧ w'.heap.get r indices = .ok v := by
  induction h with
  | fail _ => cases hresult
  | @last w w' target v args hcall =>
    cases hresult
    obtain ⟨r, rfl⟩ := exists_array (harrays target List.mem_cons_self)
    have hcount := hcounts args List.mem_cons_self
    have hread := (outcome_callTarget_array host r args w).symm.trans hcall
    obtain ⟨hindexed, rfl⟩ := Prod.mk.inj hread
    cases hindices : args.indices with
    | error e =>
      rw [indexed_of_error hcount hindices] at hindexed
      cases hindexed
    | ok indices =>
      rw [indexed_of_indices hcount hindices] at hindexed
      exact ⟨r, args, indices, rfl, rfl, hindices, hindexed⟩
  | @step w u w' target next args rest indexed result hcall hindexing ih =>
    obtain ⟨r, last, indices, hlast, hchain, hindices, hget⟩ :=
      ih (fun a ha => hcounts a (List.mem_cons_of_mem _ ha))
        (fun x hx => harrays x (List.mem_cons_of_mem _ hx)) hresult
    refine ⟨r, last, indices, ?_, ?_, hindices, hget⟩
    · rw [List.getLast?_cons, hlast]
      rfl
    · rw [List.getLast?_cons, hchain]
      rfl

theorem writesTo_later {r : ArrayRef} {args : Arguments σ} {indices : List Int32} {slot : Slot σ}
    (hslot : slot.update? = some fun v => assignTo host v (.array r) none args)
    (hcount : args.count ≠ 0) (hindices : args.indices = .ok indices)
    (hget : w.heap.get r indices = .ok v) (hlater : w.heap.Evolves w'.heap) :
    slot.WritesTo r indices w' := by
  intro passed i hi v'
  have hne := subscripts_ne_nil hcount hindices
  have hin := Heap.exists_get_iff.mp ⟨v, hget⟩
  -- The array has kept the shape it had when the value was read, so the element is still there.
  obtain ⟨-, hshape⟩ := hlater.shape (Heap.contains_of_subscripts hne hin)
  rw [← hshape] at hin
  obtain ⟨heap, hset⟩ : ∃ heap, w'.heap.set r indices v' = .ok heap := Heap.exists_set_iff.mpr hin
  refine ⟨heap, ?_, Heap.get_set_self hne hset, fun r' others => Heap.get_set_of_ne hne hset⟩
  have hassign : (assignTo host v' (.array r) none args).outcome w' =
      (.ok (), { w' with heap }) := by
    have hstore : (args.indices >>= (w'.heap.set r · v')) = .ok heap := by
      rw [hindices]
      exact hset
    rw [outcome_assignTo_array host v' r hcount w', hstore]
  rw [Arguments.overwrite, hi]
  dsimp only
  rw [hslot]
  exact hassign

end Element

/-- A chain is refused before anything is done exactly if it is empty or a step has no arguments,
and the error names the first such step. Else it is followed call by call, up to the first that
fails. The slot holds the last value and can be written back exactly if all that was indexed are
arrays. Then overwriting the argument succeeds and sets just the element that the value was read
from, also behind any operations of the library in which the objects and the write-backs change
arrays only by allocating them and setting elements. A slot that cannot be written back ignores
being overwritten. -/
theorem indexed_argument_writes_back (host : Host σ) (w : World σ) (target : Value)
    (chain : List (Arguments σ)) :
    let lib : Library σ := ⟨.standard host⟩
    ((∀ (access : Access σ) (w : World σ), ∃ e,
      (indexedSlot access target chain).outcome w = (.error e, w)) ↔
        chain = [] ∨ ∃ args ∈ chain, args.count = 0) ∧
    (∀ fault, ChainFault chain fault →
      (indexedSlot lib.access target chain).outcome w = (.error (.arguments fault), w)) ∧
    ((¬ ∃ fault, ChainFault chain fault) → ∃ indexed result w',
      Indexing lib.access w target chain indexed result w' ∧
      (∀ e, result = .error e →
        (indexedSlot lib.access target chain).outcome w = (.error e, w')) ∧
      ∀ v, result = .ok v → ∃ slot,
        (indexedSlot lib.access target chain).outcome w = (.ok slot, w') ∧ slot.value = v ∧
        (slot.update?.isSome = true ↔ ∀ x ∈ indexed, x.isArray = true) ∧
        (slot.update? = none → slot.Ignores) ∧
        (slot.update?.isSome = true → ∃ r args indices,
          indexed.getLast? = some (.array r) ∧ chain.getLast? = some args ∧
          args.indices = .ok indices ∧ w'.heap.get r indices = .ok v ∧
          (host.Evolving → ∀ operations : List (Library.Operation σ),
            (∀ operation ∈ operations, operation.Evolving) →
            slot.WritesTo r indices (Library.Operation.performAll lib w' operations)))) := by
  intro lib
  refine ⟨refused_iff target chain w, fun fault hfault => indexedSlot_of_fault hfault _ target w,
    fun hsound => ?_⟩
  obtain ⟨hchain, hcounts⟩ : chain ≠ [] ∧ ∀ args ∈ chain, args.count ≠ 0 := by
    simpa [exists_chainFault_iff] using hsound
  obtain ⟨indexed, result, w', hindexing, houtcome⟩ :=
    indexedSlot_follows hchain hcounts lib.access target w
  refine ⟨indexed, result, w', hindexing, ?_, ?_⟩
  · rintro e rfl
    exact houtcome
  · rintro v rfl
    have hsettable := isSome_update_slotFor lib.access hindexing.indexed_ne_nil hchain v
    refine ⟨_, houtcome, rfl, hsettable, ignores_of_none, fun hsome => ?_⟩
    have harrays := hsettable.mp hsome
    obtain ⟨r, args, indices, hlast, hargs, hindices, hget⟩ :=
      hindexing.element hcounts harrays rfl
    refine ⟨r, args, indices, hlast, hargs, hindices, hget, fun hhost operations hoperations => ?_⟩
    have hcount := hcounts args (List.mem_of_getLast? hargs)
    have hlater := Library.Operation.evolves_performAll hhost hoperations w'
    have hslot : (slotFor lib.access true chain indexed v).update? =
        some fun v => assignTo host v (.array r) none args := by
      rw [update_slotFor hlast hargs, if_pos (List.all_eq_true.mpr harrays)]
      rfl
    exact writesTo_later hslot hcount hindices hget hlater

/-- In between, an object is called that overwrites the argument itself, and one of its fields is
set. -/
theorem indexed_argument_writes_back_nested_array :
    let lib : Library Stage := ⟨.standard Stage.host⟩
    let clerk : ScriptedObject := ⟨"Clerk", none,
      [{ signature := ⟨"Fill", .method, [0]⟩, writes := [(0, .array ⟨0⟩)] },
        { signature := ⟨"Note", .property, []⟩ }]⟩
    let w : World Stage := ⟨⟨#[Grid.ofValues [.empty, .array ⟨1⟩], Grid.blank [3]]⟩,
      { objects := #[clerk] }⟩
    let subscript (i : Int32) : Arguments Stage := { slots := [⟨.long i, none⟩] }
    let chain := [subscript 1, subscript 2]
    let operations (slot : Slot Stage) : List (Library.Operation Stage) :=
      [.set .null (.array ⟨0⟩) none (subscript 1), .resizeArray (.array ⟨1⟩) [.long 0],
        .call (.object (clerk.ref 0)) ["Fill"] { slots := [slot] },
        .set (.long 4) (.object (clerk.ref 0)) (some "Note") .none,
        .call (.array ⟨1⟩) [] (subscript 7)]
    ∃ slot w' r indices,
      (indexedSlot lib.access (.array ⟨0⟩) chain).outcome w = (.ok slot, w') ∧
      slot.WritesTo r indices (Library.Operation.performAll lib w' (operations slot)) := by
  intro lib clerk w subscript chain operations
  obtain ⟨-, -, hsound⟩ := indexed_argument_writes_back Stage.host w (.array ⟨0⟩) chain
  have hfaultless : ¬ ∃ fault, ChainFault chain fault := by
    rw [exists_chainFault_iff]
    simp [chain, subscript, Arguments.count]
  have hsettable : ((indexedSlot lib.access (.array ⟨0⟩) chain).outcome w).1.toOption.any
      (·.update?.isSome) = true := rfl
  obtain ⟨indexed, result, w', -, herror, hok⟩ := hsound hfaultless
  cases result with
  | error e =>
    rw [herror e rfl] at hsettable
    cases hsettable
  | ok v =>
    obtain ⟨slot, houtcome, -, -, -, hwrites⟩ := hok v rfl
    rw [houtcome] at hsettable
    obtain ⟨r, args, indices, -, -, -, -, hlater⟩ := hwrites hsettable
    have hevolving : ∀ operation ∈ operations slot, operation.Evolving := by
      have hslot : Arguments.Evolving { slots := [slot] } :=
        evolving_of_slot (evolving_update_indexedSlot evolving_stageHost houtcome)
      have hargs : (subscript 7).Evolving := evolving_of_update_eq_none (by simp [subscript])
      simpa [operations, Library.Operation.Evolving] using And.intro hslot hargs
    exact ⟨slot, w', r, indices, houtcome,
      hlater evolving_stageHost (operations slot) hevolving⟩

end VbsCompiler
