import Mathlib.Logic.Relation
import VbsCompiler.Proofs.Storage
import VbsCompiler.Workbench.Scripted

/-! What running programs do to the heap. Arrays are allocated and elements are set, so no array is
ever lost and none ever changes its shape. This holds of every operation of the support library if
it holds of the objects and of the write-backs that the operation runs into. -/

namespace VbsCompiler

namespace Heap

inductive Step : Heap → Heap → Prop where
  | allocate {h : Heap} (g : Grid) : Step h (h.allocate g).2
  | set {h h' : Heap} {r : ArrayRef} {indices : List Int32} {v : Value} :
      h.set r indices v = .ok h' → Step h h'

abbrev Evolves := Relation.ReflTransGen Step

theorem Step.contains {h h' : Heap} {r : ArrayRef} (hstep : Step h h')
    (hr : h.contains r = true) : h'.contains r = true := by
  have hlt : r.id < h.arrays.size := by simpa [Heap.contains] using hr
  cases hstep with
  | allocate g =>
    have hlt' : r.id < (h.arrays.push g).size := by
      rw [Array.size_push]
      omega
    simpa [Heap.contains, Heap.allocate] using hlt'
  | set hset =>
    obtain ⟨g, -, rfl⟩ := set_eq_ok hset
    simpa [Heap.contains] using hlt

theorem Step.shape {h h' : Heap} {r : ArrayRef} (hstep : Step h h')
    (hr : h.contains r = true) : (h'.grid r).shape = (h.grid r).shape := by
  cases hstep with
  | allocate g => rw [grid_allocate_of_contains g hr]
  | @set _ r' _ _ hset =>
    by_cases heq : r = r'
    · subst heq
      obtain ⟨p, -, hgrid⟩ := Grid.set_eq_ok_iff.mp (grid_set_self hr hset)
      rw [hgrid]
      rfl
    · rw [grid_set_of_ne hset heq]

/-- No array is ever lost or changes its shape. -/
theorem Evolves.shape {h h' : Heap} {r : ArrayRef} (hevolves : h.Evolves h')
    (hr : h.contains r = true) :
    h'.contains r = true ∧ (h'.grid r).shape = (h.grid r).shape := by
  induction hevolves with
  | refl => exact ⟨hr, rfl⟩
  | tail _ hstep ih => exact ⟨hstep.contains ih.1, (hstep.shape ih.1).trans ih.2⟩

end Heap

variable {σ α β : Type}

/-- The computation only allocates arrays and sets elements. -/
def HeapEvolving (x : StateM (World σ) α) : Prop :=
  ∀ w : World σ, w.heap.Evolves (x.run w).2.heap

theorem heapEvolving_pure (a : α) : HeapEvolving (pure a : StateM (World σ) α) :=
  fun _ => .refl

theorem HeapEvolving.bind {x : StateM (World σ) α} {f : α → StateM (World σ) β}
    (hx : HeapEvolving x) (hf : ∀ a, HeapEvolving (f a)) : HeapEvolving (x >>= f) :=
  fun w => (hx w).trans (hf _ _)

def Action.Evolving (x : Action σ α) : Prop :=
  HeapEvolving x.run

section Actions

open VbsCompiler.Action

theorem evolving_of_heap {x : Action σ α} (h : ∀ w, (x.outcome w).2.heap = w.heap) :
    x.Evolving := by
  intro w
  have hsame : (x.run.run w).2.heap = w.heap := h w
  rw [hsame]

theorem evolving_pure (a : α) : Action.Evolving (pure a : Action σ α) :=
  evolving_of_heap fun _ => rfl

theorem evolving_throw (e : ScriptError) : Action.Evolving (throw e : Action σ α) :=
  evolving_of_heap fun _ => rfl

theorem evolving_ofExcept (result : Except ScriptError α) :
    Action.Evolving (ofExcept result : Action σ α) :=
  evolving_of_heap fun w => by rw [outcome_ofExcept]

theorem Action.Evolving.bind {x : Action σ α} {f : α → Action σ β} (hx : x.Evolving)
    (hf : ∀ a, (f a).Evolving) : (x >>= f).Evolving := by
  unfold Action.Evolving
  rw [ExceptT.run_bind]
  refine HeapEvolving.bind hx fun result => ?_
  cases result with
  | error e => exact heapEvolving_pure _
  | ok a => exact hf a

theorem evolving_element (r : ArrayRef) (indices : List Int32) :
    (element r indices : Action σ Value).Evolving :=
  evolving_of_heap fun w => by rw [outcome_element]

theorem evolving_grid (r : ArrayRef) : (grid r : Action σ Grid).Evolving :=
  evolving_of_heap fun _ => rfl

theorem evolving_allocate (g : Grid) : (allocate g : Action σ Value).Evolving :=
  fun _ => .single (.allocate g)

theorem evolving_setElement (r : ArrayRef) (indices : List Int32) (v : Value) :
    (setElement r indices v : Action σ Unit).Evolving := by
  intro w
  change w.heap.Evolves ((setElement r indices v).outcome w).2.heap
  rw [outcome_setElement]
  split
  · rename_i heap hset
    exact .single (.set hset)
  · exact .refl

end Actions

/-- The objects change arrays only by allocating them and by setting elements. -/
structure Host.Evolving (host : Host σ) : Prop where
  invoke : ∀ {n : Nat} (object : ObjectRef) (member : String) (args : Vector Value n),
    HeapEvolving (host.invoke object member args)
  assign : ∀ object member args v, (host.assign object member args v).Evolving

/-- So do the write-backs of the arguments. -/
def Arguments.Evolving (args : Arguments σ) : Prop :=
  ∀ slot ∈ args.slots, ∀ update ∈ slot.update?, ∀ v, (update v).Evolving

section Access

variable {host : Host σ} {args : Arguments σ}

theorem evolving_none : (Arguments.none : Arguments σ).Evolving :=
  fun _ hslot => nomatch hslot

theorem evolving_of_update_eq_none (h : ∀ slot ∈ args.slots, slot.update? = none) :
    args.Evolving := by
  intro slot hslot update hupdate
  rw [h slot hslot] at hupdate
  cases hupdate

theorem evolving_of_slot {slot : Slot σ}
    (h : ∀ update ∈ slot.update?, ∀ v, (update v).Evolving) :
    Arguments.Evolving { slots := [slot] } := by
  intro s hs
  obtain rfl := List.mem_singleton.mp hs
  exact h

theorem evolving_overwrite (hargs : args.Evolving) (index : Nat) (v : Value) :
    (args.overwrite index v).Evolving := by
  unfold Arguments.overwrite
  split
  · exact evolving_throw _
  · rename_i slot hslot
    split
    · exact evolving_pure ()
    · rename_i update hupdate
      exact hargs slot (List.mem_of_getElem? hslot) update hupdate v

theorem evolving_writeBack (hargs : args.Evolving) (object : ObjectRef) (member : String)
    (values : List (Value × Nat)) : HeapEvolving (writeBack object member args values) := by
  induction values with
  | nil => exact heapEvolving_pure _
  | cons pair rest ih =>
    obtain ⟨v, index⟩ := pair
    rw [writeBack]
    split
    · refine HeapEvolving.bind (evolving_overwrite hargs index v) fun here => ?_
      refine ih.bind fun later => ?_
      cases here <;> exact heapEvolving_pure _
    · exact ih

theorem evolving_lift {x : StateM (World σ) α} (h : HeapEvolving x) :
    Action.Evolving (ExceptT.lift x : Action σ α) :=
  h

theorem evolving_invokeMember (hhost : host.Evolving) (hargs : args.Evolving) (object : ObjectRef)
    (member : String) : (invokeMember host object member args).Evolving := by
  unfold invokeMember
  split
  · exact evolving_throw _
  · split
    · exact evolving_throw _
    · refine (evolving_lift (hhost.invoke object member _)).bind fun pair => ?_
      refine (evolving_lift (evolving_writeBack hargs object member _)).bind fun written => ?_
      refine (evolving_ofExcept _).bind fun value => ?_
      exact (evolving_ofExcept _).bind fun _ => evolving_pure value

theorem evolving_callMember (hhost : host.Evolving) (hargs : args.Evolving) (target : Value)
    (member : String) : (callMember host target member args).Evolving := by
  unfold callMember
  split
  · exact evolving_invokeMember hhost hargs _ member
  · exact evolving_throw _
  · exact evolving_throw _

theorem evolving_callTarget (hhost : host.Evolving) (hargs : args.Evolving) (target : Value) :
    (callTarget host target args).Evolving := by
  unfold callTarget
  split
  · exact evolving_pure target
  · split
    · exact (evolving_ofExcept _).bind fun indices => evolving_element _ indices
    · split
      · exact evolving_invokeMember hhost hargs _ _
      · exact evolving_throw _
    · exact evolving_throw _
    · exact evolving_throw _

theorem evolving_callPath (hhost : host.Evolving) (hargs : args.Evolving) (target : Value)
    (path : List String) : (callPath host target args path).Evolving := by
  fun_induction callPath host target args path with
  | case1 target => exact evolving_callTarget hhost hargs target
  | case2 target last => exact evolving_callMember hhost hargs target last
  | case3 target member rest _ ih => exact (evolving_callMember hhost evolving_none _ _).bind ih

theorem evolving_assignTo (hhost : host.Evolving) (v target : Value) (member : Option String)
    (args : Arguments σ) : (assignTo host v target member args).Evolving := by
  unfold assignTo
  split
  · split
    · exact hhost.assign _ _ _ v
    · exact evolving_throw _
  · split
    · exact hhost.assign _ _ _ v
    · exact evolving_throw _
  · exact evolving_throw _
  · exact evolving_throw _
  · split
    · exact evolving_throw _
    · exact (evolving_ofExcept _).bind fun indices => evolving_setElement _ indices v
  · exact evolving_throw _

end Access

theorem evolving_newArray (bounds : List Value) :
    (Library.newArray bounds : Action σ Value).Evolving := by
  unfold Library.newArray
  refine (evolving_ofExcept _).bind fun shape => ?_
  exact (evolving_ofExcept _).bind fun g => evolving_allocate g

theorem evolving_resizeArray (v : Value) (bounds : List Value) :
    (Library.resizeArray v bounds : Action σ Value).Evolving := by
  unfold Library.resizeArray
  refine (evolving_ofExcept _).bind fun shape => ?_
  split
  · refine (evolving_grid _).bind fun g => ?_
    split
    · exact (evolving_ofExcept _).bind fun copy => evolving_allocate copy
    · exact evolving_throw _
  · exact (evolving_ofExcept _).bind fun g => evolving_allocate g

inductive Library.Operation (σ : Type) where
  | call (target : Value) (path : List String) (args : Arguments σ)
  | set (value target : Value) (member : Option String) (args : Arguments σ)
  | newArray (bounds : List Value)
  | resizeArray (v : Value) (bounds : List Value)

namespace Library.Operation

/-- The world after the operation, which may have failed. -/
def perform (lib : Library σ) (w : World σ) : Operation σ → World σ
  | .call target path args => ((lib.call target path args).outcome w).2
  | .set value target member args => ((lib.set value target member args).outcome w).2
  | .newArray bounds => ((Library.newArray bounds).outcome w).2
  | .resizeArray v bounds => ((Library.resizeArray v bounds).outcome w).2

def performAll (lib : Library σ) (w : World σ) (operations : List (Operation σ)) : World σ :=
  operations.foldl (perform lib) w

/-- The write-backs that the operation may cause change arrays as the library does. -/
def Evolving : Operation σ → Prop
  | .call _ _ args => args.Evolving
  | _ => True

variable {host : Host σ}

theorem evolves_perform (hhost : host.Evolving) {operation : Operation σ}
    (h : operation.Evolving) (w : World σ) :
    w.heap.Evolves (operation.perform ⟨.standard host⟩ w).heap := by
  cases operation with
  | call target path args => exact evolving_callPath hhost h target path w
  | set value target member args => exact evolving_assignTo hhost value target member args w
  | newArray bounds => exact evolving_newArray bounds w
  | resizeArray v bounds => exact evolving_resizeArray v bounds w

/-- Any operations of the library, one after the other. -/
theorem evolves_performAll (hhost : host.Evolving) {operations : List (Operation σ)}
    (h : ∀ operation ∈ operations, operation.Evolving) (w : World σ) :
    w.heap.Evolves (performAll ⟨.standard host⟩ w operations).heap := by
  induction operations generalizing w with
  | nil => exact .refl
  | cons operation rest ih =>
    have hhere := evolves_perform hhost (h operation List.mem_cons_self) w
    exact hhere.trans (ih (fun o ho => h o (List.mem_cons_of_mem _ ho)) _)

end Library.Operation

section Scripted

open Stage

theorem evolving_record (entry : LogEntry) : (record entry).Evolving :=
  evolving_of_heap fun _ => rfl

theorem evolving_outcomeOf {n : Nat} (member : ScriptedMember) (args : Vector Value n) :
    (outcomeOf member args).Evolving := by
  unfold outcomeOf
  split
  · exact evolving_pure _
  · split
    · exact evolving_pure _
    · exact evolving_throw _
  · exact evolving_pure _
  · exact evolving_throw _
  · split
    · exact evolving_pure _
    · split
      · exact (evolving_ofExcept _).bind fun indices => evolving_element _ indices
      · exact evolving_throw _

theorem evolving_invoke {n : Nat} (object : ObjectRef) (name : String) (args : Vector Value n) :
    HeapEvolving (Stage.invoke object name args) := by
  unfold Stage.invoke
  refine HeapEvolving.bind (evolving_record _) fun _ => ?_
  refine HeapEvolving.bind (fun _ => .refl) fun found => ?_
  split
  · exact heapEvolving_pure _
  · exact heapEvolving_pure _
  · dsimp only
    split
    · exact heapEvolving_pure _
    · exact HeapEvolving.bind (evolving_outcomeOf _ _) fun result => heapEvolving_pure _

theorem evolving_assign (object : ObjectRef) (name : String) (args : List Value) (v : Value) :
    (Stage.assign object name args v).Evolving := by
  unfold Stage.assign
  refine (evolving_record _).bind fun _ => ?_
  refine (evolving_of_heap fun _ => rfl).bind fun member => ?_
  split
  · exact evolving_throw _
  · split
    · exact evolving_throw _
    · split
      · exact evolving_of_heap fun _ => rfl
      · split
        · exact (evolving_ofExcept _).bind fun indices => evolving_setElement _ indices v
        · exact evolving_throw _

/-- Scripted objects are an example of objects that keep to the library. -/
theorem evolving_stageHost : Stage.host.Evolving :=
  ⟨evolving_invoke, evolving_assign⟩

theorem evolving_update_variableSlot (name : String) (value : Value) (fail : Option ScriptError) :
    ∀ update ∈ (variableSlot name value fail).update?, ∀ v, (update v).Evolving := by
  intro update hupdate v
  obtain rfl := Option.some.inj hupdate
  refine (evolving_record _).bind fun _ => ?_
  cases fail with
  | some e => exact evolving_throw e
  | none => exact evolving_of_heap fun _ => rfl

end Scripted

end VbsCompiler
