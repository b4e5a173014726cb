import VbsCompiler.Compile.Session

/-! What compile actions do to a session. An action is taken apart where it succeeds: a chain of
steps succeeds exactly when every step does, and each primitive step has one effect. -/

namespace VbsCompiler

namespace CompileM

variable {α β : Type}

def outcome (x : CompileM α) (s : Session) : Except CompileError α × Session :=
  x.run.run s

/-- The action succeeds from `s` with the result `a` and leaves `t`. -/
def Gives (x : CompileM α) (s : Session) (a : α) (t : Session) : Prop :=
  x.outcome s = (.ok a, t)

/-- Compilation is deterministic. -/
theorem Gives.unique {x : CompileM α} {s t u : Session} {a b : α} (h : Gives x s a t)
    (h' : Gives x s b u) : a = b ∧ t = u := by
  cases h.symm.trans h'
  exact ⟨rfl, rfl⟩

theorem outcome_bind (x : CompileM α) (f : α → CompileM β) (s : Session) :
    (x >>= f).outcome s =
      match x.outcome s with
      | (.ok a, t) => (f a).outcome t
      | (.error e, t) => (.error e, t) := by
  simp only [outcome, ExceptT.run_bind, StateT.run_bind]
  rcases x.run.run s with ⟨r, t⟩
  cases r <;> rfl

theorem outcome_ofExcept (r : Except CompileError α) (s : Session) :
    outcome (ofExcept r) s = (r, s) := by
  cases r <;> rfl

@[simp] theorem gives_pure {a b : α} {s t : Session} : Gives (pure a) s b t ↔ b = a ∧ t = s := by
  constructor
  · intro h
    cases h
    exact ⟨rfl, rfl⟩
  · rintro ⟨rfl, rfl⟩
    rfl

@[simp] theorem gives_bind {x : CompileM α} {f : α → CompileM β} {s u : Session} {b : β} :
    Gives (x >>= f) s b u ↔ ∃ a t, Gives x s a t ∧ Gives (f a) t b u := by
  unfold Gives
  rw [outcome_bind]
  rcases x.outcome s with ⟨r, t⟩
  cases r with
  | error e => simp
  | ok a =>
    constructor
    · intro h
      exact ⟨a, t, rfl, h⟩
    · rintro ⟨a', t', h, hf⟩
      cases h
      exact hf

@[simp] theorem not_gives_throw {e : CompileError} {a : α} {s t : Session} :
    ¬ Gives (throw e : CompileM α) s a t :=
  fun h => nomatch h

@[simp] theorem gives_ofExcept {r : Except CompileError α} {a : α} {s t : Session} :
    Gives (ofExcept r) s a t ↔ r = .ok a ∧ t = s := by
  rw [Gives, outcome_ofExcept, Prod.mk.injEq, eq_comm (a := s)]

theorem exists_gives {x : CompileM α} {s : Session} (h : (x.outcome s).1.isOk = true) :
    ∃ a t, Gives x s a t := by
  unfold Gives
  generalize x.outcome s = result at h
  obtain ⟨r, t⟩ := result
  cases r with
  | error e => cases h
  | ok a => exact ⟨a, t, rfl⟩

end CompileM

open CompileM

namespace Session

def called (s : Session) (calls : List RendererCall) : Session :=
  { s with calls := s.calls ++ calls }

def allocated (s : Session) (stem : String) (k : Nat) : Session :=
  { s with nextTemporary := k + 1, temporaries := s.temporaries ++ [temporary stem k] }

def reported (s : Session) (name : Name) : Session :=
  let d := Diagnostic.undeclaredVariable name.content name.lineNumber
  if s.diagnostics.any (·.text = d.text) then s
  else { s with diagnostics := s.diagnostics ++ [d] }

@[simp] theorem called_calls (s : Session) (calls : List RendererCall) :
    (s.called calls).calls = s.calls ++ calls := rfl

@[simp] theorem called_nextTemporary (s : Session) (calls : List RendererCall) :
    (s.called calls).nextTemporary = s.nextTemporary := rfl

@[simp] theorem called_nil (s : Session) : s.called [] = s := by
  simp [called]

@[simp] theorem called_called (s : Session) (calls more : List RendererCall) :
    (s.called calls).called more = s.called (calls ++ more) := by
  simp [called]

@[simp] theorem allocated_calls (s : Session) (stem : String) (k : Nat) :
    (s.allocated stem k).calls = s.calls := rfl

@[simp] theorem allocated_nextTemporary (s : Session) (stem : String) (k : Nat) :
    (s.allocated stem k).nextTemporary = k + 1 := rfl

theorem reported_fields (s : Session) (name : Name) :
    (s.reported name).calls = s.calls ∧ (s.reported name).nextTemporary = s.nextTemporary ∧
      (s.reported name).temporaries = s.temporaries := by
  simp only [reported]
  split <;> exact ⟨rfl, rfl, rfl⟩

@[simp] theorem foldl_reported_calls (s : Session) (names : List Name) :
    (names.foldl reported s).calls = s.calls := by
  induction names generalizing s with
  | nil => rfl
  | cons name rest ih => exact (ih _).trans (reported_fields s name).1

@[simp] theorem foldl_reported_nextTemporary (s : Session) (names : List Name) :
    (names.foldl reported s).nextTemporary = s.nextTemporary := by
  induction names generalizing s with
  | nil => rfl
  | cons name rest ih => exact (ih _).trans (reported_fields s name).2.1

end Session

theorem gives_render {setup : Setup} {demand : Demand} {run : TokenRun} {scope : Scope}
    {s t : Session} {r : Rendering} :
    Gives (render setup demand run scope) s r t ↔
      setup.renderer demand run scope = .ok r ∧ t = s.called [⟨demand, run, scope, .ok r⟩] := by
  constructor
  · intro h
    rcases hr : setup.renderer demand run scope with e | r'
    · rw [render, hr] at h
      cases h
    · rw [render, hr] at h
      cases h
      exact ⟨rfl, rfl⟩
  · rintro ⟨hr, rfl⟩
    rw [render, hr]
    rfl

theorem outcome_freshTemporary (naming : Naming) (stem : String) (scope : Scope) (s : Session) :
    (freshTemporary naming stem scope).outcome s =
      let k := freshNumber stem (scope.taken naming) s.nextTemporary
      (.ok (temporary stem k), s.allocated stem k) := rfl

theorem gives_freshTemporary {naming : Naming} {stem : String} {scope : Scope} {s t : Session}
    {id : Ident} :
    Gives (freshTemporary naming stem scope) s id t ↔
      ∃ k, k = freshNumber stem (scope.taken naming) s.nextTemporary ∧
        id = temporary stem k ∧ t = s.allocated stem k := by
  rw [Gives, outcome_freshTemporary]
  constructor
  · intro h
    cases h
    exact ⟨_, rfl, rfl, rfl⟩
  · rintro ⟨k, rfl, rfl, rfl⟩
    rfl

theorem outcome_forM_reportUndeclared (names : List Name) (s : Session) :
    (names.forM reportUndeclared).outcome s = (.ok (), names.foldl Session.reported s) := by
  induction names generalizing s with
  | nil => rfl
  | cons name rest ih =>
    change (reportUndeclared name >>= fun _ => rest.forM reportUndeclared).outcome s = _
    rw [outcome_bind]
    exact ih _

@[simp] theorem gives_forM_reportUndeclared {names : List Name} {s t : Session} {u : PUnit} :
    Gives (names.forM reportUndeclared) s u t ↔ t = names.foldl Session.reported s := by
  rw [Gives, outcome_forM_reportUndeclared, Prod.mk.injEq]
  exact ⟨fun h => h.2.symm, fun h => ⟨rfl, h.symm⟩⟩

end VbsCompiler
