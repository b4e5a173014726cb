import VbsCompiler.Target.Naming

/-! Temporaries of emitted code. One counter numbers them all, and a number whose temporary would
clash with a visible name is skipped. -/

namespace VbsCompiler

def temporary (stem : String) (k : Nat) : Ident :=
  ⟨stem ++ toString k⟩

/-- The least number from `k` on whose temporary is not taken. Among `taken.length + 1` distinct
candidates one is free, so no more are looked at. -/
def freshNumber (stem : String) (taken : List Ident) (k : Nat) : Nat :=
  k + (List.range (taken.length + 1)).findIdx fun i => !taken.contains (temporary stem (k + i))

end VbsCompiler
