import Mathlib.Data.List.Nodup
import Mathlib.Data.List.Perm.Subperm
import VbsCompiler.Proofs.Growth

/-! Temporaries are told apart by their stems and numbers, and one that is just allocated differs
from all that were allocated before and from every name that is visible where it is allocated. -/

namespace VbsCompiler

open CompileM

/-- A text that cannot run into the digits of a number behind it. -/
def IsStem (stem : String) : Prop :=
  ∀ c ∈ stem.toList.getLast?, c.isDigit = false

instance (stem : String) : Decidable (IsStem stem) :=
  decidable_of_iff (stem.toList.getLast?.any Char.isDigit = false)
    (by cases h : stem.toList.getLast? <;> simp [IsStem, h])

theorem temporary_toList (stem : String) (k : Nat) :
    (temporary stem k).text.toList = stem.toList ++ Nat.toDigits 10 k := by
  change (stem ++ toString k).toList = _
  rw [String.toList_append]
  exact congrArg _ Nat.toList_repr

theorem takeWhile_isDigit_reverse {stem digits : List Char}
    (hstem : ∀ c ∈ stem.getLast?, c.isDigit = false) (hdigits : ∀ c ∈ digits, c.isDigit = true) :
    (stem ++ digits).reverse.takeWhile Char.isDigit = digits.reverse := by
  have hd : ∀ c ∈ digits.reverse, c.isDigit = true := fun c hc => hdigits c (List.mem_reverse.mp hc)
  rw [List.reverse_append, List.takeWhile_append_of_pos hd]
  have hs : stem.reverse.takeWhile Char.isDigit = [] := by
    cases h : stem.reverse with
    | nil => rfl
    | cons c cs =>
      have hc : stem.getLast? = some c := by
        rw [← List.head?_reverse, h]
        rfl
      simp [hstem c hc]
  rw [hs, List.append_nil]

theorem temporary_inj {stem stem' : String} {k k' : Nat} (hstem : IsStem stem)
    (hstem' : IsStem stem') (h : temporary stem k = temporary stem' k') :
    stem = stem' ∧ k = k' := by
  have htext : stem.toList ++ Nat.toDigits 10 k = stem'.toList ++ Nat.toDigits 10 k' := by
    rw [← temporary_toList, ← temporary_toList, h]
  have hdigit : ∀ (n : Nat), ∀ c ∈ Nat.toDigits 10 n, c.isDigit = true :=
    fun n c hc => Nat.isDigit_of_mem_toDigits (by decide) (by decide) hc
  have hdigits : Nat.toDigits 10 k = Nat.toDigits 10 k' := by
    have hw := takeWhile_isDigit_reverse hstem (hdigit k)
    rw [htext, takeWhile_isDigit_reverse hstem' (hdigit k')] at hw
    exact (List.reverse_inj.mp hw).symm
  constructor
  · rw [hdigits] at htext
    exact String.toList_inj.mp (List.append_cancel_right htext)
  · rw [← Nat.ofDigitChars_ten_toDigits (n := k), hdigits, Nat.ofDigitChars_ten_toDigits]

theorem temporary_injective (stem : String) : Function.Injective (temporary stem) := by
  intro k k' h
  have htext : stem.toList ++ Nat.toDigits 10 k = stem.toList ++ Nat.toDigits 10 k' := by
    rw [← temporary_toList, ← temporary_toList, h]
  have hdigits := List.append_cancel_left htext
  rw [← Nat.ofDigitChars_ten_toDigits (n := k), hdigits, Nat.ofDigitChars_ten_toDigits]

/-- There are more candidates than taken identifiers, so that the search finds one that is free. -/
theorem temporary_freshNumber_not_mem (stem : String) (taken : List Ident) (k : Nat) :
    temporary stem (freshNumber stem taken k) ∉ taken := by
  let candidates := (List.range (taken.length + 1)).map fun i => temporary stem (k + i)
  have hnodup : candidates.Nodup := by
    refine List.Nodup.map (fun i j h => ?_) List.nodup_range
    have hnumber := temporary_injective stem h
    omega
  have hfree : ∃ i ∈ List.range (taken.length + 1), !taken.contains (temporary stem (k + i)) := by
    by_contra hall
    have hsub : candidates ⊆ taken := by
      intro id hid
      obtain ⟨i, hi, rfl⟩ := List.mem_map.mp hid
      by_contra hnot
      exact hall ⟨i, hi, by simpa using hnot⟩
    have hle := (hnodup.subperm hsub).length_le
    simp only [candidates, List.length_map, List.length_range] at hle
    omega
  have hlt := List.findIdx_lt_length_of_exists hfree
  have hfound := List.findIdx_getElem (w := hlt)
  simpa [freshNumber] using hfound

def Naming.IsCapitalFree (naming : Naming) : Prop :=
  ∀ n, ∀ c ∈ (naming n).text.toList, c.isUpper = false

theorem isCapitalFree_caselessNaming : Naming.IsCapitalFree caselessNaming :=
  fun _ _ => isUpper_of_mem_caselessNaming

theorem Naming.IsCapitalFree.ne_temporary {naming : Naming} (h : naming.IsCapitalFree)
    {stem : String} (hstem : stem.toList.any Char.isUpper = true) (n : Name) (k : Nat) :
    naming n ≠ temporary stem k := by
  intro he
  obtain ⟨d, hd, hupper⟩ := List.any_eq_true.mp hstem
  have hmem : d ∈ (naming n).text.toList := by
    rw [he, temporary_toList]
    exact List.mem_append_left _ hd
  rw [h n d hmem] at hupper
  cases hupper

def Ident.Older (n : Nat) (id : Ident) : Prop :=
  ∃ stem k, IsStem stem ∧ k < n ∧ id = temporary stem k

theorem Ident.Older.mono {n m : Nat} {id : Ident} (h : id.Older n) (hnm : n ≤ m) : id.Older m := by
  obtain ⟨stem, k, hstem, hk, hid⟩ := h
  exact ⟨stem, k, hstem, by omega, hid⟩

structure FreshFrom (s : Session) (id : Ident) (t : Session) : Prop where
  not_older : ¬ id.Older s.nextTemporary
  older : id.Older t.nextTemporary
  grows : s.nextTemporary ≤ t.nextTemporary
  calls : t.calls = s.calls
  diagnostics : t.diagnostics = s.diagnostics

theorem freshFrom_of_gives {naming : Naming} {stem : String} {scope : Scope} {s t : Session}
    {id : Ident} (hstem : IsStem stem) (h : Gives (freshTemporary naming stem scope) s id t) :
    FreshFrom s id t := by
  obtain ⟨k, hk, rfl, rfl⟩ := gives_freshTemporary.mp h
  have hle : s.nextTemporary ≤ k := hk ▸ le_freshNumber _ _ _
  refine ⟨?_, ⟨stem, k, hstem, by simp, rfl⟩, by simp; omega, rfl, rfl⟩
  rintro ⟨stem', k', hstem', hlt, he⟩
  have := (temporary_inj hstem hstem' he).2
  omega

theorem isStem_flagStem (kind : LoopKind) : IsStem kind.flagStem := by
  cases kind <;> decide

theorem loopFlag_fresh {setup : Setup} {kind : LoopKind} {body : List Block} {scope : Scope}
    {s t : Session} {flag : Option Ident} (h : Gives (loopFlag setup kind body scope) s flag t) :
    s.nextTemporary ≤ t.nextTemporary ∧ t.calls = s.calls ∧
      ∀ id ∈ flag, FreshFrom s id t := by
  obtain ⟨-, rfl, rfl⟩ | ⟨-, id, rfl, hid⟩ := gives_loopFlag h
  · exact ⟨Nat.le_refl _, rfl, by simp⟩
  · have hfresh := freshFrom_of_gives (isStem_flagStem kind) hid
    exact ⟨hfresh.grows, hfresh.calls, by simpa using hfresh⟩

end VbsCompiler
