import VbsCompiler.Proofs.Lexemes

/-! The shapes of atoms. An atom is one break character, a run without break characters, or a
hexadecimal number that starts with its ampersand, unless the code has a hexadecimal number right
behind a character that still waits for the end of its atom: the two then make one atom. -/

namespace VbsCompiler

/-- A character that neither ends an atom nor is one by itself. -/
def IsPlainChar (c : Char) : Prop :=
  isBlank c = false ∧ isBreakChar c = false

instance (c : Char) : Decidable (IsPlainChar c) :=
  inferInstanceAs (Decidable (_ ∧ _))

inductive AtomShape : List Char → Prop where
  | breakChar {c : Char} : isBreakChar c = true → AtomShape [c]
  | run {text : List Char} : text ≠ [] → (∀ c ∈ text, IsPlainChar c) → AtomShape text
  | hex {h d : Char} {rest : List Char} : h = 'h' ∨ h = 'H' → d.isDigit = true →
      (∀ c ∈ rest, IsPlainChar c) → AtomShape ('&' :: h :: d :: rest)

/-- A hexadecimal number stands right behind a plain character. -/
def JoinsHex (code : List Char) : Prop :=
  ∃ before c after, code = before ++ c :: after ∧ IsPlainChar c ∧ beginsHex after = true

theorem JoinsHex.widen {piece code : List Char} (h : JoinsHex piece) (hwithin : piece <:+: code) :
    JoinsHex code := by
  obtain ⟨before, c, after, rfl, hc, hhex⟩ := h
  obtain ⟨front, back, rfl⟩ := hwithin
  exact ⟨front ++ before, c, after ++ back, by simp, hc, beginsHex_append hhex back⟩

theorem beginsHex_cases {text : List Char} (h : beginsHex text = true) :
    ∃ x d rest, text = '&' :: x :: d :: rest ∧ (x = 'h' ∨ x = 'H') ∧ d.isDigit = true := by
  unfold beginsHex at h
  split at h
  · rename_i x d rest
    simp only [Bool.and_eq_true, Bool.or_eq_true, beq_iff_eq] at h
    exact ⟨x, d, rest, rfl, h.1, h.2⟩
  · cases h

theorem isPlainChar_of_hexLetter {x : Char} (h : x = 'h' ∨ x = 'H') : IsPlainChar x := by
  rcases h with rfl | rfl <;> decide

section Shaped

/-- Only the first character of an unbroken text can be an ampersand, if no hexadecimal number is
joined to what stands before it. -/
theorem Unbroken.plain_tail {first : Char} {rest : List Char} (h : Unbroken [] (first :: rest))
    (hjoin : ¬ JoinsHex (first :: rest)) : ∀ c ∈ rest, IsPlainChar c := by
  induction rest generalizing first with
  | nil => simp
  | cons c rest ih =>
    obtain ⟨hblank, hbreak, hrest⟩ := h
    have ⟨hcblank, hcbreak, _⟩ := hrest
    have hplain : IsPlainChar c := by
      refine ⟨hcblank, ?_⟩
      by_contra hc
      have hhex : beginsHex (c :: rest) = true := by simpa using hcbreak (by simpa using hc)
      by_cases hfirst : isBreakChar first = true
      · -- the first character is an ampersand, so that a letter comes next and no ampersand
        obtain ⟨x, d, more, htext, hx, -⟩ := beginsHex_cases (hbreak hfirst)
        obtain rfl : c = x := by simpa using (List.cons.inj (List.cons.inj htext).2).1
        exact hc (by simp [(isPlainChar_of_hexLetter hx).2])
      · exact hjoin ⟨[], first, c :: rest, rfl, ⟨hblank, by simpa using hfirst⟩, hhex⟩
    have htail : ¬ JoinsHex (c :: rest) := fun hj => hjoin (hj.widen ⟨[first], [], by simp⟩)
    exact List.forall_mem_cons.mpr ⟨hplain, ih hrest htail⟩

theorem Unbroken.shape {text : List Char} (h : Unbroken [] text) (hne : text ≠ [])
    (hjoin : ¬ JoinsHex text) : AtomShape text := by
  obtain ⟨first, rest, rfl⟩ := List.exists_cons_of_ne_nil hne
  have hplain := h.plain_tail hjoin
  obtain ⟨hblank, hbreak, -⟩ := h
  by_cases hfirst : isBreakChar first = true
  · obtain ⟨x, d, more, htext, hx, hd⟩ := beginsHex_cases (hbreak hfirst)
    rw [List.append_nil] at htext
    obtain ⟨rfl, rfl⟩ := List.cons.inj htext
    exact .hex hx hd fun c hc => hplain c (by simp [hc])
  · exact .run (by simp) (List.forall_mem_cons.mpr ⟨⟨hblank, by simpa using hfirst⟩, hplain⟩)

end Shaped

section Joined

theorem not_atomShape_joined {c : Char} (hc : IsPlainChar c) (front back : List Char) :
    ¬ AtomShape (front ++ c :: '&' :: back) := by
  have hamp : ¬ IsPlainChar '&' := by decide
  intro h
  generalize htext : front ++ c :: '&' :: back = text at h
  cases h with
  | breakChar =>
    have hlength := congrArg List.length htext
    simp only [List.length_append, List.length_cons, List.length_nil] at hlength
    omega
  | run _ hplain => exact hamp (hplain '&' (by simp [← htext]))
  | @hex x d rest hx hd hplain =>
    cases front with
    | nil =>
      obtain rfl : c = '&' := (List.cons.inj htext).1
      exact hamp hc
    | cons f front =>
      have hmem : '&' ∈ x :: d :: rest := by
        rw [← (List.cons.inj htext).2]
        simp
      rcases List.mem_cons.mp hmem with rfl | hmem
      · exact hamp (isPlainChar_of_hexLetter hx)
      · rcases List.mem_cons.mp hmem with rfl | hmem
        · exact absurd hd (by decide)
        · exact hamp (hplain '&' hmem)

/-- What is pending begins the next token. -/
theorem atomsFrom_pending (afterBlank : Bool) (c : Char) (pending : List Char) (line : Nat)
    (text : List Char) :
    ∃ more tokens, atomsFrom afterBlank (c :: pending) line text =
      Token.ofText (String.ofList ((c :: pending).reverse ++ more)) line :: tokens := by
  induction text generalizing afterBlank c pending with
  | nil => exact ⟨[], [], by rw [List.append_nil]; rfl⟩
  | cons d rest ih =>
    have hends : ∀ tokens, ∃ more later, gathered (c :: pending) line ++ tokens =
        Token.ofText (String.ofList ((c :: pending).reverse ++ more)) line :: later :=
      fun tokens => ⟨[], tokens, by rw [List.append_nil]; rfl⟩
    have hgoes : ∃ more tokens, atomsFrom false (d :: c :: pending) line rest =
        Token.ofText (String.ofList ((c :: pending).reverse ++ more)) line :: tokens := by
      obtain ⟨more, tokens, h⟩ := ih false d (c :: pending)
      refine ⟨d :: more, tokens, ?_⟩
      rw [h, List.reverse_cons, List.append_assoc, List.singleton_append]
    rw [atomsFrom]
    split
    · exact hends _
    · split
      · exact hgoes
      · split
        · exact hends _
        · exact hgoes

/-- A hexadecimal number behind the plain character `c` is part of an atom with it, or the character
is a continuation mark that no line break follows. -/
def Joined (c : Char) (tokens : List Token) : Prop :=
  (∃ front back line, Token.ofText (String.ofList (front ++ c :: '&' :: back)) line ∈ tokens) ∨
    ∃ before mark next after, tokens = before ++ mark :: next :: after ∧ mark.isAtom "_" = true ∧
      next.lexeme ≠ .lineEnd

theorem Joined.prepend {c : Char} {tokens : List Token} (h : Joined c tokens)
    (before : List Token) : Joined c (before ++ tokens) := by
  rcases h with ⟨front, back, line, hmem⟩ | ⟨front, mark, next, after, rfl, hmark, hnext⟩
  · exact .inl ⟨front, back, line, List.mem_append_right _ hmem⟩
  · exact .inr ⟨before ++ front, mark, next, after, by simp, hmark, hnext⟩

theorem joined_atomsFrom {c : Char} (hc : IsPlainChar c) {after : List Char}
    (hafter : beginsHex after = true) (before : List Char) (afterBlank : Bool)
    (pending : List Char) (line : Nat) :
    Joined c (atomsFrom afterBlank pending line (before ++ c :: after)) := by
  induction before generalizing afterBlank pending line with
  | nil =>
    obtain ⟨x, d, rest, rfl, -⟩ := beginsHex_cases hafter
    have hamp : ∀ (afterBlank : Bool) (pending : List Char) (line : Nat),
        atomsFrom afterBlank pending line ('&' :: x :: d :: rest) =
          atomsFrom false ('&' :: pending) line (x :: d :: rest) := by
      intro afterBlank pending line
      rw [atomsFrom, if_neg (by decide), if_pos hafter]
    have hnot : beginsHex (c :: '&' :: x :: d :: rest) = false := by
      rw [Bool.eq_false_iff]
      intro hhex
      rw [beginsHex_head hhex] at hc
      exact absurd hc.2 (by decide)
    rw [List.nil_append, atomsFrom, if_neg (by simp [hc.1]), if_neg (by simp [hnot])]
    by_cases hmark : (isBreakChar c || (c == '_' && afterBlank)) = true
    · rw [if_pos hmark, hamp]
      simp only [hc.2, Bool.false_or, Bool.and_eq_true, beq_iff_eq] at hmark
      obtain ⟨rfl, -⟩ := hmark
      obtain ⟨more, tokens, htokens⟩ := atomsFrom_pending false '&' [] line (x :: d :: rest)
      have hatom : (Token.ofText '_'.toString line).isAtom "_" = true := by
        simp [Token.isAtom, Token.ofText, Lexeme.ofText]
      rw [if_neg (by decide), htokens]
      refine .inr ⟨gathered pending line, _, _, tokens, rfl, hatom, fun hend => ?_⟩
      have hpiece := eq_of_lexeme_ofText hend
      simp [Lexeme.text] at hpiece
    · rw [if_neg hmark, hamp]
      obtain ⟨more, tokens, htokens⟩ :=
        atomsFrom_pending false '&' (c :: pending) line (x :: d :: rest)
      rw [htokens]
      exact .inl ⟨pending.reverse, more, line, by simp⟩
  | cons b before ih =>
    rw [List.cons_append, atomsFrom]
    split
    · exact (ih true [] line).prepend _
    · split
      · exact ih false (b :: pending) line
      · split
        · have hlater := (ih (isBlank b) [] (if b = '\n' then line + 1 else line)).prepend
            [Token.ofText b.toString line]
          exact hlater.prepend _
        · exact ih false (b :: pending) line

theorem mark_before_lineEnd {before after tokens : List Token} {mark next : Token}
    (h : elideContinuations (before ++ mark :: next :: after) = .ok tokens)
    (hmark : mark.isAtom "_" = true) : next.lexeme = .lineEnd := by
  generalize hraw : before ++ mark :: next :: after = raw at h
  fun_induction elideContinuations raw generalizing before tokens with
  | case1 => simp at hraw
  | case2 t ht second rest hsecond ih =>
    rcases before with _ | ⟨b, _ | ⟨b', before⟩⟩
    · obtain ⟨rfl, rfl, rfl⟩ : mark = t ∧ next = second ∧ after = rest := by simpa using hraw
      exact hsecond
    · -- the mark would be the line break that another mark cancels
      obtain ⟨rfl, rfl, -⟩ : b = t ∧ mark = second ∧ next :: after = rest := by simpa using hraw
      simp [Token.isAtom, hsecond] at hmark
    · obtain ⟨-, -, hrest⟩ : b = t ∧ b' = second ∧ before ++ mark :: next :: after = rest := by
        simpa using hraw
      exact ih hrest h
  | case3 => cases h
  | case4 => cases h
  | case5 t rest ht ih =>
    cases before with
    | nil =>
      obtain ⟨rfl, -⟩ : mark = t ∧ next :: after = rest := by simpa using hraw
      exact absurd hmark ht
    | cons b before =>
      obtain ⟨-, hrest⟩ : b = t ∧ before ++ mark :: next :: after = rest := by simpa using hraw
      cases hlater : elideContinuations rest with
      | error e =>
        rw [hlater] at h
        cases h
      | ok later => exact ih hrest hlater

theorem mem_elideContinuations {raw tokens : List Token} (h : elideContinuations raw = .ok tokens)
    {t : Token} (ht : t ∈ raw) (hmark : t.isAtom "_" = false) (hend : t.lexeme ≠ .lineEnd) :
    t ∈ tokens := by
  fun_induction elideContinuations raw generalizing tokens with
  | case1 => cases ht
  | case2 first hfirst next rest hnext ih =>
    rcases List.mem_cons.mp ht with rfl | ht
    · rw [hmark] at hfirst
      cases hfirst
    · rcases List.mem_cons.mp ht with rfl | ht
      · exact absurd hnext hend
      · exact ih h ht
  | case3 => cases h
  | case4 => cases h
  | case5 first rest hfirst ih =>
    cases hlater : elideContinuations rest with
    | error e =>
      rw [hlater] at h
      cases h
    | ok later =>
      rw [hlater] at h
      cases h
      rcases List.mem_cons.mp ht with rfl | ht
      · exact List.mem_cons_self
      · exact List.mem_cons_of_mem _ (ih hlater ht)

end Joined

section Atoms

variable {code : List Char} {line : Nat} {tokens : List Token}

theorem ofList_joined_ne (c : Char) (front back : List Char) (d : Char) :
    String.ofList (front ++ c :: '&' :: back) ≠ String.ofList [d] := by
  intro heq
  have hlength := congrArg List.length (String.ofList_inj.mp heq)
  simp only [List.length_append, List.length_cons, List.length_nil] at hlength
  omega

theorem ofText_joined (c : Char) (front back : List Char) (line : Nat) :
    Token.ofText (String.ofList (front ++ c :: '&' :: back)) line =
      ⟨.atom (String.ofList (front ++ c :: '&' :: back)), line⟩ := by
  have hne := ofList_joined_ne c front back
  rw [Token.ofText, Lexeme.ofText, if_neg (hne '\n'), if_neg (hne ':')]

theorem exists_joined_atom (h : breakCode code line = .ok tokens) (hjoin : JoinsHex code) :
    ∃ text l, (⟨.atom text, l⟩ : Token) ∈ tokens ∧ ¬ AtomShape text.toList := by
  obtain ⟨before, c, after, rfl, hc, hafter⟩ := hjoin
  rcases joined_atomsFrom hc hafter before false [] line with
    ⟨front, back, l, hmem⟩ | ⟨front, mark, next, rest, hraw, hmark, hnext⟩
  · rw [ofText_joined] at hmem
    have hmark : (⟨.atom (String.ofList (front ++ c :: '&' :: back)), l⟩ : Token).isAtom "_" =
        false := by
      simpa [Token.isAtom] using ofList_joined_ne c front back '_'
    refine ⟨_, l, mem_elideContinuations h hmem hmark (by simp), ?_⟩
    rw [String.toList_ofList]
    exact not_atomShape_joined hc front back
  · rw [breakCode, hraw] at h
    exact absurd (mark_before_lineEnd h hmark) hnext

theorem ofPiece_of_mem (h : breakCode code line = .ok tokens) {text : String} {l : Nat}
    (ht : (⟨.atom text, l⟩ : Token) ∈ tokens) :
    text.toList <:+: code ∧ ((text.toList ≠ [] ∧ Unbroken [] text.toList) ∨
      ∃ c, text.toList = [c] ∧ isBreakChar c = true) := by
  have hraw := mem_of_elideContinuations h _ ht
  have hwithin := (broken_atomsFrom false [] line code (by simp)).within _ hraw
  refine ⟨hwithin, ?_⟩
  obtain ⟨piece, m, htoken, hpiece⟩ := ofPiece_atomsFrom false [] line code True.intro _ hraw
  obtain rfl : piece = text.toList := eq_of_lexeme_ofText (congrArg Token.lexeme htoken.symm)
  exact hpiece

end Atoms

/-- An atom of code is one break character or a text without blanks in which every break character
is the ampersand of a hexadecimal number. All atoms have one of the three shapes exactly if no
hexadecimal number of the code stands right behind a plain character. -/
theorem atoms_shaped_iff_not_joinsHex {code : List Char} {line : Nat} {tokens : List Token}
    (h : breakCode code line = .ok tokens) :
    (∀ text l, (⟨.atom text, l⟩ : Token) ∈ tokens →
      (text.toList ≠ [] ∧ Unbroken [] text.toList) ∨
        ∃ c, text.toList = [c] ∧ isBreakChar c = true) ∧
    ((∀ text l, (⟨.atom text, l⟩ : Token) ∈ tokens → AtomShape text.toList) ↔
      ¬ JoinsHex code) := by
  refine ⟨fun text l ht => (ofPiece_of_mem h ht).2, fun hshaped hjoin => ?_,
    fun hjoin text l ht => ?_⟩
  · obtain ⟨text, l, ht, hnot⟩ := exists_joined_atom h hjoin
    exact hnot (hshaped text l ht)
  · obtain ⟨hwithin, ⟨hne, hunbroken⟩ | ⟨c, hc, hbreak⟩⟩ := ofPiece_of_mem h ht
    · exact hunbroken.shape hne fun hj => hjoin (hj.widen hwithin)
    · rw [hc]
      exact .breakChar hbreak

theorem atoms_shaped_iff_not_joinsHex_spaced_hex :
    let code := ['x', '+', ' ', '&', 'h', '1', 'F']
    let tokens : List Token := [⟨.atom "x", 0⟩, ⟨.atom "+", 0⟩, ⟨.atom "&h1F", 0⟩]
    breakCode code 0 = .ok tokens ∧ ¬ JoinsHex code ∧
      ∀ text l, (⟨.atom text, l⟩ : Token) ∈ tokens → AtomShape text.toList := by
  intro code tokens
  have h : breakCode code 0 = .ok tokens := rfl
  have hshaped : ∀ text l, (⟨.atom text, l⟩ : Token) ∈ tokens → AtomShape text.toList := by
    intro text l ht
    simp only [tokens, List.mem_cons, Token.mk.injEq, Lexeme.atom.injEq, List.not_mem_nil,
      or_false] at ht
    rcases ht with ⟨rfl, -⟩ | ⟨rfl, -⟩ | ⟨rfl, -⟩
    · exact .run (by decide) (List.forall_mem_singleton.mpr (by decide))
    · exact .breakChar (by decide)
    · exact .hex (.inl rfl) (by decide) (List.forall_mem_singleton.mpr (by decide))
  exact ⟨h, (atoms_shaped_iff_not_joinsHex h).2.mp hshaped, hshaped⟩

theorem joined_hex_is_one_atom :
    breakCode ['a', '&', 'h', '1'] 0 = .ok [⟨.atom "a&h1", 0⟩] ∧ ¬ AtomShape "a&h1".toList := by
  have h : breakCode ['a', '&', 'h', '1'] 0 = .ok [⟨.atom "a&h1", 0⟩] := rfl
  exact ⟨h, not_atomShape_joined (c := 'a') (by decide) [] ['h', '1']⟩

end VbsCompiler
