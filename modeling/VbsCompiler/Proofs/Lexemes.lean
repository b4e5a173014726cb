import VbsCompiler.Proofs.Partition

/-! What the tokens of a source can contain. Scanning first cuts the source into stretches and then
breaks the stretches of code into atoms, so this is found in two steps, and so are the lines that
the tokens stand on. -/

namespace VbsCompiler

open Stretch

def IsCodeChar (c : Char) : Prop :=
  c ≠ '"' ∧ c ≠ '\''

section Stretches

def Stretch.isCode : Stretch → Bool
  | .code .. => true
  | _ => false

/-- The stretches of a source from the given line on. No two of code stand next to each other. -/
inductive Stretched : Nat → List Stretch → Prop where
  | nil {line : Nat} : Stretched line []
  | code {line : Nat} {text : List Char} {rest : List Stretch} : (∀ c ∈ text, IsCodeChar c) →
      (∀ s ∈ rest.head?, s.isCode = false) → Stretched (line + text.count '\n') rest →
      Stretched line (.code text line :: rest)
  | literal {line : Nat} {text : List Char} {rest : List Stretch} : '\n' ∉ text →
      Stretched line rest → Stretched line (.literal text line :: rest)
  | comment {line : Nat} {text : List Char} {rest : List Stretch} : '\n' ∉ text →
      text.getLast? ≠ some '\r' → (∀ s ∈ rest.head?, ∃ more, s = .code ('\n' :: more) line) →
      Stretched line rest → Stretched line (.comment text line :: rest)
  | unclosed {line : Nat} : Stretched line [.unclosed line]

theorem gatheredCode_startLine (pending : List Char) (start line : Nat) :
    gatheredCode pending (startLine pending start line) = gatheredCode pending start := by
  cases pending <;> rfl

/-- The code ahead joins what is pending, and what comes behind that code does not depend on it. -/
theorem codeFrom_split (before : Option Char) (line : Nat) (text : List Char) :
    ∃ code rest, code <+: text ∧ ∀ pending start,
      codeFrom pending start before line text =
        gatheredCode (code.reverse ++ pending) (startLine pending start line) ++ rest := by
  induction text generalizing before line with
  | nil =>
    refine ⟨[], [], List.nil_prefix, fun pending start => ?_⟩
    simp [codeFrom, gatheredCode_startLine]
  | cons c rest ih =>
    by_cases hquote : c = '"'
    · refine ⟨[], literalFrom [] line rest, List.nil_prefix, fun pending start => ?_⟩
      rw [codeFrom, if_pos hquote, List.reverse_nil, List.nil_append,
        gatheredCode_startLine]
    by_cases hapostrophe : c = '\''
    · refine ⟨[], commentFrom 0 [] line rest, List.nil_prefix, fun pending start => ?_⟩
      rw [codeFrom, if_neg hquote, if_pos hapostrophe, List.reverse_nil, List.nil_append,
        gatheredCode_startLine]
    by_cases hrem : beginsRem before (c :: rest) = true
    · refine ⟨[], commentFrom 2 [] line rest, List.nil_prefix, fun pending start => ?_⟩
      rw [codeFrom, if_neg hquote, if_neg hapostrophe, if_pos hrem, List.reverse_nil,
        List.nil_append, gatheredCode_startLine]
    · obtain ⟨code, later, hcode, hsplit⟩ := ih (some c) (if c = '\n' then line + 1 else line)
      refine ⟨c :: code, later, List.cons_prefix_cons.mpr ⟨rfl, hcode⟩, fun pending start => ?_⟩
      rw [codeFrom, if_neg hquote, if_neg hapostrophe, if_neg hrem, hsplit]
      simp [startLine]

theorem stretched_gatheredCode {pending : List Char} {start line : Nat} {more : List Stretch}
    (hline : startLine pending start line + pending.count '\n' = line)
    (hcode : ∀ c ∈ pending, IsCodeChar c) (hmore : Stretched line more)
    (hhead : ∀ s ∈ more.head?, s.isCode = false) :
    Stretched (startLine pending start line) (gatheredCode pending start ++ more) := by
  by_cases hempty : pending = []
  · subst hempty
    exact hmore
  · have hstart : startLine pending start line = start := if_neg (by simpa using hempty)
    rw [gatheredCode, if_neg (by simpa using hempty)]
    rw [hstart] at hline ⊢
    refine .code (fun c hc => hcode c (List.mem_reverse.mp hc)) hhead ?_
    rwa [List.count_reverse, hline]

theorem getLast?_dropReturns (text : List Char) : (dropReturns text).getLast? ≠ some '\r' := by
  intro h
  rw [dropReturns, List.getLast?_reverse] at h
  have hnot := List.head?_dropWhile_not (· == '\r') text
  rw [h] at hnot
  simp at hnot

theorem not_mem_dropReturns {text : List Char} {c : Char} (h : c ∉ text) :
    c ∉ dropReturns text := by
  intro hmem
  exact h ((List.dropWhile_sublist _).mem (List.mem_reverse.mp hmem))

/-- The scan divides a text into stretches, whatever it has gathered before. -/
theorem stretched_codeFrom (pending : List Char) (start : Nat) (before : Option Char) (line : Nat)
    (text : List Char) (hline : startLine pending start line + pending.count '\n' = line)
    (hcode : ∀ c ∈ pending, IsCodeChar c) :
    Stretched (startLine pending start line) (codeFrom pending start before line text) := by
  revert hline hcode
  apply codeFrom.induct
    (fun pending start before line text =>
      startLine pending start line + pending.count '\n' = line → (∀ c ∈ pending, IsCodeChar c) →
        Stretched (startLine pending start line) (codeFrom pending start before line text))
    (fun skip text line rest => '\n' ∉ text → Stretched line (commentFrom skip text line rest) ∧
      ∀ s ∈ (commentFrom skip text line rest).head?, s.isCode = false)
    (fun text line rest => '\n' ∉ text → Stretched line (literalFrom text line rest) ∧
      ∀ s ∈ (literalFrom text line rest).head?, s.isCode = false)
  case case1 =>
    intro pending start before line hline hcode
    rw [codeFrom, ← List.append_nil (gatheredCode pending start)]
    exact stretched_gatheredCode hline hcode .nil (by simp)
  case case2 =>
    intro pending start before line rest ih hline hcode
    rw [codeFrom, if_pos rfl]
    obtain ⟨hrest, hhead⟩ := ih (by simp)
    exact stretched_gatheredCode hline hcode hrest hhead
  case case3 =>
    intro pending start before line rest hquote ih hline hcode
    rw [codeFrom, if_neg hquote, if_pos rfl]
    obtain ⟨hrest, hhead⟩ := ih (by simp)
    exact stretched_gatheredCode hline hcode hrest hhead
  case case4 =>
    intro pending start before line c rest hquote hapostrophe hrem ih hline hcode
    rw [codeFrom, if_neg hquote, if_neg hapostrophe, if_pos hrem]
    obtain ⟨hrest, hhead⟩ := ih (by simp)
    exact stretched_gatheredCode hline hcode hrest hhead
  case case5 =>
    intro pending start before line c rest hquote hapostrophe hrem ih hline hcode
    rw [codeFrom, if_neg hquote, if_neg hapostrophe, if_neg hrem]
    have hline' : startLine pending start line + (c :: pending).count '\n' =
        if c = '\n' then line + 1 else line := by
      by_cases hc : c = '\n' <;> simp [hc] <;> omega
    exact ih hline' (List.forall_mem_cons.mpr ⟨⟨hquote, hapostrophe⟩, hcode⟩)
  case case6 =>
    intro skip text line htext
    rw [commentFrom]
    exact ⟨.comment (not_mem_dropReturns htext) (getLast?_dropReturns text) (by simp) .nil,
      by simp [Stretch.isCode]⟩
  case case7 =>
    intro text line c rest skip ih htext
    exact ih htext
  case case8 =>
    intro text line rest ih htext
    rw [commentFrom, if_pos rfl]
    refine ⟨.comment (not_mem_dropReturns htext) (getLast?_dropReturns text) ?_
      (ih (by simp [startLine]) (by simp [IsCodeChar])), by simp [Stretch.isCode]⟩
    obtain ⟨code, later, -, hsplit⟩ := codeFrom_split (some '\n') (line + 1) rest
    rw [hsplit]
    simp [gatheredCode, startLine]
  case case9 =>
    intro text line c rest hc ih htext
    rw [commentFrom, if_neg hc]
    exact ih (by simp [htext, Ne.symm hc])
  case case10 =>
    intro text line htext
    rw [literalFrom]
    exact ⟨.unclosed, by simp [Stretch.isCode]⟩
  case case11 =>
    intro text line rest ih htext
    rw [literalFrom]
    exact ih (by simpa using htext)
  case case12 =>
    intro text line rest hsingle ih htext
    rw [literalFrom.eq_3 _ _ _ _ hsingle, if_pos rfl]
    exact ⟨.literal (by simpa using htext) (ih rfl (by simp)), by simp [Stretch.isCode]⟩
  case case13 =>
    intro text line rest hsingle hquote htext
    rw [literalFrom.eq_3 _ _ _ _ hsingle, if_neg hquote, if_pos rfl]
    exact ⟨.unclosed, by simp [Stretch.isCode]⟩
  case case14 =>
    intro text line c rest hsingle hquote hc ih htext
    rw [literalFrom.eq_3 _ _ _ _ hsingle, if_neg hquote, if_neg hc]
    exact ih (by simp [htext, Ne.symm hc])

end Stretches

section Atoms

/-- Characters without a blank among them where `after` follows: a break character among them is
the ampersand of a hexadecimal number. -/
def Unbroken (after : List Char) : List Char → Prop
  | [] => True
  | c :: rest => isBlank c = false ∧
      (isBreakChar c = true → beginsHex (c :: (rest ++ after)) = true) ∧ Unbroken after rest

/-- The characters of an atom where `after` follows: a break character among them is the ampersand
of a hexadecimal number. -/
def Solid (after : List Char) : List Char → Prop
  | [] => True
  | c :: rest => isBlank c = false ∧ IsCodeChar c ∧
      (isBreakChar c = true → beginsHex (c :: (rest ++ after)) = true) ∧ Solid after rest

def IsPiece (piece : List Char) : Prop :=
  (piece ≠ [] ∧ Solid [] piece) ∨ ∃ c, piece = [c] ∧ isBreakChar c = true

def Lexeme.Fit : Lexeme → Prop
  | .atom text => IsPiece text.toList ∧ text ≠ "\n" ∧ text ≠ ":"
  | .literal text => '\n' ∉ text.toList
  | .comment text => '\n' ∉ text.toList ∧ text.toList.getLast? ≠ some '\r'
  | .lineEnd => True
  | .colon => True

theorem Unbroken.solid {after text : List Char} (h : Unbroken after text)
    (hcode : ∀ c ∈ text, IsCodeChar c) : Solid after text := by
  induction text with
  | nil => exact True.intro
  | cons c text ih =>
    obtain ⟨hblank, hbreak, htext⟩ := h
    obtain ⟨hc, hrest⟩ := List.forall_mem_cons.mp hcode
    exact ⟨hblank, hc, hbreak, ih htext hrest⟩

theorem Unbroken.snoc {c : Char} {text rest : List Char} (h : Unbroken (c :: rest) text)
    (hc : Unbroken rest [c]) : Unbroken rest (text ++ [c]) := by
  induction text with
  | nil => exact hc
  | cons d text ih =>
    obtain ⟨hblank, hbreak, htext⟩ := h
    refine ⟨hblank, fun hd => ?_, ih htext⟩
    simpa using hbreak hd

def EndsHex (c : Char) : Prop :=
  c ≠ 'h' ∧ c ≠ 'H' ∧ c.isDigit = false

theorem beginsHex_append {text : List Char} (h : beginsHex text = true) (more : List Char) :
    beginsHex (text ++ more) = true := by
  unfold beginsHex at h
  split at h
  · exact h
  · cases h

theorem beginsHex_of_append {text after : List Char} (hafter : ∀ c ∈ after.head?, EndsHex c)
    (h : beginsHex ('&' :: (text ++ after)) = true) : beginsHex ('&' :: text) = true := by
  match text, after with
  | _ :: _ :: _, _ => exact h
  | [x], [] => cases h
  | [x], d :: rest =>
    simp only [List.cons_append, List.nil_append, beginsHex, Bool.and_eq_true] at h
    exact absurd h.2 (by simp [(hafter d rfl).2.2])
  | [], [] => cases h
  | [], [x] => cases h
  | [], x :: d :: rest =>
    simp only [List.nil_append, beginsHex, Bool.and_eq_true, Bool.or_eq_true, beq_iff_eq] at h
    obtain ⟨hlower, hupper, -⟩ := hafter x rfl
    exact absurd h.1 (by simp [hlower, hupper])

theorem Unbroken.ended {text after : List Char} (h : Unbroken after text)
    (hafter : ∀ c ∈ after.head?, EndsHex c) : Unbroken [] text := by
  induction text with
  | nil => exact h
  | cons c text ih =>
    obtain ⟨hblank, hbreak, htext⟩ := h
    refine ⟨hblank, fun hc => ?_, ih htext⟩
    have hhex := hbreak hc
    obtain rfl := beginsHex_head hhex
    simpa using beginsHex_of_append hafter hhex

theorem endsHex_of_isBlank {c : Char} (h : isBlank c = true) : EndsHex c := by
  refine ⟨?_, ?_, ?_⟩
  · rintro rfl
    exact absurd h (by decide)
  · rintro rfl
    exact absurd h (by decide)
  · cases hdigit : c.isDigit with
    | false => rfl
    | true =>
      have hrange : 48 ≤ c.toNat ∧ c.toNat ≤ 57 := by
        simpa [Char.isDigit, UInt32.le_iff_toNat_le] using hdigit
      simp [isBlank, blankRanges, CodeRange.anyContains, CodeRange.contains] at h
      omega

theorem endsHex_of_isBreakChar {c : Char} (h : isBreakChar c = true) : EndsHex c := by
  have hall : ∀ d ∈ breakChars, d ≠ 'h' ∧ d ≠ 'H' ∧ d.isDigit = false := by
    simp [breakChars]
  exact hall c (by simpa [isBreakChar] using h)

/-- The token is one break character, or its characters are unbroken. -/
def Token.OfPiece (t : Token) : Prop :=
  ∃ piece line, t = Token.ofText (String.ofList piece) line ∧
    ((piece ≠ [] ∧ Unbroken [] piece) ∨ ∃ c, piece = [c] ∧ isBreakChar c = true)

theorem ofPiece_gathered {pending after : List Char} {line : Nat}
    (h : Unbroken after pending.reverse) (hafter : ∀ c ∈ after.head?, EndsHex c) :
    ∀ t ∈ gathered pending line, t.OfPiece := by
  intro t ht
  unfold gathered at ht
  split at ht
  · cases ht
  · rename_i hpending
    obtain rfl := List.mem_singleton.mp ht
    exact ⟨_, line, rfl, .inl ⟨by simpa using hpending, h.ended hafter⟩⟩

theorem ofPiece_atomsFrom (afterBlank : Bool) (pending : List Char) (line : Nat) (text : List Char)
    (hpending : Unbroken text pending.reverse) :
    ∀ t ∈ atomsFrom afterBlank pending line text, t.OfPiece := by
  induction text generalizing afterBlank pending line with
  | nil => exact ofPiece_gathered hpending (by simp)
  | cons c rest ih =>
    rw [atomsFrom]
    split
    · rename_i hblank
      simp only [Bool.and_eq_true] at hblank
      refine List.forall_mem_append.mpr
        ⟨ofPiece_gathered hpending ?_, ih true [] line True.intro⟩
      simpa using endsHex_of_isBlank hblank.1
    · rename_i hblank
      split
      · rename_i hhex
        have hc : Unbroken rest [c] := by
          refine ⟨?_, fun _ => hhex, True.intro⟩
          rw [beginsHex_head hhex]
          decide
        exact ih false (c :: pending) line (by simpa using hpending.snoc hc)
      · split
        · rename_i hends
          simp only [Bool.or_eq_true, Bool.and_eq_true, beq_iff_eq] at hends
          have hnext : EndsHex c := by
            rcases hends with hbreak | ⟨rfl, -⟩
            · exact endsHex_of_isBreakChar hbreak
            · exact ⟨by decide, by decide, by decide⟩
          have hpiece : ([c] ≠ [] ∧ Unbroken [] [c]) ∨ ∃ d, [c] = [d] ∧ isBreakChar d = true := by
            rcases hends with hbreak | ⟨rfl, -⟩
            · exact .inr ⟨c, rfl, hbreak⟩
            · exact .inl ⟨by simp, by decide, by decide, True.intro⟩
          refine List.forall_mem_append.mpr ⟨ofPiece_gathered hpending (by simpa using hnext),
            List.forall_mem_cons.mpr ⟨⟨[c], line, rfl, hpiece⟩, ih _ [] _ True.intro⟩⟩
        · rename_i hends
          simp only [Bool.or_eq_true, not_or] at hends
          have hc : Unbroken rest [c] := by
            refine ⟨?_, fun hbreak => absurd hbreak hends.1, True.intro⟩
            have hline : c ≠ '\n' := by
              rintro rfl
              exact hends.1 (by decide)
            simpa [hline] using hblank
          exact ih false (c :: pending) line (by simpa using hpending.snoc hc)

theorem Broken.within {line : Nat} {text : List Char} {tokens : List Token}
    (h : Broken line text tokens) : ∀ t ∈ tokens, t.text.toList <:+: text := by
  induction h with
  | nil => simp
  | @cons line gap piece rest tokens _ _ _ ih =>
    refine List.forall_mem_cons.mpr ⟨?_, fun t ht => ?_⟩
    · exact ⟨gap, rest, by simp [Token.text, Token.ofText, Lexeme.text_ofText]⟩
    · exact (ih t ht).trans ⟨gap ++ piece, [], by simp⟩

def Token.FitsCode (t : Token) : Prop :=
  t.lexeme.Fit ∧ t.isComment = false

theorem fitsCode_ofText {piece : List Char} (h : IsPiece piece) (line : Nat) :
    (Token.ofText (String.ofList piece) line).FitsCode := by
  unfold Token.ofText Lexeme.ofText
  split
  · exact ⟨True.intro, rfl⟩
  · split
    · exact ⟨True.intro, rfl⟩
    · exact ⟨⟨by simpa using h, ‹_›, ‹_›⟩, rfl⟩

theorem fitsCode_atomsFrom (line : Nat) {text : List Char} (htext : ∀ c ∈ text, IsCodeChar c) :
    ∀ t ∈ atomsFrom false [] line text, t.FitsCode := by
  intro t ht
  have hwithin := (broken_atomsFrom false [] line text (by simp)).within t ht
  obtain ⟨piece, l, rfl, hpiece⟩ := ofPiece_atomsFrom false [] line text True.intro t ht
  rw [Token.text, Token.ofText, Lexeme.text_ofText, String.toList_ofList] at hwithin
  refine fitsCode_ofText (hpiece.imp (fun h => ⟨h.1, h.2.solid fun c hc => ?_⟩) id) l
  exact htext c (hwithin.subset hc)

end Atoms

section Tokens

theorem elideContinuations_cons {t : Token} (ht : t.isAtom "_" = false) (rest : List Token) :
    elideContinuations (t :: rest) = (elideContinuations rest).map (t :: ·) := by
  rw [elideContinuations.eq_def]
  dsimp only
  rw [if_neg (by simp [ht])]
  cases elideContinuations rest <;> rfl

theorem elideContinuations_append {tokens : List Token} (h : ∀ t ∈ tokens, t.isAtom "_" = false)
    (raw : List Token) :
    elideContinuations (tokens ++ raw) = (elideContinuations raw).map (tokens ++ ·) := by
  induction tokens with
  | nil => cases hraw : elideContinuations raw <;> simp [hraw, Except.map]
  | cons t rest ih =>
    obtain ⟨ht, hrest⟩ := List.forall_mem_cons.mp h
    rw [List.cons_append, elideContinuations_cons ht, ih hrest]
    cases elideContinuations raw <;> rfl

theorem mem_of_elideContinuations {raw tokens : List Token}
    (h : elideContinuations raw = .ok tokens) : ∀ t ∈ tokens, t ∈ raw := by
  fun_induction elideContinuations raw generalizing tokens with
  | case1 =>
    cases h
    exact fun t ht => ht
  | case2 t hmark next rest hnext ih =>
    exact fun u hu => List.mem_cons_of_mem _ (List.mem_cons_of_mem _ (ih h u hu))
  | case3 => cases h
  | case4 => cases h
  | case5 t rest hmark ih =>
    cases hlater : elideContinuations rest with
    | error e =>
      rw [hlater] at h
      cases h
    | ok later =>
      rw [hlater] at h
      cases h
      refine List.forall_mem_cons.mpr ⟨List.mem_cons_self, fun u hu => ?_⟩
      exact List.mem_cons_of_mem _ (ih hlater u hu)

/-- Tokens as scanning gives them: nothing but the end of the line stands behind a comment. -/
inductive Printable : List Token → Prop where
  | nil : Printable []
  | cons {t : Token} {rest : List Token} : t.lexeme.Fit →
      (t.isComment = true → ∀ u ∈ rest.head?, u.lexeme = .lineEnd) → Printable rest →
      Printable (t :: rest)

theorem Printable.code {tokens later : List Token} (htokens : ∀ t ∈ tokens, t.FitsCode)
    (h : Printable later) : Printable (tokens ++ later) := by
  induction tokens with
  | nil => exact h
  | cons t rest ih =>
    obtain ⟨ht, hrest⟩ := List.forall_mem_cons.mp htokens
    exact .cons ht.1 (by simp [ht.2]) (ih hrest)

theorem head_breakCode {line : Nat} {text : List Char} {tokens : List Token}
    (h : breakCode ('\n' :: text) line = .ok tokens) :
    ∃ later, tokens = ⟨.lineEnd, line⟩ :: later := by
  have hraw : atomsFrom false [] line ('\n' :: text) =
      ⟨.lineEnd, line⟩ :: atomsFrom true [] (line + 1) text := by
    rfl
  rw [breakCode, hraw, elideContinuations_cons rfl] at h
  cases hlater : elideContinuations (atomsFrom true [] (line + 1) text) with
  | error e =>
    rw [hlater] at h
    cases h
  | ok later =>
    rw [hlater] at h
    cases h
    exact ⟨later, rfl⟩

theorem Stretched.printable {line : Nat} {stretches : List Stretch} (h : Stretched line stretches)
    {tokens : List Token} (htokens : tokensOfStretches stretches = .ok tokens) :
    Printable tokens := by
  induction h generalizing tokens with
  | nil =>
    cases htokens
    exact .nil
  | @code line text rest htext _ _ ih =>
    obtain ⟨here, later, hhere, hlater, rfl⟩ := tokensOfStretches_cons htokens
    refine Printable.code (fun t ht => ?_) (ih hlater)
    exact fitsCode_atomsFrom line htext t (mem_of_elideContinuations hhere t ht)
  | @literal line text rest htext _ ih =>
    obtain ⟨here, later, hhere, hlater, rfl⟩ := tokensOfStretches_cons htokens
    cases hhere
    exact .cons (by simpa [Lexeme.Fit] using htext) (by simp [Token.isComment]) (ih hlater)
  | @comment line text rest htext hlast hnext _ ih =>
    obtain ⟨here, later, hhere, hlater, rfl⟩ := tokensOfStretches_cons htokens
    cases hhere
    refine .cons (by simpa [Lexeme.Fit] using ⟨htext, hlast⟩) (fun _ => ?_) (ih hlater)
    cases rest with
    | nil =>
      cases hlater
      simp
    | cons s rest =>
      obtain ⟨more, rfl⟩ := hnext s rfl
      obtain ⟨here, last, hhere, -, rfl⟩ := tokensOfStretches_cons hlater
      obtain ⟨rest, rfl⟩ := head_breakCode hhere
      simp
  | unclosed => cases htokens

/-- Each token has the line it starts on, if the first starts on `line` and only the ends of lines
lead to the next one, down to `stop`. -/
inductive Numbered : Nat → List Token → Nat → Prop where
  | nil {line : Nat} : Numbered line [] line
  | cons {line stop : Nat} {lexeme : Lexeme} {rest : List Token} :
      Numbered (if lexeme = .lineEnd then line + 1 else line) rest stop →
      Numbered line (⟨lexeme, line⟩ :: rest) stop

theorem Numbered.append {line middle stop : Nat} {tokens later : List Token}
    (h : Numbered line tokens middle) (hlater : Numbered middle later stop) :
    Numbered line (tokens ++ later) stop := by
  induction h with
  | nil => exact hlater
  | cons _ ih => exact .cons (ih hlater)

theorem Numbered.same {t : Token} {stop : Nat} {rest : List Token} (hend : t.lexeme ≠ .lineEnd)
    (h : Numbered t.line rest stop) : Numbered t.line (t :: rest) stop :=
  .cons (by rwa [if_neg hend])

theorem numbered_gathered {pending : List Char} (h : '\n' ∉ pending) (line : Nat) :
    Numbered line (gathered pending line) line := by
  unfold gathered
  split
  · exact .nil
  · have hend : (Token.ofText (String.ofList pending.reverse) line).lexeme ≠ .lineEnd := by
      intro hend
      have hpiece : pending.reverse = ['\n'] := eq_of_lexeme_ofText hend
      exact h (List.mem_reverse.mp (by simp [hpiece]))
    exact .same hend .nil

theorem numbered_atomsFrom (afterBlank : Bool) (pending : List Char) (line : Nat)
    (text : List Char) (hpending : '\n' ∉ pending) :
    Numbered line (atomsFrom afterBlank pending line text) (line + text.count '\n') := by
  induction text generalizing afterBlank pending line with
  | nil => exact numbered_gathered hpending line
  | cons c rest ih =>
    have hpush : c ≠ '\n' → Numbered line (atomsFrom false (c :: pending) line rest)
        (line + (c :: rest).count '\n') := by
      intro hc
      have hnext := ih false (c :: pending) line (by simp [hpending, Ne.symm hc])
      simpa [hc] using hnext
    rw [atomsFrom]
    split
    · rename_i hblank
      have hc : c ≠ '\n' := by
        rintro rfl
        simp at hblank
      rw [List.count_cons_of_ne hc]
      exact (numbered_gathered hpending line).append (ih true [] line (by simp))
    · split
      · rename_i hhex
        exact hpush (by rw [beginsHex_head hhex]; decide)
      · split
        · refine (numbered_gathered hpending line).append ?_
          have hrest := ih (isBlank c) [] (if c = '\n' then line + 1 else line) (by simp)
          by_cases hc : c = '\n'
          · subst hc
            refine .cons ?_
            simpa [Lexeme.ofText, Nat.add_assoc, Nat.add_comm 1] using hrest
          · have hend : (Token.ofText (String.ofList [c]) line).lexeme ≠ .lineEnd := by
              intro hend
              have hpiece : [c] = ['\n'] := eq_of_lexeme_ofText hend
              exact hc (List.singleton_inj.mp hpiece)
            rw [if_neg hc] at hrest ⊢
            rw [List.count_cons_of_ne hc]
            exact .same hend hrest
        · rename_i hbreak
          refine hpush ?_
          rintro rfl
          exact hbreak (by simp [isBreakChar, breakChars])

def Stretch.marked : Stretch → List Token
  | .code text line => atomsFrom false [] line text
  | .literal text line => [⟨.literal (String.ofList text), line⟩]
  | .comment text line => [⟨.comment (String.ofList text), line⟩]
  | .unclosed _ => []

def markedTokens (source : String) : List Token :=
  (Stretch.ofSource source.toList).flatMap Stretch.marked

/-- If a literal is left open, the tokens before it lead to its line. -/
theorem Stretched.numbered_unclosed {line : Nat} {stretches : List Stretch}
    (h : Stretched line stretches) :
    ∃ stop, Numbered line (stretches.flatMap Stretch.marked) stop ∧
      ∀ last, .unclosed last ∈ stretches → last = stop := by
  induction h with
  | nil => exact ⟨_, .nil, by simp⟩
  | @code line text rest _ _ _ ih =>
    obtain ⟨stop, hrest, hlast⟩ := ih
    exact ⟨stop, (numbered_atomsFrom false [] line text (by simp)).append hrest,
      by simpa using hlast⟩
  | literal _ _ ih =>
    obtain ⟨stop, hrest, hlast⟩ := ih
    exact ⟨stop, .cons hrest, by simpa using hlast⟩
  | comment _ _ _ _ ih =>
    obtain ⟨stop, hrest, hlast⟩ := ih
    exact ⟨stop, .cons hrest, by simpa using hlast⟩
  | unclosed => exact ⟨_, .nil, by simp⟩

theorem Stretched.numbered {line : Nat} {stretches : List Stretch} (h : Stretched line stretches) :
    ∃ stop, Numbered line (stretches.flatMap Stretch.marked) stop := by
  obtain ⟨stop, hnumbered, -⟩ := h.numbered_unclosed
  exact ⟨stop, hnumbered⟩

theorem elideContinuations_unmarked {raw : List Token} (h : ∀ t ∈ raw, t.isAtom "_" = false) :
    elideContinuations raw = .ok raw := by
  have happend := elideContinuations_append h []
  rw [List.append_nil, elideContinuations] at happend
  simpa [Except.map] using happend

theorem tokens_unmarked {stretches : List Stretch} {tokens : List Token}
    (h : tokensOfStretches stretches = .ok tokens)
    (hmarks : ∀ t ∈ stretches.flatMap Stretch.marked, t.isAtom "_" = false) :
    tokens = stretches.flatMap Stretch.marked := by
  induction stretches generalizing tokens with
  | nil =>
    cases h
    rfl
  | cons s rest ih =>
    obtain ⟨here, later, hhere, hlater, rfl⟩ := tokensOfStretches_cons h
    rw [List.flatMap_cons, List.forall_mem_append] at hmarks
    rw [List.flatMap_cons, ih hlater hmarks.2]
    cases s with
    | code text line =>
      have hraw := elideContinuations_unmarked hmarks.1
      rw [Except.ok.inj (hhere.symm.trans hraw)]
    | literal text line | comment text line =>
      cases hhere
      rfl
    | unclosed line => cases hhere

def numbered (line : Nat) : List Lexeme → List Token
  | [] => []
  | lexeme :: rest => ⟨lexeme, line⟩ :: numbered (if lexeme = .lineEnd then line + 1 else line) rest

@[simp] theorem map_numbered (line : Nat) (lexemes : List Lexeme) :
    (numbered line lexemes).map (·.lexeme) = lexemes := by
  induction lexemes generalizing line with
  | nil => rfl
  | cons lexeme rest ih => rw [numbered, List.map_cons, ih]

theorem Numbered.eq {line stop : Nat} {tokens : List Token} (h : Numbered line tokens stop) :
    numbered line (tokens.map (·.lexeme)) = tokens := by
  induction h with
  | nil => rfl
  | cons _ ih => rw [List.map_cons, VbsCompiler.numbered, ih]

end Tokens

end VbsCompiler
