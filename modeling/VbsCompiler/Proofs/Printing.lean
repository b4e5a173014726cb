import VbsCompiler.Proofs.Lexemes

/-! Printing tokens and scanning them again. A printed token is scanned without regard to what
stands around it, since a blank, a line break or the end of the text follows it. -/

namespace VbsCompiler

open Stretch

section Rescan

/-- The tokens from a point on that stands on the given line behind the given character. -/
def scanAt (before : Option Char) (line : Nat) (text : List Char) :
    Except ScanError (List Token) :=
  tokensOfStretches (codeFrom [] line before line text)

/-- Nothing in the text ends the code, where `after` follows. -/
def StaysCode (before : Option Char) (after : List Char) : List Char → Prop
  | [] => True
  | c :: rest => IsCodeChar c ∧ beginsRem before (c :: (rest ++ after)) = false ∧
      StaysCode (some c) after rest

theorem codeFrom_append {before : Option Char} {after text : List Char}
    (h : StaysCode before after text) (line : Nat) :
    ∃ last code rest, code <+: after ∧
      (∀ pending start, codeFrom pending start before line (text ++ after) =
        gatheredCode (code.reverse ++ (text.reverse ++ pending)) (startLine pending start line) ++
          rest) ∧
      ∀ pending start, codeFrom pending start last (line + text.count '\n') after =
        gatheredCode (code.reverse ++ pending)
          (startLine pending start (line + text.count '\n')) ++ rest := by
  induction text generalizing before line with
  | nil =>
    obtain ⟨code, rest, hcode, hsplit⟩ := codeFrom_split before line after
    exact ⟨before, code, rest, hcode, hsplit, hsplit⟩
  | cons c text ih =>
    obtain ⟨hc, hrem, htext⟩ := h
    have hline : (if c = '\n' then line + 1 else line) + text.count '\n' =
        line + (c :: text).count '\n' := by
      by_cases hend : c = '\n'
      · simp [hend]
        omega
      · simp [hend]
    obtain ⟨last, code, rest, hcode, hjoined, hsplit⟩ :=
      ih htext (if c = '\n' then line + 1 else line)
    rw [hline] at hsplit
    refine ⟨last, code, rest, hcode, fun pending start => ?_, hsplit⟩
    rw [List.cons_append, codeFrom, if_neg hc.1, if_neg hc.2, if_neg (by simp [hrem]), hjoined]
    simp [startLine]

theorem tokensOfStretches_gatheredCode (code : List Char) (line : Nat) (rest : List Stretch) :
    tokensOfStretches (gatheredCode code.reverse line ++ rest) = (do
      let here ← breakCode code line
      let later ← tokensOfStretches rest
      return here ++ later) := by
  cases code with
  | nil =>
    change _ = (tokensOfStretches rest >>= fun later => pure later)
    rw [bind_pure]
    rfl
  | cons c code =>
    rw [gatheredCode, if_neg (by simp), List.reverse_reverse]
    rfl

/-- A part of the text that breaks into tokens of its own is scanned by itself. -/
theorem scanAt_append {before : Option Char} {line : Nat} {after : List Char}
    {later : List Token} (text : List Char) (tokens : List Token)
    (hcode : StaysCode before after text)
    (hmarks : ∀ t ∈ tokens, t.isAtom "_" = false)
    (htokens : ∀ code, code <+: after → atomsFrom false [] line (text ++ code) =
      tokens ++ atomsFrom false [] (line + text.count '\n') code)
    (hlater : ∀ last, scanAt last (line + text.count '\n') after = .ok later) :
    scanAt before line (text ++ after) = .ok (tokens ++ later) := by
  obtain ⟨last, code, rest, hinitial, hjoined, hsplit⟩ := codeFrom_append hcode line
  have hrest := hlater last
  have hbreak : breakCode (text ++ code) line =
      (breakCode code (line + text.count '\n')).map (tokens ++ ·) := by
    rw [breakCode, htokens code hinitial, elideContinuations_append hmarks, breakCode]
  have hsplit' := hsplit [] (line + text.count '\n')
  have hjoined' := hjoined [] line
  rw [List.append_nil] at hsplit'
  rw [List.append_nil, ← List.reverse_append] at hjoined'
  rw [scanAt, hsplit', tokensOfStretches_gatheredCode] at hrest
  rw [scanAt, hjoined', tokensOfStretches_gatheredCode]
  change (breakCode code (line + text.count '\n') >>= _) = _ at hrest
  change (breakCode (text ++ code) line >>= _) = _
  rw [hbreak]
  cases hhere : breakCode code (line + text.count '\n') with
  | error e =>
    rw [hhere] at hrest
    cases hrest
  | ok here =>
    rw [hhere] at hrest
    cases hbehind : tokensOfStretches rest with
    | error e =>
      rw [hbehind] at hrest
      cases hrest
    | ok behind =>
      rw [hbehind] at hrest
      cases hrest
      exact congrArg Except.ok (List.append_assoc tokens here behind)

theorem beginsRem_of_head {before : Option Char} {c : Char} {rest : List Char}
    (h : c ≠ 'r' ∧ c ≠ 'R') : beginsRem before (c :: rest) = false := by
  unfold beginsRem
  split
  · rename_i heq
    obtain ⟨rfl, -⟩ := List.cons.inj heq
    simp [h.1, h.2]
  · rfl

theorem beginsRem_of_before {before c : Char} {rest : List Char} (hblank : isBlank before = false)
    (hcolon : before ≠ ':') : beginsRem (some before) (c :: rest) = false := by
  unfold beginsRem
  split
  · simp [hblank, hcolon]
  · rfl

theorem head?_of_initial {code after : List Char} {c : Char} (h : code <+: after)
    (hc : code.head? = some c) : after.head? = some c := by
  obtain ⟨rest, rfl⟩ := h
  simp [List.head?_append, hc]

theorem atomsFrom_afterBlank {code : List Char} (h : code.head? ≠ some '_') (afterBlank : Bool)
    (pending : List Char) (line : Nat) :
    atomsFrom afterBlank pending line code = atomsFrom false pending line code := by
  cases code with
  | nil => rfl
  | cons c rest =>
    have hc : c ≠ '_' := by simpa using h
    simp [atomsFrom, hc]

theorem isAtom_ofText {piece : List Char} (h : piece ≠ ['_']) (line : Nat) :
    (Token.ofText (String.ofList piece) line).isAtom "_" = false := by
  cases hatom : (Token.ofText (String.ofList piece) line).isAtom "_" with
  | false => rfl
  | true => exact absurd (eq_of_lexeme_ofText (by simpa [Token.isAtom] using hatom)) h

variable {before : Option Char} {line : Nat} {after : List Char} {later : List Token}

theorem scanAt_space (hafter : after.head? ≠ some '_')
    (h : ∀ last, scanAt last line after = .ok later) :
    scanAt before line (' ' :: after) = .ok later := by
  refine scanAt_append [' '] [] ?_ (by simp) ?_ h
  · exact ⟨by simp [IsCodeChar], beginsRem_of_head (by decide), True.intro⟩
  · intro code hinitial
    exact atomsFrom_afterBlank (fun hcode => hafter (head?_of_initial hinitial hcode)) true [] line

/-- A break character that does not begin a hexadecimal number. -/
theorem scanAt_break {c : Char} (hbreak : isBreakChar c = true)
    (hhex : ∀ code, code <+: after → beginsHex (c :: code) = false)
    (hafter : after.head? ≠ some '_')
    (h : ∀ last, scanAt last (if c = '\n' then line + 1 else line) after = .ok later) :
    scanAt before line (c :: after) = .ok (Token.ofText c.toString line :: later) := by
  have hline : line + [c].count '\n' = if c = '\n' then line + 1 else line := by
    by_cases hc : c = '\n' <;> simp [hc]
  have hmem : c ∈ breakChars := by simpa [isBreakChar] using hbreak
  have hfacts : ∀ d ∈ breakChars, (d ≠ '"' ∧ d ≠ '\'') ∧ (d ≠ 'r' ∧ d ≠ 'R') ∧ d ≠ '_' ∧
      (isBlank d && d != '\n') = false := by
    simp [breakChars, isBlank, blankRanges, CodeRange.anyContains, CodeRange.contains]
  obtain ⟨hcode, hrem, hmark, hblank⟩ := hfacts c hmem
  refine scanAt_append [c] [Token.ofText c.toString line] ?_ ?_ ?_ ?_
  · exact ⟨hcode, beginsRem_of_head hrem, True.intro⟩
  · have hatom : (Token.ofText (String.ofList [c]) line).isAtom "_" = false :=
      isAtom_ofText (by simpa using hmark) line
    simpa using hatom
  · intro code hinitial
    have hcode_head : code.head? ≠ some '_' := fun hc => hafter (head?_of_initial hinitial hc)
    rw [hline, List.singleton_append, atomsFrom, if_neg (by simp [hblank]),
      if_neg (by simp [hhex code hinitial]), if_pos (by simp [hbreak]),
      atomsFrom_afterBlank hcode_head]
    rfl
  · rwa [hline]

theorem Solid.extend {text : List Char} (h : Solid [] text) (after : List Char) :
    Solid after text := by
  induction text with
  | nil => exact h
  | cons c text ih =>
    obtain ⟨hblank, hcode, hbreak, htext⟩ := h
    refine ⟨hblank, hcode, fun hc => ?_, ih htext⟩
    have hhex := beginsHex_append (hbreak hc) after
    simpa using hhex

theorem atomsFrom_solid {piece code : List Char} (h : Solid code piece) (pending : List Char)
    (line : Nat) : atomsFrom false pending line (piece ++ code) =
      atomsFrom false (piece.reverse ++ pending) line code := by
  induction piece generalizing pending with
  | nil => rfl
  | cons c piece ih =>
    obtain ⟨hblank, -, hbreak, hpiece⟩ := h
    have hpush : atomsFrom false pending line (c :: (piece ++ code)) =
        atomsFrom false (c :: pending) line (piece ++ code) := by
      rw [atomsFrom, if_neg (by simp [hblank])]
      split
      · rfl
      · rename_i hhex
        rw [if_neg (by simpa using fun hc => hhex (hbreak hc))]
    rw [List.cons_append, hpush, ih hpiece]
    simp

def Separated (after : List Char) : Prop :=
  ∀ c ∈ after.head?, isBlank c = true

theorem atomsFrom_separated {code : List Char} (h : Separated code) (pending : List Char)
    (line : Nat) : atomsFrom false pending line code =
      gathered pending line ++ atomsFrom false [] line code := by
  cases code with
  | nil => simp [atomsFrom, gathered]
  | cons c rest =>
    have hblank : isBlank c = true := h c rfl
    by_cases hc : c = '\n'
    · subst hc
      rfl
    · simp [atomsFrom, hblank, hc, gathered]

theorem Separated.initial {code : List Char} (h : Separated after) (hinitial : code <+: after) :
    Separated code :=
  fun c hc => h c (head?_of_initial hinitial hc)

def IsRem (text : List Char) : Prop :=
  text.map Char.toLower = ['r', 'e', 'm']

theorem Solid.not_isBlank {text more : List Char} (h : Solid more text) :
    ∀ c ∈ text, isBlank c = false := by
  induction text with
  | nil => simp
  | cons c text ih => exact List.forall_mem_cons.mpr ⟨h.1, ih h.2.2.2⟩

theorem beginsRem_cons {c : Char} {rest : List Char} (h : beginsRem before (c :: rest) = true) :
    ∃ e m behind, rest = e :: m :: behind ∧ IsRem [c, e, m] ∧ isBlank e = false ∧
      isBlank m = false ∧ ∀ d ∈ behind.head?, isBlank d = true := by
  unfold beginsRem at h
  split at h
  · rename_i r e m behind heq
    obtain ⟨rfl, rfl⟩ := List.cons.inj heq
    simp only [Bool.and_eq_true, Bool.or_eq_true, beq_iff_eq] at h
    obtain ⟨⟨⟨⟨hr, he⟩, hm⟩, -⟩, hbehind⟩ := h
    refine ⟨e, m, behind, rfl, ?_, ?_, ?_, fun d hd => ?_⟩
    · rcases hr with rfl | rfl <;> rcases he with rfl | rfl <;> rcases hm with rfl | rfl <;> rfl
    · rcases he with rfl | rfl <;> decide
    · rcases hm with rfl | rfl <;> decide
    · rw [Option.mem_def.mp hd] at hbehind
      exact hbehind
  · cases h

/-- Only the word itself begins a comment, since a blank has to follow it. -/
theorem not_beginsRem {piece : List Char} (hpiece : piece ≠ [])
    (hsolid : ∀ c ∈ piece, isBlank c = false) (hrem : ¬ IsRem piece) (hafter : Separated after) :
    beginsRem before (piece ++ after) = false := by
  cases hbegins : beginsRem before (piece ++ after) with
  | false => rfl
  | true =>
    exfalso
    rcases piece with _ | ⟨c, rest⟩
    · exact hpiece rfl
    obtain ⟨e, m, behind, hrest, hword, he, hm, hbehind⟩ := beginsRem_cons hbegins
    rcases rest with _ | ⟨x, _ | ⟨y, _ | ⟨z, rest⟩⟩⟩
    · obtain rfl : after = e :: m :: behind := hrest
      exact absurd (hafter e rfl) (by simp [he])
    · obtain ⟨rfl, rfl⟩ : x = e ∧ after = m :: behind := List.cons.inj hrest
      exact absurd (hafter m rfl) (by simp [hm])
    · obtain ⟨rfl, rfl, -⟩ : x = e ∧ y = m ∧ after = behind := by simpa using hrest
      exact hrem hword
    · obtain ⟨rfl, rfl, rfl⟩ : x = e ∧ y = m ∧ z :: (rest ++ after) = behind := by simpa using hrest
      exact absurd (hbehind z rfl) (by simp [hsolid z (by simp)])

theorem Solid.ne_colon {c : Char} {rest more : List Char} (h : Solid more (c :: rest)) :
    c ≠ ':' := by
  rintro rfl
  have hhex := h.2.2.1 (by decide)
  exact absurd (beginsHex_head hhex) (by decide)

theorem staysCode_inside {piece : List Char} (h : Solid [] piece) {last : Char}
    (hblank : isBlank last = false) (hcolon : last ≠ ':') : StaysCode (some last) after piece := by
  induction piece generalizing last with
  | nil => exact True.intro
  | cons c piece ih =>
    have hnext := h.ne_colon
    obtain ⟨hc, hcode, -, hpiece⟩ := h
    exact ⟨hcode, beginsRem_of_before hblank hcolon, ih hpiece hc hnext⟩

theorem staysCode_piece {piece : List Char} (h : Solid [] piece) (hrem : ¬ IsRem piece)
    (hafter : Separated after) : StaysCode before after piece := by
  cases piece with
  | nil => exact True.intro
  | cons c piece =>
    have hword : beginsRem before (c :: piece ++ after) = false :=
      not_beginsRem (by simp) h.not_isBlank hrem hafter
    have hcolon := h.ne_colon
    obtain ⟨hc, hcode, -, hpiece⟩ := h
    exact ⟨hcode, hword, staysCode_inside hpiece hc hcolon⟩

theorem scanAt_piece {piece : List Char} (h : Solid [] piece) (hpiece : piece ≠ [])
    (hrem : ¬ IsRem piece) (hmark : piece ≠ ['_']) (hafter : Separated after)
    (hlater : ∀ last, scanAt last line after = .ok later) :
    scanAt before line (piece ++ after) =
      .ok (Token.ofText (String.ofList piece) line :: later) := by
  have hline : line + piece.count '\n' = line := by
    have hcount : piece.count '\n' = 0 :=
      List.count_eq_zero.mpr fun hmem => absurd (h.not_isBlank _ hmem) (by decide)
    omega
  refine scanAt_append piece [Token.ofText (String.ofList piece) line]
    (staysCode_piece h hrem hafter) (by simpa using isAtom_ofText hmark line) ?_ (by rwa [hline])
  intro code hinitial
  rw [hline, atomsFrom_solid (h.extend code), atomsFrom_separated (hafter.initial hinitial)]
  simp [gathered, hpiece]

theorem literalFrom_doubleQuotes {text : List Char} (htext : '\n' ∉ text)
    (hafter : after.head? ≠ some '"') (read : List Char) (line : Nat) :
    literalFrom read line (doubleQuotes text ++ '"' :: after) =
      .literal (read.reverse ++ text) line :: codeFrom [] line (some '"') line after := by
  induction text generalizing read with
  | nil =>
    have hsingle : ∀ rest, '"' = '"' → after = '"' :: rest → False := by
      rintro rest - rfl
      exact hafter rfl
    rw [doubleQuotes, List.nil_append, literalFrom.eq_3 _ _ _ _ hsingle, if_pos rfl,
      List.append_nil]
  | cons c text ih =>
    obtain ⟨hc, hrest⟩ : '\n' ≠ c ∧ '\n' ∉ text := by simpa using htext
    by_cases hquote : c = '"'
    · subst hquote
      rw [doubleQuotes, if_pos rfl, List.cons_append, List.cons_append, literalFrom, ih hrest]
      simp
    · have hsingle : ∀ rest, c = '"' → doubleQuotes text ++ '"' :: after = '"' :: rest → False :=
        fun _ heq => absurd heq hquote
      rw [doubleQuotes, if_neg hquote, List.cons_append, literalFrom.eq_3 _ _ _ _ hsingle,
        if_neg hquote, if_neg (Ne.symm hc), ih hrest]
      simp

theorem scanAt_literal {text : List Char} (htext : '\n' ∉ text) (hafter : after.head? ≠ some '"')
    (hlater : ∀ last, scanAt last line after = .ok later) :
    scanAt before line ('"' :: (doubleQuotes text ++ '"' :: after)) =
      .ok (⟨.literal (String.ofList text), line⟩ :: later) := by
  have hrest := hlater (some '"')
  rw [scanAt] at hrest
  rw [scanAt, codeFrom, if_pos rfl, literalFrom_doubleQuotes htext hafter]
  change (tokensOfStretches (codeFrom [] line (some '"') line after) >>= _) = _
  rw [hrest]
  rfl

theorem commentFrom_append {text : List Char} (htext : '\n' ∉ text) (read : List Char)
    (line : Nat) :
    commentFrom 0 read line (text ++ after) = commentFrom 0 (text.reverse ++ read) line after := by
  induction text generalizing read with
  | nil => rfl
  | cons c text ih =>
    obtain ⟨hc, hrest⟩ : '\n' ≠ c ∧ '\n' ∉ text := by simpa using htext
    rw [List.cons_append, commentFrom, if_neg (Ne.symm hc), ih hrest]
    simp

theorem dropReturns_of_getLast? {text : List Char} (h : text.getLast? ≠ some '\r') :
    dropReturns text.reverse = text := by
  rw [← List.head?_reverse] at h
  rw [dropReturns]
  cases hreverse : text.reverse with
  | nil => simpa using hreverse.symm
  | cons c rest =>
    rw [hreverse] at h
    rw [List.dropWhile_cons_of_neg (by simpa using h), ← hreverse, List.reverse_reverse]

theorem scanAt_comment {text : List Char} (htext : '\n' ∉ text)
    (hlast : text.getLast? ≠ some '\r') (hafter : ∀ c ∈ after.head?, c = '\n')
    (hlater : ∀ last, scanAt last line after = .ok later) :
    scanAt before line ('\'' :: (text ++ after)) =
      .ok (⟨.comment (String.ofList text), line⟩ :: later) := by
  have hstart : scanAt before line ('\'' :: (text ++ after)) =
      tokensOfStretches (commentFrom 0 text.reverse line after) := by
    rw [scanAt, codeFrom, if_neg (by decide), if_pos rfl, commentFrom_append htext,
      List.append_nil]
    rfl
  have hrest := hlater none
  rw [hstart]
  cases after with
  | nil =>
    obtain rfl : [] = later := Except.ok.inj hrest
    rw [commentFrom, dropReturns_of_getLast? hlast]
    rfl
  | cons c rest =>
    obtain rfl : c = '\n' := hafter c rfl
    have hend : scanAt none line ('\n' :: rest) =
        tokensOfStretches (codeFrom ['\n'] line (some '\n') (line + 1) rest) := by
      rw [scanAt, codeFrom, if_neg (by decide), if_neg (by decide),
        if_neg (by simp [beginsRem_of_head])]
      rfl
    rw [commentFrom, if_pos rfl, dropReturns_of_getLast? hlast]
    rw [hend] at hrest
    change (tokensOfStretches (codeFrom ['\n'] line (some '\n') (line + 1) rest) >>= _) = _
    rw [hrest]
    rfl

theorem Separated.head?_ne (h : Separated after) {c : Char} (hc : isBlank c = false) :
    after.head? ≠ some c := by
  intro hhead
  rw [h c hhead] at hc
  cases hc

theorem Separated.not_beginsHex (h : Separated after) (c : Char) :
    beginsHex (c :: after) = false := by
  cases hhex : beginsHex (c :: after) with
  | false => rfl
  | true =>
    unfold beginsHex at hhex
    split at hhex
    · rename_i x d rest heq
      obtain ⟨-, rfl⟩ := List.cons.inj heq
      have hblank : isBlank x = true := h x rfl
      simp only [Bool.and_eq_true, Bool.or_eq_true, beq_iff_eq] at hhex
      obtain ⟨hlower, hupper, -⟩ := endsHex_of_isBlank hblank
      exact absurd hhex.1 (by simp [hlower, hupper])
    · cases hhex

/-- No atom is the word REM, and none starts with an underscore. -/
structure Lexeme.Plain (l : Lexeme) : Prop where
  not_rem : ∀ text, l = .atom text → ¬ IsRem text.toList
  not_mark : ∀ text, l = .atom text → text.toList.head? ≠ some '_'

theorem scanAt_display {l : Lexeme} (hfit : l.Fit) (hplain : l.Plain)
    (hafter : after.head? ≠ some '_') (hseparated : l ≠ .lineEnd → Separated after)
    (hcomment : ∀ text, l = .comment text → ∀ c ∈ after.head?, c = '\n')
    (hlater : ∀ last, scanAt last (if l = .lineEnd then line + 1 else line) after = .ok later) :
    scanAt before line (l.display.toList ++ after) = .ok (⟨l, line⟩ :: later) := by
  cases l with
  | atom text =>
    have hsep := hseparated (by simp)
    obtain ⟨hpiece, hend, hcolon⟩ := hfit
    have htoken : Token.ofText text line = ⟨.atom text, line⟩ := by
      simp [Token.ofText, Lexeme.ofText, hend, hcolon]
    have hmark := hplain.not_mark text rfl
    rw [← htoken]
    change scanAt before line (text.toList ++ after) = _
    rcases hpiece with ⟨hne, hsolid⟩ | ⟨c, hc, hbreak⟩
    · have hscan : scanAt before line (text.toList ++ after) = _ :=
        scanAt_piece hsolid hne (hplain.not_rem text rfl) (fun h => hmark (by simp [h])) hsep
          hlater
      rwa [String.ofList_toList] at hscan
    · have htext : text = c.toString := by
        rw [← String.ofList_toList (s := text), hc]
        rfl
      have hline : c ≠ '\n' := by
        rintro rfl
        exact hend htext
      rw [hc, htext]
      refine scanAt_break hbreak (fun code hinitial => (hsep.initial hinitial).not_beginsHex c)
        hafter ?_
      rw [if_neg hline]
      exact hlater
  | literal text =>
    have hsep := hseparated (by simp)
    have hscan : scanAt before line ('"' :: (doubleQuotes text.toList ++ '"' :: after)) = _ :=
      scanAt_literal hfit (hsep.head?_ne (by decide)) hlater
    simpa [Lexeme.display] using hscan
  | comment text =>
    have hscan : scanAt before line ('\'' :: (text.toList ++ after)) = _ :=
      scanAt_comment hfit.1 hfit.2 (hcomment text rfl) hlater
    simpa [Lexeme.display] using hscan
  | lineEnd =>
    exact scanAt_break (by decide) (fun code _ => rfl) hafter hlater
  | colon =>
    exact scanAt_break (by decide) (fun code _ => rfl) hafter hlater

end Rescan

section Printed

/-- What stands between two printed tokens: a space, except next to the end of a line. -/
def spacing (t u : Token) : String :=
  if t.lexeme = .lineEnd ∨ u.lexeme = .lineEnd then "" else " "

def printed : List Token → String
  | [] => ""
  | t :: rest => t.display ++ (rest.head?.elim "" (spacing t) ++ printed rest)

theorem head?_display {l : Lexeme} (hfit : l.Fit) (hplain : l.Plain) :
    ∃ c, l.display.toList.head? = some c ∧ c ≠ '_' := by
  cases l with
  | atom text =>
    have hne : text.toList ≠ [] := by
      rcases hfit.1 with ⟨hne, -⟩ | ⟨c, hc, -⟩
      · exact hne
      · simp [hc]
    obtain ⟨c, rest, htext⟩ := List.exists_cons_of_ne_nil hne
    have hmark := hplain.not_mark text rfl
    rw [htext] at hmark
    exact ⟨c, by simp [Lexeme.display, Lexeme.text, htext], by simpa using hmark⟩
  | literal text => exact ⟨'"', by simp [Lexeme.display], by decide⟩
  | comment text => exact ⟨'\'', by simp [Lexeme.display], by decide⟩
  | lineEnd => exact ⟨'\n', by simp [Lexeme.display, Lexeme.text], by decide⟩
  | colon => exact ⟨':', by simp [Lexeme.display, Lexeme.text], by decide⟩

theorem head?_printed {t : Token} {rest : List Token} (hfit : t.lexeme.Fit)
    (hplain : t.lexeme.Plain) :
    (printed (t :: rest)).toList.head? = t.lexeme.display.toList.head? := by
  obtain ⟨c, hc, -⟩ := head?_display hfit hplain
  simp [printed, Token.display, hc]

/-- Printed tokens are read back one by one, whatever is around them. -/
theorem scanAt_printed {tokens : List Token} (h : Printable tokens)
    (hplain : ∀ t ∈ tokens, t.lexeme.Plain) (before : Option Char) (line : Nat) :
    scanAt before line (printed tokens).toList = .ok (numbered line (tokens.map (·.lexeme))) := by
  induction h generalizing before line with
  | nil => rfl
  | @cons t rest hfit hcomment hrest ih =>
    obtain ⟨ht, hplainRest⟩ := List.forall_mem_cons.mp hplain
    rw [printed, String.toList_append]
    cases rest with
    | nil =>
      exact scanAt_display hfit ht (by simp [printed]) (fun _ c hc => by simp [printed] at hc)
        (fun _ _ c hc => by simp [printed] at hc) (fun _ => rfl)
    | cons u rest =>
      have hfitNext : u.lexeme.Fit := by
        cases hrest with
        | cons hfit _ _ => exact hfit
      have hplainNext := hplainRest u List.mem_cons_self
      have hhead : (printed (u :: rest)).toList.head? = u.lexeme.display.toList.head? :=
        head?_printed hfitNext hplainNext
      have hmark : (printed (u :: rest)).toList.head? ≠ some '_' := by
        obtain ⟨c, hc, hne⟩ := head?_display hfitNext hplainNext
        rw [hhead, hc]
        simpa using hne
      have hlater := fun last => ih hplainRest last (if t.lexeme = .lineEnd then line + 1 else line)
      by_cases hend : t.lexeme = .lineEnd ∨ u.lexeme = .lineEnd
      · have hafter : ((u :: rest).head?.elim "" (spacing t) ++ printed (u :: rest)).toList =
            (printed (u :: rest)).toList := by
          simp [spacing, hend]
        rw [hafter]
        have hnewline : u.lexeme = .lineEnd →
            ∀ c ∈ (printed (u :: rest)).toList.head?, c = '\n' := by
          intro hu c hc
          rw [hhead, hu] at hc
          exact (Option.some.inj hc).symm
        refine scanAt_display hfit ht hmark (fun hnot c hc => ?_) (fun text htext => ?_) hlater
        · rw [hnewline (hend.resolve_left hnot) c hc]
          decide
        · exact hnewline (hend.resolve_left (by simp [htext]))
      · have hafter : ((u :: rest).head?.elim "" (spacing t) ++ printed (u :: rest)).toList =
            ' ' :: (printed (u :: rest)).toList := by
          simp [spacing, hend]
        rw [hafter]
        refine scanAt_display hfit ht (by simp) (fun _ c hc => ?_) (fun text htext => ?_)
          fun _ => scanAt_space hmark hlater
        · obtain rfl : ' ' = c := Option.some.inj hc
          decide
        · have hnext := hcomment (by simp [Token.isComment, htext]) u rfl
          exact absurd (.inr hnext) hend

/-- Printing the tokens of a source and scanning them again gives the same lexemes in the same
order. If no line of the source is continued, the tokens are on the same lines as well. -/
theorem scan_printed_tokens {source : String} {tokens : List Token}
    (h : scan source = .ok tokens)
    (hrem : ∀ t ∈ tokens, ∀ text, t.lexeme = .atom text → ¬ IsRem text.toList)
    (hmark : ∀ t ∈ tokens, ∀ text, t.lexeme = .atom text → text.toList.head? ≠ some '_') :
    ∃ again, scan (printed tokens) = .ok again ∧
      again.map (·.lexeme) = tokens.map (·.lexeme) ∧
      ((∀ t ∈ markedTokens source, t.isAtom "_" = false) → again = tokens) := by
  have hstretched : Stretched 0 (Stretch.ofSource source.toList) :=
    stretched_codeFrom [] 0 none 0 source.toList rfl (by simp)
  have hscan := scanAt_printed (hstretched.printable h) (fun t ht => ⟨hrem t ht, hmark t ht⟩) none 0
  refine ⟨_, hscan, map_numbered 0 _, fun hmarks => ?_⟩
  obtain ⟨stop, hnumbered⟩ := hstretched.numbered
  have htokens : tokens = (Stretch.ofSource source.toList).flatMap Stretch.marked :=
    tokens_unmarked h hmarks
  rw [← htokens] at hnumbered
  exact hnumbered.eq

theorem scan_printed_tokens_quotes_and_comment :
    let source := "x=&h1F & \"a\"\"\"' c\r\n  .y: z"
    let tokens : List Token := [⟨.atom "x", 0⟩, ⟨.atom "=", 0⟩, ⟨.atom "&h1F", 0⟩, ⟨.atom "&", 0⟩,
      ⟨.literal "a\"", 0⟩, ⟨.comment " c", 0⟩, ⟨.lineEnd, 0⟩, ⟨.atom ".", 1⟩, ⟨.atom "y", 1⟩,
      ⟨.colon, 1⟩, ⟨.atom "z", 1⟩]
    scan source = .ok tokens ∧
      printed tokens = "x = &h1F & \"a\"\"\" ' c\n. y : z" ∧
      ∃ again, scan (printed tokens) = .ok again ∧
        again.map (·.lexeme) = tokens.map (·.lexeme) ∧
        ((∀ t ∈ markedTokens source, t.isAtom "_" = false) → again = tokens) := by
  intro source tokens
  have hscan : (scan source).toOption = some tokens := by decide +kernel
  have h : scan source = .ok tokens := by
    cases hresult : scan source with
    | error e =>
      rw [hresult] at hscan
      cases hscan
    | ok found =>
      rw [hresult] at hscan
      exact congrArg Except.ok (Option.some.inj hscan)
  have hatoms : ∀ t ∈ tokens, t.text.toList.map Char.toLower ≠ ['r', 'e', 'm'] ∧
      t.text.toList.head? ≠ some '_' := by decide +kernel
  have htext : ∀ {t : Token} {text : String}, t.lexeme = .atom text → t.text = text :=
    fun ht => congrArg Lexeme.text ht
  refine ⟨h, by decide +kernel, scan_printed_tokens h (fun t ht text hlexeme => ?_)
    (fun t ht text hlexeme => ?_)⟩
  · rw [← htext hlexeme]
    exact (hatoms t ht).1
  · rw [← htext hlexeme]
    exact (hatoms t ht).2

end Printed

end VbsCompiler
