import Mathlib.Data.List.Forall2
import VbsCompiler.Source.Scan

/-! Scanning as a partition of the source. Every token stands on a range of characters that spells
it, the ranges follow each other in the order of the tokens, and what lies between them are blanks
and the continuation marks with the line breaks that they cancel. -/

namespace VbsCompiler

def IsGapChar (c : Char) : Prop :=
  isBlank c = true ∧ c ≠ '\n'

def IsGap (text : List Char) : Prop :=
  ∀ c ∈ text, IsGapChar c

theorem IsGap.count_lineEnd {text : List Char} (h : IsGap text) : text.count '\n' = 0 :=
  List.count_eq_zero.mpr fun hmem => (h _ hmem).2 rfl

/-- The apostrophe, or the letters REM in any case. -/
def IsCommentMark (mark : List Char) : Prop :=
  mark = ['\''] ∨ mark.map Char.toLower = ['r', 'e', 'm']

/-- The lexeme is written as `piece` where `after` follows. A comment goes on to the end of its
line, less the carriage returns there. -/
inductive Spells : Lexeme → (piece after : List Char) → Prop where
  | atom {text : String} {after : List Char} : text ≠ "" → text ≠ "_" →
      Spells (.atom text) text.toList after
  | lineEnd {after : List Char} : Spells .lineEnd ['\n'] after
  | colon {after : List Char} : Spells .colon [':'] after
  | literal {text : String} {after : List Char} : '\n' ∉ text.toList →
      Spells (.literal text) ('"' :: doubleQuotes text.toList ++ ['"']) after
  | comment {mark returns rest : List Char} {text : String} : IsCommentMark mark →
      '\n' ∉ text.toList → (∀ c ∈ returns, c = '\r') → (∀ c ∈ rest.head?, c = '\n') →
      Spells (.comment text) (mark ++ text.toList) (returns ++ rest)

/-- The text, which starts on the given line and has `after` behind it, consists of the tokens,
blanks and cancelled line breaks. -/
inductive Written (after : List Char) : Nat → List Char → List Token → Prop where
  | nil {line : Nat} : Written after line [] []
  | blank {line : Nat} {c : Char} {rest : List Char} {tokens : List Token} : IsGapChar c →
      Written after line rest tokens → Written after line (c :: rest) tokens
  | continuation {line : Nat} {gap rest : List Char} {tokens : List Token} : IsGap gap →
      Written after (line + 1) rest tokens →
      Written after line ('_' :: gap ++ '\n' :: rest) tokens
  | token {line : Nat} {lexeme : Lexeme} {piece rest : List Char} {tokens : List Token} :
      Spells lexeme piece (rest ++ after) →
      Written after (line + piece.count '\n') rest tokens →
      Written after line (piece ++ rest) (⟨lexeme, line⟩ :: tokens)

theorem Written.gap {after gap text : List Char} {line : Nat} {tokens : List Token}
    (hgap : IsGap gap) (h : Written after line text tokens) :
    Written after line (gap ++ text) tokens := by
  induction gap with
  | nil => exact h
  | cons c gap ih =>
    exact .blank (hgap c List.mem_cons_self) (ih fun d hd => hgap d (List.mem_cons_of_mem _ hd))

theorem Written.append {after text more : List Char} {line : Nat} {tokens later : List Token}
    (h : Written (more ++ after) line text tokens)
    (hmore : Written after (line + text.count '\n') more later) :
    Written after line (text ++ more) (tokens ++ later) := by
  induction h with
  | nil => exact hmore
  | blank hc _ ih =>
    refine .blank hc (ih ?_)
    rwa [List.count_cons_of_ne hc.2] at hmore
  | @continuation line gap rest tokens hgap _ ih =>
    have hline : line + ('_' :: gap ++ '\n' :: rest).count '\n' = line + 1 + rest.count '\n' := by
      simp [hgap.count_lineEnd]
      omega
    rw [hline] at hmore
    simpa using Written.continuation hgap (ih hmore)
  | @token line lexeme piece rest tokens hspells _ ih =>
    rw [List.count_append, ← Nat.add_assoc] at hmore
    rw [← List.append_assoc] at hspells
    simpa using Written.token hspells (ih hmore)

section Atoms

/-- The raw tokens of code: atoms and statement ends with blanks between them. -/
inductive Broken : Nat → List Char → List Token → Prop where
  | nil {line : Nat} {gap : List Char} : IsGap gap → Broken line gap []
  | cons {line : Nat} {gap piece rest : List Char} {tokens : List Token} : IsGap gap →
      piece ≠ [] → Broken (line + piece.count '\n') rest tokens →
      Broken line (gap ++ (piece ++ rest)) (Token.ofText (String.ofList piece) line :: tokens)

theorem Broken.blank {line : Nat} {c : Char} {text : List Char} {tokens : List Token}
    (hc : IsGapChar c) (h : Broken line text tokens) : Broken line (c :: text) tokens := by
  have hcons : ∀ {gap : List Char}, IsGap gap → IsGap (c :: gap) :=
    fun hgap => List.forall_mem_cons.mpr ⟨hc, hgap⟩
  cases h with
  | nil hgap => exact .nil (hcons hgap)
  | cons hgap hpiece hrest => exact .cons (hcons hgap) hpiece hrest

theorem Broken.piece {line : Nat} {piece rest : List Char} {tokens : List Token}
    (hpiece : piece ≠ []) (h : Broken (line + piece.count '\n') rest tokens) :
    Broken line (piece ++ rest) (Token.ofText (String.ofList piece) line :: tokens) := by
  have hgap : IsGap [] := fun c hc => nomatch hc
  simpa using Broken.cons hgap hpiece h

theorem Broken.gathered {line : Nat} {pending text : List Char} {tokens : List Token}
    (hpending : '\n' ∉ pending) (h : Broken line text tokens) :
    Broken line (pending.reverse ++ text) (gathered pending line ++ tokens) := by
  unfold VbsCompiler.gathered
  by_cases hempty : pending = []
  · subst hempty
    exact h
  · have hline : line + pending.reverse.count '\n' = line := by
      simpa [List.count_eq_zero] using hpending
    rw [if_neg (by simpa using hempty)]
    rw [← hline] at h
    simpa [hline] using Broken.piece (by simpa using hempty) h

theorem beginsHex_head {c : Char} {rest : List Char} (h : beginsHex (c :: rest) = true) :
    c = '&' := by
  unfold beginsHex at h
  split at h
  · rename_i heq
    exact (List.cons.inj heq).1
  · cases h

theorem broken_atomsFrom (afterBlank : Bool) (pending : List Char) (line : Nat)
    (text : List Char) (hpending : '\n' ∉ pending) :
    Broken line (pending.reverse ++ text) (atomsFrom afterBlank pending line text) := by
  induction text generalizing afterBlank pending line with
  | nil =>
    have hnil : Broken line [] [] := .nil fun c hc => nomatch hc
    simpa [atomsFrom] using hnil.gathered hpending
  | cons c rest ih =>
    -- A character that joins the pending ones is not a line break.
    have hpush : c ≠ '\n' → Broken line (pending.reverse ++ c :: rest)
        (atomsFrom false (c :: pending) line rest) := by
      intro hc
      have hnext := ih false (c :: pending) line (by simp [hpending, Ne.symm hc])
      simpa using hnext
    rw [atomsFrom]
    split
    · rename_i hblank
      have hc : IsGapChar c := by simpa [IsGapChar] using hblank
      have hrest := ih true [] line (by simp)
      exact (Broken.blank hc hrest).gathered hpending
    · split
      · rename_i hhex
        exact hpush (by rw [beginsHex_head hhex]; decide)
      · split
        · refine Broken.gathered hpending ?_
          have hrest := ih (isBlank c) [] (if c = '\n' then line + 1 else line) (by simp)
          have hline : (if c = '\n' then line + 1 else line) = line + [c].count '\n' := by
            by_cases hc : c = '\n' <;> simp [hc]
          rw [hline] at hrest ⊢
          exact Broken.piece (by simp) hrest
        · rename_i hbreak
          refine hpush ?_
          rintro rfl
          exact hbreak (by simp [isBreakChar, breakChars])

theorem eq_of_lexeme_ofText {piece : List Char} {line : Nat} {lexeme : Lexeme}
    (h : (Token.ofText (String.ofList piece) line).lexeme = lexeme) :
    piece = lexeme.text.toList := by
  have htext : lexeme.text = String.ofList piece := by
    rw [← h]
    exact Lexeme.text_ofText _
  rw [htext, String.toList_ofList]

theorem spells_ofText {piece after : List Char} (hpiece : piece ≠ [])
    (hmark : Lexeme.ofText (String.ofList piece) ≠ .atom "_") :
    Spells (Lexeme.ofText (String.ofList piece)) piece after := by
  have hchars : (String.ofList piece).toList = piece := String.toList_ofList
  generalize String.ofList piece = text at hchars hmark
  subst hchars
  by_cases hend : text = "\n"
  · subst hend
    exact .lineEnd
  by_cases hcolon : text = ":"
  · subst hcolon
    exact .colon
  have hatom : Lexeme.ofText text = .atom text := by simp [Lexeme.ofText, hend, hcolon]
  rw [hatom] at hmark ⊢
  refine .atom ?_ ?_
  · rintro rfl
    exact hpiece rfl
  · rintro rfl
    exact hmark rfl

theorem written_of_broken {after text : List Char} {line : Nat} {raw tokens : List Token}
    (h : Broken line text raw) (htokens : elideContinuations raw = .ok tokens) :
    Written after line text tokens := by
  fun_induction elideContinuations raw generalizing line text tokens with
  | case1 =>
    cases htokens
    cases h with
    | nil hgap => simpa using Written.nil.gap hgap
  | case2 t hmark next rest hnext ih =>
    -- The mark is one underscore and the next token one line break, with a gap between them.
    cases h with
    | @cons _ gap piece _ _ hgap _ hrest =>
      obtain rfl : piece = ['_'] := eq_of_lexeme_ofText (by simpa [Token.isAtom] using hmark)
      cases hrest with
      | @cons _ gap' piece' after' _ hgap' _ hrest' =>
        obtain rfl : piece' = ['\n'] := eq_of_lexeme_ofText hnext
        have hwritten := (ih hrest' htokens)
        simpa using (Written.continuation hgap' hwritten).gap hgap
  | case3 => cases htokens
  | case4 => cases htokens
  | case5 t rest hmark ih =>
    cases hlater : elideContinuations rest with
    | error e =>
      rw [hlater] at htokens
      cases htokens
    | ok later =>
      rw [hlater] at htokens
      cases htokens
      cases h with
      | cons hgap hpiece hrest =>
        refine Written.gap hgap (.token (spells_ofText hpiece ?_) (ih hrest hlater))
        simpa [Token.isAtom, Token.ofText] using hmark

theorem written_breakCode {after code : List Char} {line : Nat} {tokens : List Token}
    (h : breakCode code line = .ok tokens) : Written after line code tokens :=
  written_of_broken (broken_atomsFrom false [] line code (by simp)) h

end Atoms

section Stretches

open Stretch

theorem tokensOfStretches_cons {s : Stretch} {rest : List Stretch} {tokens : List Token}
    (h : tokensOfStretches (s :: rest) = .ok tokens) :
    ∃ here later, s.tokens = .ok here ∧ tokensOfStretches rest = .ok later ∧
      tokens = here ++ later := by
  rw [tokensOfStretches] at h
  cases hhere : s.tokens with
  | error e =>
    rw [hhere] at h
    cases h
  | ok here =>
    rw [hhere] at h
    cases hlater : tokensOfStretches rest with
    | error e =>
      rw [hlater] at h
      cases h
    | ok later =>
      rw [hlater] at h
      cases h
      exact ⟨here, later, rfl, rfl, rfl⟩

/-- The line on which gathered code starts, or the current one if there is none. -/
def startLine (pending : List Char) (start line : Nat) : Nat :=
  if pending.isEmpty then line else start

theorem written_gatheredCode {pending text : List Char} {start line : Nat}
    {more : List Stretch} {tokens : List Token}
    (hline : startLine pending start line + pending.count '\n' = line)
    (htokens : tokensOfStretches (gatheredCode pending start ++ more) = .ok tokens)
    (hmore : ∀ {later}, tokensOfStretches more = .ok later → Written [] line text later) :
    Written [] (startLine pending start line) (pending.reverse ++ text) tokens := by
  unfold gatheredCode at htokens
  by_cases hempty : pending = []
  · subst hempty
    exact hmore htokens
  · rw [if_neg (by simpa using hempty)] at htokens
    obtain ⟨here, later, hhere, hlater, rfl⟩ := tokensOfStretches_cons htokens
    have hstart : startLine pending start line = start := if_neg (by simpa using hempty)
    rw [hstart] at hline ⊢
    refine (written_breakCode hhere).append ?_
    rw [List.count_reverse, hline]
    exact hmore hlater

theorem doubleQuotes_append (text more : List Char) :
    doubleQuotes (text ++ more) = doubleQuotes text ++ doubleQuotes more := by
  induction text with
  | nil => rfl
  | cons c rest ih =>
    by_cases hc : c = '"' <;> simp [doubleQuotes, hc, ih]

theorem not_mem_doubleQuotes {text : List Char} (h : '\n' ∉ text) : '\n' ∉ doubleQuotes text := by
  induction text with
  | nil => exact h
  | cons c rest ih =>
    obtain ⟨hc, hrest⟩ : '\n' ≠ c ∧ '\n' ∉ rest := by simpa using h
    by_cases hquote : c = '"' <;> simp [doubleQuotes, hquote, ih hrest, hc]

/-- What ends the line of a comment are the carriage returns behind its text. -/
theorem dropReturns_append (text : List Char) :
    ∃ returns, text.reverse = dropReturns text ++ returns ∧ ∀ c ∈ returns, c = '\r' := by
  refine ⟨(text.takeWhile (· == '\r')).reverse, ?_, ?_⟩
  · rw [dropReturns, ← List.reverse_append, List.takeWhile_append_dropWhile]
  · intro c hc
    have hall : (text.takeWhile (· == '\r')).all (· == '\r') = true := List.all_takeWhile
    simpa using List.all_eq_true.mp hall c (List.mem_reverse.mp hc)

theorem isCommentMark_of_beginsRem {before : Option Char} {c : Char} {rest : List Char}
    (h : beginsRem before (c :: rest) = true) :
    ∃ e m rest', rest = e :: m :: rest' ∧ IsCommentMark [c, e, m] := by
  unfold beginsRem at h
  split at h
  · rename_i heq
    obtain ⟨rfl, rfl⟩ := List.cons.inj heq
    simp only [Bool.and_eq_true, Bool.or_eq_true, beq_iff_eq] at h
    obtain ⟨⟨⟨⟨hr, he⟩, hm⟩, -⟩, -⟩ := h
    refine ⟨_, _, _, rfl, .inr ?_⟩
    rcases hr with rfl | rfl <;> rcases he with rfl | rfl <;> rcases hm with rfl | rfl <;> rfl
  · cases h

theorem not_mem_commentMark {mark : List Char} (h : IsCommentMark mark) : '\n' ∉ mark := by
  intro hmem
  rcases h with rfl | hrem
  · simp at hmem
  · have hmap := List.mem_map_of_mem (f := Char.toLower) hmem
    rw [hrem] at hmap
    revert hmap
    decide

theorem written_comment {mark text rest : List Char} {line : Nat} {tokens : List Token}
    (hmark : IsCommentMark mark) (htext : '\n' ∉ text) (hrest : ∀ c ∈ rest.head?, c = '\n')
    (h : Written [] line rest tokens) :
    Written [] line (mark ++ (text.reverse ++ rest))
      (⟨.comment (String.ofList (dropReturns text)), line⟩ :: tokens) := by
  obtain ⟨returns, hreverse, hreturns⟩ := dropReturns_append text
  have hgap : IsGap returns := by
    intro c hc
    rw [hreturns c hc]
    exact ⟨by decide, by decide⟩
  have hcontent : '\n' ∉ dropReturns text := by
    intro hmem
    have hmem' := List.mem_append_left returns hmem
    rw [← hreverse] at hmem'
    exact htext (List.mem_reverse.mp hmem')
  have hpiece : line + (mark ++ dropReturns text).count '\n' = line := by
    simp [List.count_eq_zero.mpr (not_mem_commentMark hmark), List.count_eq_zero.mpr hcontent]
  have hspells : Spells (.comment (String.ofList (dropReturns text)))
      (mark ++ dropReturns text) ((returns ++ rest) ++ []) := by
    have hcontent' : '\n' ∉ (String.ofList (dropReturns text)).toList := by simpa using hcontent
    simpa using Spells.comment hmark hcontent' hreturns hrest
  rw [hreverse, List.append_assoc, ← List.append_assoc]
  refine .token hspells (.gap hgap ?_)
  rwa [hpiece]

theorem written_literal {text rest : List Char} {line : Nat} {tokens : List Token}
    (htext : '\n' ∉ text) (h : Written [] line rest tokens) :
    Written [] line ('"' :: (doubleQuotes text.reverse ++ '"' :: rest))
      (⟨.literal (String.ofList text.reverse), line⟩ :: tokens) := by
  have hreverse : '\n' ∉ text.reverse := by simpa using htext
  have hspells : Spells (.literal (String.ofList text.reverse))
      ('"' :: doubleQuotes text.reverse ++ ['"']) (rest ++ []) := by
    have hcontent : '\n' ∉ (String.ofList text.reverse).toList := by simpa using htext
    simpa using Spells.literal hcontent
  have hline : line + ('"' :: doubleQuotes text.reverse ++ ['"']).count '\n' = line := by
    simp [List.count_eq_zero.mpr (not_mem_doubleQuotes hreverse)]
  rw [← hline] at h
  simpa using Written.token hspells h

def CodeWritten (pending : List Char) (start : Nat) (before : Option Char) (line : Nat)
    (text : List Char) : Prop :=
  startLine pending start line + pending.count '\n' = line →
    ∀ {tokens}, tokensOfStretches (codeFrom pending start before line text) = .ok tokens →
      Written [] (startLine pending start line) (pending.reverse ++ text) tokens

def CommentWritten (skip : Nat) (text : List Char) (line : Nat) (rest : List Char) : Prop :=
  '\n' ∉ text → ∀ {mark tokens}, IsCommentMark mark →
    tokensOfStretches (commentFrom skip text line rest) = .ok tokens →
      Written [] line (mark ++ (text.reverse ++ rest.drop skip)) tokens

def LiteralWritten (text : List Char) (line : Nat) (rest : List Char) : Prop :=
  '\n' ∉ text → ∀ {tokens}, tokensOfStretches (literalFrom text line rest) = .ok tokens →
    Written [] line ('"' :: (doubleQuotes text.reverse ++ rest)) tokens

/-- By the recursion of the scan, with what it holds in each of its three states. -/
theorem codeWritten (pending : List Char) (start : Nat) (before : Option Char) (line : Nat)
    (text : List Char) : CodeWritten pending start before line text := by
  apply codeFrom.induct CodeWritten CommentWritten LiteralWritten
  case case1 =>
    intro pending start before line hline tokens h
    rw [codeFrom, ← List.append_nil (gatheredCode pending start)] at h
    refine written_gatheredCode hline h fun hlater => ?_
    cases hlater
    exact .nil
  case case2 =>
    intro pending start before line rest ih hline tokens h
    rw [codeFrom, if_pos rfl] at h
    exact written_gatheredCode hline h fun hlater => ih (by simp) hlater
  case case3 =>
    intro pending start before line rest hquote ih hline tokens h
    rw [codeFrom, if_neg hquote, if_pos rfl] at h
    exact written_gatheredCode hline h fun hlater => ih (by simp) (.inl rfl) hlater
  case case4 =>
    intro pending start before line c rest hquote hapostrophe hrem ih hline tokens h
    rw [codeFrom, if_neg hquote, if_neg hapostrophe, if_pos hrem] at h
    obtain ⟨e, m, rest', rfl, hmark⟩ := isCommentMark_of_beginsRem hrem
    exact written_gatheredCode hline h fun hlater => ih (by simp) hmark hlater
  case case5 =>
    intro pending start before line c rest hquote hapostrophe hrem ih hline tokens h
    rw [codeFrom, if_neg hquote, if_neg hapostrophe, if_neg hrem] at h
    have hline' : startLine pending start line + (c :: pending).count '\n' =
        if c = '\n' then line + 1 else line := by
      by_cases hc : c = '\n' <;> simp [hc] <;> omega
    have hnext := ih hline' h
    rw [List.reverse_cons, List.append_assoc] at hnext
    exact hnext
  case case6 =>
    intro skip text line htext mark tokens hmark h
    rw [commentFrom] at h
    cases h
    exact written_comment hmark htext (by simp) (by simpa using .nil)
  case case7 =>
    intro text line c rest skip ih htext mark tokens hmark h
    exact ih htext hmark h
  case case8 =>
    intro text line rest ih htext mark tokens hmark h
    obtain ⟨here, later, hhere, hlater, rfl⟩ := tokensOfStretches_cons h
    cases hhere
    exact written_comment hmark htext (by simp) (ih rfl hlater)
  case case9 =>
    intro text line c rest hc ih htext mark tokens hmark h
    rw [commentFrom, if_neg hc] at h
    have hnext := ih (by simp [htext, Ne.symm hc]) hmark h
    simpa using hnext
  case case10 =>
    intro text line htext tokens h
    rw [literalFrom] at h
    cases h
  case case11 =>
    intro text line rest ih htext tokens h
    rw [literalFrom] at h
    have hnext := ih (by simpa using htext) h
    simpa [doubleQuotes_append, doubleQuotes] using hnext
  case case12 =>
    intro text line rest hsingle ih htext tokens h
    rw [literalFrom.eq_3 _ _ _ _ hsingle, if_pos rfl] at h
    obtain ⟨here, later, hhere, hlater, rfl⟩ := tokensOfStretches_cons h
    cases hhere
    exact written_literal htext (ih rfl hlater)
  case case13 =>
    intro text line rest hsingle hquote htext tokens h
    rw [literalFrom.eq_3 _ _ _ _ hsingle, if_neg hquote, if_pos rfl] at h
    cases h
  case case14 =>
    intro text line c rest hsingle hquote hc ih htext tokens h
    rw [literalFrom.eq_3 _ _ _ _ hsingle, if_neg hquote, if_neg hc] at h
    have hnext := ih (by simp [htext, Ne.symm hc]) h
    simpa [doubleQuotes_append, doubleQuotes, hquote] using hnext

theorem written_scan {source : String} {tokens : List Token} (h : scan source = .ok tokens) :
    Written [] 0 source.toList tokens :=
  codeWritten [] 0 none 0 source.toList rfl h

end Stretches

structure Span where
  start : Nat
  stop : Nat

namespace Span

def slice (s : Span) (source : List Char) : List Char :=
  (source.drop s.start).take (s.stop - s.start)

def Covers (s : Span) (i : Nat) : Prop :=
  s.start ≤ i ∧ i < s.stop

/-- The token is written on the span, and its line is the number of line breaks before. -/
structure Holds (source : List Char) (t : Token) (s : Span) : Prop where
  nonempty : s.start < s.stop
  within : s.stop ≤ source.length
  spells : Spells t.lexeme (s.slice source) (source.drop s.stop)
  line : t.line = (source.take s.start).count '\n'

end Span

/-- A continuation mark and the line break it cancels, on no span. -/
structure Elided (source : List Char) (spans : List Span) (first last : Nat) : Prop where
  lt : first < last
  mark : source[first]? = some '_'
  lineEnd : source[last]? = some '\n'
  gap : ∀ i, first < i → i < last → ∃ c, source[i]? = some c ∧ IsGapChar c
  uncovered : ∀ i, first ≤ i → i ≤ last → ∀ s ∈ spans, ¬ s.Covers i

/-- From `offset` on the source is divided into the spans of the tokens and what they skip. -/
structure Divided (source : List Char) (offset : Nat) (tokens : List Token) (spans : List Span) :
    Prop where
  holds : List.Forall₂ (Span.Holds source) tokens spans
  ordered : spans.Pairwise fun a b => a.stop ≤ b.start
  start_le : ∀ s ∈ spans, offset ≤ s.start
  skipped : ∀ i, offset ≤ i → i < source.length → (∀ s ∈ spans, ¬ s.Covers i) →
    (∃ c, source[i]? = some c ∧ IsGapChar c) ∨
      ∃ first last, offset ≤ first ∧ Elided source spans first last ∧ (i = first ∨ i = last)

section Divided

variable {source : List Char} {offset : Nat} {tokens : List Token} {spans : List Span}

theorem divided_nil (h : source.length ≤ offset) : Divided source offset [] [] :=
  ⟨.nil, .nil, by simp, fun i hi hlt => by omega⟩

theorem Divided.blank (h : Divided source (offset + 1) tokens spans) {c : Char}
    (hc : source[offset]? = some c) (hgap : IsGapChar c) : Divided source offset tokens spans := by
  refine ⟨h.holds, h.ordered, fun s hs => Nat.le_of_succ_le (h.start_le s hs), ?_⟩
  intro i hi hlt huncovered
  by_cases heq : i = offset
  · exact .inl ⟨c, by rw [heq, hc], hgap⟩
  · obtain hblank | ⟨first, last, hfirst, helided⟩ := h.skipped i (by omega) hlt huncovered
    · exact .inl hblank
    · exact .inr ⟨first, last, by omega, helided⟩

theorem Divided.continuation {stop : Nat} (h : Divided source (stop + 1) tokens spans)
    (hlt : offset < stop) (hmark : source[offset]? = some '_') (hend : source[stop]? = some '\n')
    (hgap : ∀ i, offset < i → i < stop → ∃ c, source[i]? = some c ∧ IsGapChar c) :
    Divided source offset tokens spans := by
  have helided : Elided source spans offset stop := by
    refine ⟨hlt, hmark, hend, hgap, fun i _ hi s hs hcovers => ?_⟩
    have hstart := h.start_le s hs
    have hbefore := hcovers.1
    omega
  refine ⟨h.holds, h.ordered, fun s hs => ?_, ?_⟩
  · have hstart := h.start_le s hs
    omega
  · intro i hi hbound huncovered
    by_cases hafter : stop < i
    · obtain hblank | ⟨first, last, hfirst, hmore⟩ := h.skipped i (by omega) hbound huncovered
      · exact .inl hblank
      · exact .inr ⟨first, last, by omega, hmore⟩
    · by_cases hinside : offset < i ∧ i < stop
      · exact .inl (hgap i hinside.1 hinside.2)
      · exact .inr ⟨offset, stop, Nat.le_refl _, helided, by omega⟩

theorem Divided.token {t : Token} {s : Span} (h : Divided source s.stop tokens spans)
    (ht : s.Holds source t) : Divided source s.start (t :: tokens) (s :: spans) := by
  have hnonempty := ht.nonempty
  refine ⟨.cons ht h.holds, .cons h.start_le h.ordered, ?_, ?_⟩
  · intro r hr
    rcases List.mem_cons.mp hr with rfl | hr
    · exact Nat.le_refl _
    · have hstart := h.start_le r hr
      omega
  · intro i hi hbound huncovered
    -- A position on no span lies behind the new one, so what was skipped there is skipped still.
    have hstop : s.stop ≤ i := by
      have hs := huncovered s List.mem_cons_self
      unfold Span.Covers at hs
      omega
    have hrest : ∀ r ∈ spans, ¬ r.Covers i := fun r hr => huncovered r (List.mem_cons_of_mem _ hr)
    obtain hblank | ⟨first, last, hfirst, helided, hi'⟩ := h.skipped i hstop hbound hrest
    · exact .inl hblank
    · refine .inr ⟨first, last, by omega, { helided with uncovered := ?_ }, hi'⟩
      intro j hj hj' r hr hcovers
      rcases List.mem_cons.mp hr with rfl | hr
      · have hlt := hcovers.2
        omega
      · exact helided.uncovered j hj hj' r hr hcovers

theorem holds_span (before : List Char) {piece rest : List Char} {lexeme : Lexeme}
    (hpiece : piece ≠ []) (hspells : Spells lexeme piece rest) :
    Span.Holds (before ++ (piece ++ rest)) ⟨lexeme, before.count '\n'⟩
      ⟨before.length, before.length + piece.length⟩ := by
  have hpositive := List.length_pos_iff.mpr hpiece
  refine ⟨by simpa using hpositive, by simp, ?_, by simp⟩
  have hdrop : (before ++ (piece ++ rest)).drop (before.length + piece.length) = rest := by
    simp [← List.append_assoc, ← List.length_append]
  have hslice : Span.slice ⟨before.length, before.length + piece.length⟩
      (before ++ (piece ++ rest)) = piece := by
    simp [Span.slice]
  dsimp only
  rwa [hslice, hdrop]

theorem Spells.ne_nil {lexeme : Lexeme} {piece after : List Char}
    (h : Spells lexeme piece after) : piece ≠ [] := by
  cases h with
  | atom htext _ => simpa using htext
  | lineEnd => simp
  | colon => simp
  | literal _ => simp
  | comment hmark _ _ _ =>
    rcases hmark with rfl | hrem
    · simp
    · rintro hnil
      simp_all

/-- The spans are found by counting characters from the start of the source. -/
theorem Written.divided {line : Nat} {text : List Char} (h : Written [] line text tokens)
    (before : List Char) (hline : before.count '\n' = line) :
    ∃ spans, Divided (before ++ text) before.length tokens spans := by
  induction h generalizing before with
  | nil => exact ⟨[], divided_nil (by simp)⟩
  | @blank line c rest tokens hc _ ih =>
    obtain ⟨spans, hspans⟩ := ih (before ++ [c]) (by simp [hline, hc.2])
    rw [List.append_assoc, List.length_append] at hspans
    exact ⟨spans, hspans.blank (by simp) hc⟩
  | @continuation line gap rest tokens hgap _ ih =>
    obtain ⟨spans, hspans⟩ := ih (before ++ '_' :: gap ++ ['\n'])
      (by simp [hline, hgap.count_lineEnd])
    have hstop : (before ++ '_' :: gap ++ ['\n']).length =
        before.length + (gap.length + 1) + 1 := by
      simp [Nat.add_assoc]
    rw [hstop, List.append_assoc, List.append_assoc] at hspans
    refine ⟨spans, hspans.continuation (by omega) (by simp) ?_ ?_⟩
    · simp
    · intro i hi hi'
      obtain ⟨k, rfl⟩ : ∃ k, i = before.length + (k + 1) := ⟨i - before.length - 1, by omega⟩
      have hk : k < gap.length := by omega
      refine ⟨gap[k], ?_, hgap _ (List.getElem_mem hk)⟩
      rw [List.getElem?_append_right (by omega), Nat.add_sub_cancel_left]
      simp [List.getElem?_append_left hk]
  | @token line lexeme piece rest tokens hspells _ ih =>
    obtain ⟨spans, hspans⟩ := ih (before ++ piece) (by rw [List.count_append, hline])
    rw [List.append_assoc, List.length_append] at hspans
    subst hline
    rw [List.append_nil] at hspells
    have hholds := holds_span before hspells.ne_nil hspells
    exact ⟨_, Divided.token hspans hholds⟩

end Divided

theorem Written.ne_mark {line : Nat} {after text : List Char} {tokens : List Token}
    (h : Written after line text tokens) : ∀ t ∈ tokens, t.lexeme ≠ .atom "_" := by
  induction h with
  | nil => simp
  | blank _ _ ih => exact ih
  | continuation _ _ ih => exact ih
  | token hspells _ ih =>
    refine List.forall_mem_cons.mpr ⟨?_, ih⟩
    rintro rfl
    cases hspells with
    | atom _ hmark => exact hmark rfl

/-- The tokens of a source that can be scanned stand on spans of it, one after the other. Each span
spells its token, and the tokens count the line breaks before their spans. A character on no span
is a blank that is not a line break, or it is a continuation mark or the line break that this one
cancels. No continuation mark is left among the tokens. -/
theorem scan_divides_source {source : String} {tokens : List Token}
    (h : scan source = .ok tokens) :
    (∃ spans, List.Forall₂ (Span.Holds source.toList) tokens spans ∧
      spans.Pairwise (fun a b => a.stop ≤ b.start) ∧
      ∀ i, i < source.toList.length → (∀ s ∈ spans, ¬ s.Covers i) →
        (∃ c, source.toList[i]? = some c ∧ IsGapChar c) ∨
          ∃ first last, Elided source.toList spans first last ∧ (i = first ∨ i = last)) ∧
    ∀ t ∈ tokens, t.lexeme ≠ .atom "_" := by
  have hwritten := written_scan h
  obtain ⟨spans, hspans⟩ := hwritten.divided [] rfl
  refine ⟨⟨spans, hspans.holds, hspans.ordered, fun i hi huncovered => ?_⟩, hwritten.ne_mark⟩
  obtain hblank | ⟨first, last, -, helided⟩ := hspans.skipped i (Nat.zero_le i) hi huncovered
  · exact .inl hblank
  · exact .inr ⟨first, last, helided⟩

theorem scan_divides_source_continued_line :
    let source := "a _ \n = \"\"\"b\" : Rem c\r\n"
    let tokens : List Token := [⟨.atom "a", 0⟩, ⟨.atom "=", 1⟩, ⟨.literal "\"b", 1⟩, ⟨.colon, 1⟩,
      ⟨.comment " c", 1⟩, ⟨.lineEnd, 1⟩]
    scan source = .ok tokens ∧
    (∃ spans, List.Forall₂ (Span.Holds source.toList) tokens spans ∧
      spans.Pairwise (fun a b => a.stop ≤ b.start) ∧
      ∀ i, i < source.toList.length → (∀ s ∈ spans, ¬ s.Covers i) →
        (∃ c, source.toList[i]? = some c ∧ IsGapChar c) ∨
          ∃ first last, Elided source.toList spans first last ∧ (i = first ∨ i = last)) ∧
    ∀ t ∈ tokens, t.lexeme ≠ .atom "_" := by
  intro source tokens
  have hscan : (scan source).toOption = some tokens := by decide +kernel
  have h : scan source = .ok tokens := by
    cases hresult : scan source with
    | error e =>
      rw [hresult] at hscan
      cases hscan
    | ok found =>
      rw [hresult] at hscan
      exact congrArg Except.ok (Option.some.inj hscan)
  exact ⟨h, scan_divides_source h⟩

end VbsCompiler
