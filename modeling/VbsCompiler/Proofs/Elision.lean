import VbsCompiler.Proofs.Lexemes

/-! Continuation marks are dropped in each stretch of code by itself. Between two stretches of code
stands a literal or a comment, which cancels no mark and is none, so that dropping the marks from
the tokens of all stretches together comes to the same. -/

namespace VbsCompiler

open Stretch

section Tokens

theorem elideContinuations_append_of_head {raw more : List Token}
    (hmore : ∀ t ∈ more.head?, t.lexeme ≠ .lineEnd) :
    elideContinuations (raw ++ more) = (do
      let here ← elideContinuations raw
      let later ← elideContinuations more
      return here ++ later) := by
  fun_induction elideContinuations raw with
  | case1 => cases hlater : elideContinuations more <;> simp [hlater] <;> rfl
  | case2 t hmark next rest hnext ih =>
    rw [← ih, List.cons_append, List.cons_append, elideContinuations, if_pos hmark]
    simp [hnext]
  | case3 t hmark next rest hnext =>
    rw [List.cons_append, List.cons_append, elideContinuations, if_pos hmark]
    simp [hnext]
    rfl
  | case4 t hmark =>
    -- what comes next is no line break, be it missing or the head of `more`
    cases more with
    | nil =>
      rw [List.append_nil, elideContinuations.eq_def]
      simp [hmark]
      rfl
    | cons m more =>
      rw [List.singleton_append, elideContinuations, if_pos hmark]
      simp [hmore m rfl]
      rfl
  | case5 t rest hmark ih =>
    rw [List.cons_append, elideContinuations_cons (by simpa using hmark), ih]
    cases elideContinuations rest with
    | error e => rfl
    | ok here => cases elideContinuations more <;> rfl

theorem elideContinuations_error {raw : List Token} {e : ScanError}
    (h : elideContinuations raw = .error e) :
    ∃ t ∈ raw, t.isAtom "_" = true ∧ e = .danglingContinuation (t.line + 1) := by
  fun_induction elideContinuations raw with
  | case1 => cases h
  | case2 t hmark next rest hnext ih =>
    obtain ⟨u, hu, hatom, he⟩ := ih h
    exact ⟨u, by simp [hu], hatom, he⟩
  | case3 t hmark next rest hnext =>
    cases h
    exact ⟨t, List.mem_cons_self, hmark, rfl⟩
  | case4 t hmark =>
    cases h
    exact ⟨t, List.mem_cons_self, hmark, rfl⟩
  | case5 t rest hmark ih =>
    cases hlater : elideContinuations rest with
    | error e' =>
      rw [hlater] at h ih
      cases h
      obtain ⟨u, hu, hatom, he⟩ := ih rfl
      exact ⟨u, List.mem_cons_of_mem _ hu, hatom, he⟩
    | ok later =>
      rw [hlater] at h
      cases h

theorem Numbered.line_le {line stop : Nat} {tokens : List Token} (h : Numbered line tokens stop) :
    line ≤ stop ∧ ∀ t ∈ tokens, t.line ≤ stop := by
  induction h with
  | nil => simp
  | @cons line stop lexeme rest _ ih =>
    have hle : line ≤ stop := by
      have hnext := ih.1
      split at hnext <;> omega
    exact ⟨hle, List.forall_mem_cons.mpr ⟨hle, ih.2⟩⟩

end Tokens

section Stretches

theorem tokensOfStretches_append (stretches more : List Stretch) :
    tokensOfStretches (stretches ++ more) = (do
      let here ← tokensOfStretches stretches
      let later ← tokensOfStretches more
      return here ++ later) := by
  induction stretches with
  | nil => cases hmore : tokensOfStretches more <;> simp [tokensOfStretches, hmore] <;> rfl
  | cons s rest ih =>
    rw [List.cons_append, tokensOfStretches, tokensOfStretches, ih]
    cases s.tokens with
    | error e => rfl
    | ok here =>
      cases tokensOfStretches rest with
      | error e => rfl
      | ok later => cases tokensOfStretches more <;> simp [bind, Except.bind, pure, Except.pure]

theorem head?_marked {rest : List Stretch} (h : ∀ s ∈ rest.head?, s.isCode = false)
    (hclosed : ∀ line, .unclosed line ∉ rest) :
    ∀ t ∈ (rest.flatMap Stretch.marked).head?, t.lexeme ≠ .lineEnd := by
  cases rest with
  | nil => simp
  | cons s rest =>
    cases s with
    | code text line => cases h _ rfl
    | literal text line | comment text line => simp [Stretch.marked]
    | unclosed line => exact absurd List.mem_cons_self (hclosed line)

theorem Stretched.tokens_eq {line : Nat} {stretches : List Stretch} (h : Stretched line stretches)
    (hclosed : ∀ l, .unclosed l ∉ stretches) :
    tokensOfStretches stretches = elideContinuations (stretches.flatMap Stretch.marked) := by
  induction h with
  | nil => rfl
  | @code line text rest _ hhead _ ih =>
    have hrest : ∀ l, .unclosed l ∉ rest := fun l hl => hclosed l (List.mem_cons_of_mem _ hl)
    rw [tokensOfStretches, ih hrest, List.flatMap_cons,
      elideContinuations_append_of_head (head?_marked hhead hrest)]
    rfl
  | @literal line text rest _ _ ih =>
    have hrest : ∀ l, .unclosed l ∉ rest := fun l hl => hclosed l (List.mem_cons_of_mem _ hl)
    rw [tokensOfStretches, ih hrest, List.flatMap_cons,
      elideContinuations_append (by simp [Stretch.marked, Token.isAtom])]
    cases elideContinuations (rest.flatMap Stretch.marked) <;> rfl
  | @comment line text rest _ _ _ _ ih =>
    have hrest : ∀ l, .unclosed l ∉ rest := fun l hl => hclosed l (List.mem_cons_of_mem _ hl)
    rw [tokensOfStretches, ih hrest, List.flatMap_cons,
      elideContinuations_append (by simp [Stretch.marked, Token.isAtom])]
    cases elideContinuations (rest.flatMap Stretch.marked) <;> rfl
  | @unclosed line => exact absurd List.mem_cons_self (hclosed line)

/-- What is left open is the last stretch. -/
theorem Stretched.split_unclosed {line last : Nat} {stretches : List Stretch}
    (h : Stretched line stretches) (hlast : .unclosed last ∈ stretches) :
    ∃ before, stretches = before ++ [.unclosed last] ∧ (∀ l, .unclosed l ∉ before) ∧
      Stretched line before := by
  induction h with
  | nil => cases hlast
  | @code line text rest htext hhead _ ih =>
    obtain ⟨before, rfl, hclosed, hbefore⟩ := ih (by simpa using hlast)
    refine ⟨.code text line :: before, rfl, by simpa using hclosed, .code htext ?_ hbefore⟩
    cases before with
    | nil => simp
    | cons s before => simpa using hhead
  | @literal line text rest htext _ ih =>
    obtain ⟨before, rfl, hclosed, hbefore⟩ := ih (by simpa using hlast)
    exact ⟨.literal text line :: before, rfl, by simpa using hclosed, .literal htext hbefore⟩
  | @comment line text rest htext hreturns hnext _ ih =>
    obtain ⟨before, rfl, hclosed, hbefore⟩ := ih (by simpa using hlast)
    refine ⟨.comment text line :: before, rfl, by simpa using hclosed,
      .comment htext hreturns ?_ hbefore⟩
    cases before with
    | nil => simp
    | cons s before => simpa using hnext
  | @unclosed line =>
    obtain rfl : last = line := by simpa using hlast
    exact ⟨[], rfl, by simp, .nil⟩

end Stretches

section Unclosed

/-- The content of a literal, written with its quotes doubled, goes on to the end of the line. -/
def RunsOn (text : List Char) : Prop :=
  ∃ content after, text = doubleQuotes content ++ after ∧ '\n' ∉ content ∧
    ∀ c ∈ after.head?, c = '\n'

/-- A quote of the text, which starts on line `first`, opens a literal on the given line that runs
on to the end of the line. -/
def LeavesOpen (first : Nat) (text : List Char) (line : Nat) : Prop :=
  ∃ before rest, text = before ++ '"' :: rest ∧ RunsOn rest ∧ line = first + before.count '\n'

theorem LeavesOpen.cons {first line : Nat} {c : Char} {text : List Char}
    (h : LeavesOpen (if c = '\n' then first + 1 else first) text line) :
    LeavesOpen first (c :: text) line := by
  obtain ⟨before, rest, rfl, hrest, rfl⟩ := h
  refine ⟨c :: before, rest, rfl, hrest, ?_⟩
  by_cases hc : c = '\n'
  · rw [if_pos hc, hc, List.count_cons_self]
    omega
  · rw [if_neg hc, List.count_cons_of_ne hc]

theorem LeavesOpen.sameLine {first line : Nat} {c : Char} {text : List Char} (hc : c ≠ '\n')
    (h : LeavesOpen first text line) : LeavesOpen first (c :: text) line :=
  .cons (by rwa [if_neg hc])

theorem not_mem_gatheredCode (pending : List Char) (start line : Nat) :
    .unclosed line ∉ gatheredCode pending start := by
  unfold gatheredCode
  split <;> simp

theorem RunsOn.push {c : Char} {text : List Char} (hc : c ≠ '\n') (hquote : c ≠ '"')
    (h : RunsOn text) : RunsOn (c :: text) := by
  obtain ⟨content, after, rfl, hcontent, hafter⟩ := h
  exact ⟨c :: content, after, by simp [doubleQuotes, hquote], by simp [hcontent, Ne.symm hc],
    hafter⟩

theorem RunsOn.pushQuote {text : List Char} (h : RunsOn text) : RunsOn ('"' :: '"' :: text) := by
  obtain ⟨content, after, rfl, hcontent, hafter⟩ := h
  exact ⟨'"' :: content, after, by simp [doubleQuotes], by simpa using hcontent, hafter⟩

/-- A literal that the scan finds open is open in the text. -/
theorem leavesOpen_of_mem_codeFrom (pending : List Char) (start : Nat) (before : Option Char)
    (line : Nat) (text : List Char) {last : Nat}
    (hlast : .unclosed last ∈ codeFrom pending start before line text) :
    LeavesOpen line text last := by
  revert hlast
  apply codeFrom.induct
    (fun pending start before line text =>
      .unclosed last ∈ codeFrom pending start before line text → LeavesOpen line text last)
    (fun skip text line rest => '\n' ∉ rest.take skip →
      .unclosed last ∈ commentFrom skip text line rest → LeavesOpen line rest last)
    (fun text line rest => .unclosed last ∈ literalFrom text line rest →
      last = line ∧ RunsOn rest ∨ LeavesOpen line rest last)
  case case1 =>
    intro pending start before line hlast
    exact absurd hlast (not_mem_gatheredCode pending start last)
  case case2 =>
    intro pending start before line rest ih hlast
    rw [codeFrom, if_pos rfl, List.mem_append] at hlast
    rcases ih (hlast.resolve_left (not_mem_gatheredCode _ _ _)) with ⟨rfl, hrest⟩ | hrest
    · exact ⟨[], rest, rfl, hrest, by simp⟩
    · exact hrest.sameLine (by decide)
  case case3 =>
    intro pending start before line rest hquote ih hlast
    rw [codeFrom, if_neg hquote, if_pos rfl, List.mem_append] at hlast
    exact (ih (by simp) (hlast.resolve_left (not_mem_gatheredCode _ _ _))).sameLine (by decide)
  case case4 =>
    intro pending start before line c rest hquote hapostrophe hrem ih hlast
    rw [codeFrom, if_neg hquote, if_neg hapostrophe, if_pos hrem, List.mem_append] at hlast
    obtain ⟨e, m, rest, rfl, hmark⟩ := isCommentMark_of_beginsRem hrem
    have hline := not_mem_commentMark hmark
    simp only [List.mem_cons, not_or, List.not_mem_nil, not_false_eq_true, and_true] at hline
    refine (ih (by simp [hline]) (hlast.resolve_left (not_mem_gatheredCode _ _ _))).sameLine ?_
    exact Ne.symm hline.1
  case case5 =>
    intro pending start before line c rest hquote hapostrophe hrem ih hlast
    rw [codeFrom, if_neg hquote, if_neg hapostrophe, if_neg hrem] at hlast
    exact (ih hlast).cons
  case case6 =>
    intro skip text line _ hlast
    simp [commentFrom] at hlast
  case case7 =>
    intro text line c rest skip ih htake hlast
    obtain ⟨hc, hrest⟩ : '\n' ≠ c ∧ '\n' ∉ rest.take skip := by simpa using htake
    exact (ih hrest hlast).sameLine (Ne.symm hc)
  case case8 =>
    intro text line rest ih _ hlast
    rw [commentFrom, if_pos rfl] at hlast
    exact .cons (ih (by simpa using hlast))
  case case9 =>
    intro text line c rest hc ih _ hlast
    rw [commentFrom, if_neg hc] at hlast
    exact (ih (by simp) hlast).sameLine hc
  case case10 =>
    intro text line hlast
    obtain rfl : last = line := by simpa [literalFrom] using hlast
    exact .inl ⟨rfl, [], [], rfl, by simp, by simp⟩
  case case11 =>
    intro text line rest ih hlast
    rw [literalFrom] at hlast
    rcases ih hlast with ⟨rfl, hrest⟩ | hrest
    · exact .inl ⟨rfl, hrest.pushQuote⟩
    · exact .inr ((hrest.sameLine (by decide)).sameLine (by decide))
  case case12 =>
    intro text line rest hsingle ih hlast
    rw [literalFrom.eq_3 _ _ _ _ hsingle, if_pos rfl] at hlast
    exact .inr ((ih (by simpa using hlast)).sameLine (by decide))
  case case13 =>
    intro text line rest hsingle hquote hlast
    rw [literalFrom.eq_3 _ _ _ _ hsingle, if_neg hquote, if_pos rfl] at hlast
    obtain rfl : last = line := by simpa using hlast
    exact .inl ⟨rfl, [], '\n' :: rest, rfl, by simp, by simp⟩
  case case14 =>
    intro text line c rest hsingle hquote hc ih hlast
    rw [literalFrom.eq_3 _ _ _ _ hsingle, if_neg hquote, if_neg hc] at hlast
    rcases ih hlast with ⟨rfl, hrest⟩ | hrest
    · exact .inl ⟨rfl, hrest.push hc hquote⟩
    · exact .inr (hrest.sameLine hc)

end Unclosed

/-- Where a literal is left open on the given line, the scan fails: the tokens before it either lose
their continuation marks, and the literal is at fault, or a mark among them has no line break. -/
def FailsBefore (source : String) (line : Nat) : Prop :=
  ((∃ tokens, elideContinuations (markedTokens source) = .ok tokens) ∧
    scan source = .error (.unclosedLiteral (line + 1))) ∨
  ∃ mark ∈ markedTokens source, mark.isAtom "_" = true ∧ mark.line ≤ line ∧
    elideContinuations (markedTokens source) = .error (.danglingContinuation (mark.line + 1)) ∧
    scan source = .error (.danglingContinuation (mark.line + 1))

theorem failsBefore_unclosed {source : String} {line : Nat}
    (h : .unclosed line ∈ Stretch.ofSource source.toList) : FailsBefore source line := by
  have hstretched : Stretched 0 (Stretch.ofSource source.toList) :=
    stretched_codeFrom [] 0 none 0 source.toList rfl (by simp)
  obtain ⟨stop, hnumbered, hstop⟩ := hstretched.numbered_unclosed
  obtain rfl := hstop line h
  obtain ⟨before, hsplit, hclosed, hbefore⟩ := hstretched.split_unclosed h
  have hmarked : markedTokens source = before.flatMap Stretch.marked := by
    simp [markedTokens, hsplit, Stretch.marked]
  have hscan : scan source = (do
      let here ← elideContinuations (markedTokens source)
      let later ← tokensOfStretches [.unclosed line]
      return here ++ later) := by
    rw [scan, hsplit, tokensOfStretches_append, hbefore.tokens_eq hclosed, hmarked]
  cases helided : elideContinuations (markedTokens source) with
  | ok tokens =>
    rw [helided] at hscan
    exact .inl ⟨⟨tokens, helided⟩, hscan⟩
  | error e =>
    obtain ⟨mark, hmem, hatom, rfl⟩ := elideContinuations_error helided
    rw [helided] at hscan
    exact .inr ⟨mark, hmem, hatom, hnumbered.line_le.2 mark hmem, helided, hscan⟩

/-- Scanning drops the continuation marks of the source as if all its tokens were one run, with the
same tokens and the same error. A literal that is left open fails the scan on its line, unless a
mark before it does. -/
theorem scan_elides_marked_tokens (source : String) :
    ((∀ line, .unclosed line ∉ Stretch.ofSource source.toList) →
      scan source = elideContinuations (markedTokens source)) ∧
    ∀ line, .unclosed line ∈ Stretch.ofSource source.toList →
      LeavesOpen 0 source.toList line ∧ FailsBefore source line := by
  refine ⟨fun hclosed => ?_, fun line hline => ⟨?_, failsBefore_unclosed hline⟩⟩
  · have hstretched : Stretched 0 (Stretch.ofSource source.toList) :=
      stretched_codeFrom [] 0 none 0 source.toList rfl (by simp)
    exact hstretched.tokens_eq hclosed
  · exact leavesOpen_of_mem_codeFrom [] 0 none 0 source.toList hline

theorem scan_elides_marked_tokens_around_literals :
    let closed := "x = \"a\" & _\n\"b\" ' _\n"
    let opened := "x = \"a\" _\n\"b"
    scan closed = elideContinuations (markedTokens closed) ∧
      LeavesOpen 0 opened.toList 1 ∧ FailsBefore opened 1 := by
  intro closed opened
  have hclosed : ∀ line, .unclosed line ∉ Stretch.ofSource closed.toList := by
    have hall : (Stretch.ofSource closed.toList).all
        (fun s => match s with | .unclosed _ => false | _ => true) = true := by decide +kernel
    intro line hline
    have hfalse := List.all_eq_true.mp hall _ hline
    cases hfalse
  have hopened : .unclosed 1 ∈ Stretch.ofSource opened.toList := by decide +kernel
  exact ⟨(scan_elides_marked_tokens closed).1 hclosed,
    (scan_elides_marked_tokens opened).2 1 hopened⟩

end VbsCompiler
