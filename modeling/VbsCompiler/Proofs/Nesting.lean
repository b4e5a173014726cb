import VbsCompiler.Proofs.Inversion

/-! Braces and indentation of emitted code. A counter that goes up after each opening brace and
down before each line with a closing one is never negative and ends where it started, and a line is
indented by the counter, except for the statement under a flag check. -/

namespace VbsCompiler

open CompileM

def Unclosing (text : String) : Prop :=
  text.toList.head? ≠ some '\x7d'

namespace Line

def opens (l : Line) : Bool :=
  l.content = "\x7b"

def closes (l : Line) : Bool :=
  l.content.toList.head? = some '\x7d'

def checks (l : Line) : Bool :=
  "if (".toList.isPrefixOf l.content.toList && l.content.toList.getLast? = some ')'

def delta (l : Line) : Int :=
  if l.opens then 1 else if l.closes then -1 else 0

structure Plain (l : Line) : Prop where
  opens : l.opens = false
  closes : l.closes = false
  checks : l.checks = false

end Line

/-- What the lines leave the counter at. -/
def netBraces : List Line → Int
  | [] => 0
  | l :: lines => l.delta + netBraces lines

/-- The counter at a line behind these lines. -/
def counterAt (before : List Line) (l : Line) : Int :=
  netBraces before - if l.closes then 1 else 0

def afterCheck (before : List Line) : Bool :=
  before.getLast?.any Line.checks

/-- The lines close what they open, and are indented by the counter from `depth` on. -/
structure Nested (depth : Nat) (lines : List Line) : Prop where
  settled : netBraces lines = 0
  nonneg : ∀ part, part <+: lines → 0 ≤ netBraces part
  indented : ∀ before l after, lines = before ++ l :: after →
    (l.depth : Int) = depth + counterAt before l + if afterCheck before then 1 else 0
  /-- A flag check has one statement under it. -/
  checked : ∀ before l after, lines = before ++ l :: after → l.checks = true →
    ∃ rest, after = ⟨"break;", l.depth + 1, none⟩ :: rest
  /-- What stands between a closing line and its opening line is closed in itself. -/
  matched : ∀ before l after, lines = before ++ l :: after → l.closes = true →
    ∃ outer o inner, before = outer ++ o :: inner ∧ o.opens = true ∧ o.depth = l.depth ∧
      netBraces inner = 0 ∧ ∀ part, part <+: inner → 0 ≤ netBraces part

section Plain

variable {l : Line}

/-- Braces are no letters, and a check starts with the excluded one. -/
theorem Line.plain_of_letter {c : Char} (h : l.content.toList.head? = some c)
    (hletter : c.isAlpha = true ∧ c ≠ 'i') : l.Plain := by
  refine ⟨?_, ?_, ?_⟩
  · simp only [Line.opens, decide_eq_false_iff_not]
    intro hcontent
    rw [hcontent] at h
    obtain rfl : '\x7b' = c := Option.some.inj h
    exact absurd hletter.1 (by decide)
  · simp only [Line.closes, h, decide_eq_false_iff_not, Option.some.injEq]
    rintro rfl
    exact absurd hletter.1 (by decide)
  · cases hchecks : l.checks with
    | false => rfl
    | true =>
      simp only [Line.checks, Bool.and_eq_true, List.isPrefixOf_iff_prefix] at hchecks
      obtain ⟨rest, hrest⟩ := hchecks.1
      rw [← hrest] at h
      exact absurd (Option.some.inj h).symm hletter.2

/-- A statement with its semicolon is a plain line, unless it starts with a closing brace. -/
theorem Line.plain_of_statement (h : Unclosing l.content)
    (hend : l.content.toList.getLast? = some ';') : l.Plain := by
  refine ⟨?_, ?_, ?_⟩
  · simp only [Line.opens, decide_eq_false_iff_not]
    intro hcontent
    rw [hcontent] at hend
    cases hend
  · simpa [Line.closes, Unclosing] using h
  · simp [Line.checks, hend]

theorem toString_text (text : String) : toString text = text := rfl

theorem getLast?_text_append {text : String} {c : Char} (h : text.toList.getLast? = some c)
    (before : String) : (before ++ text).toList.getLast? = some c := by
  rw [String.toList_append, List.getLast?_append, h]
  rfl

theorem Unclosing.append {text more : String} {c : Char} (h : Unclosing text)
    (hmore : more.toList.head? = some c) (hc : c ≠ '\x7d') : Unclosing (text ++ more) := by
  unfold Unclosing at h ⊢
  rw [String.toList_append, List.head?_append]
  cases htext : text.toList.head? with
  | none => simpa [hmore] using hc
  | some d =>
    rw [htext] at h
    exact h

end Plain

section Nested

variable {depth : Nat} {lines more : List Line}

@[simp] theorem netBraces_nil : netBraces [] = 0 := rfl

@[simp] theorem netBraces_cons (l : Line) (lines : List Line) :
    netBraces (l :: lines) = l.delta + netBraces lines :=
  rfl

@[simp] theorem netBraces_append (lines more : List Line) :
    netBraces (lines ++ more) = netBraces lines + netBraces more := by
  induction lines with
  | nil => simp
  | cons l lines ih => simp [ih, Int.add_assoc]

@[simp] theorem Line.Plain.delta {l : Line} (h : l.Plain) : l.delta = 0 := by
  simp [Line.delta, h.opens, h.closes]

theorem Line.closes_of_opens {l : Line} (h : l.opens = true) : l.closes = false := by
  have hcontent : l.content = "\x7b" := by simpa [Line.opens] using h
  rw [Line.closes, hcontent]
  decide

theorem Line.opens_of_closes {l : Line} (h : l.closes = true) : l.opens = false := by
  cases hopens : l.opens with
  | false => rfl
  | true =>
    rw [Line.closes_of_opens hopens] at h
    cases h

theorem Line.delta_of_opens {l : Line} (h : l.opens = true) : l.delta = 1 := by
  simp [Line.delta, h]

theorem Line.delta_of_closes {l : Line} (h : l.closes = true) : l.delta = -1 := by
  simp [Line.delta, h, Line.opens_of_closes h]

theorem Line.checks_of_opens {l : Line} (h : l.opens = true) : l.checks = false := by
  have hcontent : l.content = "\x7b" := by simpa [Line.opens] using h
  rw [Line.checks, hcontent]
  decide

theorem Line.checks_of_closes {l : Line} (h : l.closes = true) : l.checks = false := by
  cases hchecks : l.checks with
  | false => rfl
  | true =>
    simp only [Line.checks, Bool.and_eq_true, List.isPrefixOf_iff_prefix] at hchecks
    obtain ⟨rest, hrest⟩ := hchecks.1
    simp [Line.closes, ← hrest] at h

theorem append_eq_split {lines more before after : List Line} {l : Line}
    (h : lines ++ more = before ++ l :: after) :
    (∃ rest, lines = before ++ l :: rest ∧ after = rest ++ more) ∨
      ∃ skipped, before = lines ++ skipped ∧ more = skipped ++ l :: after := by
  rcases List.append_eq_append_iff.mp h with ⟨skipped, hbefore, hmore⟩ | ⟨rest, hlines, hafter⟩
  · exact .inr ⟨skipped, hbefore, hmore⟩
  · cases rest with
    | nil => exact .inr ⟨[], by simpa using hlines.symm, by simpa using hafter.symm⟩
    | cons c rest =>
      obtain ⟨rfl, hrest⟩ := List.cons.inj hafter
      exact .inl ⟨rest, hlines, hrest⟩

theorem prefix_of_append {part : List Line} (h : part <+: lines ++ more) :
    part <+: lines ∨ ∃ rest, part = lines ++ rest ∧ rest <+: more := by
  rcases List.prefix_or_prefix_of_prefix h (List.prefix_append lines more) with hpart | ⟨rest, rfl⟩
  · exact .inl hpart
  · exact .inr ⟨rest, rfl, (List.prefix_append_right_inj lines).mp h⟩

theorem singleton_eq_split {a l : Line} {before after : List Line}
    (h : [a] = before ++ l :: after) : before = [] ∧ a = l ∧ after = [] := by
  cases before with
  | nil => simpa using h
  | cons c before => simp at h

/-- A line of a block is its first, stands in its body or is its last. -/
theorem block_eq_split {body before after : List Line} {o c l : Line}
    (h : o :: (body ++ [c]) = before ++ l :: after) :
    (before = [] ∧ l = o) ∨
      (∃ inside rest, before = o :: inside ∧ body = inside ++ l :: rest ∧ after = rest ++ [c]) ∨
      (before = o :: body ∧ l = c ∧ after = []) := by
  cases before with
  | nil => exact .inl ⟨rfl, (List.cons.inj h).1.symm⟩
  | cons b before =>
    obtain ⟨rfl, hrest⟩ := List.cons.inj h
    rcases append_eq_split hrest with ⟨rest, hbody, hafter⟩ | ⟨skipped, rfl, hskipped⟩
    · exact .inr (.inl ⟨before, rest, rfl, hbody, hafter⟩)
    · obtain ⟨rfl, rfl, rfl⟩ := singleton_eq_split hskipped
      exact .inr (.inr ⟨by simp, rfl, rfl⟩)

theorem Nested.not_afterCheck (h : Nested depth lines) : afterCheck lines = false := by
  cases hlast : lines.getLast? with
  | none => simp [afterCheck, hlast]
  | some l =>
    obtain ⟨before, rfl⟩ := List.getLast?_eq_some_iff.mp hlast
    cases hchecks : l.checks with
    | false => simp [afterCheck, hchecks]
    | true =>
      obtain ⟨rest, hrest⟩ := h.checked before l [] rfl hchecks
      cases hrest

theorem afterCheck_append (h : afterCheck lines = false) (more : List Line) :
    afterCheck (lines ++ more) = afterCheck more := by
  cases hlast : more.getLast? with
  | none =>
    obtain rfl := List.getLast?_eq_none_iff.mp hlast
    simpa [afterCheck] using h
  | some l => simp [afterCheck, List.getLast?_append, hlast]

theorem nested_nil : Nested depth [] := by
  refine ⟨rfl, ?_, ?_, ?_, ?_⟩
  · intro part hpart
    rw [List.prefix_nil.mp hpart]
    simp
  all_goals
    intro before l after hsplit
    simp at hsplit

theorem Nested.append (h : Nested depth lines) (hmore : Nested depth more) :
    Nested depth (lines ++ more) := by
  refine ⟨?_, ?_, ?_, ?_, ?_⟩
  · rw [netBraces_append, h.settled, hmore.settled, Int.add_zero]
  · intro part hpart
    rcases prefix_of_append hpart with hpart | ⟨rest, rfl, hrest⟩
    · exact h.nonneg part hpart
    · have hnonneg := hmore.nonneg rest hrest
      rwa [netBraces_append, h.settled, Int.zero_add]
  · intro before l after hsplit
    rcases append_eq_split hsplit with ⟨rest, hlines, -⟩ | ⟨skipped, rfl, hskipped⟩
    · exact h.indented before l rest hlines
    · have hindented := hmore.indented skipped l after hskipped
      rw [afterCheck_append h.not_afterCheck]
      simp only [counterAt, netBraces_append, h.settled, Int.zero_add] at hindented ⊢
      exact hindented
  · intro before l after hsplit hchecks
    rcases append_eq_split hsplit with ⟨rest, hlines, rfl⟩ | ⟨skipped, rfl, hskipped⟩
    · obtain ⟨rest', rfl⟩ := h.checked before l rest hlines hchecks
      exact ⟨rest' ++ more, rfl⟩
    · exact hmore.checked skipped l after hskipped hchecks
  · intro before l after hsplit hcloses
    rcases append_eq_split hsplit with ⟨rest, hlines, -⟩ | ⟨skipped, rfl, hskipped⟩
    · exact h.matched before l rest hlines hcloses
    · obtain ⟨outer, o, inner, rfl, ho⟩ := hmore.matched skipped l after hskipped hcloses
      exact ⟨lines ++ outer, o, inner, by simp, ho⟩

theorem nested_line {l : Line} (hl : l.Plain) (hdepth : l.depth = depth) : Nested depth [l] := by
  have hsplit : ∀ {before after : List Line} {c : Line}, [l] = before ++ c :: after →
      before = [] ∧ c = l :=
    fun h => ⟨(singleton_eq_split h).1, (singleton_eq_split h).2.1.symm⟩
  refine ⟨by simp [hl], ?_, ?_, ?_, ?_⟩
  · intro part hpart
    rcases List.prefix_cons_iff.mp hpart with rfl | ⟨rest, rfl, hrest⟩
    · simp
    · simp [List.prefix_nil.mp hrest, hl]
  · intro before c after h
    obtain ⟨rfl, rfl⟩ := hsplit h
    simp [counterAt, afterCheck, hl.closes, hdepth]
  · intro before c after h hchecks
    obtain ⟨rfl, rfl⟩ := hsplit h
    rw [hl.checks] at hchecks
    cases hchecks
  · intro before c after h hcloses
    obtain ⟨rfl, rfl⟩ := hsplit h
    rw [hl.closes] at hcloses
    cases hcloses

theorem nested_lines {ls : List Line} (h : ∀ l ∈ ls, l.Plain ∧ l.depth = depth) :
    Nested depth ls := by
  induction ls with
  | nil => exact nested_nil
  | cons l rest ih =>
    have hrest := ih fun c hc => h c (List.mem_cons_of_mem _ hc)
    obtain ⟨hplain, hdepth⟩ := h l List.mem_cons_self
    exact (nested_line hplain hdepth).append hrest

section Block

variable {body : List Line} (h : Nested (depth + 1) body) {o c : Line} (ho : o.opens = true)
  (hc : c.closes = true)
include h ho

theorem Nested.block_nonneg (hδc : c.delta = -1) {part : List Line}
    (hpart : part <+: o :: (body ++ [c])) : 0 ≤ netBraces part := by
  have hδo := Line.delta_of_opens ho
  rcases List.prefix_cons_iff.mp hpart with rfl | ⟨inside, rfl, hinside⟩
  · simp
  · rw [netBraces_cons, hδo]
    rcases prefix_of_append hinside with hbody | ⟨rest, rfl, hrest⟩
    · have hnonneg := h.nonneg inside hbody
      omega
    · rw [netBraces_append, h.settled]
      rcases List.prefix_cons_iff.mp hrest with rfl | ⟨beyond, rfl, hbeyond⟩
      · simp
      · simp [List.prefix_nil.mp hbeyond, hδc]

include hc

/-- The lines one level deeper, between braces. -/
theorem Nested.block (hdo : o.depth = depth) (hdc : c.depth = depth) :
    Nested depth (o :: (body ++ [c])) := by
  have hocloses := Line.closes_of_opens ho
  have hδo := Line.delta_of_opens ho
  have hδc := Line.delta_of_closes hc
  have hochecks := Line.checks_of_opens ho
  have hcchecks := Line.checks_of_closes hc
  have hbefore : afterCheck [o] = false := by simp [afterCheck, hochecks]
  refine ⟨?_, ?_, ?_, ?_, ?_⟩
  · simp [h.settled, hδo, hδc]
  · exact fun part hpart => h.block_nonneg ho hδc hpart
  · intro before l after hl
    obtain ⟨rfl, rfl⟩ | ⟨inside, rest, rfl, hbody, -⟩ | ⟨rfl, rfl, -⟩ := block_eq_split hl
    · simp [counterAt, afterCheck, hocloses, hdo]
    · have hindented := h.indented inside l rest hbody
      have hcheck := afterCheck_append hbefore inside
      rw [List.singleton_append] at hcheck
      rw [hcheck]
      simp only [counterAt, netBraces_cons, hδo] at hindented ⊢
      push_cast at hindented
      omega
    · have hcheck := afterCheck_append hbefore body
      rw [List.singleton_append, h.not_afterCheck] at hcheck
      simp [counterAt, hcheck, hc, hδo, h.settled, hdc]
  · intro before l after hl hchecks
    obtain ⟨rfl, rfl⟩ | ⟨inside, rest, rfl, hbody, rfl⟩ | ⟨rfl, rfl, -⟩ := block_eq_split hl
    · rw [hochecks] at hchecks
      cases hchecks
    · obtain ⟨rest', rfl⟩ := h.checked inside l rest hbody hchecks
      exact ⟨rest' ++ [c], rfl⟩
    · rw [hcchecks] at hchecks
      cases hchecks
  · intro before l after hl hcloses
    obtain ⟨rfl, rfl⟩ | ⟨inside, rest, rfl, hbody, -⟩ | ⟨rfl, rfl, -⟩ := block_eq_split hl
    · rw [hocloses] at hcloses
      cases hcloses
    · obtain ⟨outer, o', inner, rfl, hmatch⟩ := h.matched inside l rest hbody hcloses
      exact ⟨o :: outer, o', inner, rfl, hmatch⟩
    · exact ⟨[], o, body, rfl, ho, hdo.trans hdc.symm, h.settled, h.nonneg⟩

end Block

/-- A flag check and the statement under it. -/
theorem nested_check {l : Line} (hcheck : l.checks = true) (hcloses : l.closes = false)
    (hopens : l.opens = false) (hdepth : l.depth = depth) :
    Nested depth [l, ⟨"break;", depth + 1, none⟩] := by
  have hδ : l.delta = 0 := by simp [Line.delta, hopens, hcloses]
  have hleave : Line.Plain ⟨"break;", depth + 1, none⟩ :=
    Line.plain_of_letter (c := 'b') (by simp) (by decide)
  have hsplit : ∀ {before after : List Line} {c : Line},
      [l, ⟨"break;", depth + 1, none⟩] = before ++ c :: after →
        (before = [] ∧ c = l ∧ after = [⟨"break;", depth + 1, none⟩]) ∨
        (before = [l] ∧ c = ⟨"break;", depth + 1, none⟩ ∧ after = []) := by
    intro before after c h
    cases before with
    | nil =>
      obtain ⟨rfl, rfl⟩ := List.cons.inj h
      exact .inl ⟨rfl, rfl, rfl⟩
    | cons b before =>
      obtain ⟨rfl, hrest⟩ := List.cons.inj h
      obtain ⟨rfl, rfl, rfl⟩ := singleton_eq_split hrest
      exact .inr ⟨rfl, rfl, rfl⟩
  refine ⟨by simp [hδ, hleave], ?_, ?_, ?_, ?_⟩
  · intro part hpart
    rcases List.prefix_cons_iff.mp hpart with rfl | ⟨rest, rfl, hrest⟩
    · simp
    · rcases List.prefix_cons_iff.mp hrest with rfl | ⟨beyond, rfl, hbeyond⟩
      · simp [hδ]
      · simp [List.prefix_nil.mp hbeyond, hδ, hleave]
  · intro before c after h
    obtain ⟨rfl, rfl, -⟩ | ⟨rfl, rfl, -⟩ := hsplit h
    · simp [counterAt, afterCheck, hcloses, hdepth]
    · simp [counterAt, afterCheck, hleave.closes, hδ, hcheck]
  · intro before c after h hchecks
    obtain ⟨rfl, rfl, rfl⟩ | ⟨rfl, rfl, -⟩ := hsplit h
    · exact ⟨[], by rw [hdepth]⟩
    · cases hleave.checks.symm.trans hchecks
  · intro before c after h hcloses'
    obtain ⟨rfl, rfl, -⟩ | ⟨rfl, rfl, -⟩ := hsplit h
    · cases hcloses.symm.trans hcloses'
    · cases hleave.closes.symm.trans hcloses'

end Nested

namespace Operation

/-- Only what an operation starts with can bring a closing brace to the front. -/
def Led : Operation → Prop
  | .perform body => Unclosing body.text
  | .assign target _ => Unclosing target.text
  | .newArray target _ => ∀ t ∈ target, Unclosing t.text
  | .resizeArray target _ => Unclosing target.text
  | .rejectAssignment _ => True

theorem Led.text {o : Operation} (h : o.Led) {support : Ident}
    (hsupport : Unclosing support.text) :
    Unclosing (o.text support) ∧ (o.text support).toList.getLast? = some ';' := by
  constructor
  · cases o with
    | perform body => exact Unclosing.append h (c := ';') (by decide) (by decide)
    | assign target value =>
      simp only [Operation.text, toString_text, String.append_assoc]
      exact Unclosing.append h (c := ' ') (by simp) (by decide)
    | newArray target bounds =>
      cases target with
      | none =>
        simp only [Operation.text, toString_text, String.append_assoc]
        exact hsupport.append (c := '.') (by simp) (by decide)
      | some target =>
        simp only [Operation.text, toString_text, String.append_assoc]
        exact Unclosing.append (h target rfl) (c := ' ') (by simp) (by decide)
    | resizeArray target bounds =>
      simp only [Operation.text, toString_text, String.append_assoc]
      exact Unclosing.append h (c := ' ') (by simp) (by decide)
    | rejectAssignment name =>
      simp only [Operation.text, String.append_assoc]
      exact hsupport.append (c := '.') (by simp) (by decide)
  · cases o with
    | newArray target bounds =>
      cases target <;> exact getLast?_text_append (by decide) _
    | perform | assign | resizeArray | rejectAssignment => exact getLast?_text_append (by decide) _

end Operation

namespace Code

def Laid (support : Ident) (codes : List Code) : Prop :=
  ∀ depth, Nested depth (allLines support depth codes)

section Laid

variable {support : Ident} {codes more : List Code}

theorem laid_nil : Laid support [] :=
  fun _ => nested_nil

theorem Laid.append (h : Laid support codes) (hmore : Laid support more) :
    Laid support (codes ++ more) := by
  intro depth
  rw [allLines_append]
  exact (h depth).append (hmore depth)

theorem laid_singleton {c : Code} (h : ∀ depth, Nested depth (c.lines support depth)) :
    Laid support [c] := by
  intro depth
  simpa [allLines] using h depth

theorem nested_word {depth : Nat} {content : String} {origin : Option Nat} {c : Char}
    (h : content.toList.head? = some c) (hletter : c.isAlpha = true ∧ c ≠ 'i') :
    Nested depth [⟨content, depth, origin⟩] :=
  nested_line (Line.plain_of_letter h hletter) rfl

theorem laid_bind {origin : Nat} {name : Ident} {value : Fragment} :
    Laid support [.bind origin name value] := by
  refine laid_singleton fun depth => nested_word (c := 'v') ?_ (by decide)
  simp [toString_text]

theorem laid_leave {origin : Nat} : Laid support [.leave origin] :=
  laid_singleton fun _ => nested_word (c := 'b') (by decide) (by decide)

theorem laid_giveBack {origin : Nat} {slot : Option Ident} :
    Laid support [.giveBack origin slot] := by
  cases slot with
  | none => exact laid_singleton fun _ => nested_word (c := 'r') (by decide) (by decide)
  | some slot =>
    refine laid_singleton fun depth => nested_word (c := 'r') ?_ (by decide)
    simp [toString_text]

theorem laid_raise {origin : Nat} {flag : Ident} (h : Unclosing flag.text) :
    Laid support [.raise origin flag] := by
  refine laid_singleton fun depth => nested_line (Line.plain_of_statement ?_ ?_) rfl
  · exact h.append (c := ' ') (by decide) (by decide)
  · exact getLast?_text_append (by decide) _

theorem laid_trapping {origin : Nat} {mode : TrapMode} {token : Ident}
    (h : Unclosing support.text) : Laid support [.trapping origin mode token] := by
  refine laid_singleton fun depth => nested_line (Line.plain_of_statement ?_ ?_) rfl
  · simp only [toString_text, String.append_assoc]
    exact h.append (c := '.') (by simp) (by decide)
  · exact getLast?_text_append (by decide) _

theorem laid_act {origin : Option Nat} {guard : Option Ident} {operations : List Operation}
    (hsupport : Unclosing support.text) (h : ∀ o ∈ operations, o.Led) :
    Laid support [.act origin guard operations] := by
  refine laid_singleton fun depth => nested_lines fun l hl => ?_
  obtain ⟨text, htext, rfl⟩ := List.mem_map.mp hl
  refine ⟨?_, rfl⟩
  cases guard with
  | none =>
    obtain ⟨o, ho, rfl⟩ := List.mem_map.mp htext
    have hled := (h o ho).text hsupport
    exact Line.plain_of_statement hled.1 hled.2
  | some token =>
    obtain rfl := List.mem_singleton.mp htext
    apply Line.plain_of_statement
    · simp only [toString_text, String.append_assoc]
      exact hsupport.append (c := '.') (by simp) (by decide)
    · exact getLast?_text_append (by decide) _

theorem laid_check {flags : List Ident} : Laid support [.check flags] := by
  refine laid_singleton fun depth => ?_
  have hhead : ("if (" ++ " || ".intercalate (flags.map (·.text)) ++ ")").toList.head? =
      some 'i' := by simp
  have hlast : ("if (" ++ " || ".intercalate (flags.map (·.text)) ++ ")").toList.getLast? =
      some ')' := getLast?_text_append (by decide) _
  refine nested_check ?_ ?_ ?_ rfl
  · rw [Line.checks, hlast]
    simp
  · simp [Line.closes]
  · simp only [Line.opens, decide_eq_false_iff_not]
    intro hcontent
    rw [hcontent] at hhead
    cases hhead

theorem nested_declarations {depth : Nat} {names : List Ident} {line : Ident → Line} {c : Char}
    (hletter : c.isAlpha = true ∧ c ≠ 'i')
    (h : ∀ x, (line x).depth = depth ∧ (line x).content.toList.head? = some c) :
    Nested depth (names.map line) := by
  refine nested_lines fun l hl => ?_
  obtain ⟨x, -, rfl⟩ := List.mem_map.mp hl
  exact ⟨Line.plain_of_letter (h x).2 hletter, (h x).1⟩

/-- A line and a block below it. -/
theorem nested_headed {depth : Nat} {l : Line} {body : List Line}
    (hl : Nested depth [l]) (hbody : Nested (depth + 1) body) (closing : String)
    (hclosing : closing.toList.head? = some '\x7d') :
    Nested depth (l :: ⟨"\x7b", depth, none⟩ :: (body ++ [⟨closing, depth, none⟩])) :=
  hl.append (hbody.block rfl (by simpa [Line.closes] using hclosing) rfl rfl)

theorem laid_loop {head : LoopHead} {flag : Option Ident} {body : List Code}
    (h : Laid support body) : Laid support [.loop head flag body] := by
  refine laid_singleton fun depth => ?_
  have hopening : Nested depth [⟨head.opening support, depth, head.origin⟩] := by
    cases head with
    | endless => exact nested_word (c := 'w') (by simp [LoopHead.opening]) (by decide)
    | testFirst condition =>
      exact nested_word (c := 'w') (by simp [LoopHead.opening, toString_text]) (by decide)
    | testLast condition => exact nested_word (c := 'd') (by simp [LoopHead.opening]) (by decide)
    | counting origin counter first last step =>
      exact nested_word (c := 'f') (by simp [LoopHead.opening, toString_text]) (by decide)
  have hflag : Nested (depth + 1)
      (flag.toList.map fun f => ⟨s!"var {f.text} = false;", depth + 1, none⟩) :=
    nested_declarations (c := 'v') (by decide) fun f => ⟨rfl, by simp [toString_text]⟩
  have hclosing : head.closing.toList.head? = some '\x7d' := by
    cases head <;> simp [LoopHead.closing, toString_text]
  have hloop := nested_headed hopening (hflag.append (h (depth + 1))) head.closing hclosing
  simpa [lines] using hloop

theorem laid_trapped {token : Ident} {body : List Code} (h : Laid support body) :
    Laid support [.trapped token body] := by
  refine laid_singleton fun depth => ?_
  have htoken : Nested depth
      [⟨s!"var {token.text} = {support.text}.GETERRORTRAPPINGTOKEN();", depth, none⟩] :=
    nested_word (c := 'v') (by simp [toString_text]) (by decide)
  have htry : Nested depth [⟨"try", depth, none⟩] :=
    nested_word (c := 't') (by decide) (by decide)
  have hfinally : Nested depth
      [⟨s!"finally \x7b {support.text}.RELEASEERRORTRAPPINGTOKEN({token.text}); \x7d", depth,
        none⟩] :=
    nested_word (c := 'f') (by simp [toString_text]) (by decide)
  have htried := nested_headed htry (h (depth + 1)) "\x7d" (by decide)
  have hframe := htoken.append (htried.append hfinally)
  simpa [lines] using hframe

theorem laid_method {head : MethodHead} {locals undeclaredLocals : List Ident} {body : List Code}
    {result : MethodResult} (h : Laid support body) :
    Laid support [.method head locals undeclaredLocals body result] := by
  refine laid_singleton fun depth => ?_
  have hhead : Nested depth [⟨head.text, depth, some head.origin⟩] :=
    nested_word (c := 'p') (by simp [MethodHead.text, toString_text]) (by decide)
  have hopening : Nested (depth + 1) (result.openingLines (depth + 1)) := by
    cases result with
    | nothing | null => exact nested_nil
    | slot name => exact nested_word (c := 'o') (by simp [toString_text]) (by decide)
  have hlocals : Nested (depth + 1) (locals.map fun x =>
      ⟨s!"object {x.text} = null;", depth + 1, none⟩) :=
    nested_declarations (c := 'o') (by decide) fun x => ⟨rfl, by simp [toString_text]⟩
  have hundeclared : Nested (depth + 1) (undeclaredLocals.map fun x =>
      ⟨s!"object {x.text} = null; /* Undeclared in source */", depth + 1, none⟩) :=
    nested_declarations (c := 'o') (by decide) fun x => ⟨rfl, by simp [toString_text]⟩
  have hclosing : Nested (depth + 1) (result.closingLines (depth + 1)) := by
    cases result with
    | nothing => exact nested_nil
    | null => exact nested_word (c := 'r') (by decide) (by decide)
    | slot name => exact nested_word (c := 'r') (by simp [toString_text]) (by decide)
  have hmethod := nested_headed hhead
    ((((hopening.append hlocals).append hundeclared).append (h (depth + 1))).append hclosing)
    "\x7d" (by decide)
  simpa [lines] using hmethod

end Laid

end Code

def Renderer.GivesUnclosing (renderer : Renderer) : Prop :=
  ∀ demand run scope r, renderer demand run scope = .ok r → Unclosing r.text

def Scope.FlagsUnclosing (s : Scope) : Prop :=
  ∀ frame ∈ s.loops, ∀ f ∈ frame.flag, Unclosing f.text

theorem unclosing_flag (kind : LoopKind) (k : Nat) :
    Unclosing (temporary kind.flagStem k).text := by
  cases kind <;> simp [Unclosing, temporary, LoopKind.flagStem]

section Compile

variable {setup : Setup} {support : Ident} {scope : Scope} {s t : Session} {out : Output Code}

theorem flagsUnclosing_insideLoop (h : scope.FlagsUnclosing) {kind : LoopKind} {body : List Block}
    {flag : Option Ident} (hflag : Gives (loopFlag setup kind body scope) s flag t) :
    (scope.insideLoop ⟨kind, flag⟩).FlagsUnclosing := by
  intro frame hframe f hf
  rcases List.mem_cons.mp hframe with rfl | houter
  · obtain ⟨-, rfl, -⟩ | ⟨-, id, rfl, hfresh⟩ := gives_loopFlag hflag
    · cases hf
    · obtain ⟨k, -, rfl, -⟩ := gives_freshTemporary.mp hfresh
      obtain rfl := Option.some.inj hf
      exact unclosing_flag kind k
  · exact h frame houter f hf

theorem laid_flagChecks : Code.Laid support (flagChecks scope) := by
  unfold flagChecks
  split
  · exact Code.laid_nil
  · exact Code.laid_check

theorem laid_const (hrenderer : setup.renderer.GivesUnclosing) (hsupport : Unclosing support.text)
    {item : ConstItem} (h : Gives (compileConst setup item scope) s out t) :
    Code.Laid support out.statements := by
  obtain ⟨target, value, htarget, -, -, rfl⟩ := gives_const h
  refine Code.laid_act hsupport fun o ho => ?_
  obtain rfl := List.mem_singleton.mp ho
  exact hrenderer _ _ _ _ htarget

theorem laid_dim (hrenderer : setup.renderer.GivesUnclosing) (hsupport : Unclosing support.text)
    {item : DimItem} (h : Gives (compileDim setup item scope) s out t) :
    Code.Laid support out.statements := by
  obtain ⟨-, rfl, -⟩ | ⟨bounds, target, rs, -, htarget, -, -, rfl⟩ := gives_dim h
  · exact Code.laid_nil
  · refine Code.laid_act hsupport fun o ho => ?_
    obtain rfl := List.mem_singleton.mp ho
    rintro _ ⟨⟩
    exact hrenderer _ _ _ _ htarget

theorem laid_redim (hrenderer : setup.renderer.GivesUnclosing) (hsupport : Unclosing support.text)
    {preserve : Bool} {item : RedimItem}
    (h : Gives (compileRedim setup preserve item scope) s out t) :
    Code.Laid support out.statements := by
  obtain ⟨rs, -, -, -, ⟨-, -, hstatements⟩ | ⟨-, target, htarget, -, hstatements⟩⟩ := gives_redim h
  · rw [hstatements]
    refine Code.laid_act hsupport fun o ho => ?_
    simp only [List.mem_cons, List.not_mem_nil, or_false] at ho
    rcases ho with rfl | rfl
    · rintro _ ⟨⟩
    · exact True.intro
  · rw [hstatements]
    refine Code.laid_act hsupport fun o ho => ?_
    obtain rfl := List.mem_singleton.mp ho
    have hled := hrenderer _ _ _ _ htarget
    split
    · exact hled
    · rintro _ ⟨⟩
      exact hled

theorem laid_exit (hscope : scope.FlagsUnclosing) {kind : ExitKind} {line : Nat}
    (h : Gives (compileExit kind line scope) s out t) : Code.Laid support out.statements := by
  obtain ⟨-, ⟨kind, codes, -, hcodes, rfl⟩ | ⟨-, -, rfl⟩⟩ := gives_exit h
  · obtain ⟨target, htarget, ⟨-, rfl⟩ | ⟨f, hf, rfl⟩⟩ := compileLoopExit_ok hcodes
    · exact Code.laid_leave
    · have hflag := hscope target (List.mem_of_find?_eq_some htarget) f hf
      exact (Code.laid_raise hflag).append Code.laid_leave
  · exact Code.laid_giveBack

theorem laid_blocks {blocks : List Block}
    (h : ∀ b ∈ blocks, ∀ {scope : Scope} {s t : Session} {out : Output Code},
      scope.FlagsUnclosing → Gives (compileBlock setup scope b) s out t →
        Code.Laid support out.statements)
    (hscope : scope.FlagsUnclosing)
    (hgives : Gives (compileBlocks setup .all scope blocks) s out t) :
    Code.Laid support out.statements :=
  output_blocks (P := (Code.Laid support ·.statements)) Code.laid_nil (·.append ·)
    (fun b hb => h b hb hscope) hgives

theorem laid_level {blocks : List Block}
    (h : ∀ b ∈ blocks, ∀ {scope : Scope} {s t : Session} {out : Output Code},
      scope.FlagsUnclosing → Gives (compileBlock setup scope b) s out t →
        Code.Laid support out.statements)
    (hscope : scope.loops = [])
    (hgives : Gives (compileLevel setup blocks scope fun selection s =>
      compileBlocks setup selection s blocks) s out t) : Code.Laid support out.statements := by
  obtain ⟨hoisted, token, u, body, v, routines, -, -, hbody, hroutines, rfl⟩ := gives_level hgives
  have hinner : ((scope.declare hoisted).trappedBy token).FlagsUnclosing := by
    have hloops : ((scope.declare hoisted).trappedBy token).loops = scope.loops := by
      cases token <;> rfl
    intro frame hframe
    rw [hloops, hscope] at hframe
    cases hframe
  have hframed := laid_blocks (fun b hb => h b (Block.mem_of_mem_framed hb)) hinner hbody
  have hunframed := laid_blocks (fun b hb => h b (Block.mem_of_mem_unframed hb)) hinner hroutines
  cases token with
  | none => exact hframed.append hunframed
  | some token => exact (Code.laid_trapped hframed).append hunframed

/-- By induction on the nesting: each block is laid out as well nested lines. -/
theorem laid_block (hrenderer : setup.renderer.GivesUnclosing) (hsupport : Unclosing support.text)
    {b : Block} (hscope : scope.FlagsUnclosing) (h : Gives (compileBlock setup scope b) s out t) :
    Code.Laid support out.statements := by
  induction b using Block.nested_induction generalizing scope s t out with
  | step b ih =>
    cases b with
    | doLoop test body =>
      obtain ⟨head, names, u, flag, v, inner, -, hflag, hinner, rfl⟩ := gives_doLoop h
      have hbody := laid_blocks ih (flagsUnclosing_insideLoop hscope hflag) hinner
      exact (Code.laid_loop hbody).append laid_flagChecks
    | forLoop counter first last step body =>
      obtain ⟨head, _, _, _, _, flag, _, inner, -, -, -, hflag, hinner, rfl⟩ := gives_forLoop h
      have hbody := laid_blocks ih (flagsUnclosing_insideLoop hscope hflag) hinner
      exact Code.laid_bind.append (Code.laid_bind.append
        ((Code.laid_loop hbody).append laid_flagChecks))
    | withTarget target body =>
      obtain ⟨line, r, name, u, inner, -, -, -, hinner, rfl⟩ := gives_withTarget h
      have hinside : (scope.insideWith ⟨name, line⟩).FlagsUnclosing := hscope
      have hbody := laid_blocks ih hinside hinner
      exact Code.laid_bind.append hbody
    | routine kind name parameters body =>
      obtain ⟨-, -, ⟨-, -, rfl⟩ | ⟨-, slot, u, level, v, -, hlevel, hmethod⟩⟩ := gives_routine h
      · exact Code.laid_method Code.laid_nil
      · obtain ⟨-, rfl⟩ := gives_method hmethod
        exact Code.laid_method (laid_level ih rfl hlevel)
    | exit kind line =>
      rw [compileBlock] at h
      exact laid_exit hscope h
    | consts items =>
      rw [compileBlock] at h
      exact output_items (P := (Code.Laid support ·.statements)) Code.laid_nil (·.append ·)
        (laid_const hrenderer hsupport) h
    | dim items =>
      rw [compileBlock] at h
      exact output_items (P := (Code.Laid support ·.statements)) Code.laid_nil (·.append ·)
        (laid_dim hrenderer hsupport) h
    | redim preserve items =>
      rw [compileBlock] at h
      exact output_items (P := (Code.Laid support ·.statements)) Code.laid_nil (·.append ·)
        (laid_redim hrenderer hsupport) h
    | onError mode line =>
      rw [compileBlock] at h
      obtain ⟨token, -, -, rfl⟩ := gives_onError h
      exact Code.laid_trapping hsupport
    | statement run =>
      rw [compileBlock] at h
      obtain ⟨r, hr, -, rfl⟩ := gives_statement h
      refine Code.laid_act hsupport fun o ho => ?_
      obtain rfl := List.mem_singleton.mp ho
      exact hrenderer _ _ _ _ hr

end Compile

/-- Emitted code is well bracketed, and its indentation is its nesting. -/
theorem emitted_lines_are_nested {renderer : Renderer} {settings : Settings} {blocks : List Block}
    {p : Program} (hrenderer : renderer.GivesUnclosing)
    (hsupport : Unclosing settings.names.support.text)
    (h : compileProgram renderer settings blocks = .ok p) : Nested 0 p.lines := by
  have htrace : traceProgram renderer settings blocks =
      (.ok p, (traceProgram renderer settings blocks).2) := Prod.ext h rfl
  obtain ⟨out, hgives, rfl⟩ := gives_of_traceProgram htrace
  obtain ⟨level, u, hlevel, -, rfl⟩ := gives_outermost hgives
  exact laid_level (fun _ _ _ _ _ _ hscope => laid_block hrenderer hsupport hscope) rfl hlevel 0

theorem emitted_lines_are_nested_flagged_loops_in_frame :
    let renderer : Renderer := fun _ run _ =>
      .ok ⟨"(" ++ " ".intercalate (run.map Token.display) ++ ")", []⟩
    let program : List Block := [.onError .start 0,
      .forLoop ⟨"i", 1⟩ [Token.ofText "1" 1] [Token.ofText "9" 1] none
        [.doLoop (some ⟨false, true, [Token.ofText "b" 4]⟩)
          [.withTarget [Token.ofText "w" 2] [.exit (.loop .forLoop) 3]]],
      .routine .function ⟨"f", 6⟩ [⟨⟨"a", 6⟩, true⟩] [.statement [Token.ofText "a" 7],
        .exit .function 8]]
    ∃ p, compileProgram renderer {} program = .ok p ∧ Nested 0 p.lines := by
  intro renderer program
  have hok : (compileProgram renderer {} program).isOk = true := by decide +kernel
  obtain ⟨p, session, h⟩ := exists_traceProgram hok
  have hresult : compileProgram renderer {} program = .ok p := congrArg Prod.fst h
  have hrenderer : renderer.GivesUnclosing := by
    rintro demand run scope r ⟨⟩
    simp [Unclosing]
  exact ⟨p, hresult, emitted_lines_are_nested hrenderer (by simp [Unclosing]) hresult⟩

end VbsCompiler
