import Mathlib.Data.List.Forall2
import VbsCompiler.Json.Reader

/-! The texts of a JSON value. There are many: blanks may stand around its parts, and a character of
a string stands for itself or is escaped. The reader gives the value back from each of them. Numbers
have no texts here. -/

namespace VbsCompiler

namespace Json

def escapes : List (Char × Char) :=
  [('"', '"'), ('\\', '\\'), ('/', '/'), ('b', '\x08'), ('f', '\x0c'), ('n', '\n'), ('r', '\r'),
    ('t', '\t')]

def hexDigits : List (Char × Nat) :=
  "0123456789abcdef".toList.zipIdx ++ "0123456789ABCDEF".toList.zipIdx

inductive UnitText : Nat → List Char → Prop where
  | digits {a b c d : Char} {w x y z : Nat} :
      (a, w) ∈ hexDigits → (b, x) ∈ hexDigits → (c, y) ∈ hexDigits → (d, z) ∈ hexDigits →
      UnitText (16 * (16 * (16 * w + x) + y) + z) [a, b, c, d]

/-- What may stand for a character inside a string. Beyond the first plane it has two code units. -/
inductive CharText (c : Char) : List Char → Prop where
  | plain : c ≠ '"' → c ≠ '\\' → 0x20 ≤ c.toNat → CharText c [c]
  | escape {e : Char} : (e, c) ∈ escapes → CharText c ['\\', e]
  | unit {cs : List Char} : UnitText c.toNat cs → CharText c ('\\' :: 'u' :: cs)
  | pair {high low : List Char} : 0x10000 ≤ c.toNat →
      UnitText (0xd800 + (c.toNat - 0x10000) / 0x400) high →
      UnitText (0xdc00 + (c.toNat - 0x10000) % 0x400) low →
      CharText c ('\\' :: 'u' :: high ++ '\\' :: 'u' :: low)

def StringText (s : String) (cs : List Char) : Prop :=
  ∃ pieces, List.Forall₂ CharText s.toList pieces ∧ cs = '"' :: pieces.flatten ++ ['"']

def Blanks (cs : List Char) : Prop :=
  ∀ c ∈ cs, c ∈ [' ', '\t', '\n', '\r']

section Items

variable {α : Type}

inductive ItemsText (text : α → List Char → Prop) : List α → List Char → Prop where
  | one {a : α} {cs : List Char} : text a cs → ItemsText text [a] cs
  | more {a : α} {as : List α} {cs before after rest : List Char} :
      text a cs → Blanks before → Blanks after → ItemsText text as rest →
      ItemsText text (a :: as) (cs ++ before ++ ',' :: after ++ rest)

inductive EnclosedText (text : α → List Char → Prop) : List α → List Char → Prop where
  | empty {cs : List Char} : Blanks cs → EnclosedText text [] cs
  | items {as : List α} {before cs after : List Char} :
      Blanks before → ItemsText text as cs → Blanks after →
      EnclosedText text as (before ++ cs ++ after)

end Items

def MemberText (text : Json → List Char → Prop) (member : String × Json) (cs : List Char) : Prop :=
  ∃ key before after value, StringText member.1 key ∧ Blanks before ∧ Blanks after ∧
    text member.2 value ∧ cs = key ++ before ++ ':' :: after ++ value

inductive ScalarText : Json → List Char → Prop where
  | null : ScalarText .null "null".toList
  | yes : ScalarText (.boolean true) "true".toList
  | no : ScalarText (.boolean false) "false".toList
  | string {s : String} {cs : List Char} : StringText s cs → ScalarText (.string s) cs

inductive ContainerText (text : Json → List Char → Prop) : Json → List Char → Prop where
  | array {items : List Json} {cs : List Char} :
      EnclosedText text items cs → ContainerText text (.array items) ('[' :: cs ++ [']'])
  | object {members : List (String × Json)} {cs : List Char} :
      EnclosedText (MemberText text) members cs →
      ContainerText text (.object members) ('\x7b' :: cs ++ ['\x7d'])

/-- The texts of a value, with no blanks around them, in which containers nest at most `depth`
deep. -/
def ValueText : Nat → Json → List Char → Prop
  | 0, value, cs => ScalarText value cs
  | depth + 1, value, cs => ScalarText value cs ∨ ContainerText (ValueText depth) value cs

/-- The whole text is the value, with blanks around it. -/
def IsTextOf (source : String) (value : Json) : Prop :=
  ∃ before cs after, Blanks before ∧ ValueText maxDepth value cs ∧ Blanks after ∧
    source.toList = before ++ cs ++ after

theorem simpleEscape?_of_mem {e c : Char} (h : (e, c) ∈ escapes) :
    e ≠ 'u' ∧ simpleEscape? e = some c := by
  have hall : escapes.all (fun p => p.1 ≠ 'u' ∧ simpleEscape? p.1 = some p.2) = true := by decide
  simpa using List.all_eq_true.mp hall (e, c) h

theorem hexDigit?_of_mem {c : Char} {d : Nat} (h : (c, d) ∈ hexDigits) :
    hexDigit? c = some d := by
  have hall : hexDigits.all (fun p => hexDigit? p.1 = some p.2) = true := by decide
  simpa using List.all_eq_true.mp hall (c, d) h

theorem unitFrom_of_unitText {n : Nat} {cs : List Char} (h : UnitText n cs) (text rest : List Char)
    (high : Option Nat) :
    unitFrom text high 3 0 (cs ++ rest) =
      match high with
      | some u => if isLowSurrogate n then stringFrom (pairedSurrogates u n :: text) rest else none
      | none =>
        if isHighSurrogate n then lowFrom text n false rest
        else if isLowSurrogate n then none
        else stringFrom (Char.ofNat n :: text) rest := by
  cases h with
  | digits ha hb hc hd =>
    cases high with
    | none =>
      simp only [List.cons_append, List.nil_append, unitFrom, hexDigit?_of_mem ha,
        hexDigit?_of_mem hb, hexDigit?_of_mem hc, hexDigit?_of_mem hd, Nat.mul_zero, Nat.zero_add]
    | some u =>
      simp only [List.cons_append, List.nil_append, unitFrom, hexDigit?_of_mem ha,
        hexDigit?_of_mem hb, hexDigit?_of_mem hc, hexDigit?_of_mem hd, Nat.mul_zero, Nat.zero_add]

theorem isHighSurrogate_iff {n : Nat} : isHighSurrogate n = true ↔ 0xd800 ≤ n ∧ n < 0xdc00 := by
  simp [isHighSurrogate]

theorem isLowSurrogate_iff {n : Nat} : isLowSurrogate n = true ↔ 0xdc00 ≤ n ∧ n < 0xe000 := by
  simp [isLowSurrogate]

theorem toNat_no_surrogate (c : Char) :
    c.toNat < 0xd800 ∨ 0xe000 ≤ c.toNat ∧ c.toNat < 0x110000 := by
  have h : c.toNat.isValidChar := c.valid
  rw [Nat.isValidChar] at h
  omega

theorem unitFrom_of_char {c : Char} {cs : List Char} (h : UnitText c.toNat cs)
    (text rest : List Char) :
    unitFrom text none 3 0 (cs ++ rest) = stringFrom (c :: text) rest := by
  have hvalid := toNat_no_surrogate c
  have hhigh : ¬ isHighSurrogate c.toNat = true := by
    rw [isHighSurrogate_iff]
    omega
  have hlow : ¬ isLowSurrogate c.toNat = true := by
    rw [isLowSurrogate_iff]
    omega
  rw [unitFrom_of_unitText h]
  simp only [if_neg hhigh, if_neg hlow, Char.ofNat_toNat]

theorem unitFrom_of_pair {c : Char} {high low : List Char} (hlarge : 0x10000 ≤ c.toNat)
    (hhigh : UnitText (0xd800 + (c.toNat - 0x10000) / 0x400) high)
    (hlow : UnitText (0xdc00 + (c.toNat - 0x10000) % 0x400) low) (text rest : List Char) :
    unitFrom text none 3 0 (high ++ '\\' :: 'u' :: (low ++ rest)) =
      stringFrom (c :: text) rest := by
  have hvalid := toNat_no_surrogate c
  have hhigh' := isHighSurrogate_iff.mpr
    (by omega : 0xd800 ≤ 0xd800 + (c.toNat - 0x10000) / 0x400 ∧ _)
  have hlow' := isLowSurrogate_iff.mpr
    (by omega : 0xdc00 ≤ 0xdc00 + (c.toNat - 0x10000) % 0x400 ∧ _)
  have hcode : 0x10000 + (0xd800 + (c.toNat - 0x10000) / 0x400 - 0xd800) * 0x400 +
      (0xdc00 + (c.toNat - 0x10000) % 0x400 - 0xdc00) = c.toNat := by omega
  rw [unitFrom_of_unitText hhigh]
  simp only [hhigh', if_true, lowFrom, Bool.false_eq_true, if_false]
  rw [unitFrom_of_unitText hlow]
  simp only [hlow', if_true, pairedSurrogates, hcode, Char.ofNat_toNat]

theorem stringFrom_of_charText {c : Char} {cs : List Char} (h : CharText c cs)
    (text rest : List Char) : stringFrom text (cs ++ rest) = stringFrom (c :: text) rest := by
  cases h with
  | plain hquote hslash hlarge =>
    have hprintable : ¬ c.toNat < 0x20 := by omega
    rw [List.singleton_append, stringFrom, if_neg hquote, if_neg hslash, if_neg hprintable]
  | @escape e he =>
    obtain ⟨hu, hescape⟩ := simpleEscape?_of_mem he
    simp only [List.cons_append, List.nil_append, stringFrom, escapeFrom, hu, hescape]
    rfl
  | unit hunit =>
    rw [← unitFrom_of_char hunit]
    rfl
  | pair hlarge hhigh hlow =>
    rw [← unitFrom_of_pair hlarge hhigh hlow, List.append_assoc]
    rfl

theorem stringFrom_of_pieces {cs : List Char} {pieces : List (List Char)}
    (h : List.Forall₂ CharText cs pieces) (text rest : List Char) :
    stringFrom text (pieces.flatten ++ '"' :: rest) =
      some (String.ofList (text.reverse ++ cs), rest) := by
  induction h generalizing text with
  | nil => simp [stringFrom]
  | cons hc _ ih =>
    rw [List.flatten_cons, List.append_assoc, stringFrom_of_charText hc, ih]
    simp

theorem StringText.read {s : String} {cs : List Char} (h : StringText s cs) (rest : List Char) :
    ∃ body, cs = '"' :: body ∧ stringFrom [] (body ++ rest) = some (s, rest) := by
  obtain ⟨pieces, hpieces, rfl⟩ := h
  refine ⟨pieces.flatten ++ ['"'], rfl, ?_⟩
  have hread := stringFrom_of_pieces hpieces [] rest
  simpa using hread

theorem isSpace_of_mem {c : Char} (h : c ∈ [' ', '\t', '\n', '\r']) : isSpace c = true := by
  have hall : [' ', '\t', '\n', '\r'].all isSpace = true := by decide
  exact List.all_eq_true.mp hall c h

theorem blanks_nil : Blanks [] :=
  fun _ h => absurd h List.not_mem_nil

theorem skipSpace_append {before : List Char} (h : Blanks before) (cs : List Char) :
    skipSpace (before ++ cs) = skipSpace cs :=
  List.dropWhile_append_of_pos fun c hc => isSpace_of_mem (h c hc)

theorem skipSpace_cons {c : Char} (h : isSpace c = false) (cs : List Char) :
    skipSpace (c :: cs) = c :: cs := by
  simp [skipSpace, h]

def closers : List Char :=
  [']', '\x7d']

theorem closer_separates {close : Char} (h : close ∈ closers) :
    isSpace close = false ∧ ',' ≠ close := by
  rcases List.mem_pair.mp h with rfl | rfl
  · exact ⟨rfl, by decide⟩
  · exact ⟨rfl, by decide⟩

def Opens (cs : List Char) : Prop :=
  ∃ c tail, cs = c :: tail ∧ isSpace c = false ∧ c ∉ closers

theorem Opens.skipSpace_append {before cs : List Char} (h : Opens cs) (hbefore : Blanks before)
    (rest : List Char) : skipSpace (before ++ (cs ++ rest)) = cs ++ rest := by
  obtain ⟨c, tail, rfl, hc, -⟩ := h
  rw [Json.skipSpace_append hbefore, List.cons_append, skipSpace_cons hc]

section Items

variable {α : Type} {text : α → List Char → Prop} {item : Reader α} {close : Char}

/-- The reader reads each text, whatever follows it. -/
def Reads (item : Reader α) (text : α → List Char → Prop) : Prop :=
  ∀ a cs rest, text a cs → item (cs ++ rest) = some (a, rest)

theorem ItemsText.length_le {as : List α} {cs : List Char} (h : ItemsText text as cs)
    (hopens : ∀ a cs, text a cs → Opens cs) : as.length ≤ cs.length := by
  induction h with
  | one ha =>
    obtain ⟨c, tail, rfl, -⟩ := hopens _ _ ha
    simp
  | more _ _ _ _ ih =>
    simp only [List.length_append, List.length_cons]
    omega

theorem ItemsText.opens {as : List α} {cs : List Char} (h : ItemsText text as cs)
    (hopens : ∀ a cs, text a cs → Opens cs) : Opens cs := by
  cases h with
  | one ha => exact hopens _ _ ha
  | more ha _ _ _ =>
    obtain ⟨c, tail, rfl, hc⟩ := hopens _ _ ha
    exact ⟨c, _, rfl, hc⟩

theorem readItems_of_itemsText {as : List α} {before cs after : List Char}
    (hreads : Reads item text) (hopens : ∀ a cs, text a cs → Opens cs) (hclose : close ∈ closers)
    (h : ItemsText text as cs) (hbefore : Blanks before) (hafter : Blanks after) (rest : List Char)
    {count : Nat} (hcount : as.length ≤ count) :
    readItems item close count (before ++ (cs ++ (after ++ close :: rest))) = some (as, rest) := by
  obtain ⟨hspace, hcomma⟩ := closer_separates hclose
  -- What stands between a comma and the next item are the blanks in front of the remaining ones.
  induction h generalizing before count with
  | @one a cs ha =>
    obtain ⟨count, rfl⟩ := Nat.exists_eq_add_one.mpr hcount
    rw [readItems, (hopens a cs ha).skipSpace_append hbefore, hreads a cs _ ha]
    simp only [skipSpace_append hafter, skipSpace_cons hspace, if_true]
  | @more a as cs gap gap' later ha hgap hgap' _ ih =>
    obtain ⟨count, rfl⟩ := Nat.exists_eq_add_one.mpr (Nat.zero_lt_of_lt hcount)
    have hlater := ih hgap' (Nat.le_of_succ_le_succ hcount)
    have hcommaSpace : isSpace ',' = false := by decide
    have hsplit : cs ++ gap ++ ',' :: gap' ++ later ++ (after ++ close :: rest) =
        cs ++ (gap ++ ',' :: (gap' ++ (later ++ (after ++ close :: rest)))) := by
      simp only [List.append_assoc, List.cons_append]
    rw [readItems, hsplit, (hopens a cs ha).skipSpace_append hbefore, hreads a cs _ ha]
    simp only [skipSpace_append hgap, skipSpace_cons hcommaSpace, if_neg hcomma, if_true, hlater,
      Option.map_some]

theorem readEnclosed_of_enclosedText {as : List α} {cs : List Char} (hreads : Reads item text)
    (hopens : ∀ a cs, text a cs → Opens cs) (hclose : close ∈ closers)
    (h : EnclosedText text as cs) (rest : List Char) :
    readEnclosed item close (cs ++ close :: rest) = some (as, rest) := by
  cases h with
  | empty hblanks =>
    simp only [readEnclosed, skipSpace_append hblanks, skipSpace_cons (closer_separates hclose).1,
      if_true]
  | @items _ before cs after hbefore hitems hafter =>
    have hstarts := hitems.opens hopens
    have hskip := hstarts.skipSpace_append hbefore (after ++ close :: rest)
    have hcount : as.length ≤ (cs ++ (after ++ close :: rest)).length := by
      have hle := hitems.length_le hopens
      simp only [List.length_append]
      omega
    have hread := readItems_of_itemsText hreads hopens hclose hitems blanks_nil hafter rest
      hcount
    obtain ⟨c, tail, rfl, -, hc⟩ := hstarts
    have hne : c ≠ close := fun heq => hc (heq ▸ hclose)
    rw [readEnclosed, List.append_assoc, List.append_assoc, hskip]
    simp only [List.cons_append, if_neg hne]
    exact hread

end Items

theorem StringText.opens {s : String} {cs : List Char} (h : StringText s cs) : Opens cs := by
  obtain ⟨pieces, -, rfl⟩ := h
  exact ⟨'"', _, rfl, by decide, by decide⟩

theorem MemberText.opens {text : Json → List Char → Prop} {member : String × Json} {cs : List Char}
    (h : MemberText text member cs) : Opens cs := by
  obtain ⟨key, before, after, value, hkey, -, -, -, rfl⟩ := h
  obtain ⟨c, tail, rfl, hc⟩ := hkey.opens
  exact ⟨c, _, rfl, hc⟩

theorem ScalarText.opens {value : Json} {cs : List Char} (h : ScalarText value cs) :
    Opens cs := by
  cases h with
  | null => exact ⟨'n', _, rfl, by decide, by decide⟩
  | yes => exact ⟨'t', _, rfl, by decide, by decide⟩
  | no => exact ⟨'f', _, rfl, by decide, by decide⟩
  | string hs => exact hs.opens

theorem ContainerText.opens {text : Json → List Char → Prop} {value : Json} {cs : List Char}
    (h : ContainerText text value cs) : Opens cs := by
  cases h with
  | array _ => exact ⟨'[', _, rfl, by decide, by decide⟩
  | object _ => exact ⟨'\x7b', _, rfl, by decide, by decide⟩

theorem ValueText.opens {depth : Nat} {value : Json} {cs : List Char}
    (h : ValueText depth value cs) : Opens cs := by
  cases depth with
  | zero => exact ScalarText.opens h
  | succ depth =>
    rcases h with hscalar | hcontainer
    · exact hscalar.opens
    · exact hcontainer.opens

theorem readMember_reads {value : Reader Json} {text : Json → List Char → Prop}
    (hreads : Reads value text) (hopens : ∀ v cs, text v cs → Opens cs) :
    Reads (readMember value) (MemberText text) := by
  rintro ⟨key, v⟩ cs rest ⟨keyText, before, after, valueText, hkey, hbefore, hafter, hvalue, rfl⟩
  obtain ⟨body, rfl, hread⟩ := hkey.read (before ++ ':' :: (after ++ (valueText ++ rest)))
  have hcolon : isSpace ':' = false := by decide
  have hsplit : '"' :: body ++ before ++ ':' :: after ++ valueText ++ rest =
      '"' :: (body ++ (before ++ ':' :: (after ++ (valueText ++ rest)))) := by
    simp only [List.append_assoc, List.cons_append]
  rw [hsplit, readMember]
  simp only [hread, skipSpace_append hbefore, skipSpace_cons hcolon,
    (hopens v valueText hvalue).skipSpace_append hafter, hreads v valueText rest hvalue,
    Option.map_some]

theorem ValueText.of_scalarText {depth : Nat} {value : Json} {cs : List Char}
    (h : ScalarText value cs) : ValueText depth value cs := by
  cases depth with
  | zero => exact h
  | succ depth => exact .inl h

theorem readWith_of_scalarText {value : Json} {cs : List Char} (h : ScalarText value cs)
    (inner : Option (Reader Json)) (rest : List Char) :
    readWith inner (cs ++ rest) = some (value, rest) := by
  cases h with
  | null => rfl
  | yes => rfl
  | no => rfl
  | string hs =>
    obtain ⟨body, rfl, hread⟩ := hs.read rest
    rw [List.cons_append, readWith, hread]
    rfl

theorem readWith_of_containerText {text : Json → List Char → Prop} {reader : Reader Json}
    (hreads : Reads reader text) (hopens : ∀ v cs, text v cs → Opens cs) {value : Json}
    {cs : List Char} (h : ContainerText text value cs) (rest : List Char) :
    readWith (some reader) (cs ++ rest) = some (value, rest) := by
  cases h with
  | array hitems =>
    have hread := readEnclosed_of_enclosedText hreads hopens (by decide : ']' ∈ closers) hitems rest
    rw [List.append_assoc, List.singleton_append, List.cons_append, readWith, Option.bind_some,
      hread]
    rfl
  | object hmembers =>
    have hread := readEnclosed_of_enclosedText (readMember_reads hreads hopens)
      (fun _ _ => MemberText.opens) (by decide : '\x7d' ∈ closers) hmembers rest
    rw [List.append_assoc, List.singleton_append, List.cons_append, readWith, Option.bind_some,
      hread]
    rfl

/-- By recursion on the depth: the items of a container are one level less deep. -/
theorem readValue_reads (depth : Nat) : Reads (readValue depth) (ValueText depth) := by
  induction depth with
  | zero =>
    intro value cs rest h
    exact readWith_of_scalarText h none rest
  | succ depth ih =>
    intro value cs rest h
    rcases h with hscalar | hcontainer
    · exact readWith_of_scalarText hscalar _ rest
    · exact readWith_of_containerText ih (fun _ _ => ValueText.opens) hcontainer rest

/-- Every text of a value is read as that value. -/
theorem read?_of_isTextOf {source : String} {value : Json} (h : IsTextOf source value) :
    read? source = some value := by
  obtain ⟨before, cs, after, hbefore, hvalue, hafter, hsource⟩ := h
  have hblank : skipSpace after = [] := by
    simpa [skipSpace] using skipSpace_append hafter []
  rw [read?, hsource, List.append_assoc, hvalue.opens.skipSpace_append hbefore,
    readValue_reads maxDepth value cs after hvalue]
  simp [hblank]

/-- A character as it is written inside a string, escaped only where it cannot stand for itself. -/
def escaped (c : Char) : List Char :=
  if c = '"' ∨ c = '\\' ∨ c.toNat < 0x20 then
    match escapes.find? (·.2 = c) with
    | some (e, _) => ['\\', e]
    | none => ['\\', 'u', '0', '0', (c.toNat / 16).digitChar, (c.toNat % 16).digitChar]
  else [c]

def quoted (s : String) : List Char :=
  '"' :: s.toList.flatMap escaped ++ ['"']

theorem digitChar_mem_hexDigits {d : Nat} (h : d < 16) : (d.digitChar, d) ∈ hexDigits := by
  revert d
  decide

/-- A character is written in a form that can be read. -/
theorem charText_escaped (c : Char) : CharText c (escaped c) := by
  unfold escaped
  split
  · rename_i hspecial
    split
    · rename_i e d hfind
      obtain rfl : d = c := by simpa using List.find?_some hfind
      exact .escape (List.mem_of_find?_eq_some hfind)
    · rename_i hfind
      have hlt : c.toNat < 0x20 := by
        rcases hspecial with rfl | rfl | hlt
        · simp [escapes] at hfind
        · simp [escapes] at hfind
        · exact hlt
      have hzero := digitChar_mem_hexDigits (by decide : 0 < 16)
      have hunit := UnitText.digits hzero hzero
        (digitChar_mem_hexDigits (by omega : c.toNat / 16 < 16))
        (digitChar_mem_hexDigits (by omega : c.toNat % 16 < 16))
      have hcode : 16 * (16 * (16 * 0 + 0) + c.toNat / 16) + c.toNat % 16 = c.toNat := by omega
      rw [hcode] at hunit
      exact .unit hunit
  · rename_i hplain
    simp only [not_or] at hplain
    exact .plain hplain.1 hplain.2.1 (by omega)

theorem stringText_quoted (s : String) : StringText s (quoted s) := by
  refine ⟨s.toList.map escaped, ?_, by rw [quoted, List.flatMap_def]⟩
  rw [List.forall₂_map_right_iff]
  exact List.forall₂_same.mpr fun c _ => charText_escaped c

example : quoted "a\"/\n\x1f" = "\"a\\\"/\\n\\u001f\"".toList := by decide

theorem memberText_quoted {text : Json → List Char → Prop} {value : Json} {cs : List Char}
    (h : text value cs) (key : String) :
    MemberText text (key, value) (quoted key ++ ':' :: cs) :=
  ⟨quoted key, [], [], cs, stringText_quoted key, blanks_nil, blanks_nil, h, by simp⟩

theorem itemsText_intercalate {α : Type} {text : α → List Char → Prop} {as : List α}
    {pieces : List (List Char)} (h : List.Forall₂ text as pieces) (hne : as ≠ []) :
    ItemsText text as ([','].intercalate pieces) := by
  induction h with
  | nil => exact absurd rfl hne
  | @cons a piece as pieces ha hrest ih =>
    cases hrest with
    | nil =>
      simpa using ItemsText.one ha
    | cons hb hrest =>
      have hlater := ih (List.cons_ne_nil _ _)
      have htext := ItemsText.more ha blanks_nil blanks_nil hlater
      simpa [List.intercalate_cons_cons] using htext

theorem enclosedText_intercalate {α : Type} {text : α → List Char → Prop} {as : List α}
    {pieces : List (List Char)} (h : List.Forall₂ text as pieces) :
    EnclosedText text as ([','].intercalate pieces) := by
  cases as with
  | nil =>
    cases h
    exact .empty blanks_nil
  | cons a as =>
    have htext := itemsText_intercalate h (List.cons_ne_nil a as)
    simpa using EnclosedText.items blanks_nil htext blanks_nil

end Json

end VbsCompiler
