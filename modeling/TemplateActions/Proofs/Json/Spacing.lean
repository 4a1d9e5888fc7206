import Mathlib.Data.Bool.AllAny
import Mathlib.Tactic.SplitIfs
import TemplateActions.Json.Printer
import TemplateActions.Json.Reader
import TemplateActions.Proofs.Number.Notation

/-!
White space in JSON text. The indent only decides about white space between tokens: with that white
space dropped, all texts of a value are the same. Without an indent a text has no line feed at all,
because those of strings are escaped.
-/
namespace TemplateActions.Json

/-- Where a character of JSON text stands: between tokens or within a number or word, within a
string, or behind a backslash there. -/
inductive Region where
  | outside
  | literal
  | escape
deriving DecidableEq

def Region.next : Region → Char → Region
  | .outside, c => if c = '"' then .literal else .outside
  | .literal, c => if c = '"' then .outside else if c = '\\' then .escape else .literal
  | .escape, _ => .literal

/-- The text without the white space outside of strings. -/
def squeeze : Region → List Char → List Char
  | _, [] => []
  | region, c :: rest =>
    if region = .outside ∧ isBlank c then squeeze region rest
    else c :: squeeze (region.next c) rest

def isWordChar (c : Char) : Bool := c.isAlphanum || c == '.' || c == '+' || c == '-'

def escapeLetters : List (Char × Char) :=
  [('"', '"'), ('\\', '\\'), ('n', '\n'), ('r', '\r'), ('t', '\t'), ('b', '\x08'), ('f', '\x0c')]

/-- The forms of a character in a string: behind a backslash as itself or as a letter, as the
number of a control character, or plainly. -/
inductive IsEscape (c : Char) : List Char → Prop
  | letter {letter : Char} : (letter, c) ∈ escapeLetters → IsEscape c ['\\', letter]
  | code : c.toNat < 0x20 →
      IsEscape c ['\\', 'u', '0', '0', Nat.digitChar (c.toNat / 16), Nat.digitChar (c.toNat % 16)]
  | plain : c ≠ '"' → c ≠ '\\' → 0x20 ≤ c.toNat → IsEscape c [c]

theorem isEscape_escapeChar (c : Char) : IsEscape c (escapeChar c) := by
  rw [escapeChar]
  split_ifs with quote backslash feed ret tab back form control
  · subst quote
    exact .letter (by decide)
  · subst backslash
    exact .letter (by decide)
  · subst feed
    exact .letter (by decide)
  · subst ret
    exact .letter (by decide)
  · subst tab
    exact .letter (by decide)
  · subst back
    exact .letter (by decide)
  · subst form
    exact .letter (by decide)
  · exact .code control
  · exact .plain quote backslash (Nat.le_of_not_lt control)

/-- Holds for indents that can be laid out: a machine word holds them, and so does the memory. Those
below zero are laid out as no blanks. -/
def IsIndent (width : Int) : Prop := -Word.limit ≤ width ∧ width < Indent.memoryLimit

theorem fault?_eq_none_iff {width : Int} : Indent.fault? 1 width = none ↔ IsIndent width := by
  have uncountable : (!Word.holds width || decide (Word.limit ≤ width)) = true ↔
      ¬ (-Word.limit ≤ width ∧ width < Word.limit) := by
    simp only [Word.holds, Bool.or_eq_true, Bool.not_eq_true', Bool.and_eq_false_iff,
      decide_eq_true_iff,
      decide_eq_false_iff_not]
    omega
  have lower : Indent.memoryLimit < Word.limit := by decide
  rw [Indent.fault?, IsIndent, Int.natCast_one, Int.one_mul]
  by_cases held : -Word.limit ≤ width ∧ width < Word.limit
  · rw [if_neg fun h => uncountable.mp h held]
    by_cases exhausting : Indent.memoryLimit ≤ width
    · rw [if_pos exhausting]
      exact iff_of_false nofun (by omega)
    · rw [if_neg exhausting]
      exact iff_of_true rfl (by omega)
  · rw [if_pos (uncountable.mpr held)]
    exact iff_of_false nofun (by omega)

theorem bind_fault?_eq_none_iff {indent : Option Int} :
    indent.bind (Indent.fault? 1) = none ↔ ∀ width ∈ indent, IsIndent width := by
  cases indent with
  | none => exact iff_of_true rfl nofun
  | some width => simp [fault?_eq_none_iff]

/-- Holds for values that are written with an indent: it can be laid out, unless the value is a
text and does without, and all integers can be written. -/
structure HasText (value : Json) (indent : Option Int) : Prop where
  laidOut : (∃ s, value = .text s) ∨ ∀ width ∈ indent, IsIndent width
  writable : value.isWritable

theorem write_of_fits {value : Json} {indent : Option Int}
    (fits : indent.bind (Indent.fault? 1) = none) : value.write indent =
      if value.isWritable then .ok (value.render indent) else .error .overlongInteger := by
  rw [write.eq_def, fits]
  cases value <;> rfl

theorem write_of_fault {value : Json} {indent : Option Int} {fault : IndentFault}
    (wide : indent.bind (Indent.fault? 1) = some fault) (other : ∀ s, value ≠ .text s) :
    value.write indent = .error (.indent fault) := by
  rw [write.eq_def, wide]
  cases value with
  | text s => exact absurd rfl (other s)
  | _ => rfl

theorem write_eq_ok_iff {value : Json} {indent : Option Int} {text : String} :
    value.write indent = .ok text ↔ value.HasText indent ∧ text = value.render indent := by
  by_cases isText : ∃ s, value = .text s
  · obtain ⟨s, rfl⟩ := isText
    have hasText : (Json.text s).HasText indent := ⟨.inl ⟨s, rfl⟩, rfl⟩
    simp [write, hasText, eq_comm]
  have hasText : value.HasText indent ↔ indent.bind (Indent.fault? 1) = none ∧
      value.isWritable := by
    rw [bind_fault?_eq_none_iff]
    exact ⟨fun h => ⟨h.laidOut.resolve_left isText, h.writable⟩, fun h => ⟨.inr h.1, h.2⟩⟩
  rw [hasText]
  cases width : indent.bind (Indent.fault? 1) with
  | none =>
    rw [write_of_fits width]
    cases value.isWritable <;> simp [eq_comm]
  | some fault =>
    rw [write_of_fault width fun s same => isText ⟨s, same⟩]
    simp

theorem digitChar_mem {n : Nat} (h : n < 16) :
    Nat.digitChar n ∈ "0123456789abcdef".toList := by
  revert n
  decide

theorem digitChars_of_all {p : Char → Prop} [DecidablePred p]
    (each : "0123456789abcdef".toList.all fun d => p d) {n : Nat} (bound : n < 0x20) :
    p (Nat.digitChar (n / 16)) ∧ p (Nat.digitChar (n % 16)) := by
  rw [List.all_iff_forall_prop] at each
  exact ⟨each _ (digitChar_mem (by omega)), each _ (digitChar_mem (by omega))⟩

theorem isWordChar_of_isDigit {c : Char} (digit : Decimal.isDigit c) : isWordChar c := by
  have : c.isDigit = true := by
    simpa [Decimal.isDigit, Char.isDigit, Char.le_def, UInt32.le_iff_toNat_le] using digit
  simp [isWordChar, Char.isAlphanum, this]

theorem isWordChar_of_mem_sign {negative : Prop} [Decidable negative] {c : Char}
    (member : c ∈ if negative then ['-'] else []) : isWordChar c := by
  split at member
  · rw [List.mem_singleton.mp member]
    rfl
  · nomatch member

theorem isWordChar_of_mem_intChars {n : Int} {c : Char} (member : c ∈ Decimal.intChars n) :
    isWordChar c := by
  rw [Decimal.intChars_eq] at member
  rcases List.mem_append.mp member with member | member
  · exact isWordChar_of_mem_sign member
  · exact isWordChar_of_isDigit (Decimal.isDigit_of_mem_natChars member)

theorem isWordChar_of_mem_fraction {fraction : List Char}
    (h : Decimal.IsFraction fraction) {c : Char}
    (member : c ∈ fraction) : isWordChar c := by
  cases h with
  | absent => nomatch member
  | written digits =>
    rcases List.mem_cons.mp member with rfl | member
    · rfl
    · exact isWordChar_of_isDigit (digits c member)

theorem isWordChar_of_mem_exponent {exponent : List Char}
    (h : Decimal.IsExponent exponent) {c : Char}
    (member : c ∈ exponent) : isWordChar c := by
  cases h with
  | absent => nomatch member
  | written sign digits =>
    rcases List.mem_cons.mp member with rfl | member
    · rfl
    rcases List.mem_cons.mp member with rfl | member
    · rcases sign with rfl | rfl <;> rfl
    · exact isWordChar_of_isDigit (digits.digits c member)

theorem isWordChar_of_mem_infinity {c : Char} (member : c ∈ DecimalStyle.document.infinity.toList) :
    isWordChar c :=
  List.all_eq_true.mp (by decide) c member

theorem isWordChar_of_mem_float {x : Binary64} {c : Char}
    (member : c ∈ DecimalStyle.document.chars x) : isWordChar c := by
  cases x with
  | finite negative significand exponent =>
    obtain ⟨whole, fraction, power, floating, written⟩ :=
      DecimalStyle.document.exists_isFloating_chars negative significand exponent
    rw [written] at member
    simp only [List.mem_append] at member
    rcases member with member | (member | member) | member
    · exact isWordChar_of_mem_sign member
    · exact isWordChar_of_isDigit (floating.isNumeral.digits c member)
    · exact isWordChar_of_mem_fraction floating.isFraction member
    · exact isWordChar_of_mem_exponent floating.isExponent member
  | infinity negative =>
    rcases List.mem_append.mp member with member | member
    · exact isWordChar_of_mem_sign member
    · exact isWordChar_of_mem_infinity member
  | nan => exact List.all_eq_true.mp (by decide) c member

theorem isWordChar_of_mem_bool {b : Bool} {c : Char}
    (member : c ∈ (if b then "true" else "false").toList) : isWordChar c := by
  cases b <;> exact List.all_eq_true.mp (by decide) c member

theorem isWordChar_of_mem_null {c : Char} (member : c ∈ "null".toList) : isWordChar c :=
  List.all_eq_true.mp (by decide) c member

theorem not_isBlank_of_isWordChar {c : Char} (h : isWordChar c) : isBlank c = false := by
  refine Bool.eq_false_iff.mpr fun spacing => ?_
  simp only [isBlank, Bool.or_eq_true, beq_iff_eq] at spacing
  rcases spacing with ((rfl | rfl) | rfl) | rfl <;> exact absurd h (by decide)

theorem ne_quote_of_isWordChar {c : Char} (h : isWordChar c) : c ≠ '"' := by
  rintro rfl
  exact absurd h (by decide)

theorem squeeze_spacing {c : Char} (h : isBlank c) (rest : List Char) :
    squeeze .outside (c :: rest) = squeeze .outside rest := by
  rw [squeeze, if_pos ⟨rfl, h⟩]

theorem squeeze_outside {c : Char} (h : isBlank c = false) (unquoted : c ≠ '"') (rest : List Char) :
    squeeze .outside (c :: rest) = c :: squeeze .outside rest := by
  rw [squeeze, if_neg (by simp [h]), Region.next, if_neg unquoted]

theorem squeeze_word {word : List Char} (h : ∀ c ∈ word, isWordChar c) (rest : List Char) :
    squeeze .outside (word ++ rest) = word ++ squeeze .outside rest := by
  induction word with
  | nil => rfl
  | cons c word ih =>
    obtain ⟨first, others⟩ := List.forall_mem_cons.mp h
    rw [List.cons_append, squeeze_outside (not_isBlank_of_isWordChar first)
      (ne_quote_of_isWordChar first), ih others, List.cons_append]

theorem squeeze_lineBreak (indent : Option Int) (depth : Nat) (rest : List Char) :
    squeeze .outside (lineBreak indent depth ++ rest) = squeeze .outside rest := by
  cases indent with
  | none => rfl
  | some width =>
    rw [lineBreak, List.cons_append, squeeze_spacing rfl, Indent.blanks]
    induction (width * depth).toNat with
    | zero => rfl
    | succ n ih => rw [List.replicate_succ, List.cons_append, squeeze_spacing rfl, ih]

theorem squeeze_separator (indent : Option Int) (depth : Nat) (rest : List Char) :
    squeeze .outside (separator indent depth ++ rest) = ',' :: squeeze .outside rest := by
  cases indent with
  | none =>
    simp only [separator, List.cons_append, List.nil_append]
    rw [squeeze_outside rfl (by decide), squeeze_spacing rfl]
  | some width =>
    rw [separator, List.cons_append, squeeze_outside rfl (by decide), squeeze_lineBreak]

theorem squeeze_literal {c : Char} (unquoted : c ≠ '"') (unescaped : c ≠ '\\') (rest : List Char) :
    squeeze .literal (c :: rest) = c :: squeeze .literal rest := by
  rw [squeeze, if_neg (by simp), Region.next, if_neg unquoted, if_neg unescaped]

theorem squeeze_escaped (c : Char) (rest : List Char) :
    squeeze .literal ('\\' :: c :: rest) = '\\' :: c :: squeeze .literal rest := by
  simp [squeeze, Region.next]

theorem squeeze_escapeChar (c : Char) (rest : List Char) :
    squeeze .literal (escapeChar c ++ rest) = escapeChar c ++ squeeze .literal rest := by
  have form := isEscape_escapeChar c
  generalize escapeChar c = text at form
  cases form with
  | letter _ => exact squeeze_escaped _ rest
  | code bound =>
    obtain ⟨⟨highQuote, highEscape⟩, lowQuote, lowEscape⟩ :=
      digitChars_of_all (p := fun d => d ≠ '"' ∧ d ≠ '\\') (by decide) bound
    simp only [List.cons_append, List.nil_append]
    rw [squeeze_escaped, squeeze_literal (by decide) (by decide),
      squeeze_literal (by decide) (by decide), squeeze_literal highQuote highEscape,
      squeeze_literal lowQuote lowEscape]
  | plain unquoted unescaped _ => exact squeeze_literal unquoted unescaped rest

theorem squeeze_stringChars (s : String) (rest : List Char) :
    squeeze .outside (stringChars s ++ rest) = stringChars s ++ squeeze .outside rest := by
  have inside : ∀ text : List Char, squeeze .literal (text.flatMap escapeChar ++ '"' :: rest) =
      text.flatMap escapeChar ++ '"' :: squeeze .outside rest := by
    intro text
    induction text with
    | nil => simp [squeeze, Region.next]
    | cons c text ih =>
      rw [List.flatMap_cons, List.append_assoc, squeeze_escapeChar, ih, List.append_assoc]
  simp only [stringChars, List.cons_append, List.append_assoc, List.nil_append]
  rw [← inside, squeeze, if_neg (by simp [isBlank])]
  rfl

/-- Both texts are the same but for white space outside of strings. -/
def Alike (text text' : List Char) : Prop := squeeze .outside text = squeeze .outside text'

section

variable {text text' : List Char}

theorem Alike.word (h : Alike text text') {word : List Char} (isWord : ∀ c ∈ word, isWordChar c) :
    Alike (word ++ text) (word ++ text') := by
  rw [Alike, squeeze_word isWord, squeeze_word isWord, h]

theorem Alike.string (h : Alike text text') (s : String) :
    Alike (stringChars s ++ text) (stringChars s ++ text') := by
  rw [Alike, squeeze_stringChars, squeeze_stringChars, h]

theorem Alike.mark (h : Alike text text') {c : Char} (unblank : isBlank c = false)
    (unquoted : c ≠ '"') : Alike (c :: text) (c :: text') := by
  rw [Alike, squeeze_outside unblank unquoted, squeeze_outside unblank unquoted, h]

variable {indent indent' : Option Int}

theorem Alike.lineBreak (h : Alike text text') (depth : Nat) :
    Alike (lineBreak indent depth ++ text) (lineBreak indent' depth ++ text') := by
  rw [Alike, squeeze_lineBreak, squeeze_lineBreak, h]

theorem Alike.separator (h : Alike text text') (depth : Nat) :
    Alike (separator indent depth ++ text) (separator indent' depth ++ text') := by
  rw [Alike, squeeze_separator, squeeze_separator, h]

theorem Alike.colon (h : Alike text text') : Alike (':' :: ' ' :: text) (':' :: ' ' :: text') := by
  refine Alike.mark ?_ rfl (by decide)
  rw [Alike, squeeze_spacing rfl, squeeze_spacing rfl, h]

end

mutual

/-- The indent only decides about white space outside of strings. -/
theorem alike_chars (indent indent' : Option Int) : ∀ (value : Json) (depth : Nat)
    {text text' : List Char}, Alike text text' →
      Alike (chars indent depth value ++ text) (chars indent' depth value ++ text')
  | .null, _, _, _, h => h.word fun _ => isWordChar_of_mem_null
  | .bool _, _, _, _, h => h.word fun _ => isWordChar_of_mem_bool
  | .int _, _, _, _, h => h.word fun _ => isWordChar_of_mem_intChars
  | .float _, _, _, _, h => h.word fun _ => isWordChar_of_mem_float
  | .text s, _, _, _, h => h.string s
  | .array [], _, _, _, h => (h.mark (c := ']') rfl (by decide)).mark rfl (by decide)
  | .array (item :: rest), depth, _, _, h => by
    simp only [chars, List.cons_append, List.append_assoc, List.nil_append]
    refine Alike.mark (Alike.lineBreak ?_ _) rfl (by decide)
    refine alike_chars indent indent' item _ (alike_itemsChars indent indent' rest _ ?_)
    exact (h.mark rfl (by decide)).lineBreak _
  | .object [], _, _, _, h => (h.mark (c := '\x7d') rfl (by decide)).mark rfl (by decide)
  | .object ((name, value) :: rest), depth, _, _, h => by
    simp only [chars, List.cons_append, List.append_assoc, List.nil_append]
    refine Alike.mark (Alike.lineBreak ?_ _) rfl (by decide)
    refine Alike.string (Alike.colon ?_) name
    refine alike_chars indent indent' value _ (alike_membersChars indent indent' rest _ ?_)
    exact (h.mark rfl (by decide)).lineBreak _

theorem alike_itemsChars (indent indent' : Option Int) : ∀ (items : List Json) (depth : Nat)
    {text text' : List Char}, Alike text text' →
      Alike (itemsChars indent depth items ++ text) (itemsChars indent' depth items ++ text')
  | [], _, _, _, h => h
  | item :: rest, depth, _, _, h => by
    simp only [itemsChars, List.append_assoc]
    refine Alike.separator ?_ depth
    exact alike_chars indent indent' item depth (alike_itemsChars indent indent' rest depth h)

theorem alike_membersChars (indent indent' : Option Int) :
    ∀ (members : List (String × Json)) (depth : Nat) {text text' : List Char}, Alike text text' →
      Alike (membersChars indent depth members ++ text)
        (membersChars indent' depth members ++ text')
  | [], _, _, _, h => h
  | (name, value) :: rest, depth, _, _, h => by
    simp only [membersChars, List.append_assoc, List.cons_append]
    refine Alike.separator (Alike.string (Alike.colon ?_) name) depth
    exact alike_chars indent indent' value depth (alike_membersChars indent indent' rest depth h)

end

theorem alike_render (indent indent' : Option Int) (value : Json) :
    Alike (value.render indent).toList (value.render indent').toList := by
  have ends : Alike [] [] := rfl
  simpa [render] using alike_chars indent indent' value 0 ends

theorem newline_not_mem_word {word : List Char} (h : ∀ c ∈ word, isWordChar c) : '\n' ∉ word :=
  fun member => absurd (h _ member) (by decide)

theorem space_le_of_mem_escapeChar {c d : Char} (member : d ∈ escapeChar c) : 0x20 ≤ d.toNat := by
  have form := isEscape_escapeChar c
  generalize escapeChar c = text at form member
  cases form with
  | letter listed =>
    have printed : ∀ p ∈ escapeLetters, 0x20 ≤ p.1.toNat := List.all_iff_forall_prop.mp (by decide)
    rcases List.mem_cons.mp member with rfl | member
    · decide
    · rw [List.mem_singleton.mp member]
      exact printed _ listed
  | code bound =>
    obtain ⟨high, low⟩ := digitChars_of_all (p := fun d => 0x20 ≤ d.toNat) (by decide) bound
    simp only [List.mem_cons, List.not_mem_nil, or_false] at member
    rcases member with rfl | rfl | rfl | rfl | rfl | rfl
    all_goals first | exact high | exact low | decide
  | plain _ _ bound => rwa [List.mem_singleton.mp member]

theorem newline_not_mem_stringChars (s : String) : '\n' ∉ stringChars s := by
  simp only [stringChars, List.cons_append, List.mem_cons, List.mem_append, List.mem_flatMap,
    List.not_mem_nil, or_false]
  rintro (h | ⟨c, -, member⟩ | h)
  · exact absurd h (by decide)
  · exact absurd (space_le_of_mem_escapeChar member) (by decide)
  · exact absurd h (by decide)

mutual

theorem newline_not_mem_chars : ∀ (value : Json) (depth : Nat), '\n' ∉ chars none depth value
  | .null, _ => newline_not_mem_word fun _ => isWordChar_of_mem_null
  | .bool _, _ => newline_not_mem_word fun _ => isWordChar_of_mem_bool
  | .int _, _ => newline_not_mem_word fun _ => isWordChar_of_mem_intChars
  | .float _, _ => newline_not_mem_word fun _ => isWordChar_of_mem_float
  | .text s, _ => newline_not_mem_stringChars s
  | .array [], _ => by simp [chars]
  | .array (item :: rest), depth => by
    simp [chars, lineBreak, newline_not_mem_chars item, newline_not_mem_itemsChars rest]
  | .object [], _ => by simp [chars]
  | .object ((name, value) :: rest), depth => by
    simp [chars, lineBreak, newline_not_mem_stringChars, newline_not_mem_chars value,
      newline_not_mem_membersChars rest]

theorem newline_not_mem_itemsChars : ∀ (items : List Json) (depth : Nat),
    '\n' ∉ itemsChars none depth items
  | [], _ => List.not_mem_nil
  | item :: rest, depth => by
    simp [itemsChars, separator, newline_not_mem_chars item, newline_not_mem_itemsChars rest]

theorem newline_not_mem_membersChars : ∀ (members : List (String × Json)) (depth : Nat),
    '\n' ∉ membersChars none depth members
  | [], _ => List.not_mem_nil
  | (name, value) :: rest, depth => by
    simp [membersChars, separator, newline_not_mem_stringChars, newline_not_mem_chars value,
      newline_not_mem_membersChars rest]

end

theorem newline_not_mem_render (value : Json) : '\n' ∉ (value.render none).toList := by
  rw [render, String.toList_ofList]
  exact newline_not_mem_chars value 0

end TemplateActions.Json
