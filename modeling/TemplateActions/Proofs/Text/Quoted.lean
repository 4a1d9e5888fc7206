import Mathlib.Algebra.Group.Nat.Defs
import Mathlib.Tactic.SplitIfs
import TemplateActions.Text.Escape
import TemplateActions.Text.Quoted

/-!
Quoted literals stand on one line, and each character of a text can be read back from its escape,
whatever follows.
-/
namespace TemplateActions.Quoted

theorem hexDigit?_digitChar {d : Nat} (bound : d < 16) :
    Escape.hexDigit? (Nat.digitChar d) = some d := by
  revert d
  decide

def hexValue (digits : List Char) : Nat :=
  digits.foldl (fun n c => 16 * n + (Escape.hexDigit? c).getD 0) 0

theorem hexValue_concat (digits : List Char) (c : Char) :
    hexValue (digits ++ [c]) = 16 * hexValue digits + (Escape.hexDigit? c).getD 0 := by
  rw [hexValue, List.foldl_append]
  rfl

theorem hexValue_toDigits (n : Nat) : hexValue (Nat.toDigits 16 n) = n := by
  induction n using Nat.strongRecOn with
  | ind n ih =>
    by_cases small : n < 16
    · rw [Nat.toDigits_of_lt_base small]
      simp [hexValue, hexDigit?_digitChar small]
    · rw [Nat.toDigits_of_base_le (by decide) (by omega), hexValue_concat, ih _ (by omega),
        hexDigit?_digitChar (Nat.mod_lt n (by decide)), Option.getD_some, Nat.div_add_mod]

theorem hexValue_hexDigits (width n : Nat) : hexValue (hexDigits width n) = n := by
  have zeros (count : Nat) : hexValue (List.replicate count '0') = 0 := by
    induction count with
    | zero => rfl
    | succ count ih => rw [List.replicate_succ', hexValue_concat, ih]; rfl
  rw [hexDigits, hexValue, List.foldl_append, ← hexValue, zeros]
  exact hexValue_toDigits n

theorem length_hexDigits {width n : Nat} (positive : 0 < width) (bound : n < 16 ^ width) :
    (hexDigits width n).length = width := by
  have short := (Nat.length_toDigits_le_iff (by decide) positive).mpr bound
  rw [hexDigits, List.length_append, List.length_replicate]
  omega

theorem mem_toDigits {n : Nat} {c : Char} (member : c ∈ Nat.toDigits 16 n) :
    ∃ d < 16, c = Nat.digitChar d := by
  induction n using Nat.strongRecOn with
  | ind n ih =>
    by_cases small : n < 16
    · rw [Nat.toDigits_of_lt_base small, List.mem_singleton] at member
      exact ⟨n, small, member⟩
    · rw [Nat.toDigits_of_base_le (by decide) (by omega), List.mem_append,
        List.mem_singleton] at member
      rcases member with before | last
      · exact ih _ (by omega) before
      · exact ⟨n % 16, Nat.mod_lt n (by decide), last⟩

theorem newline_not_mem_hexDigits (width n : Nat) : '\n' ∉ hexDigits width n := by
  have digits : ∀ d < 16, '\n' ≠ Nat.digitChar d := by decide
  rw [hexDigits, List.mem_append, not_or]
  refine ⟨by simp, fun member => ?_⟩
  obtain ⟨d, bound, isDigit⟩ := mem_toDigits member
  exact digits d bound isDigit

def unescape : List Char → Char × List Char
  | '\\' :: 'n' :: rest => ('\n', rest)
  | '\\' :: 'r' :: rest => ('\r', rest)
  | '\\' :: 't' :: rest => ('\t', rest)
  | '\\' :: 'x' :: rest => (Char.ofNat (hexValue (rest.take 2)), rest.drop 2)
  | '\\' :: 'u' :: rest => (Char.ofNat (hexValue (rest.take 4)), rest.drop 4)
  | '\\' :: 'U' :: rest => (Char.ofNat (hexValue (rest.take 8)), rest.drop 8)
  | '\\' :: c :: rest => (c, rest)
  | c :: rest => (c, rest)
  | [] => ('\x00', [])

def IsQuote (c : Char) : Prop := c = '\'' ∨ c = '"'

theorem isQuote_quoteOf (text : List Char) : IsQuote (quoteOf text) := by
  rw [quoteOf]
  split
  · exact .inr rfl
  · exact .inl rfl

theorem hexDigits_append {width n : Nat} (positive : 0 < width) (bound : n < 16 ^ width)
    (rest : List Char) :
    hexValue ((hexDigits width n ++ rest).take width) = n ∧
      (hexDigits width n ++ rest).drop width = rest := by
  have length := length_hexDigits positive bound
  rw [List.take_left' length, List.drop_left' length]
  exact ⟨hexValue_hexDigits width n, rfl⟩

theorem unescape_escapeCode (c : Char) (rest : List Char) :
    unescape (escapeCode c.toNat ++ rest) = (c, rest) := by
  rw [escapeCode]
  split
  case isTrue bound =>
    obtain ⟨value, behind⟩ := hexDigits_append (by decide) (show c.toNat < 16 ^ 2 from bound) rest
    simp only [List.cons_append, unescape, value, behind, Char.ofNat_toNat]
  case isFalse =>
    split
    case isTrue bound =>
      obtain ⟨value, behind⟩ := hexDigits_append (by decide) (show c.toNat < 16 ^ 4 from bound) rest
      simp only [List.cons_append, unescape, value, behind, Char.ofNat_toNat]
    case isFalse =>
      have bound : c.toNat < 16 ^ 8 := c.val.toNat_lt
      obtain ⟨value, behind⟩ := hexDigits_append (by decide) bound rest
      simp only [List.cons_append, unescape, value, behind, Char.ofNat_toNat]

theorem unescape_escapeChar {quote : Char} (isQuote : IsQuote quote) (c : Char) (rest : List Char) :
    unescape (escapeChar quote c ++ rest) = (c, rest) := by
  rw [escapeChar]
  split
  case isTrue special =>
    simp only [Bool.or_eq_true, decide_eq_true_eq] at special
    -- No quote is one of the letters of escapes, so behind a backslash it stands for itself.
    rcases special with rfl | rfl
    · rfl
    · rcases isQuote with rfl | rfl <;> rfl
  case isFalse plain =>
    simp only [Bool.or_eq_true, decide_eq_true_eq, not_or] at plain
    split
    case isTrue isFeed => subst isFeed; rfl
    split
    case isTrue isReturn => subst isReturn; rfl
    split
    case isTrue isTab => subst isTab; rfl
    split
    case isTrue =>
      rw [List.singleton_append, unescape.eq_def]
      split <;> simp_all
    case isFalse => exact unescape_escapeCode c rest

theorem IsQuote.ne_newline {c : Char} (h : IsQuote c) : '\n' ≠ c := by
  rcases h with rfl | rfl <;> decide

theorem newline_not_mem_escapeCode (n : Nat) : '\n' ∉ escapeCode n := by
  rw [escapeCode]
  split_ifs <;> simp [newline_not_mem_hexDigits]

theorem newline_not_mem_escapeChar {quote : Char} (isQuote : IsQuote quote) (c : Char) :
    '\n' ∉ escapeChar quote c := by
  rw [escapeChar]
  split
  case isTrue special =>
    simp only [Bool.or_eq_true, decide_eq_true_eq] at special
    rcases special with rfl | rfl
    · decide
    · simp [isQuote.ne_newline]
  case isFalse =>
    split_ifs with isFeed
    · decide
    · decide
    · decide
    · exact fun member => isFeed (List.mem_singleton.mp member).symm
    · exact newline_not_mem_escapeCode c.toNat

theorem newline_not_mem_literal (text : String) : '\n' ∉ (literal text).toList := by
  have isQuote := isQuote_quoteOf text.toList
  have noQuote := isQuote.ne_newline
  rw [literal, String.toList_ofList, chars]
  simp only [List.cons_append, List.mem_cons, List.mem_append, List.mem_flatMap,
    List.not_mem_nil, noQuote,
    or_false, false_or, not_exists, not_and]
  exact fun c _ => newline_not_mem_escapeChar isQuote c

end TemplateActions.Quoted
