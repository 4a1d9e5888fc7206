import Mathlib.Data.Bool.AllAny
import Mathlib.Data.List.TakeWhile
import Mathlib.Tactic.IntervalCases
import TemplateActions.Proofs.Number.Notation
import TemplateActions.Yaml.Scalar.Value

/-!
Numbers in JSON notation as plain scalars. An integer has the tag of integers and is read as
itself, unless it has too many digits; a finite floating-point number has the tag of those and is
read as one.
-/
namespace TemplateActions

namespace Decimal

theorem mem_of_isDigit {c : Char} (digit : isDigit c) : c ∈ "0123456789".toList := by
  have bounds : 48 ≤ c.toNat ∧ c.toNat ≤ 57 := by
    simpa [isDigit, Char.le_def, UInt32.le_iff_toNat_le] using digit
  rw [← Char.ofNat_toNat c]
  generalize c.toNat = n at bounds
  obtain ⟨least, most⟩ := bounds
  interval_cases n <;> decide

theorem ne_of_isDigit {c d : Char} (digit : isDigit c) (other : isDigit d = false) : c ≠ d := by
  rintro rfl
  exact Bool.false_ne_true (other.symm.trans digit)

end Decimal

namespace Yaml

open Decimal

def isNumberChar (c : Char) : Bool := isDigit c || c == '.' || c == '+' || c == '-' || c == 'e'

theorem isNumberChar_of_isDigit {c : Char} (digit : isDigit c) : isNumberChar c := by
  simp [isNumberChar, digit]

theorem mem_of_isNumberChar {c : Char} (h : isNumberChar c) : c ∈ "0123456789.+-e".toList := by
  simp only [isNumberChar, Bool.or_eq_true, beq_iff_eq] at h
  rcases h with (((digit | rfl) | rfl) | rfl) | rfl
  · have within : "0123456789".toList ⊆ "0123456789.+-e".toList := by decide
    exact within (mem_of_isDigit digit)
  all_goals decide

theorem numberChar_spec {c : Char} (h : isNumberChar c) :
    c.toLower = c ∧ (c != '_') = true ∧ Lines.isBlank c = false := by
  have each : ∀ c ∈ "0123456789.+-e".toList,
      c.toLower = c ∧ (c != '_') = true ∧ Lines.isBlank c = false :=
    List.all_iff_forall_prop.mp (by decide)
  exact each c (mem_of_isNumberChar h)

theorem isNumberChar_of_mem_sign {negative : Prop} [Decidable negative] {c : Char}
    (member : c ∈ if negative then ['-'] else []) : isNumberChar c := by
  split at member
  · rw [List.mem_singleton.mp member]
    rfl
  · nomatch member

theorem isNumberChar_of_isFloating {whole fraction exponent : List Char}
    (h : IsFloating whole fraction exponent) :
    ∀ c ∈ whole ++ fraction ++ exponent, isNumberChar c := by
  intro c member
  rcases List.mem_append.mp member with member | member
  · rcases List.mem_append.mp member with member | member
    · exact isNumberChar_of_isDigit (h.isNumeral.digits c member)
    · obtain _ | digits := h.isFraction
      · nomatch member
      · rcases List.mem_cons.mp member with rfl | member
        · rfl
        · exact isNumberChar_of_isDigit (digits c member)
  · obtain _ | ⟨sign, numeral⟩ := h.isExponent
    · nomatch member
    · rcases List.mem_cons.mp member with rfl | member
      · rfl
      rcases List.mem_cons.mp member with rfl | member
      · rcases sign with rfl | rfl <;> rfl
      · exact isNumberChar_of_isDigit (numeral.digits c member)

section

variable {text : List Char}

theorem lower_eq (h : ∀ c ∈ text, isNumberChar c) : Scalar.lower text = text :=
  (List.map_congr_left fun c member => (numberChar_spec (h c member)).1).trans (List.map_id text)

theorem filter_eq (h : ∀ c ∈ text, isNumberChar c) : text.filter (· != '_') = text :=
  List.filter_eq_self.mpr fun c member => (numberChar_spec (h c member)).2.1

theorem dropWhile_isBlank_eq (h : ∀ c ∈ text, isNumberChar c) :
    text.dropWhile Lines.isBlank = text := by
  cases text with
  | nil => rfl
  | cons c rest =>
    refine List.dropWhile_cons_of_neg ?_
    rw [(numberChar_spec (h c List.mem_cons_self)).2.2]
    exact Bool.false_ne_true

theorem trim_eq (h : ∀ c ∈ text, isNumberChar c) : Lines.trim text = text := by
  have backward : ∀ c ∈ text.reverse, isNumberChar c :=
    fun c member => h c (List.mem_reverse.mp member)
  rw [Lines.trim, dropWhile_isBlank_eq h, Lines.trimRight, dropWhile_isBlank_eq backward,
    List.reverse_reverse]

structure IsBody (body : List Char) : Prop where
  chars : ∀ c ∈ body, isNumberChar c
  digit : ∃ c rest, body = c :: rest ∧ isDigit c

theorem IsNumeral.isBody {digits : List Char} (h : IsNumeral digits) : IsBody digits where
  chars c member := isNumberChar_of_isDigit (h.digits c member)
  digit := by
    obtain ⟨c, rest, rfl⟩ := List.exists_cons_of_ne_nil h.nonempty
    exact ⟨c, rest, rfl, h.digits c List.mem_cons_self⟩

theorem IsFloating.isBody {whole fraction exponent : List Char}
    (h : IsFloating whole fraction exponent) : IsBody (whole ++ fraction ++ exponent) where
  chars := isNumberChar_of_isFloating h
  digit := by
    obtain ⟨c, rest, rfl⟩ := List.exists_cons_of_ne_nil h.isNumeral.nonempty
    exact ⟨c, rest ++ fraction ++ exponent, rfl, h.isNumeral.digits c List.mem_cons_self⟩

def signed (negative : Bool) (body : List Char) : List Char :=
  (if negative then ['-'] else []) ++ body

variable {body : List Char} (negative : Bool)

theorem isNumberChar_of_mem_signed (h : IsBody body) : ∀ c ∈ signed negative body, isNumberChar c :=
  fun c member => (List.mem_append.mp member).elim isNumberChar_of_mem_sign (h.chars c)

theorem sign_body (h : IsBody body) : Scalar.sign body = (false, body) := by
  obtain ⟨c, rest, rfl, digit⟩ := h.digit
  simp [Scalar.sign, ne_of_isDigit digit (d := '-') rfl, ne_of_isDigit digit (d := '+') rfl]

theorem sign_signed (h : IsBody body) : Scalar.sign (signed negative body) = (negative, body) := by
  cases negative with
  | false => exact sign_body h
  | true => rfl

theorem withoutSign_signed (h : IsBody body) :
    Schema.withoutSign (signed negative body) = body := by
  cases negative with
  | false =>
    obtain ⟨c, rest, rfl, digit⟩ := h.digit
    simp [signed, Schema.withoutSign, ne_of_isDigit digit (d := '-') rfl,
      ne_of_isDigit digit (d := '+') rfl]
  | true => rfl

theorem numeral_signed (h : IsBody body) :
    Scalar.numeral (signed negative body) = .ok (negative, body) := by
  have nonempty : (signed negative body).isEmpty = false := by
    obtain ⟨c, rest, rfl, -⟩ := h.digit
    cases negative <;> rfl
  rw [Scalar.numeral, filter_eq (isNumberChar_of_mem_signed negative h), nonempty, if_neg nofun,
    sign_signed negative h]

theorem exists_signed_eq_cons (h : IsBody body) :
    ∃ c rest, signed negative body = c :: rest ∧ (isDigit c ∨ c = '-') := by
  cases negative with
  | false =>
    obtain ⟨c, rest, rfl, digit⟩ := h.digit
    exact ⟨c, rest, rfl, .inl digit⟩
  | true => exact ⟨'-', body, rfl, .inr rfl⟩

def isOther (word : List Char) : Bool := word.head?.all fun c => !isDigit c && c != '-'

theorem beq_signed (h : IsBody body) {word : List Char} (other : isOther word) :
    (signed negative body == word) = false ∧ (word == signed negative body) = false := by
  have ne : signed negative body ≠ word := by
    obtain ⟨c, rest, isText, start⟩ := exists_signed_eq_cons negative h
    rintro rfl
    rw [isText] at other
    rcases start with digit | rfl
    · simp [isOther, digit] at other
    · nomatch other
  exact ⟨beq_eq_false_iff_ne.mpr ne, beq_eq_false_iff_ne.mpr ne.symm⟩

theorem isFloat_signed (h : IsBody body) :
    Schema.isFloat (signed negative body) = Schema.isDecimal body := by
  have isNaN : Schema.isNaN (signed negative body) = false := by
    have other (word : List Char) (h' : isOther word) := (beq_signed negative h h').1
    rw [Schema.isNaN, other _ rfl, other _ rfl, other _ rfl]
    rfl
  have isInfinity : Schema.isInfinity body = false := by
    have other (word : List Char) (h' : isOther word) : (body == word) = false :=
      (beq_signed false h h').1
    rw [Schema.isInfinity, other _ rfl, other _ rfl, other _ rfl]
    rfl
  rw [Schema.isFloat, isNaN, withoutSign_signed negative h, isInfinity, Bool.or_self, Bool.false_or]

theorem tagOf_signed (h : IsBody body)
    (number : Schema.isDecimal body ∨ Schema.isInt (signed negative body)) :
    Schema.tagOf (signed negative body) = if Schema.isDecimal body then .float else .int := by
  have nonempty : (signed negative body).isEmpty = false := by
    obtain ⟨c, rest, isText, -⟩ := exists_signed_eq_cons negative h
    rw [isText]
    rfl
  have noWord (words : List String) (others : ∀ word ∈ words, isOther word.toList) :
      words.any (·.toList == signed negative body) = false :=
    List.any_eq_false.mpr fun word member =>
      by simp [(beq_signed negative h (others word member)).2]
  rw [Schema.tagOf, nonempty, noWord _ (by decide), noWord _ (by decide), isFloat_signed negative h]
  simp only [Bool.or_self, Bool.false_eq_true, if_false]
  rcases number with number | number <;> rw [number] <;> simp

theorem isDecimal_digits (isDigits : ∀ c ∈ body, isDigit c) : Schema.isDecimal body = false := by
  cases body with
  | nil => rfl
  | cons c rest =>
    obtain ⟨first, others⟩ := List.forall_mem_cons.mp isDigits
    have numerals : rest.dropWhile Schema.isNumeral = [] :=
      List.dropWhile_eq_nil_iff.mpr fun d member => by simp [Schema.isNumeral, others d member]
    rw [Schema.isDecimal, if_pos first, numerals]
    rfl

theorem hexDigit?_digit {c : Char} (digit : isDigit c) :
    Escape.hexDigit? c = some (c.toNat - '0'.toNat) ∧ c.toNat - '0'.toNat < 10 := by
  have each : ∀ c ∈ "0123456789".toList,
      Escape.hexDigit? c = some (c.toNat - '0'.toNat) ∧ c.toNat - '0'.toNat < 10 :=
    List.all_iff_forall_prop.mp (by decide)
  exact each c (mem_of_isDigit digit)

theorem digits?_eq (isDigits : ∀ c ∈ body, isDigit c) (seen : Nat) :
    Scalar.digits? 10 seen body = some (Nat.ofDigitChars 10 body seen) := by
  induction body generalizing seen with
  | nil => rfl
  | cons c rest ih =>
    obtain ⟨first, others⟩ := List.forall_mem_cons.mp isDigits
    obtain ⟨isValue, bound⟩ := hexDigit?_digit first
    rw [Scalar.digits?, isValue]
    dsimp only
    rw [if_pos bound, ih others, Nat.ofDigitChars_cons, Nat.mul_comm]

theorem isDigits_numeral (h : IsNumeral body) : Schema.isDigits 10 body = true := by
  have nonempty : body.isEmpty = false := by simpa using h.nonempty
  rw [Schema.isDigits, nonempty, Bool.not_false, Bool.true_and, List.all_eq_true]
  intro c member
  obtain ⟨isValue, bound⟩ := hexDigit?_digit (h.digits c member)
  rw [Schema.isDigitOf, isValue, Option.any_some, decide_eq_true bound, Bool.or_true]

theorem isInt_signed (h : IsNumeral body) : Schema.isInt (signed negative body) = true := by
  have isBody := IsNumeral.isBody h
  have start : ((signed negative body).head? == some '_') = false := by
    obtain ⟨c, rest, isText, digit | rfl⟩ := exists_signed_eq_cons negative isBody
    · simp [isText, ne_of_isDigit digit (d := '_') rfl]
    · rw [isText]
      rfl
  rw [Schema.isInt, start, if_neg nofun, withoutSign_signed negative isBody]
  split
  case h_4 => exact isDigits_numeral h
  -- A letter behind the zero would have to be a digit.
  all_goals exact absurd (h.digits _ (List.mem_cons_of_mem _ List.mem_cons_self)) (by decide)

theorem intOf?_numeral (h : IsNumeral body) (few : body.length ≤ Value.digitLimit) :
    Scalar.intOf? 10 body = some (Nat.ofDigitChars 10 body 0 : Nat) := by
  have isBody := IsNumeral.isBody h
  have nonempty : body.isEmpty = false := by simpa using h.nonempty
  rw [Scalar.intOf?, trim_eq isBody.chars, sign_body isBody]
  dsimp only
  rw [nonempty, decide_eq_false (Nat.not_lt.mpr few), digits?_eq h.digits]
  rfl

theorem int_signed (h : IsNumeral body) (few : body.length ≤ Value.digitLimit) :
    Scalar.int (signed negative body) = .ok (.int
      (if negative then -(Nat.ofDigitChars 10 body 0 : Nat)
        else (Nat.ofDigitChars 10 body 0 : Nat))) := by
  rw [Scalar.int, numeral_signed negative (IsNumeral.isBody h)]
  dsimp only
  split
  · next read isRead =>
    split at isRead
    case h_4 =>
      rw [intOf?_numeral h few] at isRead
      cases isRead
      rfl
    all_goals exact absurd (h.digits _ (List.mem_cons_of_mem _ List.mem_cons_self)) (by decide)
  · next unread =>
    split at unread
    case h_4 =>
      rw [intOf?_numeral h few] at unread
      cases unread
    all_goals exact absurd (h.digits _ (List.mem_cons_of_mem _ List.mem_cons_self)) (by decide)

end

theorem intChars_eq_signed (n : Int) : intChars n = signed (n < 0) (natChars n.natAbs) := by
  rw [intChars_eq, signed]
  simp

theorem value?_intChars {n : Int} (writable : (Value.int n).isWritable) :
    Scalar.value? (Schema.tagOf (intChars n)) (intChars n) = some (.ok (.int n)) := by
  have numeral := isNumeral_natChars n.natAbs
  have few : (natChars n.natAbs).length ≤ Value.digitLimit := by
    simpa [Value.isWritable] using writable
  have same : (if decide (n < 0) then -(n.natAbs : Int) else n.natAbs) = n := by
    by_cases below : n < 0
    · rw [if_pos (decide_eq_true below)]
      omega
    · rw [if_neg (by simpa using below)]
      omega
  rw [intChars_eq_signed, tagOf_signed _ (IsNumeral.isBody numeral) (.inr (isInt_signed _ numeral)),
    isDecimal_digits numeral.digits, if_neg Bool.false_ne_true, Scalar.value?,
    int_signed _ numeral few, natChars, Nat.ofDigitChars_toDigits (by decide) (by decide), same]

section

variable {whole fraction exponent : List Char}

theorem isNumeral_of_isDigit {digits : List Char} (isDigits : ∀ c ∈ digits, isDigit c) :
    ∀ c ∈ digits, Schema.isNumeral c :=
      fun c member => by simp [Schema.isNumeral, isDigits c member]

theorem isExponent_eq (h : IsExponent exponent) (written : exponent ≠ []) :
    Schema.isExponent false exponent = true := by
  obtain _ | @⟨sign, digits, isSign, numeral⟩ := h
  · exact absurd rfl written
  · have unsigned : Schema.withoutSign (sign :: digits) = digits := by
      rcases isSign with rfl | rfl <;> rfl
    have nonempty : digits.isEmpty = false := by simpa using numeral.nonempty
    rw [Schema.isExponent, unsigned, nonempty, List.all_eq_true.mpr numeral.digits]
    rfl

theorem dropWhile_exponent (h : IsExponent exponent) :
    exponent.dropWhile Schema.isNumeral = exponent := by
  cases h <;> rfl

theorem isDecimal_floating (h : IsFloating whole fraction exponent) :
    Schema.isDecimal (whole ++ fraction ++ exponent) = true := by
  obtain ⟨⟨isDigits, nonempty⟩, isFraction, isExponent, marked⟩ := h
  obtain ⟨c, digits, rfl⟩ := List.exists_cons_of_ne_nil nonempty
  obtain ⟨first, others⟩ := List.forall_mem_cons.mp isDigits
  rw [List.append_assoc, List.cons_append, Schema.isDecimal, if_pos first,
    List.dropWhile_append_of_pos (isNumeral_of_isDigit others)]
  obtain _ | @⟨behind, behindDigits⟩ := isFraction
  · have written : exponent ≠ [] := by simpa using marked
    rw [List.nil_append, dropWhile_exponent isExponent]
    have is := isExponent_eq isExponent written
    cases isExponent with
    | absent => exact absurd rfl written
    | written => exact is
  · rw [List.cons_append, List.dropWhile_cons_of_neg (by decide)]
    have tail : (behind ++ exponent).dropWhile Schema.isNumeral = exponent := by
      rw [List.dropWhile_append_of_pos (isNumeral_of_isDigit behindDigits),
        dropWhile_exponent isExponent]
    simp only [tail]
    by_cases written : exponent = []
    · simp [written]
    · rw [isExponent_eq isExponent written, Bool.or_true]

theorem head?_exponent (h : IsExponent exponent) : ∀ c ∈ exponent.head?, isDigit c = false := by
  cases h with
  | absent => nofun
  | written =>
    rintro c ⟨⟩
    rfl

theorem exists_decimal? (h : IsFloating whole fraction exponent) (negative : Bool) :
    ∃ x, Scalar.decimal? negative (whole ++ fraction ++ exponent) = some x := by
  obtain ⟨⟨isDigits, nonempty⟩, isFraction, isExponent, -⟩ := h
  have ends := head?_exponent isExponent
  have isNat : ∀ digits, IsNumeral digits → nat? digits = some (value digits) := by
    intro digits numeral
    rw [nat?, List.all_eq_true.mpr numeral.digits]
    simp [numeral.nonempty]
  rw [List.append_assoc, Scalar.decimal?]
  obtain _ | @⟨behind, behindDigits⟩ := isFraction
  · rw [List.nil_append, span_digits isDigits ends]
    obtain _ | ⟨rfl | rfl, numeral⟩ := isExponent
    · simp [nonempty]
    all_goals simp [nonempty, Scalar.sign, isNat _ numeral]
  · have point : ∀ d ∈ ('.' :: behind ++ exponent).head?, isDigit d = false := by
      rintro d ⟨⟩
      rfl
    rw [span_digits isDigits point]
    simp only [List.cons_append, span_digits behindDigits ends]
    obtain _ | ⟨rfl | rfl, numeral⟩ := isExponent
    · simp [nonempty]
    all_goals simp [nonempty, Scalar.sign, isNat _ numeral]

theorem exists_float (h : IsFloating whole fraction exponent) (negative : Bool) :
    ∃ x, Scalar.float (signed negative (whole ++ fraction ++ exponent)) = .ok (.float x) := by
  obtain ⟨x, isDecimal⟩ := exists_decimal? h false
  have isBody := IsFloating.isBody h
  have other (word : List Char) (h' : isOther word) :
      (whole ++ fraction ++ exponent == word) = false :=
    (beq_signed false isBody h').1
  have isFloat : Scalar.floatOf? (whole ++ fraction ++ exponent) = some x := by
    rw [Scalar.floatOf?, trim_eq isBody.chars, sign_body isBody]
    dsimp only
    rw [other _ rfl, other _ rfl, other _ rfl]
    exact isDecimal
  refine ⟨if negative then x.neg else x, ?_⟩
  rw [Scalar.float, lower_eq (isNumberChar_of_mem_signed negative isBody),
    numeral_signed negative isBody]
  dsimp only
  rw [other _ rfl, other _ rfl, isFloat]
  rfl

end

def refloat (x : Binary64) : Binary64 :=
  match Scalar.float (DecimalStyle.document.chars x) with
  | .ok (.float y) => y
  | _ => x

theorem value?_float {x : Binary64} (finite : x.isFinite) :
    Scalar.value? (Schema.tagOf (DecimalStyle.document.chars x)) (DecimalStyle.document.chars x) =
      some (.ok (.float (refloat x))) := by
  cases x with
  | finite negative significand power =>
    obtain ⟨whole, fraction, exponent, floating, written⟩ :=
      DecimalStyle.document.exists_isFloating_chars negative significand power
    rw [← signed] at written
    obtain ⟨y, isFloat⟩ := exists_float floating negative
    have decimal := isDecimal_floating floating
    rw [refloat, written, tagOf_signed _ (IsFloating.isBody floating) (.inl decimal),
      if_pos decimal,
      Scalar.value?, isFloat]
  | infinity => nomatch finite
  | nan => nomatch finite

end Yaml
end TemplateActions
