import Mathlib.Algebra.Group.Nat.Defs
import TemplateActions.Value.Literal

/-!
The notation of numbers. An integer is written as digits behind a minus sign if need be; a finite
floating-point number always has a fraction or an exponent besides, so the two are told apart by
their texts.
-/
namespace TemplateActions

namespace Decimal

theorem isDigit_of_mem_natChars {n : Nat} {c : Char} (member : c ∈ natChars n) : isDigit c := by
  have digit : c.isDigit = true := Nat.isDigit_of_mem_toDigits (by decide) (by decide) member
  simpa [isDigit, Char.isDigit, Char.le_def, UInt32.le_iff_toNat_le] using digit

theorem natChars_ne_nil (n : Nat) : natChars n ≠ [] := Nat.toDigits_ne_nil

theorem isDigit_of_mem_replicate {n : Nat} {c : Char} (member : c ∈ List.replicate n '0') :
    isDigit c := by
  rw [List.eq_of_mem_replicate member]
  rfl

structure IsNumeral (text : List Char) : Prop where
  digits : ∀ c ∈ text, isDigit c
  nonempty : text ≠ []

theorem isNumeral_natChars (n : Nat) : IsNumeral (natChars n) :=
  ⟨fun _ => isDigit_of_mem_natChars, natChars_ne_nil n⟩

theorem isDigits_zero : ∀ c ∈ ['0'], isDigit c := by simp [isDigit]

theorem isNumeral_zero : IsNumeral ['0'] := ⟨isDigits_zero, List.cons_ne_nil _ _⟩

theorem IsNumeral.take {text : List Char} (h : IsNumeral text) {n : Nat} (positive : 0 < n) :
    IsNumeral (text.take n) :=
  ⟨fun c member => h.digits c (List.mem_of_mem_take member), by
    simpa [List.take_eq_nil_iff, h.nonempty] using Nat.ne_of_gt positive⟩

theorem IsNumeral.append {text more : List Char} (h : IsNumeral text)
    (digits : ∀ c ∈ more, isDigit c) : IsNumeral (text ++ more) :=
  ⟨fun c member => (List.mem_append.mp member).elim (h.digits c) (digits c), by simp [h.nonempty]⟩

theorem span_digits {digits rest : List Char} (isDigits : ∀ c ∈ digits, isDigit c)
    (ends : ∀ c ∈ rest.head?, isDigit c = false) : span (digits ++ rest) = (digits, rest) := by
  have stops : rest.takeWhile isDigit = [] ∧ rest.dropWhile isDigit = rest := by
    cases rest with
    | nil => exact ⟨rfl, rfl⟩
    | cons c rest => simp [ends c rfl]
  rw [span, List.takeWhile_append_of_pos isDigits, List.dropWhile_append_of_pos isDigits, stops.1,
    stops.2, List.append_nil]

theorem intChars_eq (n : Int) :
    intChars n = (if n < 0 then ['-'] else []) ++ natChars n.natAbs := by
  cases n with
  | ofNat n => simp [intChars, Int.not_lt.mpr (Int.natCast_nonneg n)]
  | negSucc n => simp [intChars, Int.negSucc_lt_zero]

inductive IsFraction : List Char → Prop
  | absent : IsFraction []
  | written {digits : List Char} : (∀ c ∈ digits, isDigit c) → IsFraction ('.' :: digits)

inductive IsExponent : List Char → Prop
  | absent : IsExponent []
  | written {sign : Char} {digits : List Char} :
      sign = '+' ∨ sign = '-' → IsNumeral digits → IsExponent ('e' :: sign :: digits)

/-- The text of a finite floating-point number behind its sign: digits, and a fraction or an
exponent or both. -/
structure IsFloating (whole fraction exponent : List Char) : Prop where
  isNumeral : IsNumeral whole
  isFraction : IsFraction fraction
  isExponent : IsExponent exponent
  marked : fraction ≠ [] ∨ exponent ≠ []

theorem IsFloating.ofFraction {whole digits : List Char} (numeral : IsNumeral whole)
    (isDigits : ∀ c ∈ digits, isDigit c) : IsFloating whole ('.' :: digits) [] :=
  ⟨numeral, .written isDigits, .absent, .inl (List.cons_ne_nil _ _)⟩

end Decimal

namespace DecimalStyle

open Decimal

variable (style : DecimalStyle)

theorem isExponent_exponentChars (exponent : Int) :
    IsExponent ('e' :: style.exponentChars exponent) := by
  rw [exponentChars]
  refine .written (by split <;> simp) ⟨fun c member => ?_, ?_⟩
  · rcases List.mem_append.mp member with member | member
    · exact isDigit_of_mem_replicate member
    · exact isDigit_of_mem_natChars member
  · simp [natChars_ne_nil]

theorem exists_isFloating_pointChars {digits : List Char} (numeral : IsNumeral digits)
    (scale : Int) : ∃ whole fraction exponent, IsFloating whole fraction exponent ∧
      style.pointChars digits scale = whole ++ fraction ++ exponent := by
  have behind (n : Nat) : ∀ c ∈ digits.drop n, isDigit c := fun c member =>
    numeral.digits c (List.mem_of_mem_drop member)
  rw [pointChars]
  dsimp only
  split
  · split
    · refine ⟨_, _, [], .ofFraction (numeral.append fun _ => ?_) isDigits_zero,
        (List.append_nil _).symm⟩
      exact isDigit_of_mem_replicate
    · split
      · exact ⟨_, _, [], .ofFraction (numeral.take (Nat.succ_pos _)) (behind _),
          (List.append_nil _).symm⟩
      · refine ⟨['0'], _, [], .ofFraction isNumeral_zero fun c member => ?_,
          (List.append_nil _).symm⟩
        exact (List.mem_append.mp member).elim isDigit_of_mem_replicate (numeral.digits c)
  · refine ⟨digits.take 1, _, _, ⟨numeral.take Nat.one_pos, ?_,
      style.isExponent_exponentChars (scale + digits.length - 1), .inr (List.cons_ne_nil _ _)⟩, rfl⟩
    split
    · exact .absent
    · exact .written (behind 1)

theorem isNumeral_trim {digits : List Char} (numeral : IsNumeral digits) (scale : Int) :
    IsNumeral (trim digits scale).1 := by
  rw [trim]
  refine numeral.take ?_
  have : 0 < digits.length := List.length_pos_iff.mpr numeral.nonempty
  omega

theorem exists_isFloating_chars (negative : Bool) (significand : Nat) (exponent : Int) :
    ∃ whole fraction power, IsFloating whole fraction power ∧
      style.chars (.finite negative significand exponent) =
        (if negative then ['-'] else []) ++ (whole ++ fraction ++ power) := by
  rw [chars]
  cases Shortest.point? significand exponent with
  | some point =>
    obtain ⟨whole, fraction, power, floating, written⟩ := style.exists_isFloating_pointChars
      (isNumeral_trim (isNumeral_natChars point.digits) point.scale)
      (trim (natChars point.digits) point.scale).2
    exact ⟨whole, fraction, power, floating, by rw [← written]⟩
  | none => exact ⟨_, _, [], .ofFraction isNumeral_zero isDigits_zero, rfl⟩

end DecimalStyle
namespace Value

theorem isWritable_int_iff {n : Int} : (int n).isWritable ↔ n.natAbs < 10 ^ digitLimit := by
  rw [isWritable, decide_eq_true_iff]
  exact Nat.length_toDigits_le_iff (by decide) (by decide)

end Value
end TemplateActions
