import TemplateActions.Path
import TemplateActions.Proofs.Number.Notation

/-!
The texts of paths. A step starts with a point and holds no other one; the letters of a field and
the digits of an index end where the next mark stands. So a text is read as one sequence of steps
only, and different paths from the same start have different texts.
-/
namespace TemplateActions

theorem Field.text_injective {slot slot' : Field} (h : slot.text = slot'.text) : slot = slot' := by
  cases slot <;> cases slot' <;> simp_all [Field.text]

theorem Field.isWord (slot : Field) : slot.text.toList.all Char.isAlpha := by
  cases slot <;> decide

theorem Decimal.natChars_injective {m n : Nat} (same : natChars m = natChars n) : m = n := by
  calc
    m = Nat.ofDigitChars 10 (natChars m) 0 := Nat.ofDigitChars_ten_toDigits.symm
    _ = Nat.ofDigitChars 10 (natChars n) 0 := by rw [same]
    _ = n := Nat.ofDigitChars_ten_toDigits

/-- Two words of one kind of characters end at the same place, if other characters follow. -/
theorem words_eq {p : Char → Bool} {word word' rest rest' : List Char} (inside : ∀ c ∈ word, p c)
    (inside' : ∀ c ∈ word', p c) (stops : ∀ c ∈ rest.head?, p c = false)
    (stops' : ∀ c ∈ rest'.head?, p c = false) (same : word ++ rest = word' ++ rest') :
    word = word' ∧ rest = rest' := by
  have ends {rest : List Char} (stops : ∀ c ∈ rest.head?, p c = false) : rest.takeWhile p = [] := by
    cases rest with
    | nil => rfl
    | cons c rest => simp [stops c rfl]
  have words := congrArg (List.takeWhile p) same
  rw [List.takeWhile_append_of_pos inside, List.takeWhile_append_of_pos inside', ends stops,
    ends stops', List.append_nil, List.append_nil] at words
  subst words
  exact ⟨rfl, List.append_cancel_left same⟩

namespace Step

def indexChars : Step → List Char
  | .field _ => []
  | .item _ index => '[' :: (Decimal.natChars index ++ [']'])

def fieldChars : Step → List Char
  | .field slot | .item slot _ => slot.text.toList

theorem toList_text (s : Step) : s.text.toList = '.' :: (s.fieldChars ++ s.indexChars) := by
  cases s <;> simp [text, fieldChars, indexChars, Decimal.ofNat]

/-- Holds if no step goes on into the text: it is empty, or another step starts. -/
def Starts (rest : List Char) : Prop := ∀ c ∈ rest.head?, c = '.'

theorem indexChars_stops (s : Step) {rest : List Char} (starts : Starts rest) :
    ∀ c ∈ (s.indexChars ++ rest).head?, c.isAlpha = false := by
  cases s with
  | field slot =>
    intro c first
    rw [starts c first]
    rfl
  | item slot index =>
    rintro c ⟨⟩
    rfl

theorem not_starts_bracket (rest : List Char) : ¬ Starts ('[' :: rest) := fun starts =>
  absurd (starts '[' rfl) (by decide)

theorem eq_of_text {s s' : Step} {rest rest' : List Char} (starts : Starts rest)
    (starts' : Starts rest') (same : s.text.toList ++ rest = s'.text.toList ++ rest') :
    s = s' ∧ rest = rest' := by
  have letters (s : Step) : ∀ c ∈ s.fieldChars, c.isAlpha := by
    cases s <;> exact List.all_eq_true.mp (Field.isWord _)
  have closing (rest : List Char) : ∀ c ∈ (']' :: rest).head?, Decimal.isDigit c = false := by
    rintro c ⟨⟩
    rfl
  simp only [toList_text, List.cons_append, List.cons.injEq, true_and, List.append_assoc] at same
  obtain ⟨fields, behind⟩ := words_eq (letters s) (letters s') (s.indexChars_stops starts)
    (s'.indexChars_stops starts') same
  cases s with
  | field slot =>
    cases s' with
    | field slot' =>
      obtain rfl := Field.text_injective (String.toList_inj.mp fields)
      exact ⟨rfl, behind⟩
    | item slot' index' =>
      subst behind
      exact absurd starts (not_starts_bracket _)
  | item slot index =>
    cases s' with
    | field slot' =>
      subst behind
      exact absurd starts' (not_starts_bracket _)
    | item slot' index' =>
      obtain rfl := Field.text_injective (String.toList_inj.mp fields)
      simp only [indexChars, List.cons_append, List.cons.injEq, true_and, List.append_assoc,
        List.nil_append] at behind
      obtain ⟨digits, closed⟩ := words_eq (fun _ => Decimal.isDigit_of_mem_natChars)
        (fun _ => Decimal.isDigit_of_mem_natChars) (closing _) (closing _) behind
      obtain rfl := Decimal.natChars_injective digits
      exact ⟨rfl, (List.cons.inj closed).2⟩

def chars (steps : List Step) : List Char := steps.flatMap fun s => s.text.toList

theorem chars_cons (s : Step) (steps : List Step) :
    chars (s :: steps) = s.text.toList ++ chars steps :=
  List.flatMap_cons

theorem chars_append (steps more : List Step) : chars (steps ++ more) = chars steps ++ chars more :=
  List.flatMap_append

theorem starts_nil : Starts [] := nofun

theorem starts_append {rest : List Char} (starts : Starts rest) (steps : List Step) :
    Starts (chars steps ++ rest) := by
  cases steps with
  | nil => exact starts
  | cons s later =>
    intro c first
    rw [chars_cons, toList_text] at first
    exact (Option.some.inj first).symm

theorem starts_chars (steps : List Step) : Starts (chars steps) := by
  rw [← List.append_nil (chars steps)]
  exact starts_append starts_nil steps

/-- If the text of some steps goes on behind the text of others, and where one of these ends, then
the steps go on behind the others. -/
theorem prefix_of_chars {steps steps' : List Step} {rest : List Char} (starts : Starts rest)
    (same : chars steps' = chars steps ++ rest) : steps <+: steps' := by
  induction steps generalizing steps' with
  | nil => exact List.nil_prefix
  | cons s later ih =>
    cases steps' with
    | nil => simp [chars, toList_text] at same
    | cons s' later' =>
      rw [chars_cons, chars_cons, List.append_assoc] at same
      obtain ⟨rfl, behind⟩ := eq_of_text (starts_chars later') (starts_append starts later) same
      exact (List.prefix_cons_inj _).mpr (ih behind)

theorem chars_injective {steps steps' : List Step} (same : chars steps = chars steps') :
    steps = steps' := by
  have before : steps <+: steps' := prefix_of_chars starts_nil
      (same.symm.trans (List.append_nil _).symm)
  have after : steps' <+: steps := prefix_of_chars starts_nil (same.trans (List.append_nil _).symm)
  exact before.eq_of_length_le after.length_le

end Step

theorem Path.toList_text (path : Path) :
    path.text.toList = path.start.toList ++ Step.chars path.steps := by
  rw [text, String.toList_append, String.toList_join, List.flatMap_map]
  rfl

theorem Path.text_inj {path path' : Path} (start : path.start = path'.start) :
    path.text = path'.text ↔ path = path' := by
  refine ⟨fun same => ?_, fun same => same ▸ rfl⟩
  obtain ⟨first, steps⟩ := path
  obtain ⟨first', steps'⟩ := path'
  obtain rfl : first = first' := start
  have chars := congrArg String.toList same
  rw [toList_text, toList_text] at chars
  obtain rfl : steps = steps' := Step.chars_injective (List.append_cancel_left chars)
  rfl

end TemplateActions
