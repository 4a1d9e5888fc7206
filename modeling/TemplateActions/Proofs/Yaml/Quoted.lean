import TemplateActions.Proofs.Json.Spacing
import TemplateActions.Yaml.Scalar.Quoted

/-!
JSON strings as quoted scalars. Escapes are read as in JSON, but three characters that JSON writes
plainly end a line of structured text: blanks around them are dropped, one of them reads as a line
feed or a space, and a document marker behind them ends the document.
-/
namespace TemplateActions.Yaml

/-- What normalizing breaks makes of a character other than a carriage return. -/
def feed (c : Char) : Char := if c = '\x85' then '\n' else c

theorem normalizeBreaks_eq {text : List Char} (h : '\r' ∉ text) :
    normalizeBreaks text = text.map feed := by
  induction text with
  | nil => rfl
  | cons c rest ih =>
    rw [List.mem_cons, not_or] at h
    have other : c ≠ '\r' := fun same => h.1 same.symm
    rw [normalizeBreaks, ih h.2, List.map_cons, feed]
    · simp [other]
    · rintro _ rfl
      exact absurd rfl other

theorem feed_eq {c : Char} (h : c ≠ '\x85') : feed c = c := if_neg h

theorem map_feed_eq {text : List Char} (h : '\x85' ∉ text) : text.map feed = text := by
  induction text with
  | nil => rfl
  | cons c rest ih =>
    rw [List.mem_cons, not_or] at h
    rw [List.map_cons, feed_eq fun same => h.1 same.symm, ih h.2]

theorem atMarker_iff {mark : Char} {input : List Char} :
    atMarker mark input ↔ ∃ rest, input = mark :: mark :: mark :: rest ∧ atWordEnd rest := by
  rw [atMarker.eq_def]
  split
  · next a b c rest =>
    simp only [Bool.and_eq_true, beq_iff_eq, List.cons.injEq]
    constructor
    · rintro ⟨⟨⟨rfl, rfl⟩, rfl⟩, ends⟩
      exact ⟨rest, ⟨rfl, rfl, rfl, rfl⟩, ends⟩
    · rintro ⟨_, ⟨rfl, rfl, rfl, rfl⟩, ends⟩
      exact ⟨⟨⟨rfl, rfl⟩, rfl⟩, ends⟩
  · next short => exact iff_of_false nofun fun ⟨_, long, _⟩ => short _ _ _ _ long

theorem atMarker_cons_of_ne {mark a : Char} (h : a ≠ mark) (rest : List Char) :
    atMarker mark (a :: rest) = false := by
  refine Bool.eq_false_iff.mpr fun marked => ?_
  obtain ⟨_, same, -⟩ := atMarker_iff.mp marked
  exact h (List.cons.inj same).1

namespace Quoted

def folds (c : Char) : Bool := c == '\x85' || c == '\u2028' || c == '\u2029'

/-- Holds if a string goes on with a document marker, seen from behind a break. -/
def marks (mark : Char) : List Char → Bool
  | a :: b :: c :: rest =>
    a == mark && b == mark && c == mark && rest.head?.any fun d => d == ' ' || d == '\x85'
  | _ => false

theorem marks_iff {mark : Char} {text : List Char} :
    marks mark text ↔ ∃ rest, text = mark :: mark :: mark :: rest ∧
      rest.head?.any fun d => d == ' ' || d == '\x85' := by
  rw [marks.eq_def]
  split
  · next a b c rest =>
    simp only [Bool.and_eq_true, beq_iff_eq, List.cons.injEq]
    constructor
    · rintro ⟨⟨⟨rfl, rfl⟩, rfl⟩, ends⟩
      exact ⟨rest, ⟨rfl, rfl, rfl, rfl⟩, ends⟩
    · rintro ⟨_, ⟨rfl, rfl, rfl, rfl⟩, ends⟩
      exact ⟨⟨⟨rfl, rfl⟩, rfl⟩, ends⟩
  · next short => exact iff_of_false nofun fun ⟨_, long, _⟩ => short _ _ _ _ long

/-- The text that is read for a JSON string, if it can be read. -/
def reread? (pending : Pending) : List Char → Option (List Char)
  | [] => some pending.text
  | c :: rest =>
    if c = ' ' then reread? (pending.space c) rest
    else if folds c then
      if marks '-' rest || marks '.' rest then none else reread? (pending.lineBreak (feed c)) rest
    else (reread? .none rest).map (pending.text ++ c :: ·)

/-- The text of a JSON string behind its opening quote, with normalized breaks. -/
def written (text tail : List Char) : List Char :=
  (text.flatMap Json.escapeChar).map feed ++ '"' :: tail

theorem written_cons (c : Char) (text tail : List Char) :
    written (c :: text) tail = (Json.escapeChar c).map feed ++ written text tail := by
  simp [written]

theorem written_append (text tail : List Char) : written text tail = written text [] ++ tail := by
  simp [written]

theorem folds_eq_false {c : Char} (bound : c.toNat < 0x80) : folds c = false := by
  refine Bool.eq_false_iff.mpr fun folded => ?_
  simp only [folds, Bool.or_eq_true, beq_iff_eq] at folded
  rcases folded with (rfl | rfl) | rfl <;> exact absurd bound (by decide)

inductive IsWritten (c : Char) (rest : List Char) : List Char → Prop
  | letter {letter : Char} :
      (letter, c) ∈ Json.escapeLetters → IsWritten c rest ('\\' :: letter :: rest)
  | control : c.toNat < 0x20 → IsWritten c rest ('\\' :: 'u' :: '0' :: '0' ::
      Nat.digitChar (c.toNat / 16) :: Nat.digitChar (c.toNat % 16) :: rest)
  | plain : c ≠ '"' → c ≠ '\\' → 0x20 ≤ c.toNat → IsWritten c rest (feed c :: rest)

theorem isWritten_cons (c : Char) (text tail : List Char) :
    IsWritten c (written text tail) (written (c :: text) tail) := by
  rw [written_cons]
  have form := Json.isEscape_escapeChar c
  generalize Json.escapeChar c = escaped at form
  cases form with
  | letter listed =>
    have unfed : ∀ p ∈ Json.escapeLetters, feed p.1 = p.1 := List.all_iff_forall_prop.mp (by decide)
    rw [List.map_cons, List.map_cons, unfed _ listed]
    exact .letter listed
  | code bound =>
    obtain ⟨high, low⟩ := Json.digitChars_of_all (p := fun d => feed d = d) (by decide) bound
    simp only [List.map_cons, high, low]
    exact .control bound
  | plain unquoted unescaped bound => exact .plain unquoted unescaped bound

theorem written_cases (c : Char) (text tail : List Char) :
    (∃ rest, written (c :: text) tail = '\\' :: rest ∧ (c = '"' ∨ c = '\\' ∨ c.toNat < 0x20)) ∨
      (written (c :: text) tail = feed c :: written text tail ∧
        c ≠ '"' ∧ c ≠ '\\' ∧ 0x20 ≤ c.toNat) := by
  have form := isWritten_cons c text tail
  generalize written (c :: text) tail = input at form
  cases form with
  | letter listed =>
    have special : ∀ p ∈ Json.escapeLetters, p.2 = '"' ∨ p.2 = '\\' ∨ p.2.toNat < 0x20 :=
      List.all_iff_forall_prop.mp (by decide)
    exact .inl ⟨_, rfl, special _ listed⟩
  | control bound => exact .inl ⟨_, rfl, .inr (.inr bound)⟩
  | plain unquoted unescaped bound => exact .inr ⟨rfl, unquoted, unescaped, bound⟩

theorem written_eq_cons_iff {mark : Char} (isMark : mark = '-' ∨ mark = '.')
    {text tail rest : List Char} :
    written text tail = mark :: rest ↔ ∃ more, text = mark :: more ∧ rest = written more tail := by
  constructor
  · intro same
    cases text with
    | nil =>
      have := (List.cons.inj same).1
      rcases isMark with rfl | rfl <;> exact absurd this (by decide)
    | cons c more =>
      rcases written_cases c more tail with ⟨_, escaped, -⟩ | ⟨plain, -⟩
      · have := (List.cons.inj (escaped.symm.trans same)).1
        rcases isMark with rfl | rfl <;> exact absurd this (by decide)
      · obtain ⟨first, rfl⟩ := List.cons.inj (plain.symm.trans same)
        refine ⟨more, congrArg (· :: more) ?_, rfl⟩
        rw [feed] at first
        split at first
        · subst first
          rcases isMark with h | h <;> exact absurd h (by decide)
        · exact first
  · rintro ⟨more, rfl, rfl⟩
    rcases isMark with rfl | rfl <;> rfl

theorem atWordEnd_written (text tail : List Char) :
    atWordEnd (written text tail) = text.head?.any fun d => d == ' ' || d == '\x85' := by
  cases text with
  | nil => rfl
  | cons c more =>
    rcases written_cases c more tail with ⟨_, escaped, special⟩ | ⟨plain, -, -, bound⟩
    · have other : c ≠ ' ' ∧ c ≠ '\x85' := by
        constructor <;> intro same <;> rw [same] at special <;> exact absurd special (by decide)
      rw [escaped]
      simp [atWordEnd, isSpace, other]
    · have other : (c == '\n') = false ∧ (c == '\t') = false := by
        constructor <;> refine beq_eq_false_iff_ne.mpr fun same => ?_ <;> rw [same] at bound <;>
          exact absurd bound (by decide)
      rw [plain, atWordEnd, feed]
      by_cases feeds : c = '\x85'
      · simp [feeds, isSpace]
      · simp [feeds, isSpace, other]

theorem atMarker_written {mark : Char} (isMark : mark = '-' ∨ mark = '.') (text tail : List Char) :
    atMarker mark (written text tail) = marks mark text := by
  rw [Bool.eq_iff_iff, atMarker_iff, marks_iff]
  simp only [written_eq_cons_iff isMark]
  constructor
  · rintro ⟨rest, ⟨more, rfl, first⟩, ends⟩
    obtain ⟨more, rfl, second⟩ := (written_eq_cons_iff isMark).mp first.symm
    obtain ⟨more, rfl, rfl⟩ := (written_eq_cons_iff isMark).mp second.symm
    exact ⟨more, rfl, (atWordEnd_written more tail).symm.trans ends⟩
  · rintro ⟨more, rfl, ends⟩
    refine ⟨_, ⟨_, rfl, ?_⟩, (atWordEnd_written more tail).trans ends⟩
    symm
    rw [written_eq_cons_iff isMark]
    refine ⟨_, rfl, ?_⟩
    symm
    rw [written_eq_cons_iff isMark]
    exact ⟨_, rfl, rfl⟩

theorem double_letter {letter c : Char} (listed : (letter, c) ∈ Json.escapeLetters)
    (pending : Pending)
    (rest : List Char) :
    double pending ('\\' :: letter :: rest) =
      before (pending.codes ++ [c.toNat]) (double .none rest) := by
  simp only [Json.escapeLetters, List.mem_cons, Prod.mk.injEq, List.not_mem_nil, or_false] at listed
  rcases listed with h | h | h | h | h | h | h <;> rw [h.1, h.2] <;> rfl

theorem codePoint_control {n : Nat} (bound : n < 0x20) :
    codePoint ['0', '0', Nat.digitChar (n / 16), Nat.digitChar (n % 16)] = .ok n := by
  have digits : ∀ n < 0x20,
      Escape.hex? 0 4 ['0', '0', Nat.digitChar (n / 16), Nat.digitChar (n % 16)] =
        some (n, []) := by
    decide
  have small : n < 0x110000 := by omega
  simp only [codePoint, List.length_cons, List.length_nil, digits n bound, if_pos small]

theorem double_control {c : Char} (bound : c.toNat < 0x20) (pending : Pending) (rest : List Char) :
    double pending ('\\' :: 'u' :: '0' :: '0' :: Nat.digitChar (c.toNat / 16) ::
        Nat.digitChar (c.toNat % 16) :: rest) =
      before (pending.codes ++ [c.toNat]) (double .none rest) := by
  rw [double, beforeHex, codePoint_control bound]

theorem double_plain {c : Char} (pending : Pending) (unescaped : c ≠ '\\') (rest : List Char) :
    double pending (c :: rest) =
      if c == '"' then .ok (pending.codes, rest)
      else if isSpace c then double (pending.space c) rest
      else if isBreak c then
        if atDocumentMarker rest then .error .malformed else double (pending.lineBreak c) rest
      else before (pending.codes ++ [c.toNat]) (double .none rest) := by
  rw [double.eq_def]
  split <;> simp_all

theorem isBreak_feed {c : Char} (bound : 0x20 ≤ c.toNat) : isBreak (feed c) = folds c := by
  have other : (c == '\n') = false := by
    refine beq_eq_false_iff_ne.mpr fun same => ?_
    rw [same] at bound
    exact absurd bound (by decide)
  rw [feed]
  by_cases feeds : c = '\x85'
  · simp [feeds, folds, isBreak]
  · simp [feeds, folds, isBreak, other, beq_eq_false_iff_ne.mpr feeds]

theorem atDocumentMarker_written (text tail : List Char) :
    atDocumentMarker (written text tail) = (marks '-' text || marks '.' text) := by
  rw [atDocumentMarker, atMarker_written (.inl rfl), atMarker_written (.inr rfl)]

/-- A string is read as `reread?` says. -/
theorem double_written (text tail : List Char) (pending : Pending) :
    double pending (written text tail) =
      match reread? pending text with
      | some read => .ok (read.map Char.toNat, tail)
      | none => .error .malformed := by
  induction text generalizing pending with
  | nil => rfl
  | cons c text ih =>
    have taken (here : double pending (written (c :: text) tail) =
        before (pending.codes ++ [c.toNat]) (double .none (written text tail)))
        (visible : c ≠ ' ') (unfolded : folds c = false) :
        double pending (written (c :: text) tail) =
          match reread? pending (c :: text) with
          | some read => .ok (read.map Char.toNat, tail)
          | none => .error .malformed := by
      rw [here, ih, reread?, if_neg visible, unfolded]
      cases reread? .none text <;> simp [before, Pending.codes]
    have form := isWritten_cons c text tail
    generalize isInput : written (c :: text) tail = input at form taken
    cases form with
    | letter listed =>
      have each : ∀ p ∈ Json.escapeLetters, p.2 ≠ ' ' ∧ folds p.2 = false :=
        List.all_iff_forall_prop.mp (by decide)
      exact taken (double_letter listed pending _) (each _ listed).1 (each _ listed).2
    | control bound =>
      refine taken (double_control bound pending _) ?_ (folds_eq_false (by omega))
      rintro rfl
      exact absurd bound (by decide)
    | plain unquoted unescaped bound =>
      by_cases blank : c = ' '
      · subst blank
        rw [reread?, if_pos rfl, ← ih]
        rfl
      by_cases folded : folds c
      · have notEscape : feed c ≠ '\\' ∧ feed c ≠ '"' ∧ isSpace (feed c) = false := by
          simp only [folds, Bool.or_eq_true, beq_iff_eq] at folded
          rcases folded with (rfl | rfl) | rfl <;> decide
        rw [double_plain pending notEscape.1, beq_eq_false_iff_ne.mpr notEscape.2.1, notEscape.2.2,
          isBreak_feed bound, folded, atDocumentMarker_written, reread?, if_neg blank,
            if_pos folded]
        cases marks '-' text || marks '.' text
        · exact ih _
        · rfl
      · rw [Bool.not_eq_true] at folded
        have unfed : feed c = c := by
          refine feed_eq ?_
          rintro rfl
          exact absurd folded (by decide)
        have other : (c == '\t') = false := by
          refine beq_eq_false_iff_ne.mpr ?_
          rintro rfl
          exact absurd bound (by decide)
        have unbroken := isBreak_feed bound
        rw [unfed, folded] at unbroken
        rw [unfed] at taken ⊢
        refine taken ?_ blank folded
        rw [double_plain pending unescaped, beq_eq_false_iff_ne.mpr unquoted, isSpace,
          beq_eq_false_iff_ne.mpr blank, other, unbroken]
        rfl

theorem not_surrogate (c : Char) : ¬ (0xd800 ≤ c.toNat ∧ c.toNat < 0xdc00) := by
  have valid : c.toNat.isValidChar := c.valid
  rw [Nat.isValidChar] at valid
  omega

theorem joinSurrogates_map_toNat (text : List Char) :
    Escape.joinSurrogates (text.map Char.toNat) = text := by
  induction text with
  | nil => rfl
  | cons c rest ih =>
    cases rest with
    | nil => simp [Escape.joinSurrogates]
    | cons d rest =>
      have whole : (0xd800 ≤ c.toNat && c.toNat < 0xdc00) = false := by
        simpa using not_surrogate c
      rw [List.map_cons] at ih
      rw [List.map_cons, List.map_cons, Escape.joinSurrogates, whole, ih]
      simp

theorem read_written (text tail : List Char) :
    read '"' (written text tail) =
      match reread? .none text with
      | some read => .ok (read, tail)
      | none => .error .malformed := by
  rw [read, if_pos (beq_self_eq_true '"'), double_written]
  cases reread? .none text <;> simp [joinSurrogates_map_toNat]

end Quoted
end TemplateActions.Yaml
