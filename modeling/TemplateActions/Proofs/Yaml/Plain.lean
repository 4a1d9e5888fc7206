import TemplateActions.Proofs.Json.Spacing
import TemplateActions.Yaml.Scalar.Plain

/-!
Numbers and words as plain scalars. A scalar ends in front of the mark that follows it in JSON text,
and takes the white space between them along.
-/
namespace TemplateActions.Yaml

/-- Holds for a text and for what of it can be seen behind white space: the end of the text, or in a
collection a mark that stands behind an item. -/
inductive Behind (flow : Bool) : List Char → List Char → Prop
  | ends : Behind flow [] []
  | mark {indent : Option Int} {depth : Nat} {c : Char} {rest : List Char} :
      flow = true → c = ',' ∨ c = ']' ∨ c = '\x7d' →
      Behind flow (Json.lineBreak indent depth ++ c :: rest) (c :: rest)

namespace Plain

theorem endsWord_of_isWordChar {c : Char} (h : Json.isWordChar c) (flow : Bool) (rest : List Char) :
    endsWord flow c rest = false := by
  have other : ∀ d ∈ [':', ' ', '\t', '\n', '[', ']', '\x7b', '\x7d', ','], c ≠ d := by
    intro d member same
    have none : ∀ d ∈ [':', ' ', '\t', '\n', '[', ']', '\x7b', '\x7d', ','],
        Json.isWordChar d = false := List.all_iff_forall_prop.mp (by decide)
    exact Bool.false_ne_true ((none d member).symm.trans (same ▸ h))
  simp only [List.forall_mem_cons, List.not_mem_nil, false_implies, implies_true, and_true] at other
  simp [endsWord, isSpace, isBracket, other]

theorem endsWord_mark {c : Char} (isMark : c = ',' ∨ c = ']' ∨ c = '\x7d') (rest : List Char) :
    endsWord true c rest = true := by
  rcases isMark with rfl | rfl | rfl <;> rfl

theorem word_eq {flow : Bool} {text rest : List Char} (isWord : ∀ c ∈ text, Json.isWordChar c)
    (ends : word flow rest = ([], rest)) : word flow (text ++ rest) = (text, rest) := by
  induction text with
  | nil => exact ends
  | cons c text ih =>
    obtain ⟨first, others⟩ := List.forall_mem_cons.mp isWord
    rw [List.cons_append, word, endsWord_of_isWordChar first, ih others]
    rfl

theorem word_mark {c : Char} (isMark : c = ',' ∨ c = ']' ∨ c = '\x7d') (rest : List Char) :
    word true (c :: rest) = ([], c :: rest) := by
  rw [word, if_pos (endsWord_mark isMark rest)]

theorem blankLines_blanks {c : Char} (blank : c ≠ ' ') (unbroken : isBreak c = false)
    (n column : Nat)
    (rest : List Char) :
    blankLines [] column (List.replicate n ' ' ++ c :: rest) =
      ⟨[], c :: rest, some (column + n)⟩ := by
  induction n generalizing column with
  | zero => simp [blankLines, blank, unbroken]
  | succ n ih =>
    rw [List.replicate_succ, List.cons_append, blankLines, if_pos (beq_self_eq_true ' '), ih]
    simp [Nat.add_comm, Nat.add_left_comm]

theorem mark_visible {c : Char} (isMark : c = ',' ∨ c = ']' ∨ c = '\x7d') :
    c ≠ ' ' ∧ isBreak c = false := by
  rcases isMark with rfl | rfl | rfl <;> decide

theorem gap_rest {flow : Bool} {tail visible : List Char} (behind : Behind flow tail visible) :
    (gap tail).rest = visible := by
  cases behind with
  | ends => rfl
  | @mark indent depth c rest _ isMark =>
    obtain ⟨blank, unbroken⟩ := mark_visible isMark
    cases indent with
    | none => simp [Json.lineBreak, gap, blank, unbroken]
    | some width =>
      have lines := blankLines_blanks blank unbroken (width * depth).toNat 0 rest
      simp only [Json.lineBreak, Indent.blanks, List.cons_append, gap]
      simp [isBreak, lines]

theorem word_behind {flow : Bool} {tail visible : List Char} (behind : Behind flow tail visible) :
    word flow tail = ([], tail) ∧ word flow visible = ([], visible) := by
  cases behind with
  | ends => exact ⟨rfl, rfl⟩
  | @mark indent depth c rest isFlow isMark =>
    subst isFlow
    refine ⟨?_, word_mark isMark rest⟩
    cases indent with
    | none => exact word_mark isMark rest
    | some width => rfl

theorem words_behind {flow : Bool} {tail visible : List Char} (behind : Behind flow tail visible)
    (least fuel : Nat) : (words flow least fuel visible).text = [] := by
  cases fuel with
  | zero => rfl
  | succ fuel =>
    rw [words, (word_behind behind).2]
    rfl

theorem read_eq {flow : Bool} {text tail visible : List Char}
    (isWord : ∀ c ∈ text, Json.isWordChar c) (nonempty : text ≠ [])
    (behind : Behind flow tail visible) (least : Nat) :
    ∃ atLineStart, read flow least (text ++ tail) = ⟨text, visible, atLineStart⟩ := by
  obtain ⟨c, text, rfl⟩ := List.exists_cons_of_ne_nil nonempty
  refine ⟨(gap tail).column.isSome, ?_⟩
  rw [read, List.cons_append, List.length_cons, words, ← List.cons_append,
    word_eq isWord (word_behind behind).1]
  simp only [List.isEmpty_cons, gap_rest behind, words_behind behind, List.isEmpty_nil,
    Bool.or_true,
    if_true]
  rfl

end Plain
end TemplateActions.Yaml
