import Mathlib.Algebra.Group.Int.Defs
import TemplateActions.Proofs.Json.Characters
import TemplateActions.Proofs.Json.Parsing
import TemplateActions.Proofs.Report.Printed

/-!
Values as JSON text. A value without floating-point numbers has a text for every indent that can
be laid out if its integers are not too long to be written, and is read from this text again. So a
value can be told from its text, and a report from what it prints. Line feeds stand between tokens
only.
-/
namespace TemplateActions.Json

/-- Holds for texts that stand for a value and for no other one, that are read as it, and that
have line feeds between tokens only, if they are indented, and no other control characters. -/
structure IsTextOf (text : String) (indent : Option Int) (value : Json) : Prop where
  isElement : IsElement text.toList value
  single : ∀ value', IsElement text.toList value' → value' = value
  read : parse? text = some value
  breaks : ∀ c ∈ text.toList, c.toNat < 0x20 → c = '\n' ∧ indent.isSome
  tokens : ∀ c ∈ squeeze .outside text.toList, 0x20 ≤ c.toNat
  ends : text.toList.getLast? ≠ some '\n'

variable {value : Json} {indent : Option Int}

theorem eq_newline_of_mem_render {c : Char} (member : c ∈ (value.render indent).toList)
    (control : c.toNat < 0x20) : c = '\n' ∧ indent.isSome := by
  have feed : c = '\n' := by
    rw [render, String.toList_ofList] at member
    rcases stands_chars indent value 0 c member with own | ⟨bound, -⟩
    · rw [isAscii, Bool.or_eq_true, beq_iff_eq, Bool.and_eq_true, decide_eq_true_iff] at own
      exact own.resolve_right fun bounds => absurd control (Nat.not_lt.mpr bounds.1)
    · exact absurd control (Nat.not_lt.mpr bound)
  subst feed
  cases indent with
  | none => exact absurd member (newline_not_mem_render value)
  | some _ => exact ⟨rfl, rfl⟩

theorem squeeze_sublist (region : Region) (text : List Char) :
    (squeeze region text).Sublist text := by
  induction text generalizing region with
  | nil => exact .slnil
  | cons c rest ih =>
    rw [squeeze]
    split
    · exact (ih region).cons c
    · exact (ih _).cons_cons c

theorem space_le_of_mem_squeeze {c : Char}
    (member : c ∈ squeeze .outside (value.render indent).toList) : 0x20 ≤ c.toNat := by
  have same : squeeze .outside (value.render indent).toList =
      squeeze .outside (value.render none).toList :=
    alike_render indent none value
  rw [same] at member
  by_contra control
  nomatch (eq_newline_of_mem_render ((squeeze_sublist _ _).subset member)
    (Nat.lt_of_not_le control)).2

theorem getLast?_render (value : Json) (indent : Option Int) :
    (value.render indent).toList.getLast? ≠ some '\n' := by
  rw [render, String.toList_ofList]
  have unbroken {word : List Char} (isWord : ∀ c ∈ word, isWordChar c) :
      word.getLast? ≠ some '\n' :=
    fun last => newline_not_mem_word isWord (List.mem_of_getLast? last)
  cases value with
  | null => exact unbroken fun _ => isWordChar_of_mem_null
  | bool b => exact unbroken fun _ => isWordChar_of_mem_bool
  | int n => exact unbroken fun _ => isWordChar_of_mem_intChars
  | float x => exact unbroken fun _ => isWordChar_of_mem_float
  | text s => exact fun last => newline_not_mem_stringChars s (List.mem_of_getLast? last)
  | array items =>
    cases items with
    | nil =>
      rw [chars]
      decide
    | cons item rest =>
      rw [chars, List.getLast?_concat]
      decide
  | object members =>
    cases members with
    | nil =>
      rw [chars]
      decide
    | cons member rest =>
      rw [chars, List.getLast?_concat]
      decide

theorem isTextOf_render (exact : IsExact value) (indent : Option Int) :
    IsTextOf (value.render indent) indent value where
  isElement := isElement_render indent exact
  single _ other := other.unique (isElement_render indent exact)
  read := parse?_of_isElement (isElement_render indent exact)
  breaks _ := eq_newline_of_mem_render
  tokens _ := space_le_of_mem_squeeze
  ends := getLast?_render value indent

/-- Values without floating-point numbers can be written with every indent that can be laid out,
and texts with all of them, unless they hold an integer that is too long. Their text is JSON text
that stands for this value and no other, and that is read as this value, with its members in
order. It has no control characters but the line feeds of an indent, which stand between tokens,
and does not end with one. So different values never have the same text, whatever their indents,
and neither have reports that differ in what they say. -/
theorem write_round_trip (exact : IsExact value) (indent : Option Int) :
    ((∃ text, value.write indent = .ok text) ↔
      value.isWritable ∧ ((∃ s, value = .text s) ∨ ∀ width ∈ indent, IsIndent width)) ∧
      (∀ text, value.write indent = .ok text → IsTextOf text indent value ∧
        ∀ value' indent', IsExact value' → value'.write indent' = .ok text → value' = value) ∧
      ∀ (report report' : Report) (indent indent' : Option Int) (text : String),
        report.toJson.write indent = .ok text → report'.toJson.write indent' = .ok text →
          report.contents = report'.contents ∧
            ∀ version version' root root' actions actions',
              Report.build version root actions = .ok report →
                Report.build version' root' actions' = .ok report' → report = report' := by
  have told {value value' : Json} {indent indent' : Option Int} {text : String}
      (exact : IsExact value)
      (exact' : IsExact value') (written : value.write indent = .ok text)
      (written' : value'.write indent' = .ok text) : value' = value := by
    have isText := isTextOf_render exact indent
    rw [← (write_eq_ok_iff.mp written).2, (write_eq_ok_iff.mp written').2] at isText
    exact isText.single value' (isElement_render indent' exact')
  refine ⟨?_, fun text written => ⟨?_, fun value' indent' exact' => told exact exact' written⟩, ?_⟩
  · simp only [write_eq_ok_iff, exists_and_left, exists_eq, and_true]
    exact ⟨fun h => ⟨h.writable, h.laidOut⟩, fun h => ⟨h.2, h.1⟩⟩
  · rw [(write_eq_ok_iff.mp written).2]
    exact isTextOf_render exact indent
  · intro report report' indent indent' text written written'
    have same := told report.isExact_toJson report'.isExact_toJson written written'
    have contents := Report.contents_eq_of_toJson same.symm
    exact ⟨contents, fun _ _ _ _ _ _ built built' => Report.eq_of_contents built built' contents⟩

def escapedValue : Json :=
  .object [("\"\\", .array [.null, .bool true, .int (-12), .text "\n\x01/\x7f", .array []]),
    ("", .object [])]

theorem escapedValue_round_trip :
    IsExact escapedValue ∧ ∃ text, escapedValue.write (some (-1)) = .ok text ∧
      parse? text = some escapedValue := by
  have exact : IsExact escapedValue := by simp [escapedValue, IsExact, AreExact, MembersAreExact]
  obtain ⟨written, isText, -⟩ := write_round_trip exact (some (-1))
  have laidOut : IsIndent (-1) := by simp [IsIndent, Word.limit, Indent.memoryLimit]
  have fits : ∀ width ∈ some (-1), IsIndent width := fun _ same => Option.some.inj same ▸ laidOut
  obtain ⟨text, isWritten⟩ := written.mpr ⟨by decide, .inr fits⟩
  exact ⟨exact, text, isWritten, (isText text isWritten).1.read⟩

theorem write_of_overlong {n : Int} (long : 10 ^ Value.digitLimit ≤ n.natAbs) :
    (Json.int n).write none = .error .overlongInteger := by
  have unwritable : ¬ (Json.int n).isWritable := by
    rw [isWritable, toValue, Value.isWritable_int_iff]
    exact long.not_gt
  rw [write.eq_def]
  exact if_neg unwritable

/-- With an indent that no machine word holds nothing is written, though those below zero are all
laid out alike; nor is an integer of one digit more than the limit. -/
theorem write_uncountable :
    IsExact (.array [.int 1]) ∧
      (Json.array [.int 1]).write (some (-9223372036854775808)) = .ok "[\n1\n]" ∧
      (Json.array [.int 1]).write (some (-9223372036854775809)) = .error (.indent .uncountable) ∧
      IsExact (.int (10 ^ Value.digitLimit)) ∧
      (Json.int (10 ^ Value.digitLimit)).write none = .error .overlongInteger := by
  have size (d : Nat) : ((10 : Int) ^ d).natAbs = 10 ^ d := Int.natAbs_pow 10 d
  exact ⟨⟨trivial, trivial⟩, rfl, rfl, trivial, write_of_overlong (size _).ge⟩

end TemplateActions.Json
