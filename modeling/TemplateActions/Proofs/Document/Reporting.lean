import Mathlib.Data.List.Sort
import Mathlib.Data.Set.List
import TemplateActions.Document.Load
import TemplateActions.Proofs.Document.Forms

/-!
Which failures of loading are reported. Loading a document gives a program or a defect with its
path, except when it comes to a mapping whose defect cannot be put into a message: its superfluous
keys cannot be put in order, or an integer in the message is too long to be written. Keys that are
texts are never in the way.
-/
namespace TemplateActions

def DocumentFailure.isDefect : DocumentFailure → Bool
  | .defect .. => true
  | .incomparableKeys | .overlongInteger => false

namespace Document

/-- Holds if loading gives a program, or a failure that is reported. -/
def isReported : Except LoadFailure Node → Bool
  | .ok root => root.isProgram
  | .error failure => failure.report?.isSome

inductive Form.Enters (path : Path) (slot : Field) (entries : Entries) : Form → Path → Value → Prop
  | item {wanted : Option NodeKind} {before after : List Value} {value : Value} :
      items? slot entries = some (before ++ value :: after) → (∀ item ∈ before, Fits wanted item) →
      Enters path slot entries (.nodes wanted) (path.item slot before.length) value
  | program {value : Value} :
      present? slot entries = some value →
      Enters path slot entries .program (path.field slot) value
  | value {value : Value} :
      get? .value entries = some value → (∀ s, value ≠ .text s) →
      Enters path slot entries .value (path.field .value) value

/-- Holds if the loading of a value at a path comes to a mapping at another path: all that is looked
at before is as it should be. -/
inductive Comes : Path → Value → Path → Entries → Prop
  | here {path : Path} {entries : Entries} : Comes path (.map entries) path entries
  | field {path path' last : Path} {entries found : Entries} {kind : NodeKind}
      {before after : List (Field × Form)} {slot : Field} {form : Form} {value : Value} :
      OfKind kind entries → forms kind = before ++ (slot, form) :: after →
      (∀ field ∈ before, field.2.Admits field.1 entries) →
      form.Enters path slot entries path' value → Comes path' value last found →
      Comes path (.map entries) last found

/-- Holds if the type or the keys of a mapping are wrong, and no message can say so. -/
inductive Unreportable (entries : Entries) : Prop
  /-- The type is none of those that are known, and it holds an integer that cannot be written. -/
  | type : named? entries = none → ((get? .type entries).getD .null).isWritable = false →
      Unreportable entries
  /-- Two keys that are no fields of the kind cannot be compared. -/
  | order {kind : NodeKind} : named? entries = some kind →
      Value.sorted? (extraKeys kind entries) = none → Unreportable entries
  /-- A key that is no field of the kind holds an integer that cannot be written. -/
  | keys {kind : NodeKind} {keys : List Value} : named? entries = some kind →
      Value.sorted? (extraKeys kind entries) = some keys → (Value.list keys).isWritable = false →
      Unreportable entries

def Halts {α : Type} (x : Loaded α) : Prop := ∃ e, x = .error e ∧ e.isDefect = false

section Halting

variable {α β : Type} {path : Path} {slot : Field} {entries : Entries} {wanted : Option NodeKind}
  {value : Value}

theorem not_halts_ok {a : α} : ¬ Halts (.ok a : Loaded α) := nofun

theorem not_halts_fail {defect : Defect} : ¬ Halts (fail path defect : Loaded α) := by
  rintro ⟨e, same, other⟩
  cases same
  cases other

theorem halts_discard {x : Loaded α} : Halts (discard x) ↔ Halts x := by
  simp only [Halts, discard_eq_error_iff]

theorem halts_bind {x : Loaded α} {f : α → Loaded β} :
    Halts (x >>= f) ↔ Halts x ∨ ∃ a, x = .ok a ∧ Halts (f a) := by
  cases x with
  | error e => simp [Halts, bind, Except.bind]
  | ok a => simp [Halts, bind, Except.bind]

theorem halts_nodeAs : Halts (nodeAs path wanted value) ↔ Halts (node path value) := by
  rw [nodeAs, halts_bind]
  refine or_iff_left ?_
  rintro ⟨n, -, halts⟩
  rw [expectKind.eq_def] at halts
  split at halts
  · split at halts
    · exact not_halts_ok halts
    · exact not_halts_fail halts
  · exact not_halts_ok halts

theorem halts_valueNode : Halts (valueNode path value) ↔ Halts (node path value) := by
  rw [valueNode, halts_bind]
  refine or_iff_left ?_
  rintro ⟨n, -, halts⟩
  rw [expectAttributeValue] at halts
  split at halts
  case h_4 => exact not_halts_fail halts
  all_goals exact not_halts_ok halts

theorem halts_kind : Halts (kind path entries) ↔
    named? entries = none ∧ ((get? .type entries).getD .null).isWritable = false := by
  rw [kind_eq]
  cases named? entries with
  | some kind => exact iff_of_false not_halts_ok nofun
  | none =>
    dsimp only
    cases writable : ((get? .type entries).getD .null).isWritable with
    | true => exact iff_of_false not_halts_fail nofun
    | false => exact iff_of_true ⟨_, rfl, rfl⟩ ⟨rfl, rfl⟩

theorem halts_checkKeys {kind : NodeKind} : Halts (checkKeys path kind entries) ↔
    Value.sorted? (extraKeys kind entries) = none ∨
      ∃ keys, Value.sorted? (extraKeys kind entries) = some keys ∧
        (Value.list keys).isWritable = false := by
  rw [checkKeys]
  cases extraKeys kind entries with
  | nil => simp [Value.sorted?, Value.isWritable, Value.areWritable, not_halts_ok]
  | cons key rest =>
    dsimp only [List.isEmpty_cons]
    rw [if_neg Bool.false_ne_true]
    cases Value.sorted? (key :: rest) with
    | none => exact iff_of_true ⟨_, rfl, rfl⟩ (.inl rfl)
    | some keys =>
      dsimp only
      cases writable : (Value.list keys).isWritable with
      | true => simp [not_halts_fail, writable]
      | false => exact iff_of_true ⟨_, rfl, rfl⟩ (.inr ⟨keys, rfl, writable⟩)

theorem not_halts_textItems {items : List Value} {index : Nat} :
    ¬ Halts (textItems path slot index items) := by
  induction items generalizing index with
  | nil => exact not_halts_ok
  | cons item rest ih =>
    cases item with
    | text s =>
      rw [textItems]
      have later := @ih (index + 1)
      cases isRest : textItems path slot (index + 1) rest with
      | ok texts => exact not_halts_ok
      | error e => rwa [isRest] at later
    | _ => exact not_halts_fail

theorem halts_nodesField : Halts (nodesField path slot wanted entries) ↔
    ∃ before item after, items? slot entries = some (before ++ item :: after) ∧
      (∀ b ∈ before, Fits wanted b) ∧ Halts (node (path.item slot before.length) item) := by
  have ofList : Halts (nodesField path slot wanted entries) ↔
      ∃ items, items? slot entries = some items ∧ Halts (nodeItems path slot wanted 0 items) := by
    rw [nodesField_eq, items?]
    split
    case h_1 | h_2 => simp [nodeItems, not_halts_ok]
    case h_3 => simp
    case h_4 => simp [not_halts_fail]
  rw [ofList]
  constructor
  · rintro ⟨items, isList, e, failed, other⟩
    obtain ⟨before, item, after, rfl, fits, failed⟩ := nodeItems_eq_error_iff.mp failed
    exact ⟨before, item, after, isList, fits, halts_nodeAs.mp ⟨e, failed, other⟩⟩
  · rintro ⟨before, item, after, isList, fits, halts⟩
    obtain ⟨e, failed, other⟩ := halts_nodeAs.mpr halts
    refine ⟨_, isList, e, nodeItems_eq_error_iff.mpr ?_, other⟩
    exact ⟨before, item, after, rfl, fits, failed⟩

theorem halts_load {form : Form} : Halts (form.load path slot entries) ↔
    ∃ path' value, form.Enters path slot entries path' value ∧ Halts (node path' value) := by
  cases form with
  | text default =>
    rw [Form.load, halts_discard, textField.eq_def]
    refine iff_of_false ?_ (by rintro ⟨_, _, ⟨⟩, _⟩)
    split
    case h_1 | h_2 => exact not_halts_ok
    case h_3 | h_4 | h_5 => exact not_halts_fail
  | texts =>
    rw [Form.load, halts_discard, textsField]
    refine iff_of_false ?_ (by rintro ⟨_, _, ⟨⟩, _⟩)
    split
    case h_1 | h_2 => exact not_halts_ok
    case h_3 => exact not_halts_textItems
    case h_4 => exact not_halts_fail
  | flag =>
    rw [Form.load, halts_discard, escapedField]
    refine iff_of_false ?_ (by rintro ⟨_, _, ⟨⟩, _⟩)
    split
    case h_1 | h_2 => exact not_halts_ok
    case h_3 => exact not_halts_fail
  | nodes wanted =>
    rw [Form.load, halts_discard, halts_nodesField]
    constructor
    · rintro ⟨before, item, after, isList, fits, halts⟩
      exact ⟨_, item, .item isList fits, halts⟩
    · rintro ⟨_, item, ⟨isList, fits⟩, halts⟩
      exact ⟨_, item, _, isList, fits, halts⟩
  | program =>
    rw [Form.load_program]
    constructor
    · intro halts
      split at halts
      · exact absurd halts not_halts_ok
      · rw [halts_discard, halts_nodeAs] at halts
        exact ⟨_, _, .program ‹_›, halts⟩
    · rintro ⟨_, value, enters, halts⟩
      cases enters with
      | program isPresent =>
        rw [isPresent]
        dsimp only
        rwa [halts_discard, halts_nodeAs]
  | value =>
    rw [Form.load_value]
    constructor
    · intro halts
      split at halts
      case h_3 value other isValue =>
        rw [halts_discard, halts_valueNode] at halts
        exact ⟨_, value, .value isValue other, halts⟩
      all_goals exact absurd halts not_halts_ok
    · rintro ⟨_, value, enters, halts⟩
      cases enters with
      | value isValue other =>
        rw [isValue]
        cases value with
        | text s => exact absurd rfl (other s)
        | _ => exact halts_discard.mpr (halts_valueNode.mpr halts)

theorem unreportable_iff (path : Path) : Unreportable entries ↔
    Halts (kind path entries) ∨
      ∃ kind, named? entries = some kind ∧ Halts (checkKeys path kind entries) := by
  constructor
  · intro wrong
    cases wrong with
    | type unnamed unwritable => exact .inl (halts_kind.mpr ⟨unnamed, unwritable⟩)
    | order isKind unordered => exact .inr ⟨_, isKind, halts_checkKeys.mpr (.inl unordered)⟩
    | keys isKind sorted unwritable =>
      exact .inr ⟨_, isKind, halts_checkKeys.mpr (.inr ⟨_, sorted, unwritable⟩)⟩
  · rintro (wrongKind | ⟨kind, isKind, wrongKeys⟩)
    · obtain ⟨unnamed, unwritable⟩ := halts_kind.mp wrongKind
      exact .type unnamed unwritable
    · rcases halts_checkKeys.mp wrongKeys with unordered | ⟨keys, sorted, unwritable⟩
      · exact .order isKind unordered
      · exact .keys isKind sorted unwritable

theorem halts_node_map : Halts (node path (.map entries)) ↔
    Unreportable entries ∨ ∃ kind before slot form after path' value, OfKind kind entries ∧
      forms kind = before ++ (slot, form) :: after ∧
      (∀ field ∈ before, field.2.Admits field.1 entries) ∧
      form.Enters path slot entries path' value ∧ Halts (node path' value) := by
  rw [unreportable_iff path]
  constructor
  · rintro ⟨e, failed, other⟩
    rcases node_map_eq_error_iff.mp failed with wrongKind | ⟨kind, isKind, wrongKeys | inField⟩
    · exact .inl (.inl ⟨e, wrongKind, other⟩)
    · exact .inl (.inr ⟨kind, isKind, e, wrongKeys, other⟩)
    · obtain ⟨ofKind, before, slot, form, after, split, admits, failed⟩ := inField
      obtain ⟨path', value, enters, halts⟩ := halts_load.mp ⟨e, failed, other⟩
      exact .inr ⟨kind, before, slot, form, after, path', value, ofKind, split, admits,
        enters, halts⟩
  · rintro ((⟨e, failed, other⟩ | ⟨kind, isKind, e, failed, other⟩) | inField)
    · exact ⟨e, node_map_eq_error_iff.mpr (.inl failed), other⟩
    · exact ⟨e, node_map_eq_error_iff.mpr (.inr ⟨kind, isKind, .inl failed⟩), other⟩
    · obtain ⟨kind, before, slot, form, after, path', value, ofKind, split, admits,
        enters, halts⟩ :=
        inField
      obtain ⟨e, failed, other⟩ := halts_load.mpr ⟨path', value, enters, halts⟩
      have isKind := named?_eq_some_iff.mpr ofKind.type
      refine ⟨e, node_map_eq_error_iff.mpr (.inr ⟨kind, isKind, .inr ?_⟩), other⟩
      exact ⟨ofKind, before, slot, form, after, split, admits, failed⟩

theorem Form.Enters.sizeOf_lt {form : Form} {path' : Path}
    (h : form.Enters path slot entries path' value) :
    sizeOf value < sizeOf (Value.map entries) := by
  cases h with
  | item isList _ => exact sizeOf_item_lt isList (by simp)
  | program isPresent => exact sizeOf_get?_lt (get?_of_present? isPresent)
  | value isValue _ => exact sizeOf_get?_lt isValue

/-- The loading of a value halts exactly if it comes to a mapping whose defect cannot be reported.
-/
theorem halts_node_iff (data : Value) (path : Path) :
    Halts (node path data) ↔ ∃ last entries, Comes path data last entries ∧
      Unreportable entries := by
  constructor
  · intro halts
    -- Values are found under keys, so the induction is on the size of the value.
    induction size : sizeOf data using Nat.strongRecOn generalizing data path with
    | ind n ih =>
      cases data with
      | map entries =>
        rcases halts_node_map.mp halts with wrong | inField
        · exact ⟨path, entries, .here, wrong⟩
        · obtain ⟨kind, before, slot, form, after, path', value, ofKind, split, admits,
            enters, halts⟩ :=
            inField
          obtain ⟨last, found, comes, wrong⟩ := ih _ (size ▸ enters.sizeOf_lt) value path' halts rfl
          exact ⟨last, found, .field ofKind split admits enters comes, wrong⟩
      | _ => exact absurd halts not_halts_fail
  · rintro ⟨last, found, comes, wrong⟩
    induction comes with
    | here => exact halts_node_map.mpr (.inl wrong)
    | field ofKind split admits enters _ ih =>
      exact halts_node_map.mpr
        (.inr ⟨_, _, _, _, _, _, _, ofKind, split, admits, enters, ih wrong⟩)

end Halting

theorem halts_tree {data : Value} : Halts (tree data) ↔ Halts (node Path.root data) := by
  rw [tree, halts_bind]
  refine or_iff_left ?_
  rintro ⟨n, -, halts⟩
  split at halts
  case h_2 => exact not_halts_fail halts
  all_goals exact not_halts_ok halts

/-- Holds if loading comes to a mapping whose defect cannot be reported. -/
def ComesToUnreportable (data : Value) : Prop :=
  ∃ path entries, Comes Path.root data path entries ∧ Unreportable entries

theorem isReported_tree_iff {data : Value} :
    isReported ((tree data).mapError .document) ↔ ¬ ComesToUnreportable data := by
  rw [ComesToUnreportable, ← halts_node_iff, ← halts_tree]
  cases loaded : tree data with
  | ok root =>
    have kind := kind?_of_tree loaded
    refine iff_of_true ?_ not_halts_ok
    cases root <;> cases kind
    rfl
  | error e => cases e <;> simp [Halts, isReported, Except.mapError, LoadFailure.report?,
      DocumentFailure.isDefect]

/-- Loading ends in a program or in a failure that is reported, if it comes to no mapping whose
defect cannot be reported; a text may also be malformed, but not fail to be read in another way.
-/
theorem loading_isReported_iff (data : Value) (source : String) (text : List Char) :
    (isReported ((tree data).mapError .document) ↔ ¬ ComesToUnreportable data) ∧
      (isReported (ofText source text).1 ↔ Yaml.read text = .error .malformed ∨
        ∃ value, Yaml.read text = .ok value ∧ ¬ ComesToUnreportable value) := by
  refine ⟨isReported_tree_iff, ?_⟩
  rw [ofText]
  cases Yaml.read text with
  | error failure => cases failure <;> simp [isReported, LoadFailure.report?]
  | ok value =>
    simp only [reduceCtorEq, false_or, Except.ok.injEq, exists_eq_left', ← isReported_tree_iff]
    cases tree value <;> rfl

def mixedKeys : Value :=
  .map [(.text "type", .text "program"), (.int 1, .text "a"), (.text "x", .text "b")]

theorem mixedKeys_not_reported :
    isReported ((tree mixedKeys).mapError .document) = false ∧
      isReported (ofText "<string>" "type: program\n1: a\nx: b\n".toList).1 = false := by
  constructor <;> decide +kernel

theorem insertSorted?_map_text (s : String) (texts : List String) :
    Value.insertSorted? (.text s) (texts.map .text) =
      some ((texts.orderedInsert (· < ·) s).map .text) := by
  induction texts with
  | nil => rfl
  | cons first rest ih =>
    rw [List.map_cons, Value.insertSorted?, Value.less?, List.orderedInsert_cons]
    by_cases before : s < first
    · simp [before]
    · simp [before, ih]

theorem sorted?_map_text (texts : List String) :
    Value.sorted? (texts.map .text) = some ((texts.insertionSort (· < ·)).map .text) := by
  induction texts with
  | nil => rfl
  | cons s rest ih =>
    rw [List.map_cons, Value.sorted?, ih, Option.bind_some, insertSorted?_map_text]
    rfl

theorem areWritable_texts (texts : List String) : Value.areWritable (texts.map .text) = true := by
  induction texts with
  | nil => rfl
  | cons s rest ih => rw [List.map_cons, Value.areWritable, ih]; rfl

theorem extraKeys_texts {entries : Entries} (texts : ∀ entry ∈ entries, ∃ s, .text s = entry.1)
    (kind : NodeKind) : ∃ keys : List String, extraKeys kind entries = keys.map .text := by
  have all : extraKeys kind entries ∈ Set.range (List.map Value.text) := by
    rw [Set.range_list_map]
    intro key member
    obtain ⟨entry, inside, rfl⟩ := List.mem_map.mp (List.mem_filter.mp member).1
    exact texts entry inside
  obtain ⟨keys, isKeys⟩ := all
  exact ⟨keys, isKeys.symm⟩

theorem not_unreportable_of_texts {entries : Entries}
    (texts : ∀ entry ∈ entries, ∃ s, .text s = entry.1)
    (writable : ((get? .type entries).getD .null).isWritable) : ¬ Unreportable entries := by
  intro wrong
  cases wrong with
  | type _ unwritable => exact Bool.false_ne_true (unwritable.symm.trans writable)
  | @order kind _ unordered =>
    obtain ⟨keys, isKeys⟩ := extraKeys_texts texts kind
    rw [isKeys, sorted?_map_text] at unordered
    cases unordered
  | @keys kind _ _ isSorted unwritable =>
    obtain ⟨keys, isKeys⟩ := extraKeys_texts texts kind
    rw [isKeys, sorted?_map_text] at isSorted
    cases isSorted
    rw [Value.isWritable, areWritable_texts] at unwritable
    cases unwritable

/-- Loading reports every defect of a document in which all keys are texts. -/
theorem isReported_of_texts {data : Value}
    (texts : ∀ path entries, Comes Path.root data path entries →
      (∀ entry ∈ entries, ∃ s, .text s = entry.1) ∧ ((get? .type entries).getD .null).isWritable) :
    isReported ((tree data).mapError .document) := by
  rw [isReported_tree_iff]
  rintro ⟨path, entries, comes, wrong⟩
  obtain ⟨keys, writable⟩ := texts path entries comes
  exact not_unreportable_of_texts keys writable wrong

end Document
end TemplateActions
