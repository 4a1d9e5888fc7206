import TemplateActions.Proofs.Document.Addresses
import TemplateActions.Proofs.Document.Forms

/-!
The defects of documents. Whether a value is loaded as a node does not depend on where it stands,
and neither does the defect that ends its loading: a relation says which defect that is, and which
steps lead to it. There is one rule for each way to fail.
-/
namespace TemplateActions

def Path.below (path : Path) (steps : List Step) : Path := ⟨path.start, path.steps ++ steps⟩

theorem Path.below_nil (path : Path) : path.below [] = path := by
  rw [below, List.append_nil]

theorem Path.below_cons (path : Path) (s : Step) (steps : List Step) :
    path.below (s :: steps) = (path.step s).below steps := by
  rw [below, below, step, List.append_cons]

namespace Document

namespace Form

def IsList : Form → Prop
  | .texts | .nodes _ => True
  | .text _ | .flag | .program | .value => False

def wanted? : Form → Option NodeKind
  | .nodes wanted => wanted
  | .program => some .program
  | .text _ | .texts | .flag | .value => none

/-- Holds if a value may be an item of a field, whatever the other items are. -/
def TakesItem (item : Value) : Form → Prop
  | .texts => ∃ s, item = .text s
  | .nodes wanted => Fits wanted item
  | .text _ | .flag | .program | .value => False

/-- Holds if the defect is that a field is missing or holds another kind of value than its form asks
for. -/
inductive Misfits : Form → Option Value → Defect → Prop
  | missing : Misfits (.text none) none .missing
  | null {default : Option String} : Misfits (.text default) (some .null) .missing
  | notText {default : Option String} {value : Value} :
      value ≠ .null → (∀ s, value ≠ .text s) →
      Misfits (.text default) (some value) (.wrongShape .text value)
  | notBool {value : Value} :
      (∀ b, value ≠ .bool b) → Misfits .flag (some value) (.wrongShape .bool value)
  | notList {form : Form} {value : Value} :
      form.IsList → value ≠ .null → (∀ items, value ≠ .list items) →
      Misfits form (some value) (.wrongShape .list value)

/-- Holds if the loading of a field comes to a value behind a step: to a program, to the value of an
attribute, or to an item of a list, after items that the field takes. -/
inductive Opens (slot : Field) (entries : Entries) : Form → Step → Value → Prop
  | item {form : Form} {before after : List Value} {value : Value} :
      form.IsList → items? slot entries = some (before ++ value :: after) →
      (∀ item ∈ before, form.TakesItem item) →
      Opens slot entries form (.item slot before.length) value
  | program {value : Value} :
      present? slot entries = some value → Opens slot entries .program (.field slot) value
  | value {value : Value} :
      get? slot entries = some value → (∀ s, value ≠ .text s) →
      Opens slot entries .value (.field slot) value

/-- Holds if the defect is that a field does not take a value, although there is nothing wrong
within the value. -/
inductive Rejects : Form → Value → Defect → Prop
  | item {value : Value} :
      (∀ s, value ≠ .text s) → Rejects .texts value (.wrongShape .text value)
  | node {form : Form} {value : Value} {n : Node} {wanted found : NodeKind} :
      form.wanted? = some wanted → Describes value n → n.kind? = some found → wanted ≠ found →
      Rejects form value (.wrongNode wanted found)
  | value {value : Value} {n : Node} {found : NodeKind} :
      Describes value n → n.kind? = some found → found ≠ .text → found ≠ .mustache →
      Rejects .value value (.attributeValue found)

end Form

/-- Holds if the loading of a mapping comes to a field: its kind and its keys are right, and the
fields that are looked at before hold what their forms admit. -/
def Attempts (entries : Entries) (slot : Field) (form : Form) : Prop :=
  ∃ kind before after, OfKind kind entries ∧ forms kind = before ++ (slot, form) :: after ∧
    ∀ field ∈ before, field.2.Admits field.1 entries

/-- Holds if the loading of a value ends with a defect that stands behind steps below the value. -/
inductive Fails : Value → List Step → Defect → Prop
  | notMapping {value : Value} :
      (∀ entries, value ≠ .map entries) → Fails value [] (.notMapping value)
  | type {entries : Entries} :
      named? entries = none → ((get? .type entries).getD .null).isWritable →
      Fails (.map entries) [.field .type] (.unknownType ((get? .type entries).getD .null))
  | keys {entries : Entries} {kind : NodeKind} {keys : List Value} :
      named? entries = some kind → extraKeys kind entries ≠ [] →
      Value.sorted? (extraKeys kind entries) = some keys → (Value.list keys).isWritable →
      Fails (.map entries) [] (.unexpectedKeys keys)
  | field {entries : Entries} {slot : Field} {form : Form} {defect : Defect} :
      Attempts entries slot form → form.Misfits (get? slot entries) defect →
      Fails (.map entries) [.field slot] defect
  | value {entries : Entries} {slot : Field} {form : Form} {s : Step} {value : Value}
      {defect : Defect} :
      Attempts entries slot form → form.Opens slot entries s value → form.Rejects value defect →
      Fails (.map entries) [s] defect
  | within {entries : Entries} {slot : Field} {form : Form} {s : Step} {value : Value}
      {steps : List Step} {defect : Defect} :
      Attempts entries slot form → form.Opens slot entries s value → form ≠ .texts →
      Fails value steps defect → Fails (.map entries) (s :: steps) defect

variable {path p : Path} {slot : Field} {entries : Entries} {wanted : Option NodeKind}
  {value : Value} {d : Defect}

theorem forms_flag {kind : NodeKind} (known : (slot, .flag) ∈ forms kind) : slot = .escaped := by
  cases kind <;> simp_all [forms]

theorem forms_value {kind : NodeKind} (known : (slot, .value) ∈ forms kind) : slot = .value := by
  cases kind <;> simp_all [forms]

theorem fail_eq_defect_iff {α : Type} {defect : Defect} :
    (fail path defect : Loaded α) = .error (.defect p d) ↔ d = defect ∧ p = path := by
  simp only [fail, Except.error.injEq, DocumentFailure.defect.injEq, eq_comm, and_comm]

theorem kind_eq_defect_iff : kind path entries = .error (.defect p d) ↔
    named? entries = none ∧ ((get? .type entries).getD .null).isWritable ∧
      d = .unknownType ((get? .type entries).getD .null) ∧ p = path.field .type := by
  rw [kind_eq]
  cases named? entries with
  | some kind => exact iff_of_false nofun nofun
  | none =>
    dsimp only
    split <;> simp [fail_eq_defect_iff, *]

theorem checkKeys_eq_defect_iff {kind : NodeKind} :
    checkKeys path kind entries = .error (.defect p d) ↔
      extraKeys kind entries ≠ [] ∧ ∃ keys, Value.sorted? (extraKeys kind entries) = some keys ∧
        (Value.list keys).isWritable ∧ d = .unexpectedKeys keys ∧ p = path := by
  rw [checkKeys]
  cases extraKeys kind entries with
  | nil => simp
  | cons key rest =>
    dsimp only [List.isEmpty_cons]
    rw [if_neg Bool.false_ne_true]
    cases Value.sorted? (key :: rest) with
    | none => simp
    | some keys =>
      dsimp only
      split <;> simp [fail_eq_defect_iff, *]

theorem expectKind_eq_defect_iff {n : Node} : expectKind path wanted n = .error (.defect p d) ↔
    ∃ found kind, n.kind? = some found ∧ wanted = some kind ∧ kind ≠ found ∧
      d = .wrongNode kind found ∧ p = path := by
  unfold expectKind
  cases wanted with
  | none => simp
  | some kind =>
    cases n.kind? with
    | none => simp
    | some found =>
      dsimp only
      split <;> simp [fail_eq_defect_iff, *]

theorem expectAttributeValue_eq_defect_iff {n : Node} :
    expectAttributeValue path n = .error (.defect p d) ↔
      ∃ found, n.kind? = some found ∧ found ≠ .text ∧ found ≠ .mustache ∧
        d = .attributeValue found ∧ p = path := by
  rw [expectAttributeValue]
  cases n.kind? with
  | none => simp
  | some found => cases found <;> simp [fail_eq_defect_iff]

theorem node_bind_eq_error_iff {α : Type} {f : Node → Loaded α} {e : DocumentFailure} :
    (node path value >>= f) = .error e ↔
      node path value = .error e ∨ ∃ n, Describes value n ∧ f n.unnumbered = .error e := by
  rw [bind_eq_error_iff]
  refine or_congr_right ?_
  constructor
  · rintro ⟨n, loaded, failed⟩
    have described := node_sound value path n loaded
    have same := Except.ok.inj (loaded.symm.trans (node_complete described path))
    exact ⟨n, described, by rwa [← same]⟩
  · rintro ⟨n, described, failed⟩
    exact ⟨_, node_complete described path, failed⟩

theorem nodeAs_eq_defect_iff : nodeAs path wanted value = .error (.defect p d) ↔
    node path value = .error (.defect p d) ∨
      ∃ n, Describes value n ∧ ∃ found kind, n.kind? = some found ∧ wanted = some kind ∧
        kind ≠ found ∧ d = .wrongNode kind found ∧ p = path := by
  simp only [nodeAs, node_bind_eq_error_iff, expectKind_eq_defect_iff, Node.kind?_unnumbered]

theorem valueNode_eq_defect_iff : valueNode path value = .error (.defect p d) ↔
    node path value = .error (.defect p d) ∨
      ∃ n, Describes value n ∧ ∃ found, n.kind? = some found ∧ found ≠ .text ∧
        found ≠ .mustache ∧ d = .attributeValue found ∧ p = path := by
  simp only [valueNode, node_bind_eq_error_iff, expectAttributeValue_eq_defect_iff,
    Node.kind?_unnumbered]

def expectText (path : Path) : Value → Loaded Unit
  | .text _ => .ok ()
  | found => fail path (.wrongShape .text found)

theorem expectText_eq_ok_iff : expectText path value = .ok () ↔ ∃ s, value = .text s := by
  cases value <;> simp [expectText, fail]

theorem expectText_eq_defect_iff : expectText path value = .error (.defect p d) ↔
    (∀ s, value ≠ .text s) ∧ d = .wrongShape .text value ∧ p = path := by
  cases value <;> simp [expectText, fail_eq_defect_iff]

theorem discard_textItems (path : Path) (slot : Field) (index : Nat) (items : List Value) :
    discard (textItems path slot index items) =
      forM (items.zipIdx index) fun entry => expectText (path.item slot entry.2) entry.1 := by
  induction items generalizing index with
  | nil => rfl
  | cons item rest ih =>
    rw [List.zipIdx_cons, List.forM_cons, ← ih]
    cases item with
    | text s =>
      rw [textItems]
      cases textItems path slot (index + 1) rest <;> rfl
    | _ => rfl

theorem textField_eq_defect_iff {default : Option String} :
    textField path slot default entries = .error (.defect p d) ↔
      (Form.text default).Misfits (get? slot entries) d ∧ p = path.field slot := by
  unfold textField
  generalize get? slot entries = found
  constructor
  · intro failed
    split at failed
    case h_1 | h_2 => cases failed
    case h_3 =>
      obtain ⟨rfl, rfl⟩ := fail_eq_defect_iff.mp failed
      exact ⟨.missing, rfl⟩
    case h_4 =>
      obtain ⟨rfl, rfl⟩ := fail_eq_defect_iff.mp failed
      exact ⟨.null, rfl⟩
    case h_5 value _ notText notNull =>
      obtain ⟨rfl, rfl⟩ := fail_eq_defect_iff.mp failed
      exact ⟨.notText (by simpa using notNull) (by simpa using notText), rfl⟩
  · rintro ⟨misfits, rfl⟩
    cases misfits with
    | missing | null => rfl
    | notText notNull notText =>
      split <;> simp_all [fail_eq_defect_iff]
    | notList isList => cases isList

theorem escapedField_eq_defect_iff : escapedField path entries = .error (.defect p d) ↔
    Form.flag.Misfits (get? .escaped entries) d ∧ p = path.field .escaped := by
  unfold escapedField
  generalize get? .escaped entries = found
  constructor
  · intro failed
    split at failed
    case h_1 | h_2 => cases failed
    case h_3 notBool =>
      obtain ⟨rfl, rfl⟩ := fail_eq_defect_iff.mp failed
      exact ⟨.notBool (by simpa using notBool), rfl⟩
  · rintro ⟨misfits, rfl⟩
    cases misfits with
    | notBool notBool => split <;> simp_all [fail_eq_defect_iff]
    | notList isList => cases isList

namespace Form

/-- The loading of a value that stands in a field, apart from its result. -/
def loadValue (path : Path) (value : Value) : Form → Loaded Unit
  | .texts => expectText path value
  | .nodes wanted => discard (nodeAs path wanted value)
  | .program => discard (nodeAs path (some .program) value)
  | .value => discard (valueNode path value)
  | .text _ | .flag => .ok ()

def loadList (path : Path) (slot : Field) (entries : Entries) (form : Form) : Loaded Unit :=
  match get? slot entries with
  | none | some .null => .ok ()
  | some (.list items) =>
    forM items.zipIdx fun entry => form.loadValue (path.item slot entry.2) entry.1
  | some found => fail (path.field slot) (.wrongShape .list found)

variable {form : Form} {s : Step}

theorem loadValue_eq_ok_iff (isList : form.IsList) :
    form.loadValue path value = .ok () ↔ form.TakesItem value := by
  cases form with
  | texts => exact expectText_eq_ok_iff
  | nodes wanted => exact discard_eq_ok_iff.trans nodeAs_ok_iff
  | _ => cases isList

theorem loadValue_eq_defect_iff (opens : form.Opens slot entries s value) :
    form.loadValue path value = .error (.defect p d) ↔
      form.Rejects value d ∧ p = path ∨
        form ≠ .texts ∧ node path value = .error (.defect p d) := by
  cases form with
  | texts =>
    rw [loadValue, expectText_eq_defect_iff]
    constructor
    · rintro ⟨notText, rfl, rfl⟩
      exact .inl ⟨.item notText, rfl⟩
    · rintro (⟨rejects, rfl⟩ | ⟨other, -⟩)
      · cases rejects with
        | item notText => exact ⟨notText, rfl, rfl⟩
        | node wants => cases wants
      · exact absurd rfl other
  | nodes | program =>
    rw [loadValue, discard_eq_error_iff, nodeAs_eq_defect_iff]
    constructor
    · rintro (failed | ⟨n, described, found, kind, isKind, wants, wrong, rfl, rfl⟩)
      · exact .inr ⟨nofun, failed⟩
      · exact .inl ⟨.node wants described isKind wrong, rfl⟩
    · rintro (⟨rejects, rfl⟩ | ⟨-, failed⟩)
      · cases rejects with
        | node wants described isKind wrong =>
          exact .inr ⟨_, described, _, _, isKind, wants, wrong, rfl, rfl⟩
      · exact .inl failed
  | value =>
    rw [loadValue, discard_eq_error_iff, valueNode_eq_defect_iff]
    constructor
    · rintro (failed | ⟨n, described, found, isKind, notText, notMustache, rfl, rfl⟩)
      · exact .inr ⟨nofun, failed⟩
      · exact .inl ⟨.value described isKind notText notMustache, rfl⟩
    · rintro (⟨rejects, rfl⟩ | ⟨-, failed⟩)
      · cases rejects with
        | value described isKind notText notMustache =>
          exact .inr ⟨_, described, _, isKind, notText, notMustache, rfl, rfl⟩
        | node wants => cases wants
      · exact .inl failed
  | text | flag => cases opens; contradiction

theorem load_eq_loadList (isList : form.IsList) :
    form.load path slot entries = form.loadList path slot entries := by
  cases form with
  | texts =>
    rw [load, textsField, loadList]
    cases get? slot entries with
    | none => rfl
    | some found =>
      cases found with
      | list items => exact discard_textItems ..
      | _ => rfl
  | nodes wanted =>
    rw [load, nodesField_eq, loadList]
    cases get? slot entries with
    | none => rfl
    | some found =>
      cases found with
      | list items => exact discard_nodeItems ..
      | _ => rfl
  | _ => cases isList

theorem loadList_eq_defect_iff (isList : form.IsList) :
    form.loadList path slot entries = .error (.defect p d) ↔
      form.Misfits (get? slot entries) d ∧ p = path.field slot ∨
        ∃ before item after, items? slot entries = some (before ++ item :: after) ∧
          (∀ b ∈ before, form.TakesItem b) ∧
          form.loadValue (path.item slot before.length) item = .error (.defect p d) := by
  have ofItems (items : List Value) :
      (forM items.zipIdx fun entry => form.loadValue (path.item slot entry.2) entry.1) =
        .error (.defect p d) ↔ _ :=
    forM_zipIdx_eq_error_iff (f := fun item index => form.loadValue (path.item slot index) item)
      fun _ _ => loadValue_eq_ok_iff isList
  rw [loadList, items?]
  generalize get? slot entries = found
  constructor
  · intro failed
    split at failed
    case h_1 | h_2 => cases failed
    case h_3 items =>
      obtain ⟨before, item, after, rfl, taken, failed⟩ := (ofItems items).mp failed
      exact .inr ⟨before, item, after, rfl, taken, failed⟩
    case h_4 found notNull notList =>
      obtain ⟨rfl, rfl⟩ := fail_eq_defect_iff.mp failed
      exact .inl ⟨.notList isList (by simpa using notNull) (by simpa using notList), rfl⟩
  · rintro (⟨misfits, rfl⟩ | ⟨before, item, after, isItems, taken, failed⟩)
    · cases misfits with
      | notList _ notNull notList => split <;> simp_all [fail_eq_defect_iff]
      | _ => cases isList
    · split at isItems
      case h_1 | h_2 => simp at isItems
      case h_3 =>
        cases isItems
        exact (ofItems _).mpr ⟨before, item, after, rfl, taken, failed⟩
      case h_4 => cases isItems

theorem Misfits.ne_node {found : Option Value} (misfits : form.Misfits found d) :
    form ≠ .program ∧ form ≠ .value := by
  cases misfits with
  | notList isList =>
    cases form with
    | texts | nodes => exact ⟨nofun, nofun⟩
    | _ => cases isList
  | _ => exact ⟨nofun, nofun⟩

theorem load_eq_defect_iff {kind : NodeKind} (known : (slot, form) ∈ forms kind) :
    form.load path slot entries = .error (.defect p d) ↔
      form.Misfits (get? slot entries) d ∧ p = path.field slot ∨
        ∃ s value, form.Opens slot entries s value ∧
          form.loadValue (path.step s) value = .error (.defect p d) := by
  by_cases isList : form.IsList
  · rw [load_eq_loadList isList, loadList_eq_defect_iff isList]
    refine or_congr_right ⟨?_, ?_⟩
    · rintro ⟨before, item, after, isItems, taken, failed⟩
      exact ⟨_, item, .item isList isItems taken, failed⟩
    · rintro ⟨_, value, opens, failed⟩
      cases opens with
      | item _ isItems taken => exact ⟨_, value, _, isItems, taken, failed⟩
      | program | value => cases isList
  cases form with
  | texts | nodes => exact absurd trivial isList
  | text default =>
    rw [load, discard_eq_error_iff, textField_eq_defect_iff]
    refine (or_iff_left ?_).symm
    rintro ⟨_, _, ⟨⟨⟩⟩, _⟩
  | flag =>
    obtain rfl := forms_flag known
    rw [load, discard_eq_error_iff, escapedField_eq_defect_iff]
    refine (or_iff_left ?_).symm
    rintro ⟨_, _, ⟨⟨⟩⟩, _⟩
  | program =>
    rw [load_program, or_iff_right (·.1.ne_node.1 rfl)]
    constructor
    · intro failed
      split at failed
      · cases failed
      · exact ⟨_, _, .program ‹_›, failed⟩
    · rintro ⟨_, _, opens, failed⟩
      cases opens with
      | item isItems => exact absurd isItems isList
      | program isPresent =>
        rw [isPresent]
        exact failed
  | value =>
    obtain rfl := forms_value known
    rw [load_value, or_iff_right (·.1.ne_node.2 rfl)]
    constructor
    · intro failed
      split at failed
      case h_1 | h_2 => cases failed
      case h_3 notText isValue => exact ⟨_, _, .value isValue notText, failed⟩
    · rintro ⟨_, found, opens, failed⟩
      cases opens with
      | item isItems => exact absurd isItems isList
      | value isValue notText =>
        rw [isValue]
        cases found with
        | text s => exact absurd rfl (notText s)
        | _ => exact failed

end Form

theorem node_map_eq_defect_iff :
    node path (.map entries) = .error (.defect p d) ↔
      kind path entries = .error (.defect p d) ∨
        (∃ kind, named? entries = some kind ∧ checkKeys path kind entries = .error (.defect p d)) ∨
          ∃ slot form, Attempts entries slot form ∧
            (form.Misfits (get? slot entries) d ∧ p = path.field slot ∨
              ∃ s value, form.Opens slot entries s value ∧
                form.loadValue (path.step s) value = .error (.defect p d)) := by
  rw [node_map_eq_error_iff]
  refine or_congr_right ?_
  constructor
  · rintro ⟨kind, isKind, wrongKeys | ⟨ofKind, before, slot, form, after, split, admits, failed⟩⟩
    · exact .inl ⟨kind, isKind, wrongKeys⟩
    · have known : (slot, form) ∈ forms kind := by simp [split]
      exact .inr ⟨slot, form, ⟨kind, before, after, ofKind, split, admits⟩,
        (Form.load_eq_defect_iff known).mp failed⟩
  · rintro (⟨kind, isKind, wrongKeys⟩ |
      ⟨slot, form, ⟨kind, before, after, ofKind, split, admits⟩, failed⟩)
    · exact ⟨kind, isKind, .inl wrongKeys⟩
    · have known : (slot, form) ∈ forms kind := by simp [split]
      have inField := (Form.load_eq_defect_iff known).mpr failed
      exact ⟨kind, named?_eq_some_iff.mpr ofKind.type,
        .inr ⟨ofKind, before, slot, form, after, split, admits, inField⟩⟩

theorem Form.Opens.sizeOf_lt {form : Form} {s : Step} (opens : form.Opens slot entries s value) :
    sizeOf value < sizeOf (Value.map entries) := by
  cases opens with
  | item _ isItems _ => exact sizeOf_item_lt isItems (by simp)
  | program isPresent => exact sizeOf_get?_lt (get?_of_present? isPresent)
  | value isValue _ => exact sizeOf_get?_lt isValue

theorem Fails.of_node {data : Value} (failed : node path data = .error (.defect p d)) :
    ∃ steps, Fails data steps d ∧ p = path.below steps := by
  -- Values are found under keys, so the induction is on the size of the value.
  induction size : sizeOf data using Nat.strongRecOn generalizing data path with
  | ind n ih =>
    cases data with
    | map entries =>
      rcases node_map_eq_defect_iff.mp failed with
        wrongKind | ⟨kind, isKind, wrongKeys⟩ | ⟨slot, form, attempts, inField⟩
      · obtain ⟨unnamed, writable, rfl, rfl⟩ := kind_eq_defect_iff.mp wrongKind
        exact ⟨_, .type unnamed writable, rfl⟩
      · obtain ⟨extra, keys, sorted, writable, rfl, rfl⟩ := checkKeys_eq_defect_iff.mp wrongKeys
        exact ⟨_, .keys isKind extra sorted writable, (Path.below_nil _).symm⟩
      · rcases inField with ⟨misfits, rfl⟩ | ⟨s, value, opens, failed⟩
        · exact ⟨_, .field attempts misfits, rfl⟩
        · rcases (Form.loadValue_eq_defect_iff opens).mp failed with ⟨rejects, rfl⟩
            | ⟨other, failed⟩
          · exact ⟨_, .value attempts opens rejects, rfl⟩
          · obtain ⟨steps, fails, rfl⟩ := ih _ (size ▸ opens.sizeOf_lt) failed rfl
            exact ⟨s :: steps, .within attempts opens other fails, (Path.below_cons ..).symm⟩
    | _ =>
      obtain ⟨rfl, rfl⟩ := fail_eq_defect_iff.mp failed
      exact ⟨[], .notMapping nofun, (Path.below_nil _).symm⟩

theorem Fails.node_eq {data : Value} {steps : List Step} (fails : Fails data steps d)
    (path : Path) : node path data = .error (.defect (path.below steps) d) := by
  induction fails generalizing path with
  | @notMapping value notMap =>
    rw [Path.below_nil]
    cases value with
    | map entries => exact absurd rfl (notMap entries)
    | _ => rfl
  | type unnamed writable =>
    exact node_map_eq_defect_iff.mpr (.inl (kind_eq_defect_iff.mpr ⟨unnamed, writable, rfl, rfl⟩))
  | keys isKind extra sorted writable =>
    rw [Path.below_nil]
    exact node_map_eq_defect_iff.mpr (.inr (.inl ⟨_, isKind,
      checkKeys_eq_defect_iff.mpr ⟨extra, _, sorted, writable, rfl, rfl⟩⟩))
  | field attempts misfits =>
    exact node_map_eq_defect_iff.mpr (.inr (.inr ⟨_, _, attempts, .inl ⟨misfits, rfl⟩⟩))
  | value attempts opens rejects =>
    refine node_map_eq_defect_iff.mpr (.inr (.inr ⟨_, _, attempts, .inr ⟨_, _, opens, ?_⟩⟩))
    exact (Form.loadValue_eq_defect_iff opens).mpr (.inl ⟨rejects, rfl⟩)
  | within attempts opens other _ ih =>
    refine node_map_eq_defect_iff.mpr (.inr (.inr ⟨_, _, attempts, .inr ⟨_, _, opens, ?_⟩⟩))
    rw [Path.below_cons]
    exact (Form.loadValue_eq_defect_iff opens).mpr (.inr ⟨other, ih _⟩)

/-- Which defect ends the loading of a value, and where it stands below the value. -/
theorem node_eq_defect_iff {data : Value} : node path data = .error (.defect p d) ↔
    ∃ steps, Fails data steps d ∧ p = path.below steps := by
  constructor
  · exact Fails.of_node
  · rintro ⟨steps, fails, rfl⟩
    exact fails.node_eq path

end Document
end TemplateActions
