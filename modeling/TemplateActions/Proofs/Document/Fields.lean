import TemplateActions.Document.Tree

/-!
The fields of a mapping in a tree document: for every kind of field, the values that it takes and
what is read from them.
-/
namespace TemplateActions

theorem NodeKind.ofName?_eq_some_iff {name : String} {kind : NodeKind} :
    NodeKind.ofName? name = some kind ↔ name = kind.name := by
  constructor
  · intro found
    have matched := List.find?_some found
    exact (beq_iff_eq.mp matched).symm
  · rintro rfl
    cases kind <;> rfl

namespace Document

variable {path : Path} {slot : Field} {entries : Entries}

theorem bind_eq_ok_iff {α β : Type} {x : Loaded α} {f : α → Loaded β} {b : β} :
    (x >>= f) = .ok b ↔ ∃ a, x = .ok a ∧ f a = .ok b := by
  cases x <;> simp [bind, Except.bind]

theorem ok_bind {α β : Type} {x : Loaded α} {a : α} {f : α → Loaded β} (h : x = .ok a) :
    (x >>= f) = f a := by
  rw [h]
  rfl

/-- The items of a list field, which may be absent or null; nothing for another value. -/
def items? (slot : Field) (entries : Entries) : Option (List Value) :=
  match get? slot entries with
  | none | some .null => some []
  | some (.list items) => some items
  | some _ => none

def present? (slot : Field) (entries : Entries) : Option Value :=
  match get? slot entries with
  | none | some .null => none
  | some value => some value

def named? (entries : Entries) : Option NodeKind :=
  match get? .type entries with
  | some (.text name) => NodeKind.ofName? name
  | _ => none

/-- A mapping of a kind: its type says so, and it has no other keys than fields of that kind. -/
structure OfKind (kind : NodeKind) (entries : Entries) : Prop where
  type : get? .type entries = some (.text kind.name)
  keys : ∀ entry ∈ entries, ∃ slot ∈ Field.type :: fieldsOf kind, entry.1 = .text slot.text

theorem isField_iff {key : Value} : isField slot key ↔ key = .text slot.text := by
  cases key <;> simp [isField]

theorem get?_cons (slot : Field) (key value : Value) (rest : Entries) :
    get? slot ((key, value) :: rest) = if isField slot key then some value else get? slot rest := by
  rw [get?, List.find?_cons]
  cases isField slot key <;> rfl

theorem sizeOf_get?_lt {value : Value} (found : get? slot entries = some value) :
    sizeOf value < sizeOf (Value.map entries) := by
  obtain ⟨entry, isEntry, rfl⟩ := Option.map_eq_some_iff.mp found
  have inEntries := List.sizeOf_lt_of_mem (List.mem_of_find?_eq_some isEntry)
  obtain ⟨key, value⟩ := entry
  simp only [Prod.mk.sizeOf_spec, Value.map.sizeOf_spec] at inEntries ⊢
  omega

theorem sizeOf_item_lt {items : List Value} {item : Value}
    (found : items? slot entries = some items) (member : item ∈ items) :
    sizeOf item < sizeOf (Value.map entries) := by
  rw [items?] at found
  split at found
  case h_3 items' isList =>
    cases found
    have inField := sizeOf_get?_lt isList
    have inItems := List.sizeOf_lt_of_mem member
    simp only [Value.list.sizeOf_spec] at inField
    omega
  all_goals
    cases found
    try exact absurd member List.not_mem_nil

theorem get?_of_present? {value : Value} (found : present? slot entries = some value) :
    get? slot entries = some value := by
  rw [present?] at found
  split at found <;> cases found
  assumption

theorem named?_eq_some_iff {kind : NodeKind} :
    named? entries = some kind ↔ get? .type entries = some (.text kind.name) := by
  rw [named?]
  split
  case h_1 name isName => rw [NodeKind.ofName?_eq_some_iff, isName, Option.some_inj,
    Value.text.injEq]
  case h_2 notText => exact iff_of_false nofun (notText _)

theorem kind_eq (path : Path) (entries : Entries) :
    Document.kind path entries =
      match named? entries with
      | some kind => .ok kind
      | none =>
        let found := (get? .type entries).getD .null
        if found.isWritable then fail (path.field .type) (.unknownType found)
        else .error .overlongInteger := by
  rw [Document.kind, named?]
  cases get? .type entries with
  | none => rfl
  | some found => cases found <;> rfl

theorem kind_eq_ok_iff {kind : NodeKind} :
    Document.kind path entries = .ok kind ↔ get? .type entries = some (.text kind.name) := by
  rw [kind_eq, ← named?_eq_some_iff]
  cases named? entries with
  | some _ => simp
  | none =>
    dsimp only
    split <;> simp [fail]

theorem extraKeys_eq_nil_iff {kind : NodeKind} :
    extraKeys kind entries = [] ↔
      ∀ entry ∈ entries, ∃ slot ∈ Field.type :: fieldsOf kind, entry.1 = .text slot.text := by
  rw [extraKeys, List.filter_eq_nil_iff, List.forall_mem_map]
  simp only [Bool.not_eq_true, Bool.not_eq_false', List.any_eq_true, isField_iff]

theorem checkKeys_eq_ok_iff {kind : NodeKind} :
    checkKeys path kind entries = .ok () ↔ extraKeys kind entries = [] := by
  rw [checkKeys]
  cases extraKeys kind entries with
  | nil => simp
  | cons key rest =>
    dsimp only [List.isEmpty_cons]
    rw [if_neg Bool.false_ne_true]
    split
    · simp
    · split <;> simp [fail]

theorem textField_eq_ok_iff {text : String} :
    textField path slot none entries = .ok text ↔ get? slot entries = some (.text text) := by
  unfold textField
  cases get? slot entries with
  | none => simp [fail]
  | some found => cases found <;> simp [fail]

theorem textField_default_eq_ok_iff {default text : String} :
    textField path slot (some default) entries = .ok text ↔
      (get? slot entries).getD (.text default) = .text text := by
  unfold textField
  cases get? slot entries with
  | none => simp
  | some found => cases found <;> simp [fail]

theorem textItems_eq_ok_iff {index : Nat} {items : List Value} {texts : List String} :
    textItems path slot index items = .ok texts ↔ items = texts.map .text := by
  induction items generalizing index texts with
  | nil => cases texts <;> simp [textItems]
  | cons item rest ih =>
    cases item with
    | text s =>
      rw [textItems]
      cases texts with
      | nil => cases textItems path slot (index + 1) rest <;> simp
      | cons text texts =>
        have tail := @ih (index + 1) texts
        rw [List.map_cons, List.cons.injEq, Value.text.injEq, ← tail]
        cases textItems path slot (index + 1) rest <;> simp
    | _ => cases texts <;> simp [textItems, fail]

theorem textsField_eq_ok_iff {texts : List String} :
    textsField path slot entries = .ok texts ↔ items? slot entries = some (texts.map .text) := by
  rw [textsField, items?]
  cases get? slot entries with
  | none => cases texts <;> simp
  | some found =>
    cases found with
    | null => cases texts <;> simp
    | list items => simp [textItems_eq_ok_iff]
    | _ => simp [fail]

theorem escapedField_eq_ok_iff {escaped : Bool} :
    escapedField path entries = .ok escaped ↔
      (get? .escaped entries).getD (.bool true) = .bool escaped := by
  rw [escapedField]
  cases get? .escaped entries with
  | none => simp
  | some found => cases found <;> simp [fail]

theorem nodesField_eq (path : Path) (slot : Field) (wanted : Option NodeKind) (entries : Entries) :
    nodesField path slot wanted entries =
      match get? slot entries with
      | none | some .null => .ok []
      | some (.list items) => nodeItems path slot wanted 0 items
      | some found => fail (path.field slot) (.wrongShape .list found) := by
  induction entries with
  | nil => simp [nodesField, get?]
  | cons entry rest ih =>
    obtain ⟨key, value⟩ := entry
    rw [nodesField.eq_def, get?_cons]
    dsimp only
    split
    · cases value <;> rfl
    · exact ih

theorem nodesField_eq_ok_iff {wanted : Option NodeKind} {nodes : List Node} :
    nodesField path slot wanted entries = .ok nodes ↔
      ∃ items, items? slot entries = some items ∧
        nodeItems path slot wanted 0 items = .ok nodes := by
  rw [nodesField_eq, items?]
  cases get? slot entries with
  | none => simp [nodeItems]
  | some found => cases found <;> simp [nodeItems, fail]

theorem programField_eq (path : Path) (slot : Field) (entries : Entries) :
    programField path slot entries =
      match present? slot entries with
      | none => .ok none
      | some value => do
        let node ← node (path.field slot) value
        let node ← expectKind (path.field slot) (some .program) node
        return some node := by
  rw [present?]
  induction entries with
  | nil => simp [programField, get?]
  | cons entry rest ih =>
    obtain ⟨key, value⟩ := entry
    rw [programField.eq_def, get?_cons]
    dsimp only
    split
    · cases value <;> rfl
    · exact ih

theorem valueField_eq (path : Path) (entries : Entries) :
    valueField path entries =
      match get? .value entries with
      | none => .ok (.text 0 "")
      | some (.text s) => .ok (.text 0 s)
      | some value =>
        node (path.field .value) value >>= expectAttributeValue (path.field .value) := by
  induction entries with
  | nil => simp [valueField, get?]
  | cons entry rest ih =>
    obtain ⟨key, value⟩ := entry
    rw [valueField.eq_def, get?_cons]
    dsimp only
    split
    · cases value <;> rfl
    · exact ih

end Document
end TemplateActions
