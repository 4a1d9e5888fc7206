import TemplateActions.Proofs.Document.Fields
import TemplateActions.Proofs.Path.Notation

/-!
Documents with other spellings of their texts and numbers. If a spelling keeps plain words, a
document and its respelling are loaded alike: the trees differ in the spelling of their texts
only, and a document that is refused stays refused.
-/
namespace TemplateActions

structure Spelling where
  text : String → String
  number : Binary64 → Binary64

/-- Words of letters, among them all names of fields and of kinds, stay as they are, and no other
text becomes one of them. -/
def Spelling.KeepsWords (r : Spelling) : Prop :=
  ∀ word : String, word.toList.all Char.isAlpha → ∀ s, r.text s = word ↔ s = word

mutual

def Value.respell (r : Spelling) : Value → Value
  | .float x => .float (r.number x)
  | .text s => .text (r.text s)
  | .list items => .list (Value.respellAll r items)
  | .tuple items => .tuple (Value.respellAll r items)
  | .set items => .set (Value.respellAll r items)
  | .map entries => .map (Value.respellEntries r entries)
  | value => value

def Value.respellAll (r : Spelling) : List Value → List Value
  | [] => []
  | item :: rest => item.respell r :: Value.respellAll r rest

def Value.respellEntries (r : Spelling) : List (Value × Value) → List (Value × Value)
  | [] => []
  | (key, value) :: rest => (key.respell r, value.respell r) :: Value.respellEntries r rest

end

mutual

theorem Value.isWritable_respell (r : Spelling) : ∀ value : Value,
    (value.respell r).isWritable = value.isWritable
  | .list items | .tuple items | .set items => Value.areWritable_respellAll r items
  | .map entries => Value.entriesAreWritable_respellEntries r entries
  | .null | .bool _ | .int _ | .float _ | .text _ | .bytes _ | .date _ | .dateTime _ => rfl

theorem Value.areWritable_respellAll (r : Spelling) : ∀ items : List Value,
    Value.areWritable (Value.respellAll r items) = Value.areWritable items
  | [] => rfl
  | item :: rest => by
    rw [Value.respellAll, Value.areWritable, Value.areWritable, Value.isWritable_respell r item,
      Value.areWritable_respellAll r rest]

theorem Value.entriesAreWritable_respellEntries (r : Spelling) : ∀ entries : List (Value × Value),
    Value.entriesAreWritable (Value.respellEntries r entries) = Value.entriesAreWritable entries
  | [] => rfl
  | (key, value) :: rest => by
    rw [Value.respellEntries, Value.entriesAreWritable, Value.entriesAreWritable,
      Value.isWritable_respell r key, Value.isWritable_respell r value,
      Value.entriesAreWritable_respellEntries r rest]

end

namespace Node

mutual

def respell (f : String → String) : Node → Node
  | .program id statements => .program id (respellAll f statements)
  | .element id tag attributes children helpers =>
    .element id (f tag) (respellAll f attributes) (respellAll f children) (respellAll f helpers)
  | .attr id name value => .attr id (f name) (value.respell f)
  | .block id path params body inverse =>
    .block id (f path) (params.map f) (respellOption f body) (respellOption f inverse)
  | .component id tag attributes body inverse =>
    .component id (f tag) (respellAll f attributes) (respellOption f body) (respellOption f inverse)
  | .text id chars => .text id (f chars)
  | .mustache id path params escaped => .mustache id (f path) (params.map f) escaped
  | node => node

def respellAll (f : String → String) : List Node → List Node
  | [] => []
  | node :: rest => node.respell f :: respellAll f rest

def respellOption (f : String → String) : Option Node → Option Node
  | none => none
  | some node => some (node.respell f)

end

mutual

theorem respell_self : ∀ node : Node, node.respell (fun s => s) = node
  | .program _ statements => by simp only [respell, respellAll_self statements]
  | .element _ _ attributes children helpers => by
    simp only [respell, respellAll_self attributes, respellAll_self children,
      respellAll_self helpers]
  | .attr _ _ value => by simp only [respell, respell_self value]
  | .block _ _ _ body inverse => by
    simp only [respell, respellOption_self body, respellOption_self inverse, List.map_id']
  | .component _ _ attributes body inverse => by
    simp only [respell, respellAll_self attributes, respellOption_self body,
      respellOption_self inverse]
  | .mustache .. => by simp only [respell, List.map_id']
  | .text .. | .foreign .. | .bare .. => rfl

theorem respellAll_self : ∀ nodes : List Node, respellAll (fun s => s) nodes = nodes
  | [] => rfl
  | node :: rest => by simp only [respellAll, respell_self node, respellAll_self rest]

theorem respellOption_self : ∀ node : Option Node, respellOption (fun s => s) node = node
  | none => rfl
  | some node => by simp only [respellOption, respell_self node]

end

variable (f : String → String)

@[simp] theorem kind?_respell (node : Node) : (node.respell f).kind? = node.kind? := by
  cases node <;> rfl

mutual

theorem numberFrom_respell : ∀ (node : Node) (n : Nat),
    (node.respell f).numberFrom n = ((node.numberFrom n).1.respell f, (node.numberFrom n).2)
  | .program _ statements, n => by
    simp only [respell, numberFrom, numberAll_respell statements]
  | .element _ _ attributes children helpers, n => by
    simp only [respell, numberFrom, numberAll_respell attributes, numberAll_respell children,
      numberAll_respell helpers]
  | .attr _ _ value, n => by simp only [respell, numberFrom, numberFrom_respell value]
  | .block _ _ _ body inverse, n => by
    simp only [respell, numberFrom, numberOption_respell body, numberOption_respell inverse]
  | .component _ _ attributes body inverse, n => by
    simp only [respell, numberFrom, numberAll_respell attributes, numberOption_respell body,
      numberOption_respell inverse]
  | .text .., _ | .mustache .., _ | .foreign .., _ | .bare .., _ => rfl

theorem numberAll_respell : ∀ (nodes : List Node) (n : Nat),
    numberAll n (respellAll f nodes) = (respellAll f (numberAll n nodes).1, (numberAll n nodes).2)
  | [], _ => rfl
  | node :: rest, n => by
    simp only [respellAll, numberAll, numberFrom_respell node, numberAll_respell rest]

theorem numberOption_respell : ∀ (node : Option Node) (n : Nat),
    numberOption n (respellOption f node) =
      (respellOption f (numberOption n node).1, (numberOption n node).2)
  | none, _ => rfl
  | some node, n => by simp only [respellOption, numberOption, numberFrom_respell node]

end

theorem numbered_respell (node : Node) : (node.respell f).numbered = node.numbered.respell f :=
  congrArg Prod.fst (numberFrom_respell f node 0)

end Node

namespace Document

open Value (respellEntries respellAll)

/-- One loading fails if another one does, and otherwise gives what corresponds to its result. -/
inductive Follows {α β : Type} (h : α → β) : Loaded α → Loaded β → Prop
  | ok (a : α) : Follows h (.ok a) (.ok (h a))
  | error (e e' : DocumentFailure) : Follows h (.error e) (.error e')

theorem Follows.bind {α β γ δ : Type} {h : α → β} {k : γ → δ} {x : Loaded α} {y : Loaded β}
    {f : α → Loaded γ} {g : β → Loaded δ} (first : Follows h x y)
    (later : ∀ a, Follows k (f a) (g (h a))) : Follows k (x >>= f) (y >>= g) := by
  cases first with
  | ok a => exact later a
  | error e e' => exact .error e e'

theorem Follows.fail {α β : Type} {h : α → β} {path : Path} {defect defect' : Defect} :
    Follows h (fail path defect) (fail path defect') := .error _ _

theorem Follows.eq_ok {α β : Type} {h : α → β} {x : Loaded α} {y : Loaded β}
    (follows : Follows h x y)
    {a : α} (same : x = .ok a) : y = .ok (h a) := by
  cases follows <;> cases same
  rfl

theorem Follows.eq_error {α β : Type} {h : α → β} {x : Loaded α} {y : Loaded β}
    (follows : Follows h x y)
    {e : DocumentFailure} (same : x = .error e) : ∃ e', y = .error e' := by
  cases follows <;> cases same
  exact ⟨_, rfl⟩

variable {r : Spelling} {path : Path} {slot : Field} {entries : Entries} {wanted : Option NodeKind}

theorem respellAll_eq_map (items : List Value) :
    respellAll r items = items.map (Value.respell r) := by
  induction items with
  | nil => rfl
  | cons item rest ih => rw [respellAll, ih, List.map_cons]

theorem respellEntries_eq_map (entries : Entries) :
    respellEntries r entries = entries.map fun entry => (entry.1.respell r, entry.2.respell r) := by
  induction entries with
  | nil => rfl
  | cons entry rest ih => rw [respellEntries, ih, List.map_cons]

theorem NodeKind.isWord (kind : NodeKind) : kind.name.toList.all Char.isAlpha := by
  cases kind <;> decide

theorem isField_respell (keeps : r.KeepsWords) (slot : Field) (key : Value) :
    isField slot (key.respell r) = isField slot key := by
  cases key with
  | text s =>
    rw [Value.respell, isField, isField, Bool.eq_iff_iff, beq_iff_eq, beq_iff_eq]
    exact keeps _ (Field.isWord slot) s
  | _ => rfl

theorem get?_respell (keeps : r.KeepsWords) (slot : Field) (entries : Entries) :
    get? slot (respellEntries r entries) = (get? slot entries).map (Value.respell r) := by
  induction entries with
  | nil => rfl
  | cons entry rest ih =>
    obtain ⟨key, value⟩ := entry
    rw [respellEntries, get?_cons, get?_cons, isField_respell keeps, ih]
    split <;> rfl

theorem named?_respell (keeps : r.KeepsWords) (entries : Entries) :
    named? (respellEntries r entries) = named? entries := by
  refine Option.ext fun kind => ?_
  rw [named?_eq_some_iff, named?_eq_some_iff, get?_respell keeps]
  cases get? .type entries with
  | none => rfl
  | some found =>
    cases found with
    | text s =>
      simp only [Option.map_some, Value.respell, Option.some.injEq, Value.text.injEq]
      exact keeps _ (NodeKind.isWord kind) s
    | _ => simp [Value.respell]

theorem follows_kind (keeps : r.KeepsWords) (path : Path) (entries : Entries) :
    Follows id (kind path entries) (kind path (respellEntries r entries)) := by
  rw [kind_eq, kind_eq, named?_respell keeps]
  cases named? entries with
  | some kind => exact .ok kind
  | none =>
    dsimp only
    split <;> split <;> exact .error _ _

theorem extraKeys_respell (keeps : r.KeepsWords) (kind : NodeKind) (entries : Entries) :
    extraKeys kind (respellEntries r entries) = (extraKeys kind entries).map (Value.respell r) := by
  have keys : (respellEntries r entries).map (·.1) = (entries.map (·.1)).map (Value.respell r) := by
    rw [respellEntries_eq_map, List.map_map, List.map_map]
    rfl
  rw [extraKeys, keys, List.filter_map, extraKeys]
  simp only [Function.comp_def, isField_respell keeps]

theorem checkKeys_eq_error (path : Path) {kind : NodeKind} (extra : extraKeys kind entries ≠ []) :
    ∃ e, checkKeys path kind entries = .error e := by
  cases checked : checkKeys path kind entries with
  | ok u => exact absurd (checkKeys_eq_ok_iff.mp checked) extra
  | error e => exact ⟨e, rfl⟩

theorem follows_checkKeys (keeps : r.KeepsWords) (path : Path) (kind : NodeKind)
    (entries : Entries) :
    Follows id (checkKeys path kind entries) (checkKeys path kind (respellEntries r entries)) := by
  have extra := extraKeys_respell keeps kind entries
  by_cases none : extraKeys kind entries = []
  · rw [none, List.map_nil] at extra
    rw [checkKeys_eq_ok_iff.mpr none, checkKeys_eq_ok_iff.mpr extra]
    exact .ok ()
  · obtain ⟨e, failed⟩ := checkKeys_eq_error path none
    have more : extraKeys kind (respellEntries r entries) ≠ [] := by
      rw [extra]
      simpa using none
    obtain ⟨e', failed'⟩ := checkKeys_eq_error path more
    rw [failed, failed']
    exact .error e e'

theorem follows_textField (keeps : r.KeepsWords) (path : Path) (slot : Field) (entries : Entries)
    {default : Option String} (kept : ∀ s ∈ default, r.text s = s) :
    Follows r.text (textField path slot default entries)
      (textField path slot default (respellEntries r entries)) := by
  rw [textField.eq_def, textField.eq_def, get?_respell keeps]
  cases get? slot entries with
  | none =>
    cases default with
    | none => exact .fail
    | some s =>
      have same := Follows.ok (h := r.text) s
      rwa [kept s rfl] at same
  | some found =>
    cases found with
    | text s => cases default <;> exact .ok s
    | _ => cases default <;> exact .fail

theorem follows_textItems (path : Path) (slot : Field) (index : Nat) (items : List Value) :
    Follows (List.map r.text) (textItems path slot index items)
      (textItems path slot index (respellAll r items)) := by
  induction items generalizing index with
  | nil => exact .ok []
  | cons item rest ih =>
    cases item with
    | text s =>
      rw [respellAll, Value.respell, textItems, textItems]
      have later := ih (index + 1)
      generalize textItems path slot (index + 1) rest = x at later
      generalize textItems path slot (index + 1) (respellAll r rest) = y at later
      cases later with
      | ok texts => exact .ok (s :: texts)
      | error e e' => exact .error e e'
    | _ => exact .fail

theorem follows_textsField (keeps : r.KeepsWords) (path : Path) (slot : Field) (entries : Entries) :
    Follows (List.map r.text) (textsField path slot entries)
      (textsField path slot (respellEntries r entries)) := by
  rw [textsField, textsField, get?_respell keeps]
  cases get? slot entries with
  | none => exact .ok []
  | some found =>
    cases found with
    | null => exact .ok []
    | list items => exact follows_textItems path slot 0 items
    | _ => exact .fail

theorem follows_escapedField (keeps : r.KeepsWords) (path : Path) (entries : Entries) :
    Follows id (escapedField path entries) (escapedField path (respellEntries r entries)) := by
  rw [escapedField, escapedField, get?_respell keeps]
  cases get? .escaped entries with
  | none => exact .ok true
  | some found =>
    cases found with
    | bool b => exact .ok b
    | _ => exact .fail

theorem follows_expectKind (path : Path) (wanted : Option NodeKind) (node : Node) :
    Follows (Node.respell r.text) (expectKind path wanted node)
      (expectKind path wanted (node.respell r.text)) := by
  rw [expectKind.eq_def, expectKind.eq_def, Node.kind?_respell]
  split
  · split
    · exact .ok node
    · exact .fail
  · exact .ok node

theorem follows_expectAttributeValue (path : Path) (node : Node) :
    Follows (Node.respell r.text) (expectAttributeValue path node)
      (expectAttributeValue path (node.respell r.text)) := by
  rw [expectAttributeValue, expectAttributeValue, Node.kind?_respell]
  split
  case h_4 => exact .fail
  all_goals exact .ok node

def Respells (r : Spelling) (value : Value) : Prop :=
  ∀ path, Follows (Node.respell r.text) (node path value) (node path (value.respell r))

theorem follows_nodeItems (items : List Value) (index : Nat)
    (each : ∀ item ∈ items, Respells r item) :
    Follows (Node.respellAll r.text) (nodeItems path slot wanted index items)
      (nodeItems path slot wanted index (respellAll r items)) := by
  induction items generalizing index with
  | nil => exact .ok []
  | cons item rest ih =>
    obtain ⟨here, there⟩ := List.forall_mem_cons.mp each
    rw [respellAll, nodeItems, nodeItems]
    refine (here _).bind fun node => ?_
    refine (follows_expectKind _ wanted node).bind fun node => ?_
    refine (ih (index + 1) there).bind fun nodes => ?_
    exact .ok (node :: nodes)

def RespellsBelow (r : Spelling) (entries : Entries) : Prop :=
  ∀ value, sizeOf value < sizeOf (Value.map entries) → Respells r value

theorem follows_nodesField (keeps : r.KeepsWords) (below : RespellsBelow r entries) (path : Path)
    (slot : Field) (wanted : Option NodeKind) :
    Follows (Node.respellAll r.text) (nodesField path slot wanted entries)
      (nodesField path slot wanted (respellEntries r entries)) := by
  rw [nodesField_eq, nodesField_eq, get?_respell keeps]
  cases found : get? slot entries with
  | none => exact .ok []
  | some value =>
    cases value with
    | null => exact .ok []
    | list items =>
      refine follows_nodeItems items 0 fun item member => below item ?_
      have isItems : items? slot entries = some items := by rw [items?, found]
      exact sizeOf_item_lt isItems member
    | _ => exact .fail

theorem present?_respell (keeps : r.KeepsWords) (slot : Field) (entries : Entries) :
    present? slot (respellEntries r entries) = (present? slot entries).map (Value.respell r) := by
  rw [present?, present?, get?_respell keeps]
  cases get? slot entries with
  | none => rfl
  | some value => cases value <;> rfl

theorem follows_programField (keeps : r.KeepsWords) (below : RespellsBelow r entries) (path : Path)
    (slot : Field) :
    Follows (Node.respellOption r.text) (programField path slot entries)
      (programField path slot (respellEntries r entries)) := by
  rw [programField_eq, programField_eq, present?_respell keeps]
  cases found : present? slot entries with
  | none => exact .ok none
  | some value =>
    refine (below value (sizeOf_get?_lt (get?_of_present? found)) _).bind fun node => ?_
    exact (follows_expectKind _ _ node).bind fun node => .ok (some node)

theorem follows_valueField (keeps : r.KeepsWords) (below : RespellsBelow r entries) (path : Path) :
    Follows (Node.respell r.text) (valueField path entries)
      (valueField path (respellEntries r entries)) := by
  rw [valueField_eq, valueField_eq, get?_respell keeps]
  cases found : get? .value entries with
  | none =>
    have empty := Follows.ok (h := Node.respell r.text) (Node.text 0 "")
    rwa [Node.respell, (keeps "" rfl "").mpr rfl] at empty
  | some value =>
    have respells := below value (sizeOf_get?_lt found) (path.field .value)
    have node := respells.bind (follows_expectAttributeValue (r := r) (path.field .value))
    cases value with
    | text s => exact .ok (Node.text 0 s)
    | _ => exact node

theorem respells_map (keeps : r.KeepsWords) (below : RespellsBelow r entries) :
    Respells r (.map entries) := by
  intro path
  rw [Value.respell, node, node]
  refine (follows_kind keeps path entries).bind fun kind => ?_
  refine (follows_checkKeys keeps path kind entries).bind fun _ => ?_
  have text (slot : Field) : Follows r.text (textField path slot none entries)
      (textField path slot none (respellEntries r entries)) :=
    follows_textField keeps path slot entries nofun
  have texts (slot : Field) := follows_textsField keeps path slot entries
  have nodes (slot : Field) (wanted : Option NodeKind) :=
    follows_nodesField keeps below path slot wanted
  have program (slot : Field) := follows_programField keeps below path slot
  cases kind with
  | program => exact (nodes .statements none).bind fun _ => .ok _
  | element =>
    refine (text .tag).bind fun _ => ?_
    refine (nodes .attributes (some .attr)).bind fun _ => ?_
    refine (nodes .children none).bind fun _ => ?_
    exact (nodes .helpers (some .mustache)).bind fun _ => .ok (Node.element 0 ..)
  | attr =>
    refine (follows_valueField keeps below path).bind fun _ => ?_
    exact (text .name).bind fun _ => .ok (Node.attr 0 ..)
  | block =>
    refine (text .path).bind fun _ => ?_
    refine (texts .params).bind fun _ => ?_
    refine (program .program).bind fun _ => ?_
    exact (program .inverse).bind fun _ => .ok (Node.block 0 ..)
  | component =>
    refine (text .tag).bind fun _ => ?_
    refine (nodes .attributes (some .attr)).bind fun _ => ?_
    refine (program .program).bind fun _ => ?_
    exact (program .inverse).bind fun _ => .ok (Node.component 0 ..)
  | text =>
    refine (follows_textField keeps path .chars entries ?_).bind fun _ => .ok (Node.text 0 _)
    exact fun s isDefault => (Option.mem_some.mp isDefault) ▸ (keeps "" rfl "").mpr rfl
  | mustache =>
    refine (follows_escapedField keeps path entries).bind fun _ => ?_
    refine (text .path).bind fun _ => ?_
    exact (texts .params).bind fun _ => .ok (Node.mustache 0 ..)

theorem respells (keeps : r.KeepsWords) (value : Value) : Respells r value := by
  -- The fields of a mapping are found by their keys, so the induction is on the size of the value.
  induction size : sizeOf value using Nat.strongRecOn generalizing value with
  | ind n ih =>
    cases value with
    | map entries => exact respells_map keeps fun value smaller => ih _ (size ▸ smaller) value rfl
    | _ => exact fun path => .fail

/-- A document and its respelling are loaded alike. -/
theorem follows_tree (keeps : r.KeepsWords) (data : Value) :
    Follows (Node.respell r.text) (tree data) (tree (data.respell r)) := by
  rw [tree, tree]
  refine (respells keeps data Path.root).bind fun root => ?_
  rw [Node.kind?_respell, Node.numbered_respell]
  split
  case h_2 => exact .fail
  all_goals exact .ok _

end Document
end TemplateActions
