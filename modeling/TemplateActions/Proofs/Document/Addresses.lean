import TemplateActions.Proofs.Document.Grammar
import TemplateActions.Proofs.Node.Slots

/-!
Paths followed through documents. The paths of a tree, followed through a document that describes
the tree, lead to the values that describe the nodes; only a text that is written plainly has no
such value.
-/
namespace TemplateActions.Document

def step? : Step → Value → Option Value
  | .field slot, .map entries => get? slot entries
  | .item slot index, .map entries =>
    match get? slot entries with
    | some (.list items) => items[index]?
    | _ => none
  | _, _ => none

/-- The value that a path leads to, from the root of a document. -/
def at? (data : Value) (path : Path) : Option Value :=
  path.steps.foldlM (fun value s => step? s value) data

variable {entries : Entries} {slot : Field} {wanted : Option NodeKind} {items : List Value}
  {data : Value} {node : Node}

theorem at?_step (data : Value) (path : Path) (s : Step) :
    at? data (path.step s) = (at? data path).bind (step? s) := by
  simp only [at?, Path.step, List.foldlM_append, List.foldlM_cons, List.foldlM_nil, bind_pure]
  rfl

theorem step?_item (isList : items? slot entries = some items) (index : Nat) :
    step? (.item slot index) (.map entries) = items[index]? := by
  rw [items?] at isList
  rw [step?]
  split at isList <;> simp_all

theorem get?_of_items? (isList : items? slot entries = some items) (nonempty : items ≠ []) :
    get? slot entries = some (.list items) := by
  rw [items?] at isList
  split at isList <;> simp_all

theorem Matches.getElem? {nodes : List Node} {index : Nat} (h : Matches wanted items nodes)
    (found : nodes[index]? = some node) :
    ∃ value, items[index]? = some value ∧ (value, node) ∈ items.zip nodes := by
  obtain ⟨inside, isNode⟩ := List.getElem?_eq_some_iff.mp found
  rw [← h.length] at inside
  have isValue := List.getElem?_eq_getElem inside
  exact ⟨_, isValue, List.mem_of_getElem? (List.getElem?_zip_eq_some.mpr ⟨isValue, found⟩)⟩

def Reaches (data : Value) (s : Step × Node) : Prop :=
  ∃ value, step? s.1 data = some value ∧ Describes value s.2

theorem reaches_item {nodes : List Node} {s : Step × Node}
    (isList : items? slot entries = some items) (fits : Matches wanted items nodes)
    (each : ∀ p ∈ items.zip nodes, Describes p.1 p.2) (member : s ∈ Node.itemSlots slot nodes) :
    Reaches (.map entries) s := by
  obtain ⟨index, isItem, found⟩ := Node.mem_itemSlots_iff.mp member
  obtain ⟨value, isValue, paired⟩ := fits.getElem? found
  exact ⟨value, by rw [isItem, step?_item isList, isValue], each _ paired⟩

theorem reaches_field {branch : Option Node} {s : Step × Node}
    (fits : Matches wanted (present? slot entries).toList branch.toList)
    (each : ∀ p ∈ (present? slot entries).toList.zip branch.toList, Describes p.1 p.2)
    (member : s ∈ Node.fieldSlots slot branch) : Reaches (.map entries) s := by
  obtain ⟨node, isBranch, rfl⟩ := List.mem_map.mp member
  rw [Option.mem_toList] at isBranch
  rw [isBranch] at fits each
  cases isPresent : present? slot entries with
  | none =>
    rw [isPresent] at fits
    cases fits.length
  | some value =>
    rw [isPresent] at each
    exact ⟨value, get?_of_present? isPresent, each (value, node) List.mem_cons_self⟩

theorem Describes.reaches (h : Describes data node) {s : Step × Node} (member : s ∈ node.slots) :
    Reaches data s ∨ s.2.kind? = some .text := by
  cases h with
  | program _ isStatements statements each =>
    exact .inl (reaches_item isStatements statements each member)
  | element _ _ isAttributes attributes onAttributes isChildren children onChildren
      isHelpers helpers
      onHelpers =>
    simp only [Node.slots, List.mem_append] at member
    rcases member with (inside | inside) | inside
    · exact .inl (reaches_item isAttributes attributes onAttributes inside)
    · exact .inl (reaches_item isHelpers helpers onHelpers inside)
    · exact .inl (reaches_item isChildren children onChildren inside)
  | plainAttr =>
    cases List.mem_singleton.mp member
    exact .inr rfl
  | attr _ _ found described =>
    cases List.mem_singleton.mp member
    exact .inl ⟨_, found, described⟩
  | block _ _ _ body onBody inverse onInverse =>
    rcases List.mem_append.mp member with inside | inside
    · exact .inl (reaches_field body onBody inside)
    · exact .inl (reaches_field inverse onInverse inside)
  | component _ _ isAttributes attributes onAttributes body onBody inverse onInverse =>
    simp only [Node.slots, List.mem_append] at member
    rcases member with (inside | inside) | inside
    · exact .inl (reaches_item isAttributes attributes onAttributes inside)
    · exact .inl (reaches_field body onBody inside)
    · exact .inl (reaches_field inverse onInverse inside)
  | text | mustache => cases member

/-- The path of a node leads to a value that describes the node, unless the node is a plain text. -/
theorem Describes.found {document : Value} {top : Path} (h : Describes data node)
    (start : at? document top = some data) {e : Path × Node} (member : e ∈ node.positions top) :
    (∃ value, at? document e.1 = some value ∧ Describes value e.2) ∨ e.2.kind? = some .text := by
  induction node using Node.slot_induction generalizing data top with
  | step node ih =>
    rw [Node.positions_eq, List.mem_cons, Node.mem_positionsBelow] at member
    rcases member with rfl | ⟨s, hs, below⟩
    · exact .inl ⟨data, start, h⟩
    · rcases h.reaches hs with ⟨value, found, described⟩ | isText
      · refine ih s hs described ?_ below
        rw [at?_step, start, Option.bind_some, found]
      · -- Nothing stands below a text.
        obtain ⟨s, node⟩ := s
        cases node <;> cases isText
        cases List.mem_singleton.mp below
        exact .inr rfl

theorem Describes.ofKind {kind : NodeKind} (h : Describes data node)
    (isKind : node.kind? = some kind) : ∃ entries, data = .map entries ∧ OfKind kind entries := by
  cases h <;> cases isKind <;> exact ⟨_, rfl, ‹_›⟩

end TemplateActions.Document
