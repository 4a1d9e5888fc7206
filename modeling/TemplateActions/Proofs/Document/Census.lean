import TemplateActions.Proofs.Document.Typing
import TemplateActions.Proofs.Path.Notation
import TemplateActions.Proofs.Visitor.Openings

/-!
Counting the nodes of a document. The census lists the kinds of the nodes at the root, among
statements and children, and in place of the programs of blocks and components; values of attributes
and helpers are left out. The actions of the tree that a document describes are of the kinds that
its census calls for.
-/
namespace TemplateActions

def NodeKind.actionKinds : NodeKind → List ActionKind
  | .program => [.startProgram, .endProgram]
  | .element => [.openElement, .closeElement]
  | .attr => []
  | .block => [.block]
  | .component => [.component]
  | .text => [.text]
  | .mustache => [.mustache]

namespace Document

mutual

def census : Value → List NodeKind
  | .map entries =>
    (named? entries).toList ++ slotCensus .statements entries ++ slotCensus .children entries ++
      slotCensus .program entries ++ slotCensus .inverse entries
  | _ => []

def slotCensus (slot : Field) : Entries → List NodeKind
  | [] => []
  | (key, value) :: rest =>
    if isField slot key then
      match value with
      | .list items => listCensus items
      | value => census value
    else slotCensus slot rest

def listCensus : List Value → List NodeKind
  | [] => []
  | value :: rest => census value ++ listCensus rest

end

variable {slot : Field} {entries : Entries} {wanted : Option NodeKind}

theorem listCensus_eq (values : List Value) : listCensus values = values.flatMap census := by
  induction values with
  | nil => rfl
  | cons value rest ih => rw [listCensus, ih, List.flatMap_cons]

theorem slotCensus_eq (slot : Field) (entries : Entries) :
    slotCensus slot entries =
      match get? slot entries with
      | none => []
      | some (.list items) => items.flatMap census
      | some value => census value := by
  induction entries with
  | nil => rfl
  | cons entry rest ih =>
    obtain ⟨key, value⟩ := entry
    rw [slotCensus.eq_def, get?_cons]
    dsimp only
    split
    · cases value with
      | list items => exact listCensus_eq items
      | _ => rfl
    · exact ih

theorem slotCensus_items {items : List Value} (found : items? slot entries = some items) :
    slotCensus slot entries = items.flatMap census := by
  rw [items?] at found
  rw [slotCensus_eq]
  split at found <;> cases found <;> simp_all [census]

theorem OfKind.get?_eq_none {kind : NodeKind} (h : OfKind kind entries)
    (other : slot ∉ Field.type :: fieldsOf kind) : get? slot entries = none := by
  rw [get?, Option.map_eq_none_iff, List.find?_eq_none]
  intro entry member isSlot
  obtain ⟨slot', field, key⟩ := h.keys entry member
  rw [isField_iff, key, Value.text.injEq] at isSlot
  exact other (Field.text_injective isSlot ▸ field)

theorem slotCensus_branch {branch : Option Node}
    (fits : Matches wanted (present? slot entries).toList branch.toList)
    (each : ∀ e ∈ (present? slot entries).toList.zip branch.toList, Describes e.1 e.2) :
    slotCensus slot entries = (present? slot entries).toList.flatMap census := by
  have maps : ∀ v ∈ (present? slot entries).toList, ∃ entries, v = Value.map entries :=
    fits.forall_values fun e member => (each e member).exists_map
  rw [slotCensus_eq]
  rw [present?] at maps ⊢
  split at maps
  case h_1 absent => rw [absent]; rfl
  case h_2 isNull => rw [isNull]; rfl
  case h_3 value _ isValue =>
    obtain ⟨entries, rfl⟩ := maps value (Option.mem_toList.mpr rfl)
    rw [isValue]
    exact (List.flatMap_singleton census _).symm

/-- The kinds of the actions that are given for some nodes: in the blocks of their programs, and in
the block of the program around them. -/
def givenKinds (counts : Counts) (c : Context) (index : Nat) (nodes : List Node) :
    List ActionKind :=
  (Node.readings counts nodes ++ Node.segments counts c index nodes).map Action.kind

/-- The kinds of the actions that the census of a document calls for. -/
def calledKinds (data : Value) : List ActionKind := (census data).flatMap NodeKind.actionKinds

def Calls (counts : Counts) (data : Value) (node : Node) : Prop :=
  ∀ c, ((node.reading counts ++ node.segment counts c).map Action.kind).Perm (calledKinds data)

def countedSlots : NodeKind → List Field
  | .program => [.statements]
  | .element => [.children]
  | .block | .component => [.program, .inverse]
  | .attr | .text | .mustache => []

theorem OfKind.census_eq {kind : NodeKind} (h : OfKind kind entries) :
    census (.map entries) =
      kind :: (countedSlots kind).flatMap fun slot => slotCensus slot entries := by
  have absent (slot : Field) (other : slot ∉ Field.type :: fieldsOf kind) :
      slotCensus slot entries = [] := by
    rw [slotCensus_eq, h.get?_eq_none other]
  rw [census, named?_eq_some_iff.mpr h.type]
  cases kind <;> simp [countedSlots, fieldsOf, absent]

theorem givenKinds_perm {values : List Value} {nodes : List Node}
    (fits : Matches wanted values nodes) (calls : ∀ e ∈ values.zip nodes, Calls counts e.1 e.2)
    (c : Context) (index : Nat) :
    (givenKinds counts c index nodes).Perm (values.flatMap calledKinds) := by
  induction values generalizing nodes index with
  | nil =>
    cases List.eq_nil_of_length_eq_zero fits.length.symm
    exact .nil
  | cons value rest ih =>
    cases nodes with
    | nil => cases fits.length
    | cons node nodes =>
      obtain ⟨length, kinds⟩ := fits
      rw [List.zip_cons_cons, List.forall_mem_cons] at kinds calls
      have here := calls.1 (c.atIndex index)
      have there := ih ⟨Nat.succ.inj length, kinds.2⟩ calls.2 (index + 1)
      refine .trans ?_ (here.append there)
      rw [givenKinds, givenKinds, Node.readings_cons, Node.segments, ← List.map_append]
      refine List.Perm.map _ ?_
      rw [List.append_assoc, ← List.append_assoc (Node.reading _ _)]
      exact List.perm_append_comm_assoc _ _ _

theorem perm_enclosed {α : Type} {first last : α} {before inside all : List α}
    (h : (before ++ inside).Perm all) :
    (before ++ first :: (inside ++ [last])).Perm (first :: last :: all) := by
  refine List.perm_middle.trans (.cons first ?_)
  rw [← List.append_assoc]
  exact (List.perm_append_singleton last _).trans (.cons last h)

theorem OfKind.calledKinds_eq {kind : NodeKind} (h : OfKind kind entries) :
    calledKinds (.map entries) = kind.actionKinds ++
      (countedSlots kind).flatMap fun slot => (slotCensus slot entries).flatMap
        NodeKind.actionKinds := by
  rw [calledKinds, h.census_eq, List.flatMap_cons, List.flatMap_assoc]

theorem flatMap_slotCensus {values : List Value}
    (isSlot : slotCensus slot entries = values.flatMap census) :
    (slotCensus slot entries).flatMap NodeKind.actionKinds = values.flatMap calledKinds := by
  rw [isSlot, List.flatMap_assoc]
  rfl

theorem branch_perm {branch : Option Node}
    (fits : Matches (some .program) (present? slot entries).toList branch.toList)
    (each : ∀ e ∈ (present? slot entries).toList.zip branch.toList, Describes e.1 e.2)
    (calls : ∀ e ∈ (present? slot entries).toList.zip branch.toList, Calls counts e.1 e.2) :
    ((Node.readings counts branch.toList).map Action.kind).Perm
      ((slotCensus slot entries).flatMap NodeKind.actionKinds) := by
  have perm := givenKinds_perm fits calls (.inProgram 0) 0
  rw [givenKinds, Node.segments_eq_nil_of_programs _ fits.kinds_eq, List.append_nil] at perm
  rwa [flatMap_slotCensus (slotCensus_branch fits each)]

theorem branches_perm {kind : NodeKind} {action : Action} {node : Node} {body inverse : Option Node}
    (ofKind : OfKind kind entries) (fields : countedSlots kind = [.program, .inverse])
    (single : kind.actionKinds = [action.kind])
    (reads : node.reading counts =
      Node.readings counts inverse.toList ++ Node.readings counts body.toList)
    (ofBody : ((Node.readings counts body.toList).map Action.kind).Perm
      ((slotCensus .program entries).flatMap NodeKind.actionKinds))
    (ofInverse : ((Node.readings counts inverse.toList).map Action.kind).Perm
      ((slotCensus .inverse entries).flatMap NodeKind.actionKinds)) :
    ((node.reading counts ++ [action]).map Action.kind).Perm (calledKinds (.map entries)) := by
  rw [ofKind.calledKinds_eq, fields, single, reads, List.flatMap_cons, List.flatMap_singleton,
    List.map_append, List.map_append, List.map_singleton]
  refine (List.perm_append_singleton _ _).trans (.cons _ ?_)
  exact List.perm_append_comm.trans (ofBody.append ofInverse)

theorem leaf_perm {kind : NodeKind} {actions : List Action} {node : Node}
    (ofKind : OfKind kind entries) (fields : countedSlots kind = [])
    (own : actions.map Action.kind = kind.actionKinds) (none : node.programs = []) :
    ((node.reading counts ++ actions).map Action.kind).Perm (calledKinds (.map entries)) := by
  rw [ofKind.calledKinds_eq, fields, Node.reading, none, List.flatMap_nil, List.append_nil, ← own]
  exact .refl _

theorem attributes_programs {values : List Value} {attributes : List Node}
    (fits : Matches (some .attr) values attributes)
    (each : ∀ e ∈ values.zip attributes, Describes e.1 e.2) : ∀ a ∈ attributes, a.programs = [] :=
  fun a member => (fits.forall_nodes (fun e he => (each e he).wellTyped) a member).programs_attr
    (fits.kinds_eq a member)

theorem Describes.calls {data : Value} {node : Node} (h : Describes data node) :
    Calls counts data node := by
  induction h with
  | @program entries ss id statements ofKind isStatements fits _ calls =>
    intro c
    have inner := givenKinds_perm fits calls (.inProgram statements.length) 0
    rw [givenKinds, List.map_append] at inner
    rw [ofKind.calledKinds_eq, countedSlots, List.flatMap_singleton,
      flatMap_slotCensus (slotCensus_items isStatements), Node.reading_eq, Node.slotNodes_program]
    simpa [Node.programBlock, Node.segment, NodeKind.actionKinds, Action.kind]
      using perm_enclosed inner
  | @element entries as cs hs id tag attributes children helpers ofKind _ _ fitAttributes
      onAttributes isChildren fitChildren _ _ fitHelpers _ _ calls =>
    intro c
    have inner := givenKinds_perm fitChildren calls (.inElement children.length) 0
    have inHelpers : ∀ h ∈ helpers, h.programs = [] := fun h member =>
      Node.programs_mustache (fitHelpers.kinds_eq h member)
    rw [givenKinds, List.map_append] at inner
    rw [ofKind.calledKinds_eq, countedSlots, List.flatMap_singleton,
      flatMap_slotCensus (slotCensus_items isChildren), Node.reading_eq, Node.slotNodes_element,
      Node.readings_append, Node.readings_append,
      Node.readings_eq_nil _ (attributes_programs fitAttributes onAttributes),
      Node.readings_eq_nil _ inHelpers]
    simpa [Node.programBlock, Node.segment, NodeKind.actionKinds, Action.kind]
      using perm_enclosed inner
  | plainAttr ofKind =>
    exact fun c => leaf_perm ofKind rfl rfl ((Node.WellTyped.attr (.inl rfl)).programs_attr rfl)
  | attr ofKind _ _ _ kind =>
    exact fun c => leaf_perm ofKind rfl rfl ((Node.WellTyped.attr kind).programs_attr rfl)
  | block ofKind _ _ fitBody onBody fitInverse onInverse callsBody callsInverse =>
    intro c
    refine branches_perm ofKind rfl rfl ?_ (branch_perm fitBody onBody callsBody)
      (branch_perm fitInverse onInverse callsInverse)
    rw [Node.reading_eq, Node.slotNodes_block, Node.readings_append]
    exact List.append_nil _
  | component ofKind _ _ fitAttributes onAttributes fitBody onBody fitInverse onInverse _ callsBody
      callsInverse =>
    intro c
    refine branches_perm ofKind rfl rfl ?_ (branch_perm fitBody onBody callsBody)
      (branch_perm fitInverse onInverse callsInverse)
    rw [Node.reading_eq, Node.slotNodes_component, Node.readings_append, Node.readings_append,
      Node.readings_eq_nil _ (attributes_programs fitAttributes onAttributes), List.append_nil]
    exact List.append_nil _
  | text ofKind => exact fun c => leaf_perm ofKind rfl rfl rfl
  | mustache ofKind => exact fun c => leaf_perm ofKind rfl rfl rfl

end Document
end TemplateActions
