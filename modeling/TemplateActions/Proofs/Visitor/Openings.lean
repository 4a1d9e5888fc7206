import TemplateActions.Proofs.Node.Skeleton
import TemplateActions.Proofs.Visitor.Reading

/-!
The elements that actions open. Every element of a well-typed tree is opened once for each of its
positions, with the number of its dynamic parts, which is a function of its skeleton.
-/
namespace TemplateActions

def Action.opened? : Action → Option (Node × Nat)
  | .openElement e _ _ mustaches => some (e, mustaches)
  | _ => none

namespace Node

def elements (root : Node) : List Node := root.preorder.filter (·.isElement)

/-- The elements of a tree with the numbers of their dynamic parts. -/
def counted (root : Node) : List (Node × Nat) := root.elements.map fun e => (e, e.mustacheCount)

theorem counted_eq (node : Node) :
    node.counted = (if node.isElement then [(node, node.mustacheCount)] else []) ++
      node.slotNodes.flatMap counted := by
  rw [counted, elements, preorder_eq, List.filter_cons, List.filter_flatMap]
  split <;> simp only [List.map_cons, List.map_flatMap, List.cons_append, List.nil_append] <;> rfl

theorem WellTyped.counted_attr {a : Node} (h : a.WellTyped) (kind : a.kind? = some .attr) :
    a.counted = [] := by
  refine List.map_eq_nil_iff.mpr (List.filter_eq_nil_iff.mpr fun part member => ?_)
  rcases h.mem_preorder_attr kind member with kind | kind | kind <;> cases part <;> cases kind <;>
    exact Bool.false_ne_true

theorem counted_mustache {m : Node} (kind : m.kind? = some .mustache) : m.counted = [] := by
  rw [counted, elements, preorder_of_leaf (.inr kind)]
  cases m <;> cases kind
  rfl

/-- The elements that are opened for a node: in the blocks of its programs, and in the block of the
program around it. -/
def openings (c : Context) (node : Node) : List (Node × Nat) :=
  (node.reading .ofTree ++ node.segment .ofTree c).filterMap Action.opened?

def listOpenings (c : Context) (index : Nat) (nodes : List Node) : List (Node × Nat) :=
  (readings .ofTree nodes ++ segments .ofTree c index nodes).filterMap Action.opened?

theorem listOpenings_perm {nodes : List Node}
    (each : ∀ node ∈ nodes, ∀ c, (node.openings c).Perm node.counted) (c : Context) (index : Nat) :
    (listOpenings c index nodes).Perm (nodes.flatMap counted) := by
  induction nodes generalizing index with
  | nil => exact .nil
  | cons node rest ih =>
    have here := each node List.mem_cons_self (c.atIndex index)
    have there := ih (fun n member => each n (List.mem_cons_of_mem _ member)) (index + 1)
    refine .trans ?_ (here.append there)
    rw [listOpenings, readings_cons, segments, openings, listOpenings, ← List.filterMap_append]
    refine List.Perm.filterMap _ ?_
    rw [List.append_assoc, ← List.append_assoc (reading _ _)]
    exact List.perm_append_comm_assoc _ _ _

theorem segments_eq_nil_of_programs (counts : Counts) {nodes : List Node}
    (kinds : ∀ p ∈ nodes, p.kind? = some .program) (c : Context) (index : Nat) :
    segments counts c index nodes = [] := by
  induction nodes generalizing index with
  | nil => rfl
  | cons p rest ih =>
    have kind := kinds p List.mem_cons_self
    rw [segments, ih fun n member => kinds n (List.mem_cons_of_mem _ member)]
    cases p <;> cases kind
    rfl

theorem readings_branches_perm {body inverse : Option Node}
    (onBody : ∀ p ∈ body, p.kind? = some .program)
    (onInverse : ∀ p ∈ inverse, p.kind? = some .program)
    (eachBody : ∀ p ∈ body, ∀ c, (p.openings c).Perm p.counted)
    (eachInverse : ∀ p ∈ inverse, ∀ c, (p.openings c).Perm p.counted) :
    ((readings .ofTree (body.toList ++ inverse.toList)).filterMap Action.opened?).Perm
      ((body.toList ++ inverse.toList).flatMap counted) := by
  have kinds : ∀ p ∈ body.toList ++ inverse.toList, p.kind? = some .program := by
    simpa [or_imp, forall_and] using And.intro onBody onInverse
  have each : ∀ p ∈ body.toList ++ inverse.toList, ∀ c, (p.openings c).Perm p.counted := by
    simpa [or_imp, forall_and] using And.intro eachBody eachInverse
  have perm := listOpenings_perm each (.inProgram 0) 0
  rwa [listOpenings, segments_eq_nil_of_programs _ kinds, List.append_nil] at perm

/-- Every element is opened once, with the number of its dynamic parts. -/
theorem WellTyped.openings_perm {node : Node} (h : node.WellTyped) (c : Context) :
    (node.openings c).Perm node.counted := by
  induction h generalizing c with
  | @program id statements _ ih =>
    have inner := listOpenings_perm ih (.inProgram statements.length) 0
    rw [openings, reading_eq, counted_eq, slotNodes_program]
    simpa [programBlock, segment, isElement, List.filterMap_cons, Action.opened?, listOpenings]
      using inner
  | @element id tag attributes children helpers kinds typed _ mustaches _ ih =>
    have inner := listOpenings_perm ih (.inElement children.length) 0
    have inAttributes : ∀ a ∈ attributes, a.programs = [] ∧ a.counted = [] := fun a member =>
      ⟨(typed a member).programs_attr (kinds a member),
        (typed a member).counted_attr (kinds a member)⟩
    have inHelpers : ∀ h ∈ helpers, h.programs = [] ∧ h.counted = [] := fun h member =>
      ⟨programs_mustache (mustaches h member), counted_mustache (mustaches h member)⟩
    rw [openings, reading_eq, counted_eq, slotNodes_element, readings_append, readings_append,
      readings_eq_nil _ fun a member => (inAttributes a member).1,
      readings_eq_nil _ fun h member => (inHelpers h member).1, List.flatMap_append,
      List.flatMap_append, List.flatMap_eq_nil_iff.mpr fun a member => (inAttributes a member).2,
      List.flatMap_eq_nil_iff.mpr fun h member => (inHelpers h member).2]
    -- The element itself stands between the blocks of its programs and its own children.
    rw [listOpenings, List.filterMap_append] at inner
    have moved := (List.perm_middle (a := (Node.element id tag attributes children helpers,
      mustacheCount (.element id tag attributes children helpers)))).trans (inner.cons _)
    simpa [programBlock, segment, isElement, List.filterMap_cons, Action.opened?, Counts.ofTree]
      using moved
  | @attr id name value kind =>
    have typed : (Node.attr id name value).WellTyped := .attr kind
    rw [openings, reading, typed.programs_attr rfl, typed.counted_attr rfl]
    exact .nil
  | @block id path params body inverse onBody _ onInverse _ ihBody ihInverse =>
    have inner := readings_branches_perm onBody onInverse ihBody ihInverse
    rw [openings, reading_eq, counted_eq, slotNodes_block]
    simpa [programBlock, segment, isElement, List.filterMap_cons, Action.opened?] using inner
  | @component id tag attributes body inverse kinds typed onBody _ onInverse _ _ ihBody ihInverse =>
    have inner := readings_branches_perm onBody onInverse ihBody ihInverse
    rw [openings, reading_eq, counted_eq, slotNodes_component, List.append_assoc attributes,
      readings_append,
      readings_eq_nil _ fun a member => (typed a member).programs_attr (kinds a member),
      List.flatMap_append,
      List.flatMap_eq_nil_iff.mpr fun a member => (typed a member).counted_attr (kinds a member)]
    simpa [programBlock, segment, isElement, List.filterMap_cons, Action.opened?] using inner
  | text | mustache =>
    rw [openings, reading_eq, counted_eq]
    exact .nil

theorem WellTyped.opened_perm {root : Node} (h : root.WellTyped)
    (kind : root.kind? = some .program) {actions : List Action}
    (compiled : root.compileActions.1 = .ok actions) :
    (actions.filterMap Action.opened?).Perm root.counted := by
  cases compiled.symm.trans (h.compileActions_eq kind)
  have perm := h.openings_perm (.inProgram 0)
  have outside : root.segment .ofTree (.inProgram 0) = [] := by
    cases root <;> cases kind
    rfl
  rwa [openings, outside, List.append_nil] at perm

theorem WellTyped.mem_opened {root : Node} (h : root.WellTyped) (kind : root.kind? = some .program)
    {actions : List Action} (compiled : root.compileActions.1 = .ok actions) {e : Node} {n : Nat}
    (opened : (e, n) ∈ actions.filterMap Action.opened?) :
    e.WellTyped ∧ e.kind? = some .element ∧ n = e.mustacheCount := by
  obtain ⟨e', member, same⟩ := List.mem_map.mp ((h.opened_perm kind compiled).mem_iff.mp opened)
  obtain ⟨rfl, rfl⟩ := Prod.mk.inj same
  obtain ⟨below, isElement⟩ := List.mem_filter.mp member
  refine ⟨h.of_mem_preorder below, ?_, rfl⟩
  cases e' <;> cases isElement
  rfl

/-- Compiling a well-typed program opens each of its elements with the number of its dynamic parts.
This is zero if all is static on the surface of the element, and it depends on the skeleton of the
element only, whatever tree the element stands in. -/
theorem WellTyped.opened_compileActions {root : Node} (h : root.WellTyped)
    (kind : root.kind? = some .program) :
    ∃ actions, root.compileActions.1 = .ok actions ∧
      (actions.filterMap Action.opened?).Perm (root.elements.map fun e => (e, e.mustacheCount)) ∧
      ∀ e n, (e, n) ∈ actions.filterMap Action.opened? →
        (n = 0 ↔ ∀ part ∈ e.surfaceNodes, part.isInterpolation = false) ∧
        ∀ (other : Node) (actions' : List Action), other.WellTyped → other.kind? = some .program →
          other.compileActions.1 = .ok actions' → ∀ e' n',
          (e', n') ∈ actions'.filterMap Action.opened? → e.skeleton = e'.skeleton → n = n' := by
  have compiled := h.compileActions_eq kind
  refine ⟨_, compiled, h.opened_perm kind compiled, fun e n opened => ?_⟩
  obtain ⟨typed, isElement, rfl⟩ := h.mem_opened kind compiled opened
  constructor
  · rw [typed.mustacheCount_eq_zero_iff isElement, ← typed.hasInterpolation_iff, hasInterpolation,
      Bool.not_eq_true, List.any_eq_false]
    simp only [Bool.not_eq_true]
  · intro other actions' h' kind' compiled' e' n' opened' same
    obtain ⟨-, -, rfl⟩ := h'.mem_opened kind' compiled' opened'
    rw [← mustacheCount_skeleton e, same, mustacheCount_skeleton]

theorem sampleTree_opened :
    sampleTree.WellTyped ∧ ∃ actions, sampleTree.compileActions.1 = .ok actions ∧
      ((actions.filterMap Action.opened?).map (·.2)).Perm [3, 1, 0] := by
  have typed : sampleTree.WellTyped := by decide
  obtain ⟨actions, compiled, perm, -⟩ := typed.opened_compileActions rfl
  exact ⟨typed, actions, compiled, (perm.map (·.2)).trans (.of_eq (by decide))⟩

end Node
end TemplateActions
