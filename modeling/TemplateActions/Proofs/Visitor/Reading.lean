import TemplateActions.Proofs.Node.Dynamic
import TemplateActions.Proofs.Visitor.Outcome
import TemplateActions.Visitor.Compile

/-!
The forward reading of a tree: the blocks of all its programs, the last one first, each of which
lists what the program holds in source order. Compiling a well-typed tree gives this reading,
although the visitor walks backwards.
-/
namespace TemplateActions

structure Counts where
  templates : Node → Nat
  mustaches : Node → Nat

namespace Counts

def zero : Counts := ⟨fun _ => 0, fun _ => 0⟩

def ofTree : Counts := ⟨fun program => program.nested.length, Node.mustacheCount⟩

end Counts

def Action.uncounted : Action → Action
  | .startProgram program _ => .startProgram program 0
  | .openElement element place singleRoot _ => .openElement element place singleRoot 0
  | action => action

namespace Node

mutual

/-- The actions of a node in the block of the program around it. -/
def segment (counts : Counts) (c : Context) : Node → List Action
  | node@(.element _ _ _ children _) =>
    .openElement node c.place c.singleRoot (counts.mustaches node) ::
      (segments counts (.inElement children.length) 0 children ++
        [.closeElement node c.place c.singleRoot])
  | node@(.block ..) => [.block node c.place]
  | node@(.component ..) => [.component node c.place]
  | node@(.text ..) => [.text node c.place c.singleRoot]
  | node@(.mustache ..) => [.mustache node c.place]
  | .program .. | .attr .. | .foreign .. | .bare .. => []
termination_by structural node => node

def segments (counts : Counts) (c : Context) (index : Nat) : List Node → List Action
  | [] => []
  | node :: rest => segment counts (c.atIndex index) node ++ segments counts c (index + 1) rest

end

def programBlock (counts : Counts) : Node → List Action
  | node@(.program _ statements) =>
    .startProgram node (counts.templates node) ::
      (segments counts (.inProgram statements.length) 0 statements ++ [.endProgram node])
  | _ => []

theorem programBlock_eq_nil (counts : Counts) {node : Node} (plain : ¬ node.isProgram) :
    node.programBlock counts = [] := by
  cases node <;> first | rfl | exact absurd rfl plain

def programs (root : Node) : List Node := root.preorder.filter (·.isProgram)

def reading (counts : Counts) (root : Node) : List Action :=
  root.programs.reverse.flatMap (programBlock counts)

def readings (counts : Counts) (nodes : List Node) : List Action :=
  nodes.reverse.flatMap (reading counts)

theorem readings_append (counts : Counts) (left right : List Node) :
    readings counts (left ++ right) = readings counts right ++ readings counts left := by
  simp [readings]

theorem readings_cons (counts : Counts) (node : Node) (rest : List Node) :
    readings counts (node :: rest) = readings counts rest ++ reading counts node := by
  simp [readings]

theorem programs_eq (node : Node) :
    node.programs = if node.isProgram then node :: node.slotNodes.flatMap programs
      else node.slotNodes.flatMap programs := by
  rw [programs, preorder_eq, List.filter_cons, List.filter_flatMap]
  rfl

theorem outermost_sublist (node : Node) : node.outermost.Sublist node.programs :=
  ((List.filter_sublist (l := node.positions Path.root)).map _).filter _

theorem WellTyped.programs_attr {a : Node} (h : a.WellTyped) (kind : a.kind? = some .attr) :
    a.programs = [] := by
  refine List.filter_eq_nil_iff.mpr fun part member => ?_
  rcases h.mem_preorder_attr kind member with kind | kind | kind <;> cases part <;> cases kind <;>
    exact Bool.false_ne_true

theorem programs_mustache {m : Node} (kind : m.kind? = some .mustache) : m.programs = [] := by
  rw [programs, preorder_of_leaf (.inr kind)]
  cases m <;> cases kind
  rfl

theorem readings_eq_nil (counts : Counts) {nodes : List Node}
    (none : ∀ n ∈ nodes, n.programs = []) :
    readings counts nodes = [] :=
  List.flatMap_eq_nil_iff.mpr fun n member => by
    rw [reading, none n (List.mem_reverse.mp member)]
    rfl

theorem flatMap_outermost_eq_nil {nodes : List Node} (none : ∀ n ∈ nodes, n.programs = []) :
    nodes.flatMap outermost = [] :=
  List.flatMap_eq_nil_iff.mpr fun n member => by
    have below := n.outermost_sublist
    rw [none n member] at below
    exact List.sublist_nil.mp below

theorem readings_eq (counts : Counts) (nodes : List Node) :
    readings counts nodes = (nodes.flatMap programs).reverse.flatMap (programBlock counts) := by
  induction nodes with
  | nil => rfl
  | cons node rest ih =>
    rw [readings_cons, ih, List.flatMap_cons, List.reverse_append, List.flatMap_append]
    rfl

/-- The block of a program comes after the blocks of the programs in its slots. -/
theorem reading_eq (counts : Counts) (node : Node) :
    node.reading counts = readings counts node.slotNodes ++ node.programBlock counts := by
  rw [reading, programs_eq, readings_eq]
  split
  case isTrue => rw [List.reverse_cons, List.flatMap_append, List.flatMap_singleton]
  case isFalse plain => rw [programBlock_eq_nil counts plain, List.append_nil]

def readOutcome (c : Context) (node : Node) : Outcome :=
  { emitted := (node.segment .ofTree c).reverse
    mustaches := if node.Dynamic then 1 else 0
    templates := node.outermost.length
    flushed := node.reading .ofTree }

theorem childrenOutcome_eq {nodes : List Node}
    (each : ∀ node ∈ nodes, ∀ c, node.outcome (some c) = node.readOutcome c) (c : Context)
    (index : Nat) :
    childrenOutcome c index nodes =
      { emitted := (segments .ofTree c index nodes).reverse
        mustaches := nodes.countP (·.Dynamic)
        templates := (nodes.flatMap outermost).length
        flushed := readings .ofTree nodes } := by
  induction nodes generalizing index with
  | nil => rfl
  | cons node rest ih =>
    rw [childrenOutcome, ih (fun n member => each n (List.mem_cons_of_mem _ member)),
      each node List.mem_cons_self, readOutcome]
    simp only [Outcome.andThen, segments, List.reverse_append, List.countP_cons, List.flatMap_cons,
      List.length_append, readings_cons, Nat.add_comm, decide_eq_true_eq]

theorem optionOutcome_eq {node : Option Node}
    (each : ∀ p ∈ node, ∀ c, p.outcome (some c) = p.readOutcome c)
    (kinds : ∀ p ∈ node, p.kind? = some .program) (c : Context) :
    optionOutcome (some c) node =
      { templates := (node.toList.flatMap outermost).length
        flushed := readings .ofTree node.toList } := by
  cases node with
  | none => rfl
  | some p =>
    rw [optionOutcome, each p rfl, readOutcome]
    have kind := kinds p rfl
    cases p <;> cases kind
    simp [segment, readings]

theorem allOutcome_eq {attributes : List Node} (kinds : ∀ a ∈ attributes, a.kind? = some .attr)
    (c : Context) :
    allOutcome (some c) attributes = { mustaches := attributes.countP isDynamic } := by
  induction attributes with
  | nil => rfl
  | cons a rest ih =>
    rw [allOutcome, ih (fun n member => kinds n (List.mem_cons_of_mem _ member))]
    have kind := kinds a List.mem_cons_self
    cases a <;> cases kind
    simp [outcome, Outcome.inside, Outcome.andThen, List.countP_cons]

theorem WellTyped.outcome_element {id : Nat} {tag : String}
    {attributes children helpers : List Node}
    (h : (Node.element id tag attributes children helpers).WellTyped)
    (each : ∀ child ∈ children, ∀ c, child.outcome (some c) = child.readOutcome c) (c : Context) :
    (Node.element id tag attributes children helpers).outcome (some c) =
      (Node.element id tag attributes children helpers).readOutcome c := by
  have zero := h.mustacheCount_eq_zero_iff rfl
  cases h with
  | element kinds typed _ mustaches =>
    have inAttributes : ∀ a ∈ attributes, a.programs = [] :=
      fun a member => (typed a member).programs_attr (kinds a member)
    have inHelpers : ∀ h ∈ helpers, h.programs = [] :=
      fun h member => programs_mustache (mustaches h member)
    -- The parent counts one for an element that counts anything at all.
    have dynamic : (if helpers.length +
          (attributes.countP isDynamic + children.countP (·.Dynamic)) = 0 then 0 else 1) =
        if Dynamic (.element id tag attributes children helpers) then 1 else 0 := by
      rw [mustacheCount, Nat.add_assoc] at zero
      simp only [zero, ite_not]
    rw [outcome, Outcome.inside]
    dsimp only
    rw [allOutcome_eq kinds, childrenOutcome_eq each, readOutcome, reading_eq, slotNodes_element,
      readings_append, readings_append, readings_eq_nil _ inAttributes, readings_eq_nil _ inHelpers]
    simpa [Outcome.ofElement, Outcome.andThen, segment, outermost_eq, isProgram, programBlock,
      Counts.ofTree, nested, slotNodes_element, flatMap_outermost_eq_nil inAttributes,
      flatMap_outermost_eq_nil inHelpers, mustacheCount, Nat.add_assoc] using dynamic

/-- What a visit of a well-typed node does, wherever it stands. -/
theorem WellTyped.outcome_eq {node : Node} (h : node.WellTyped) (c : Context) :
    node.outcome (some c) = node.readOutcome c := by
  induction h generalizing c with
  | @program id statements typed ih =>
    rw [outcome, childrenOutcome_eq ih, readOutcome, reading_eq, slotNodes_program]
    simp [Outcome.ofProgram, segment, outermost_eq, isProgram, programBlock, Counts.ofTree,
      nested, slotNodes_program]
  | element kinds typed children mustaches _ ih =>
    exact (WellTyped.element kinds typed children mustaches).outcome_element ih c
  | @attr id name value kind =>
    have typed : (Node.attr id name value).WellTyped := .attr kind
    have none : ∀ part ∈ slotNodes (.attr id name value), part.programs = [] := by
      have all := typed.programs_attr rfl
      rw [programs_eq] at all
      exact List.flatMap_eq_nil_iff.mp all
    rw [outcome, Outcome.inside, readOutcome, reading_eq, readings_eq_nil _ none, outermost_eq,
      nested, flatMap_outermost_eq_nil none]
    cases dynamic : value.isMustache <;>
      simp [segment, isProgram, programBlock, isDynamic, dynamic]
  | @block id path params body inverse onBody _ onInverse _ ihBody ihInverse =>
    rw [outcome, Outcome.inside, optionOutcome_eq ihInverse onInverse,
      optionOutcome_eq ihBody onBody, readOutcome, reading_eq, slotNodes_block, readings_append]
    simp [Outcome.andThen, segment, outermost_eq, isProgram, programBlock, nested, slotNodes_block,
      Nat.add_comm]
  | @component id tag attributes body inverse kinds typed onBody _ onInverse _ _ ihBody ihInverse =>
    have inAttributes : ∀ a ∈ attributes, a.programs = [] :=
      fun a member => (typed a member).programs_attr (kinds a member)
    rw [outcome, Outcome.inside, optionOutcome_eq ihInverse onInverse,
      optionOutcome_eq ihBody onBody, readOutcome, reading_eq, slotNodes_component,
      readings_append, readings_append, readings_eq_nil _ inAttributes]
    simp [Outcome.andThen, segment, outermost_eq, isProgram, programBlock, nested,
      slotNodes_component, Nat.add_comm, flatMap_outermost_eq_nil inAttributes]
  | text =>
    rw [outcome, Outcome.inside, readOutcome, reading_eq]
    simp [segment, outermost_eq, isProgram, programBlock, nested, slotNodes, slots, readings]
  | mustache =>
    rw [outcome, Outcome.inside, readOutcome, reading_eq]
    simp [segment, outermost_eq, isProgram, programBlock, nested, slotNodes, slots, readings]

theorem WellTyped.compileActions_eq {root : Node} (h : root.WellTyped)
    (kind : root.kind? = some .program) : root.compileActions.1 = .ok (root.reading .ofTree) := by
  have anywhere : root.outcome none = root.readOutcome ⟨⟨none, none⟩, false⟩ := by
    rw [← h.outcome_eq]
    cases root <;> cases kind
    rfl
  rw [Node.compileActions_eq, anywhere]
  rfl

mutual

theorem segment_uncounted (counts : Counts) : ∀ (node : Node) (c : Context),
    (segment counts c node).map Action.uncounted = segment .zero c node
  | .element _ _ _ children _, c => by
    simp [segment, segments_uncounted counts children, Action.uncounted, Counts.zero]
  | .program .., _ | .attr .., _ | .block .., _ | .component .., _ | .text .., _ | .mustache .., _
  | .foreign .., _ | .bare .., _ => rfl

theorem segments_uncounted (counts : Counts) : ∀ (nodes : List Node) (c : Context) (index : Nat),
    (segments counts c index nodes).map Action.uncounted = segments .zero c index nodes
  | [], _, _ => rfl
  | node :: rest, c, index => by
    rw [segments, segments, List.map_append, segment_uncounted counts node,
      segments_uncounted counts rest]

end

theorem programBlock_uncounted (counts : Counts) (node : Node) :
    (node.programBlock counts).map Action.uncounted = node.programBlock .zero := by
  cases node <;> simp [programBlock, segments_uncounted, Action.uncounted, Counts.zero]

/-- Compiling a well-typed program gives its forward reading, if the counts are left out. -/
theorem WellTyped.compileActions_uncounted {root : Node} (h : root.WellTyped)
    (kind : root.kind? = some .program) :
    ∃ actions, root.compileActions.1 = .ok actions ∧
      actions.map Action.uncounted = root.reading .zero := by
  refine ⟨_, h.compileActions_eq kind, ?_⟩
  rw [reading, reading, List.map_flatMap]
  simp only [programBlock_uncounted]

theorem sampleTree_uncounted :
    sampleTree.WellTyped ∧ ∃ actions, sampleTree.compileActions.1 = .ok actions ∧
      (actions.map Action.uncounted).map (fun a => (a.kind, a.node.id)) =
        [(.startProgram, 21), (.endProgram, 21),
          (.startProgram, 15), (.openElement, 16), (.text, 17), (.closeElement, 16),
          (.endProgram, 15),
          (.startProgram, 11), (.mustache, 12), (.endProgram, 11),
          (.startProgram, 8), (.endProgram, 8),
          (.startProgram, 6), (.text, 7), (.endProgram, 6),
          (.startProgram, 0), (.openElement, 1), (.openElement, 4), (.block, 5), (.closeElement, 4),
          (.text, 13), (.closeElement, 1), (.component, 18), (.endProgram, 0)] := by
  have typed : sampleTree.WellTyped := by decide
  obtain ⟨actions, compiled, uncounted⟩ := typed.compileActions_uncounted rfl
  exact ⟨typed, actions, compiled, uncounted ▸ by decide +kernel⟩

end Node
end TemplateActions
