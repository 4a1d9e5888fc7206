import TemplateActions.Proofs.Visitor.Reading

/-!
The places of actions. Every action of a reading belongs to a position of the tree: the markers of a
program to the position of the program, every other action to an item among the statements of a
program or the children of an element, with the index of the item and the number of its siblings.
-/
namespace TemplateActions

/-- The kind of the nodes that actions of a kind belong to. -/
def ActionKind.nodeKind : ActionKind → NodeKind
  | .startProgram | .endProgram => .program
  | .openElement | .closeElement => .element
  | .text => .text
  | .mustache => .mustache
  | .block => .block
  | .component => .component

namespace Node

/-- The actions that stand for a node itself, apart from the markers of programs. -/
def ownActions (counts : Counts) (c : Context) : Node → List Action
  | node@(.element ..) =>
    [.openElement node c.place c.singleRoot (counts.mustaches node),
      .closeElement node c.place c.singleRoot]
  | node@(.block ..) => [.block node c.place]
  | node@(.component ..) => [.component node c.place]
  | node@(.text ..) => [.text node c.place c.singleRoot]
  | node@(.mustache ..) => [.mustache node c.place]
  | .program .. | .attr .. | .foreign .. | .bare .. => []

end Node

/-- Holds if an action belongs to a path, among some positions. -/
inductive Action.Located (counts : Counts) (positions : List (Path × Node)) : Path → Action → Prop
  | start {path : Path} {program : Node} :
      (path, program) ∈ positions → program.isProgram →
      Located counts positions path (.startProgram program (counts.templates program))
  | finish {path : Path} {program : Node} :
      (path, program) ∈ positions → program.isProgram →
      Located counts positions path (.endProgram program)
  | statement {outer : Path} {id index : Nat} {statements : List Node} {node : Node}
      {action : Action} :
      (outer, .program id statements) ∈ positions → statements[index]? = some node →
      action ∈ node.ownActions counts ((Context.inProgram statements.length).atIndex index) →
      Located counts positions (outer.item .statements index) action
  | child {outer : Path} {id index : Nat} {tag : String} {attributes children helpers : List Node}
      {node : Node} {action : Action} :
      (outer, .element id tag attributes children helpers) ∈ positions →
      children[index]? = some node →
      action ∈ node.ownActions counts ((Context.inElement children.length).atIndex index) →
      Located counts positions (outer.item .children index) action

namespace Node

variable {counts : Counts} {root : Node} {top : Path}

theorem mem_segments {c : Context} {index : Nat} {nodes : List Node} {action : Action}
    (member : action ∈ segments counts c index nodes) :
    ∃ (i : Nat) (node : Node), nodes[i]? = some node ∧
      action ∈ node.segment counts (c.atIndex (index + i)) := by
  induction nodes generalizing index with
  | nil => cases member
  | cons node rest ih =>
    rcases List.mem_append.mp member with here | later
    · exact ⟨0, node, rfl, here⟩
    · obtain ⟨i, found, isFound, inside⟩ := ih later
      exact ⟨i + 1, found, isFound, by rwa [Nat.add_right_comm, Nat.add_assoc] at inside⟩

theorem segment_located {node : Node} {path : Path} (here : (path, node) ∈ root.positions top)
    {c : Context} {action : Action} (member : action ∈ node.segment counts c) :
    action ∈ node.ownActions counts c ∨
      ∃ p, action.Located counts (root.positions top) p := by
  induction node using slot_induction generalizing path c with
  | step node ih =>
    cases node with
    | element id tag attributes children helpers =>
      rw [segment, List.mem_cons, List.mem_append, List.mem_singleton] at member
      rcases member with rfl | inside | rfl
      · exact .inl List.mem_cons_self
      · obtain ⟨i, child, found, inside⟩ := mem_segments inside
        have slot := child_mem_slots id tag attributes helpers found
        rw [Nat.zero_add] at inside
        rcases ih _ slot (mem_positions_slot here slot) inside with own | located
        · exact .inr ⟨_, .child here found own⟩
        · exact .inr located
      · exact .inl (List.mem_cons_of_mem _ List.mem_cons_self)
    | program | attr | foreign | bare => cases member
    | block | component | text | mustache => exact .inl member

theorem programBlock_located {program : Node} {path : Path}
    (here : (path, program) ∈ root.positions top) {action : Action}
    (member : action ∈ program.programBlock counts) :
    ∃ p, action.Located counts (root.positions top) p := by
  cases program with
  | program id statements =>
    rw [programBlock, List.mem_cons, List.mem_append, List.mem_singleton] at member
    rcases member with rfl | inside | rfl
    · exact ⟨_, .start here rfl⟩
    · obtain ⟨i, statement, found, inside⟩ := mem_segments inside
      have slot := statement_mem_slots id found
      rw [Nat.zero_add] at inside
      rcases segment_located (mem_positions_slot here slot) inside with own | located
      · exact ⟨_, .statement here found own⟩
      · exact located
    · exact ⟨_, .finish here rfl⟩
  | _ => cases member

theorem reading_located {action : Action} (member : action ∈ root.reading counts) :
    ∃ path, action.Located counts (root.positions Path.root) path := by
  obtain ⟨program, isProgram, member⟩ := List.mem_flatMap.mp member
  rw [List.mem_reverse, programs, List.mem_filter, preorder, List.mem_map] at isProgram
  obtain ⟨⟨⟨path, program⟩, here, rfl⟩, -⟩ := isProgram
  exact programBlock_located here member

theorem kind?_of_isProgram {node : Node} (h : node.isProgram) : node.kind? = some .program := by
  cases node <;> cases h
  rfl

theorem mem_ownActions {c : Context} {node : Node} {action : Action}
    (own : action ∈ node.ownActions counts c) :
    action.node = node ∧ node.kind? = some action.kind.nodeKind := by
  cases node with
  | element =>
    rcases List.mem_pair.mp own with rfl | rfl <;> exact ⟨rfl, rfl⟩
  | block | component | text | mustache =>
    obtain rfl := List.mem_singleton.mp own
    exact ⟨rfl, rfl⟩
  | program | attr | foreign | bare => cases own

end Node

namespace Action.Located

variable {counts : Counts} {root : Node} {top path : Path} {action : Action}

theorem mem_positions (h : action.Located counts (root.positions top) path) :
    (path, action.node) ∈ root.positions top := by
  cases h with
  | start here _ => exact here
  | finish here _ => exact here
  | statement here found own =>
    rw [(Node.mem_ownActions own).1]
    exact Node.mem_positions_slot here (Node.statement_mem_slots _ found)
  | child here found own =>
    rw [(Node.mem_ownActions own).1]
    exact Node.mem_positions_slot here (Node.child_mem_slots _ _ _ _ found)

end Action.Located
end TemplateActions
