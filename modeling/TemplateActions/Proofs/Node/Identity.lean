import TemplateActions.Node.Numbering
import TemplateActions.Proofs.Node.Slots

/-!
The identity numbers of a numbered tree. They are consecutive in source order, so that no node of
the tree stands in two places.
-/
namespace TemplateActions.Node

def Consecutive (n : Nat) (nodes : List Node) (next : Nat) : Prop :=
  next = n + nodes.length ∧ nodes.map id = List.range' n nodes.length

theorem consecutive_nil (n : Nat) : Consecutive n [] n := ⟨rfl, rfl⟩

theorem consecutive_singleton (node : Node) : Consecutive node.id [node] (node.id + 1) := ⟨rfl, rfl⟩

theorem Consecutive.append {n middle next : Nat} {first last : List Node}
    (h : Consecutive n first middle) (h' : Consecutive middle last next) :
    Consecutive n (first ++ last) next := by
  obtain ⟨rfl, ids⟩ := h
  obtain ⟨rfl, ids'⟩ := h'
  refine ⟨by rw [List.length_append, Nat.add_assoc], ?_⟩
  rw [List.map_append, ids, ids', List.length_append, List.range'_append_1]

theorem Consecutive.nodup {n next : Nat} {nodes : List Node} (h : Consecutive n nodes next) :
    (nodes.map id).Nodup := by
  rw [h.2]
  exact List.nodup_range'

theorem consecutive_preorder {n next : Nat} (node : Node) (here : node.id = n)
    (below : Consecutive (n + 1) (node.slotNodes.flatMap preorder) next) :
    Consecutive n node.preorder next := by
  subst here
  rw [preorder_eq]
  exact (consecutive_singleton node).append below

mutual

theorem consecutive_numberFrom : ∀ (node : Node) (n : Nat),
    Consecutive n (node.numberFrom n).1.preorder (node.numberFrom n).2
  | .program _ statements, n => by
    refine consecutive_preorder _ rfl ?_
    rw [numberFrom, slotNodes_program]
    exact consecutive_numberAll statements (n + 1)
  | .element _ _ attributes children helpers, n => by
    refine consecutive_preorder _ rfl ?_
    rw [numberFrom, slotNodes_element, List.flatMap_append, List.flatMap_append]
    exact ((consecutive_numberAll attributes _).append (consecutive_numberAll helpers _)).append
      (consecutive_numberAll children _)
  | .attr _ _ value, n => by
    refine consecutive_preorder _ rfl ?_
    rw [numberFrom, slotNodes, slots, List.map_singleton, List.flatMap_singleton]
    exact consecutive_numberFrom value (n + 1)
  | .block _ _ _ body inverse, n => by
    refine consecutive_preorder _ rfl ?_
    rw [numberFrom, slotNodes_block, List.flatMap_append]
    exact (consecutive_numberOption body _).append (consecutive_numberOption inverse _)
  | .component _ _ attributes body inverse, n => by
    refine consecutive_preorder _ rfl ?_
    rw [numberFrom, slotNodes_component, List.flatMap_append, List.flatMap_append]
    exact ((consecutive_numberAll attributes _).append (consecutive_numberOption body _)).append
      (consecutive_numberOption inverse _)
  | .text .., n | .mustache .., n | .foreign .., n | .bare .., n =>
    consecutive_preorder _ rfl (consecutive_nil _)

theorem consecutive_numberAll : ∀ (nodes : List Node) (n : Nat),
    Consecutive n ((numberAll n nodes).1.flatMap preorder) (numberAll n nodes).2
  | [], n => consecutive_nil n
  | node :: rest, n => by
    rw [numberAll, List.flatMap_cons]
    exact (consecutive_numberFrom node n).append (consecutive_numberAll rest _)

theorem consecutive_numberOption : ∀ (node : Option Node) (n : Nat),
    Consecutive n ((numberOption n node).1.toList.flatMap preorder) (numberOption n node).2
  | none, n => consecutive_nil n
  | some node, n => by
    rw [numberOption, Option.toList_some, List.flatMap_singleton]
    exact consecutive_numberFrom node n

end

theorem ids_numbered_nodup (node : Node) : (node.numbered.preorder.map id).Nodup :=
  (consecutive_numberFrom node 0).nodup

end TemplateActions.Node
