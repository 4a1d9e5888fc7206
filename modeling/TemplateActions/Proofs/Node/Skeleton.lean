import TemplateActions.Proofs.Node.Dynamic

/-!
The skeleton of a tree is what the dynamic parts of its elements depend on. It leaves out the
identity numbers, the statements of nested programs, the programs of blocks and components, and the
attributes of components.
-/
namespace TemplateActions.Node

mutual

def skeleton : Node → Node
  | .program .. => .program 0 []
  | .element _ tag attributes children helpers =>
    .element 0 tag (skeletons attributes) (skeletons children) (skeletons helpers)
  | .attr _ name value => .attr 0 name value.skeleton
  | .block _ path params _ _ => .block 0 path params none none
  | .component _ tag _ _ _ => .component 0 tag [] none none
  | .text _ chars => .text 0 chars
  | .mustache _ path params escaped => .mustache 0 path params escaped
  | .foreign _ kind => .foreign 0 kind
  | .bare _ value => .bare 0 value

def skeletons : List Node → List Node
  | [] => []
  | node :: rest => node.skeleton :: skeletons rest

end

theorem skeletons_eq_map (nodes : List Node) : skeletons nodes = nodes.map skeleton := by
  induction nodes with
  | nil => rfl
  | cons node rest ih => rw [skeletons, ih, List.map_cons]

theorem isDynamic_skeleton (node : Node) : node.skeleton.isDynamic = node.isDynamic := by
  cases node with
  | attr id name value => cases value <;> rfl
  | _ => rfl

theorem isDynamicAlone_skeleton (node : Node) :
    node.skeleton.isDynamicAlone = node.isDynamicAlone := by
  rw [isDynamicAlone, isDynamicAlone, isDynamic_skeleton]
  cases node <;> rfl

mutual

theorem testDynamic_skeleton : ∀ node : Node, node.skeleton.testDynamic = node.testDynamic
  | .element _ _ attributes children helpers => by
    rw [skeleton, testDynamic, testDynamic, anyDynamic_skeletons children, skeletons_eq_map,
      skeletons_eq_map, List.any_map, List.any_map]
    simp only [Function.comp_def, isDynamicAlone_skeleton]
  | .attr _ _ value => isDynamicAlone_skeleton _
  | .program .. | .block .. | .component .. | .text .. | .mustache .. | .foreign ..
  | .bare .. => rfl

theorem anyDynamic_skeletons : ∀ nodes : List Node, anyDynamic (skeletons nodes) = anyDynamic nodes
  | [] => rfl
  | node :: rest => by
    rw [skeletons, anyDynamic, anyDynamic, testDynamic_skeleton node, anyDynamic_skeletons rest]

end

theorem dynamic_skeleton (node : Node) : node.skeleton.Dynamic ↔ node.Dynamic := by
  rw [← testDynamic_iff, ← testDynamic_iff, testDynamic_skeleton]

theorem mustacheCount_skeleton (e : Node) : e.skeleton.mustacheCount = e.mustacheCount := by
  cases e with
  | element id tag attributes children helpers =>
    simp only [skeleton, mustacheCount, skeletons_eq_map, List.length_map, List.countP_map,
      Function.comp_def, isDynamic_skeleton, dynamic_skeleton]
  | _ => rfl

end TemplateActions.Node
