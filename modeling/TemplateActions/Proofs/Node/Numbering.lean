import TemplateActions.Node.Numbering

/-!
Numbering a tree changes nothing but the identity numbers: the numbers that a tree had before do not
matter, and the items of a list keep their order.
-/
namespace TemplateActions.Node

mutual

def unnumbered : Node → Node
  | .program _ statements => .program 0 (unnumberedAll statements)
  | .element _ tag attributes children helpers =>
    .element 0 tag (unnumberedAll attributes) (unnumberedAll children) (unnumberedAll helpers)
  | .attr _ name value => .attr 0 name value.unnumbered
  | .block _ path params body inverse =>
    .block 0 path params (unnumberedOption body) (unnumberedOption inverse)
  | .component _ tag attributes body inverse =>
    .component 0 tag (unnumberedAll attributes) (unnumberedOption body) (unnumberedOption inverse)
  | .text _ chars => .text 0 chars
  | .mustache _ path params escaped => .mustache 0 path params escaped
  | .foreign _ kind => .foreign 0 kind
  | .bare _ value => .bare 0 value

def unnumberedAll : List Node → List Node
  | [] => []
  | node :: rest => node.unnumbered :: unnumberedAll rest

def unnumberedOption : Option Node → Option Node
  | none => none
  | some node => some node.unnumbered

end

@[simp] theorem kind?_unnumbered (node : Node) : node.unnumbered.kind? = node.kind? := by
  cases node <;> rfl

@[simp] theorem kind?_numberFrom (n : Nat) (node : Node) :
    (node.numberFrom n).1.kind? = node.kind? := by
  cases node <;> rfl

mutual

theorem numberFrom_unnumbered : ∀ (node : Node) (n : Nat),
    node.unnumbered.numberFrom n = node.numberFrom n
  | .program _ statements, n => by
    simp only [unnumbered, numberFrom, numberAll_unnumbered statements]
  | .element _ _ attributes children helpers, n => by
    simp only [unnumbered, numberFrom, numberAll_unnumbered attributes,
      numberAll_unnumbered children, numberAll_unnumbered helpers]
  | .attr _ _ value, n => by
    simp only [unnumbered, numberFrom, numberFrom_unnumbered value]
  | .block _ _ _ body inverse, n => by
    simp only [unnumbered, numberFrom, numberOption_unnumbered body,
      numberOption_unnumbered inverse]
  | .component _ _ attributes body inverse, n => by
    simp only [unnumbered, numberFrom, numberAll_unnumbered attributes,
      numberOption_unnumbered body, numberOption_unnumbered inverse]
  | .text .., _ | .mustache .., _ | .foreign .., _ | .bare .., _ => rfl

theorem numberAll_unnumbered : ∀ (nodes : List Node) (n : Nat),
    numberAll n (unnumberedAll nodes) = numberAll n nodes
  | [], _ => rfl
  | node :: rest, n => by
    simp only [unnumberedAll, numberAll, numberFrom_unnumbered node, numberAll_unnumbered rest]

theorem numberOption_unnumbered : ∀ (node : Option Node) (n : Nat),
    numberOption n (unnumberedOption node) = numberOption n node
  | none, _ => rfl
  | some node, n => by
    simp only [unnumberedOption, numberOption, numberFrom_unnumbered node]

end

theorem numbered_unnumbered (node : Node) : node.unnumbered.numbered = node.numbered :=
  congrArg Prod.fst (numberFrom_unnumbered node 0)

@[simp] theorem length_numberAll (n : Nat) (nodes : List Node) :
    (numberAll n nodes).1.length = nodes.length := by
  induction nodes generalizing n with
  | nil => rfl
  | cons node rest ih => simp only [numberAll, List.length_cons, ih]

theorem toList_numberOption (n : Nat) (node : Option Node) :
    (numberOption n node).1.toList = (numberAll n node.toList).1 := by
  cases node <;> rfl

theorem mem_zip_numberAll {α : Type} {n : Nat} {items : List α} {nodes : List Node} {p : α × Node}
    (member : p ∈ items.zip (numberAll n nodes).1) :
    ∃ q ∈ items.zip nodes, ∃ m, p = (q.1, (q.2.numberFrom m).1) := by
  induction nodes generalizing n items with
  | nil => simp [numberAll] at member
  | cons node rest ih =>
    cases items with
    | nil => simp at member
    | cons item items =>
      simp only [numberAll, List.zip_cons_cons, List.mem_cons] at member
      rcases member with rfl | member
      · exact ⟨(item, node), List.mem_cons_self, n, rfl⟩
      · obtain ⟨q, later, m, same⟩ := ih member
        exact ⟨q, List.mem_cons_of_mem _ later, m, same⟩

end TemplateActions.Node
