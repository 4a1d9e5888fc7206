import TemplateActions.Proofs.Document.Grammar
import TemplateActions.Proofs.Node.WellTyped

/-!
What a document describes is well typed.
-/
namespace TemplateActions.Document

variable {wanted : Option NodeKind}

theorem Matches.forall_nodes {p : Node → Prop} {values : List Value} {nodes : List Node}
    (h : Matches wanted values nodes) (each : ∀ e ∈ values.zip nodes, p e.2) :
    ∀ n ∈ nodes, p n := by
  intro n member
  rw [← List.map_snd_zip (Nat.le_of_eq h.length.symm)] at member
  obtain ⟨e, inside, rfl⟩ := List.mem_map.mp member
  exact each e inside

theorem Matches.forall_values {p : Value → Prop} {values : List Value} {nodes : List Node}
    (h : Matches wanted values nodes) (each : ∀ e ∈ values.zip nodes, p e.1) :
    ∀ v ∈ values, p v := by
  intro v member
  rw [← List.map_fst_zip (Nat.le_of_eq h.length)] at member
  obtain ⟨e, inside, rfl⟩ := List.mem_map.mp member
  exact each e inside

theorem Matches.forall_branch {p : Node → Prop} {values : List Value} {branch : Option Node}
    (h : Matches wanted values branch.toList) (each : ∀ e ∈ values.zip branch.toList, p e.2) :
    ∀ n ∈ branch, p n :=
  fun n isBranch => h.forall_nodes each n (Option.mem_toList.mpr isBranch)

theorem Matches.kinds_eq {kind : NodeKind} {values : List Value} {nodes : List Node}
    (h : Matches (some kind) values nodes) : ∀ n ∈ nodes, n.kind? = some kind :=
  h.forall_nodes fun e member => h.kinds e member kind rfl

theorem Matches.branch_kind {kind : NodeKind} {values : List Value} {branch : Option Node}
    (h : Matches (some kind) values branch.toList) : ∀ n ∈ branch, n.kind? = some kind :=
  h.forall_branch fun e member => h.kinds e member kind rfl

theorem Describes.exists_map {data : Value} {node : Node} (h : Describes data node) :
    ∃ entries, data = .map entries := by
  cases h <;> exact ⟨_, rfl⟩

theorem Describes.wellTyped {data : Value} {node : Node} (h : Describes data node) :
    node.WellTyped := by
  induction h with
  | program _ _ statements _ typed => exact .program (statements.forall_nodes typed)
  | element _ _ _ attributes _ _ children _ _ helpers _ onAttributes onChildren _ =>
    exact .element attributes.kinds_eq (attributes.forall_nodes onAttributes)
      (children.forall_nodes onChildren) helpers.kinds_eq
  | plainAttr => exact .attr (.inl rfl)
  | attr _ _ _ _ kind => exact .attr kind
  | block _ _ _ body _ inverse _ onBody onInverse =>
    exact .block body.branch_kind (body.forall_branch onBody) inverse.branch_kind
      (inverse.forall_branch onInverse)
  | component _ _ _ attributes _ body _ inverse _ onAttributes onBody onInverse =>
    exact .component attributes.kinds_eq (attributes.forall_nodes onAttributes)
      body.branch_kind (body.forall_branch onBody) inverse.branch_kind
      (inverse.forall_branch onInverse)
  | text => exact .text
  | mustache => exact .mustache

end TemplateActions.Document
