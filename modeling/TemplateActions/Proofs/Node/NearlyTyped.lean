import TemplateActions.Proofs.Node.WellTyped

/-!
Trees that are well typed but for unknown objects, which are no nodes or nodes of a kind without a
rule. Where no unknown object stands in such a tree, it is well typed.
-/
namespace TemplateActions.Node

/-- An object that the visitor has no rule for. -/
def isUnknown (node : Node) : Bool := node.kind?.isNone

/-- Well typed, but for unknown objects: they may stand among statements and children, and in place
of the programs of blocks and components. -/
inductive NearlyTyped : Node → Prop where
  | unknown {node : Node} : node.isUnknown → NearlyTyped node
  | program {id : Nat} {statements : List Node} :
      (∀ s ∈ statements, s.NearlyTyped) → NearlyTyped (.program id statements)
  | element {id : Nat} {tag : String} {attributes children helpers : List Node} :
      (∀ a ∈ attributes, a.kind? = some .attr) → (∀ a ∈ attributes, a.WellTyped) →
      (∀ c ∈ children, c.NearlyTyped) → (∀ h ∈ helpers, h.kind? = some .mustache) →
      NearlyTyped (.element id tag attributes children helpers)
  | attr {id : Nat} {name : String} {value : Node} :
      value.kind? = some .text ∨ value.kind? = some .mustache → NearlyTyped (.attr id name value)
  | block {id : Nat} {path : String} {params : List String} {body inverse : Option Node} :
      (∀ p ∈ body, p.isUnknown ∨ p.kind? = some .program) → (∀ p ∈ body, p.NearlyTyped) →
      (∀ p ∈ inverse, p.isUnknown ∨ p.kind? = some .program) → (∀ p ∈ inverse, p.NearlyTyped) →
      NearlyTyped (.block id path params body inverse)
  | component {id : Nat} {tag : String} {attributes : List Node} {body inverse : Option Node} :
      (∀ a ∈ attributes, a.kind? = some .attr) → (∀ a ∈ attributes, a.WellTyped) →
      (∀ p ∈ body, p.isUnknown ∨ p.kind? = some .program) → (∀ p ∈ body, p.NearlyTyped) →
      (∀ p ∈ inverse, p.isUnknown ∨ p.kind? = some .program) → (∀ p ∈ inverse, p.NearlyTyped) →
      NearlyTyped (.component id tag attributes body inverse)
  | text {id : Nat} {chars : String} : NearlyTyped (.text id chars)
  | mustache {id : Nat} {path : String} {params : List String} {escaped : Bool} :
      NearlyTyped (.mustache id path params escaped)

theorem WellTyped.known {node : Node} (h : node.WellTyped) : node.isUnknown = false := by
  cases h <;> rfl

theorem known_of_kind {node : Node} {kind : NodeKind} (h : node.kind? = some kind) :
    node.isUnknown = false := by
  rw [isUnknown, h]
  rfl

theorem WellTyped.all_known {root : Node} (h : root.WellTyped) :
    ∀ node ∈ root.preorder, node.isUnknown = false :=
  fun _ member => (h.of_mem_preorder member).known

theorem forall_mem_preorder_iff {node : Node} {p : Node → Prop} :
    (∀ n ∈ node.preorder, p n) ↔ p node ∧ ∀ part ∈ node.slotNodes, ∀ n ∈ part.preorder, p n := by
  rw [preorder_eq, List.forall_mem_cons, List.forall_mem_flatMap]

theorem wellTyped_branch {branch : Option Node} {node : Node}
    (kinds : ∀ p ∈ branch, p.isUnknown ∨ p.kind? = some .program)
    (typed : ∀ p ∈ branch, (∀ n ∈ p.preorder, n.isUnknown = false) → p.WellTyped)
    (inSlots : ∀ p ∈ branch, p ∈ node.slotNodes)
    (known : ∀ n ∈ node.preorder, n.isUnknown = false) :
    (∀ p ∈ branch, p.kind? = some .program) ∧ ∀ p ∈ branch, p.WellTyped := by
  have inBranch : ∀ p ∈ branch, ∀ n ∈ p.preorder, n.isUnknown = false :=
    fun p isBranch => (forall_mem_preorder_iff.mp known).2 p (inSlots p isBranch)
  refine ⟨fun p isBranch => ?_, fun p isBranch => typed p isBranch (inBranch p isBranch)⟩
  refine (kinds p isBranch).resolve_left fun isUnknown => ?_
  have isKnown := (forall_mem_preorder_iff.mp (inBranch p isBranch)).1
  rw [isUnknown] at isKnown
  cases isKnown

theorem NearlyTyped.wellTyped {root : Node} (h : root.NearlyTyped)
    (known : ∀ node ∈ root.preorder, node.isUnknown = false) : root.WellTyped := by
  induction h with
  | unknown isUnknown =>
    rw [forall_mem_preorder_iff, isUnknown] at known
    cases known.1
  | program _ ih =>
    rw [forall_mem_preorder_iff, slotNodes_program] at known
    exact .program fun s member => ih s member (known.2 s member)
  | element kinds typed _ mustaches ih =>
    rw [forall_mem_preorder_iff, slotNodes_element] at known
    exact .element kinds typed
      (fun c member => ih c member (known.2 c (List.mem_append_right _ member))) mustaches
  | attr kind => exact .attr kind
  | block onBody _ onInverse _ ihBody ihInverse =>
    obtain ⟨isProgram, body⟩ := wellTyped_branch onBody ihBody
      (by simp +contextual [slotNodes_block]) known
    obtain ⟨isProgram', inverse⟩ :=
      wellTyped_branch onInverse ihInverse (by simp +contextual [slotNodes_block]) known
    exact .block isProgram body isProgram' inverse
  | component kinds typed onBody _ onInverse _ ihBody ihInverse =>
    obtain ⟨isProgram, body⟩ := wellTyped_branch onBody ihBody
      (by simp +contextual [slotNodes_component]) known
    obtain ⟨isProgram', inverse⟩ :=
      wellTyped_branch onInverse ihInverse (by simp +contextual [slotNodes_component]) known
    exact .component kinds typed isProgram body isProgram' inverse
  | text => exact .text
  | mustache => exact .mustache

theorem WellTyped.nearlyTyped {node : Node} (h : node.WellTyped) : node.NearlyTyped := by
  induction h with
  | program _ ih => exact .program ih
  | element kinds typed _ mustaches _ ih => exact .element kinds typed ih mustaches
  | attr kind => exact .attr kind
  | block onBody _ onInverse _ ihBody ihInverse =>
    exact .block (fun p isBody => .inr (onBody p isBody)) ihBody
      (fun p isInverse => .inr (onInverse p isInverse)) ihInverse
  | component kinds typed onBody _ onInverse _ _ ihBody ihInverse =>
    exact .component kinds typed (fun p isBody => .inr (onBody p isBody)) ihBody
      (fun p isInverse => .inr (onInverse p isInverse)) ihInverse
  | text => exact .text
  | mustache => exact .mustache

theorem NearlyTyped.slotNode {node part : Node} (h : node.NearlyTyped)
    (member : part ∈ node.slotNodes) : part.NearlyTyped := by
  cases h with
  | unknown isUnknown =>
    cases node <;> cases isUnknown <;> cases member
  | program statements =>
    rw [slotNodes_program] at member
    exact statements part member
  | element _ attributes children helpers =>
    rw [slotNodes_element, List.mem_append, List.mem_append] at member
    rcases member with (member | member) | member
    · exact (attributes part member).nearlyTyped
    · exact (wellTyped_of_leaf (.inr (helpers part member))).nearlyTyped
    · exact children part member
  | attr value => exact ((WellTyped.attr value).slotNode member).nearlyTyped
  | block _ body _ inverse =>
    rw [slotNodes_block, List.mem_append, Option.mem_toList, Option.mem_toList] at member
    rcases member with member | member
    · exact body part member
    · exact inverse part member
  | component _ attributes _ body _ inverse =>
    rw [slotNodes_component, List.mem_append, List.mem_append, Option.mem_toList,
      Option.mem_toList] at member
    rcases member with (member | member) | member
    · exact (attributes part member).nearlyTyped
    · exact body part member
    · exact inverse part member
  | text | mustache => exact absurd member List.not_mem_nil

end TemplateActions.Node
