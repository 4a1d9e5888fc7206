import TemplateActions.Proofs.Node.WellTyped

/-!
The dynamic parts of an element. A child of an element is dynamic if it is an interpolation, a
block, a component or a dynamic attribute, or an element that reaches one of these through element
children. In a well-typed tree this is the same as an interpolation, a block or a component on the
surface.
-/
namespace TemplateActions.Node

def isInterpolation : Node → Bool
  | .mustache .. | .block .. | .component .. => true
  | _ => false

def isElement : Node → Bool
  | .element .. => true
  | _ => false

/-- Interpolations, blocks and components are dynamic on their own, and so is an attribute whose
value is interpolated. -/
def isDynamicAlone (node : Node) : Bool := node.isInterpolation || node.isDynamic

/-- An element reaches what stands in it or in an element among its children, at any depth. -/
inductive Reaches : Node → Node → Prop where
  | attr {id : Nat} {tag : String} {attributes children helpers : List Node} {part : Node} :
      part ∈ attributes → Reaches (.element id tag attributes children helpers) part
  | helper {id : Nat} {tag : String} {attributes children helpers : List Node} {part : Node} :
      part ∈ helpers → Reaches (.element id tag attributes children helpers) part
  | child {id : Nat} {tag : String} {attributes children helpers : List Node} {part : Node} :
      part ∈ children → Reaches (.element id tag attributes children helpers) part
  | deeper {id : Nat} {tag : String} {attributes children helpers : List Node} {inner part : Node} :
      inner ∈ children → Reaches inner part →
      Reaches (.element id tag attributes children helpers) part

def Dynamic (node : Node) : Prop :=
  node.isDynamicAlone ∨ ∃ part, node.Reaches part ∧ part.isDynamicAlone

theorem dynamic_iff_of_not_element {node : Node} (plain : node.isElement = false) :
    node.Dynamic ↔ node.isDynamicAlone := by
  refine or_iff_left ?_
  rintro ⟨part, reach, -⟩
  cases reach <;> cases plain

section

variable (id : Nat) (text : String) (params : List String) (nodes : List Node) (value : Node)
  (body inverse : Option Node)

@[simp] theorem not_dynamic_program : ¬ Dynamic (.program id nodes) := by
  simp [dynamic_iff_of_not_element (rfl : isElement (.program id nodes) = false), isDynamicAlone,
    isInterpolation, isDynamic]

@[simp] theorem not_dynamic_text : ¬ Dynamic (.text id text) := by
  simp [dynamic_iff_of_not_element (rfl : isElement (.text id text) = false), isDynamicAlone,
    isInterpolation, isDynamic]

@[simp] theorem dynamic_attr_iff : Dynamic (.attr id text value) ↔ value.isMustache :=
  dynamic_iff_of_not_element rfl

@[simp] theorem dynamic_mustache (escaped : Bool) : Dynamic (.mustache id text params escaped) :=
  .inl rfl

@[simp] theorem dynamic_block : Dynamic (.block id text params body inverse) := .inl rfl

@[simp] theorem dynamic_component : Dynamic (.component id text nodes body inverse) := .inl rfl

end

theorem dynamic_element_iff (id : Nat) (tag : String) (attributes children helpers : List Node) :
    Dynamic (.element id tag attributes children helpers) ↔
      (∃ a ∈ attributes, a.isDynamicAlone) ∨ (∃ h ∈ helpers, h.isDynamicAlone) ∨
        ∃ c ∈ children, c.Dynamic := by
  constructor
  · rintro (alone | ⟨part, reach, alone⟩)
    · cases alone
    · cases reach with
      | attr member => exact .inl ⟨part, member, alone⟩
      | helper member => exact .inr (.inl ⟨part, member, alone⟩)
      | child member => exact .inr (.inr ⟨part, member, .inl alone⟩)
      | @deeper _ _ _ _ _ inner _ member reach =>
        exact .inr (.inr ⟨inner, member, .inr ⟨part, reach, alone⟩⟩)
  · rintro (⟨a, member, alone⟩ | ⟨h, member, alone⟩ | ⟨c, member, alone | ⟨part, reach, alone⟩⟩)
    · exact .inr ⟨a, .attr member, alone⟩
    · exact .inr ⟨h, .helper member, alone⟩
    · exact .inr ⟨c, .child member, alone⟩
    · exact .inr ⟨part, .deeper member reach, alone⟩

mutual

def testDynamic : Node → Bool
  | .element _ _ attributes children helpers =>
    attributes.any isDynamicAlone || (helpers.any isDynamicAlone || anyDynamic children)
  | node => node.isDynamicAlone

def anyDynamic : List Node → Bool
  | [] => false
  | node :: rest => node.testDynamic || anyDynamic rest

end

mutual

theorem testDynamic_iff : ∀ node : Node, node.testDynamic ↔ node.Dynamic
  | .element id tag attributes children helpers => by
    rw [dynamic_element_iff, testDynamic, Bool.or_eq_true, Bool.or_eq_true, anyDynamic_iff children,
      List.any_eq_true, List.any_eq_true]
  | .program .. | .attr .. | .block .. | .component .. | .text .. | .mustache .. | .foreign ..
  | .bare .. => (dynamic_iff_of_not_element rfl).symm

theorem anyDynamic_iff : ∀ nodes : List Node, anyDynamic nodes ↔ ∃ node ∈ nodes, node.Dynamic
  | [] => by simp [anyDynamic]
  | node :: rest => by
    rw [anyDynamic, Bool.or_eq_true, testDynamic_iff node, anyDynamic_iff rest]
    simp

end

instance : DecidablePred Dynamic := fun node => decidable_of_iff _ node.testDynamic_iff

/-- The number of the dynamic parts of an element: its helpers, its dynamic attributes, and its
dynamic children, whatever number of dynamic parts these have. -/
def mustacheCount : Node → Nat
  | .element _ _ attributes children helpers =>
    helpers.length + attributes.countP isDynamic + children.countP (·.Dynamic)
  | _ => 0

theorem isDynamicAlone_attr {a : Node} (kind : a.kind? = some .attr) :
    a.isDynamicAlone = a.isDynamic := by
  cases a <;> cases kind
  rfl

theorem isDynamicAlone_mustache {m : Node} (kind : m.kind? = some .mustache) :
    m.isDynamicAlone := by
  cases m <;> cases kind
  rfl

theorem WellTyped.mustacheCount_eq_zero_iff {e : Node} (h : e.WellTyped)
    (isElement : e.kind? = some .element) : e.mustacheCount = 0 ↔ ¬ e.Dynamic := by
  cases h <;> cases isElement
  case element id tag attributes children helpers kinds _ _ mustaches =>
    have onAttributes : (∃ a ∈ attributes, a.isDynamicAlone) ↔ ∃ a ∈ attributes, a.isDynamic :=
      exists_congr fun a => and_congr_right fun member => by
        rw [isDynamicAlone_attr (kinds a member)]
    have onHelpers : (∃ h ∈ helpers, h.isDynamicAlone) ↔ helpers ≠ [] := by
      constructor
      · rintro ⟨h, member, -⟩
        exact List.ne_nil_of_mem member
      · intro nonempty
        obtain ⟨h, member⟩ := List.exists_mem_of_ne_nil _ nonempty
        exact ⟨h, member, isDynamicAlone_mustache (mustaches h member)⟩
    rw [dynamic_element_iff, onAttributes, onHelpers]
    simp only [mustacheCount, Nat.add_eq_zero_iff, List.length_eq_zero_iff, List.countP_eq_zero,
      decide_eq_true_eq]
    push Not
    tauto

/-- Holds if an interpolation, a block or a component stands on the surface of the node. -/
def hasInterpolation (node : Node) : Bool := node.surfaceNodes.any isInterpolation

theorem hasInterpolation_eq (node : Node) :
    node.hasInterpolation =
      (node.isInterpolation || (!node.isProgram && node.slotNodes.any hasInterpolation)) := by
  rw [hasInterpolation, surfaceNodes_eq, List.any_cons]
  cases node.isProgram
  · rw [if_neg Bool.false_ne_true, List.any_flatMap]
    rfl
  · rfl

theorem hasInterpolation_of_leaf {node : Node}
    (kind : node.kind? = some .text ∨ node.kind? = some .mustache) :
    node.hasInterpolation = node.isDynamicAlone := by
  rcases kind with kind | kind <;> cases node <;> cases kind <;> rw [hasInterpolation_eq] <;> rfl

theorem WellTyped.hasInterpolation_attr {a : Node} (h : a.WellTyped) (kind : a.kind? = some .attr) :
    a.hasInterpolation = a.isDynamicAlone := by
  cases h <;> cases kind
  case attr id name value kinds =>
    rw [hasInterpolation_eq]
    simp only [slotNodes, slots, List.map_cons, List.map_nil, List.any_cons, List.any_nil,
      hasInterpolation_of_leaf kinds]
    rcases kinds with kind | kind <;> cases value <;> cases kind <;> rfl

/-- A well-typed node is dynamic as a child of an element exactly if there is an interpolation on
its surface. -/
theorem WellTyped.hasInterpolation_iff {node : Node} (h : node.WellTyped) :
    node.hasInterpolation ↔ node.Dynamic := by
  induction h with
  | @element id tag attributes children helpers kinds typed _ mustaches _ ih =>
    have onAttributes : (∃ a ∈ attributes, a.hasInterpolation) ↔
        ∃ a ∈ attributes, a.isDynamicAlone :=
      exists_congr fun a => and_congr_right fun member => by
        rw [(typed a member).hasInterpolation_attr (kinds a member)]
    have onHelpers : (∃ h ∈ helpers, h.hasInterpolation) ↔ ∃ h ∈ helpers, h.isDynamicAlone :=
      exists_congr fun h => and_congr_right fun member => by
        rw [hasInterpolation_of_leaf (.inr (mustaches h member))]
    have onChildren : (∃ c ∈ children, c.hasInterpolation) ↔ ∃ c ∈ children, c.Dynamic :=
      exists_congr fun c => and_congr_right fun member => ih c member
    rw [hasInterpolation_eq, slotNodes_element, dynamic_element_iff, ← onAttributes, ← onHelpers,
      ← onChildren]
    simp only [isInterpolation, isProgram, Bool.false_or, Bool.not_false, Bool.true_and,
      List.any_append, Bool.or_eq_true, List.any_eq_true, or_assoc]
  | program =>
    rw [hasInterpolation_eq, dynamic_iff_of_not_element rfl]
    rfl
  | attr kind =>
    rw [(WellTyped.attr kind).hasInterpolation_attr rfl, dynamic_iff_of_not_element rfl]
  | text | mustache =>
    rw [hasInterpolation_of_leaf (by simp [kind?]), dynamic_iff_of_not_element rfl]
  | block | component =>
    rw [hasInterpolation_eq, dynamic_iff_of_not_element rfl]
    exact iff_of_true rfl rfl

end TemplateActions.Node
