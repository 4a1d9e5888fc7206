import TemplateActions.Proofs.Node.Surface

/-!
Well-typed trees: every slot holds what it should. Statements and children may be nodes of any of
the seven kinds, also attributes and directly nested programs.
-/
namespace TemplateActions.Node

inductive WellTyped : Node → Prop where
  | program {id : Nat} {statements : List Node} :
      (∀ s ∈ statements, s.WellTyped) → WellTyped (.program id statements)
  | element {id : Nat} {tag : String} {attributes children helpers : List Node} :
      (∀ a ∈ attributes, a.kind? = some .attr) → (∀ a ∈ attributes, a.WellTyped) →
      (∀ c ∈ children, c.WellTyped) → (∀ h ∈ helpers, h.kind? = some .mustache) →
      WellTyped (.element id tag attributes children helpers)
  | attr {id : Nat} {name : String} {value : Node} :
      value.kind? = some .text ∨ value.kind? = some .mustache → WellTyped (.attr id name value)
  | block {id : Nat} {path : String} {params : List String} {body inverse : Option Node} :
      (∀ p ∈ body, p.kind? = some .program) → (∀ p ∈ body, p.WellTyped) →
      (∀ p ∈ inverse, p.kind? = some .program) → (∀ p ∈ inverse, p.WellTyped) →
      WellTyped (.block id path params body inverse)
  | component {id : Nat} {tag : String} {attributes : List Node} {body inverse : Option Node} :
      (∀ a ∈ attributes, a.kind? = some .attr) → (∀ a ∈ attributes, a.WellTyped) →
      (∀ p ∈ body, p.kind? = some .program) → (∀ p ∈ body, p.WellTyped) →
      (∀ p ∈ inverse, p.kind? = some .program) → (∀ p ∈ inverse, p.WellTyped) →
      WellTyped (.component id tag attributes body inverse)
  | text {id : Nat} {chars : String} : WellTyped (.text id chars)
  | mustache {id : Nat} {path : String} {params : List String} {escaped : Bool} :
      WellTyped (.mustache id path params escaped)

theorem wellTyped_of_leaf {node : Node}
    (h : node.kind? = some .text ∨ node.kind? = some .mustache) : node.WellTyped := by
  rcases h with h | h <;> cases node <;> cases h
  · exact .text
  · exact .mustache

theorem WellTyped.slotNode {node part : Node} (h : node.WellTyped)
    (member : part ∈ node.slotNodes) : part.WellTyped := by
  cases h with
  | program statements =>
    rw [slotNodes_program] at member
    exact statements part member
  | element _ attributes children helpers =>
    rw [slotNodes_element, List.mem_append, List.mem_append] at member
    rcases member with (member | member) | member
    · exact attributes part member
    · exact wellTyped_of_leaf (.inr (helpers part member))
    · exact children part member
  | attr value =>
    obtain rfl : part = _ := List.mem_singleton.mp member
    exact wellTyped_of_leaf value
  | block _ body _ inverse =>
    rw [slotNodes_block, List.mem_append, Option.mem_toList, Option.mem_toList] at member
    rcases member with member | member
    · exact body part member
    · exact inverse part member
  | component _ attributes _ body _ inverse =>
    rw [slotNodes_component, List.mem_append, List.mem_append, Option.mem_toList,
      Option.mem_toList] at member
    rcases member with (member | member) | member
    · exact attributes part member
    · exact body part member
    · exact inverse part member
  | text | mustache => exact absurd member List.not_mem_nil

theorem WellTyped.of_mem_preorder {root node : Node} (h : root.WellTyped)
    (member : node ∈ root.preorder) : node.WellTyped :=
  preorder_inherits WellTyped.slotNode h member

theorem preorder_of_leaf {node : Node} (h : node.kind? = some .text ∨ node.kind? = some .mustache) :
    node.preorder = [node] := by
  rcases h with h | h <;> cases node <;> cases h <;> rw [preorder_eq] <;> rfl

theorem WellTyped.mem_preorder_attr {a part : Node} (h : a.WellTyped) (kind : a.kind? = some .attr)
    (member : part ∈ a.preorder) :
    part.kind? = some .attr ∨ part.kind? = some .text ∨ part.kind? = some .mustache := by
  cases h <;> cases kind
  case attr id name value kinds =>
    rw [preorder_eq, slotNodes, slots, List.map_singleton, List.flatMap_singleton,
      preorder_of_leaf kinds] at member
    rcases List.mem_pair.mp member with rfl | rfl
    · exact .inl rfl
    · exact .inr kinds

mutual

def fits : Node → Bool
  | .program _ statements => allFit statements
  | .element _ _ attributes children helpers =>
    attributes.all (·.kind? = some .attr) && allFit attributes && allFit children &&
      helpers.all (·.kind? = some .mustache)
  | .attr _ _ value => value.kind? = some .text || value.kind? = some .mustache
  | .block _ _ _ body inverse =>
    body.all (·.kind? = some .program) && optionFits body &&
      inverse.all (·.kind? = some .program) && optionFits inverse
  | .component _ _ attributes body inverse =>
    attributes.all (·.kind? = some .attr) && allFit attributes &&
      body.all (·.kind? = some .program) && optionFits body &&
      inverse.all (·.kind? = some .program) && optionFits inverse
  | .text .. | .mustache .. => true
  | .foreign .. | .bare .. => false

def allFit : List Node → Bool
  | [] => true
  | node :: rest => node.fits && allFit rest

def optionFits : Option Node → Bool
  | none => true
  | some node => node.fits

end

mutual

theorem fits_iff : ∀ node : Node, node.fits ↔ node.WellTyped
  | .program _ statements => by
    rw [fits, allFit_iff statements]
    exact ⟨.program, fun | .program typed => typed⟩
  | .element _ _ attributes children helpers => by
    simp only [fits, Bool.and_eq_true, allFit_iff attributes, allFit_iff children, List.all_eq_true,
      decide_eq_true_eq]
    constructor
    · rintro ⟨⟨⟨kinds, typed⟩, children⟩, mustaches⟩
      exact .element kinds typed children mustaches
    · intro h
      cases h with
      | element kinds typed children mustaches =>
        exact ⟨⟨⟨kinds, typed⟩, children⟩, mustaches⟩
  | .attr _ _ value => by
    simp only [fits, Bool.or_eq_true, decide_eq_true_eq]
    exact ⟨.attr, fun | .attr kind => kind⟩
  | .block _ _ _ body inverse => by
    simp only [fits, Bool.and_eq_true, optionFits_iff body, optionFits_iff inverse,
      Option.all_eq_true, decide_eq_true_eq]
    constructor
    · rintro ⟨⟨⟨bodyKind, body⟩, inverseKind⟩, inverse⟩
      exact .block bodyKind body inverseKind inverse
    · intro h
      cases h with
      | block bodyKind body inverseKind inverse =>
        exact ⟨⟨⟨bodyKind, body⟩, inverseKind⟩, inverse⟩
  | .component _ _ attributes body inverse => by
    simp only [fits, Bool.and_eq_true, allFit_iff attributes, optionFits_iff body,
      optionFits_iff inverse, List.all_eq_true, Option.all_eq_true, decide_eq_true_eq]
    constructor
    · rintro ⟨⟨⟨⟨⟨kinds, typed⟩, bodyKind⟩, body⟩, inverseKind⟩, inverse⟩
      exact .component kinds typed bodyKind body inverseKind inverse
    · intro h
      cases h with
      | component kinds typed bodyKind body inverseKind inverse =>
        exact ⟨⟨⟨⟨⟨kinds, typed⟩, bodyKind⟩, body⟩, inverseKind⟩, inverse⟩
  | .text .. => iff_of_true rfl .text
  | .mustache .. => iff_of_true rfl .mustache
  | .foreign .. | .bare .. => iff_of_false Bool.false_ne_true nofun

theorem allFit_iff : ∀ nodes : List Node, allFit nodes ↔ ∀ node ∈ nodes, node.WellTyped
  | [] => by simp [allFit]
  | node :: rest => by
    rw [allFit, Bool.and_eq_true, fits_iff node, allFit_iff rest, List.forall_mem_cons]

theorem optionFits_iff : ∀ node : Option Node, optionFits node ↔ ∀ p ∈ node, p.WellTyped
  | none => by simp [optionFits]
  | some node => by simp [optionFits, fits_iff node]

end

instance (node : Node) : Decidable node.WellTyped := decidable_of_iff _ node.fits_iff

/-- A tree with all kinds of nodes, also where only some of them make sense. -/
def sampleTree : Node :=
  .program 0
    [.element 1 "div" [.attr 2 "class" (.mustache 3 "style" [] true)]
      [.element 4 "p" []
        [.block 5 "if" ["shown"]
          (some (.program 6 [.text 7 "yes", .program 8 [.attr 9 "id" (.text 10 "")]]))
          (some (.program 11 [.mustache 12 "name" [] false]))] [],
        .text 13 "end"]
      [.mustache 14 "on" [] true],
    .program 15 [.element 16 "b" [] [.text 17 "alone"] []],
    .component 18 "Card" [.attr 19 "size" (.text 20 "2")] (some (.program 21 [])) none]

end TemplateActions.Node
