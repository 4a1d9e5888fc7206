import TemplateActions.Node.Equality
import TemplateActions.Node.Literal
import TemplateActions.Proofs.Node.Sketch

/-!
Literals of nodes. The first letter of a literal tells the kind of the node, and behind it each
argument can be read in one way only, also where a text holds brackets, commas, quotes or the
literal of a node: well-typed nodes are equal exactly if their literals are.
-/
namespace TemplateActions

namespace Literal

variable {value value' : List Char} {P : Prop}

theorem decides_argument (name : String) (h : Decides value value' P) :
    Decides (argument name value) (argument name value') P :=
  (h.cons '=').behind name.toList

theorem decides_call (name : String) {arguments arguments' : List (List Char)}
    (h : Decides (joinChars comma arguments) (joinChars comma arguments') P) :
    Decides (call name arguments) (call name arguments') P :=
  ((h.cons '(').behind name.toList).before [')']

theorem decides_text (s s' : String) : Decides (text s) (text s') (s = s') :=
  (Quoted.decides_chars s.toList s'.toList).congr String.toList_inj

theorem decides_texts (items items' : List String) :
    Decides (texts items) (texts items') (items = items') := by
  have opens (s : String) : StartsOther ']' (text s) := by
    refine ⟨Quoted.quoteOf s.toList, rfl, ?_⟩
    rcases Quoted.isQuote_quoteOf s.toList with isQuote | isQuote <;> rw [isQuote] <;> decide
  have each : ∀ s ∈ items, ∀ s' ∈ items', Decides (text s) (text s') (s = s') :=
    fun s _ s' _ => decides_text s s'
  exact (decides_bracketed (fun s _ => opens s) (fun s _ => opens s) each).congr
    (by rw [List.forall₂_eq_eq_eq])

theorem decides_bool (b b' : Bool) : Decides (bool b) (bool b') (b = b') := by
  cases b <;> cases b'
  case false.false | true.true => exact .self _ rfl
  all_goals exact .of_head ⟨_, rfl, by decide⟩ rfl (by decide)

end Literal

namespace Node

open Literal

def capital (kind : NodeKind) : Char := (initial kind).toUpper

theorem capital_injective : Function.Injective capital := by
  intro kind kind' same
  cases kind <;> cases kind' <;> first | rfl | exact absurd same (by decide)

theorem head?_literal {node : Node} {kind : NodeKind} (h : node.kind? = some kind) :
    node.literal.head? = some (capital kind) := by
  cases node <;> cases h <;> rfl

theorem WellTyped.startsOther {a : Node} (h : a.WellTyped) {c : Char}
    (other : ∀ kind, capital kind ≠ c) : StartsOther c a.literal := by
  obtain ⟨kind, isKind⟩ := h.exists_kind
  exact ⟨capital kind, head?_literal isKind, other kind⟩

theorem kind?_eq_of_same {a b : Node} (h : a.same b) : a.kind? = b.kind? := by
  cases a <;> cases b <;> first | rfl | cases h

/-- Holds if the literal of the node decides which well-typed nodes are equal to it. -/
def Legible (a : Node) : Prop := ∀ b : Node, b.WellTyped → Decides a.literal b.literal (a.same b)

theorem WellTyped.legible_of_kind {a : Node} (ha : a.WellTyped)
    (alike : ∀ b : Node, b.WellTyped → a.kind? = b.kind? → Decides a.literal b.literal (a.same b)) :
    a.Legible := by
  intro b hb
  by_cases sameKind : a.kind? = b.kind?
  · exact alike b hb sameKind
  · obtain ⟨kind, isKind⟩ := ha.exists_kind
    obtain ⟨kind', isKind'⟩ := hb.exists_kind
    have different : kind ≠ kind' := fun same => sameKind (by rw [isKind, isKind', same])
    exact .of_head ⟨capital kind, head?_literal isKind, capital_injective.ne different⟩
      (head?_literal isKind') (mt kind?_eq_of_same sameKind)

theorem literals_eq_map (nodes : List Node) : literals nodes = nodes.map literal := by
  induction nodes with
  | nil => rfl
  | cons node rest ih => rw [literals, ih, List.map_cons]

theorem allSame_iff {nodes nodes' : List Node} :
    allSame nodes nodes' ↔ List.Forall₂ (fun a b => a.same b) nodes nodes' := by
  induction nodes generalizing nodes' with
  | nil => cases nodes' <;> simp [allSame]
  | cons a rest ih =>
    cases nodes' with
    | nil => simp [allSame]
    | cons b rest' => rw [allSame, Bool.and_eq_true, List.forall₂_cons, ih]

theorem decides_nodes {nodes nodes' : List Node} (legible : ∀ a ∈ nodes, a.Legible)
    (typed : ∀ a ∈ nodes, a.WellTyped) (typed' : ∀ b ∈ nodes', b.WellTyped) :
    Decides (bracketed (literals nodes)) (bracketed (literals nodes')) (allSame nodes nodes') := by
  have opens {a : Node} (typed : a.WellTyped) : StartsOther ']' a.literal :=
    typed.startsOther fun kind => by cases kind <;> decide
  rw [literals_eq_map, literals_eq_map]
  exact (decides_bracketed (fun a member => opens (typed a member))
    (fun b member => opens (typed' b member))
    fun a member b member' => legible a member b (typed' b member')).congr allSame_iff.symm

theorem decides_branch {branch branch' : Option Node} (legible : ∀ a ∈ branch, a.Legible)
    (typed : ∀ a ∈ branch, a.WellTyped) (typed' : ∀ b ∈ branch', b.WellTyped) :
    Decides (optionLiteral branch) (optionLiteral branch') (optionSame branch branch') := by
  -- The literal of an absent program has a first letter of its own.
  have opens {a : Node} (typed : a.WellTyped) : StartsOther 'N' a.literal :=
    typed.startsOther fun kind => by cases kind <;> decide
  cases branch with
  | none =>
    cases branch' with
    | none => exact .self _ rfl
    | some b => exact (Decides.of_head (opens (typed' b rfl)) rfl nofun).symm
  | some a =>
    cases branch' with
    | none => exact .of_head (opens (typed a rfl)) rfl nofun
    | some b => exact legible a rfl b (typed' b rfl)

theorem legible_text (id : Nat) (chars : String) : (text id chars).Legible := by
  refine WellTyped.text.legible_of_kind fun b hb kinds => ?_
  cases hb <;> cases kinds
  case text id' chars' =>
    have content := decides_argument "chars" (decides_text chars chars')
    rw [literal, literal, same, beq_iff_eq]
    exact decides_call "TextNode" content.last

theorem legible_mustache (id : Nat) (path : String) (params : List String) (escaped : Bool) :
    (mustache id path params escaped).Legible := by
  refine WellTyped.mustache.legible_of_kind fun b hb kinds => ?_
  cases hb <;> cases kinds
  case mustache id' path' params' escaped' =>
    have paths := decides_argument "path" (decides_text path path')
    have parameters := decides_argument "params" (decides_texts params params')
    have flags := decides_argument "escaped" (decides_bool escaped escaped')
    simp only [literal, same, Bool.and_eq_true, beq_iff_eq, and_assoc]
    exact decides_call "MustacheNode" (paths.joined (parameters.joined flags.last))

theorem legible_of_leaf {node : Node} (h : node.kind? = some .text ∨ node.kind? = some .mustache) :
    node.Legible := by
  rcases h with h | h <;> cases node <;> cases h
  · exact legible_text _ _
  · exact legible_mustache _ _ _ _

/-- In a literal, each argument is read back from where the one before it ends. -/
theorem WellTyped.legible {a : Node} (h : a.WellTyped) : a.Legible := by
  induction h with
  -- In each case only nodes of the same kind are left: their literals differ in the arguments.
  | program typed ih =>
    refine (WellTyped.program typed).legible_of_kind fun b hb kinds => ?_
    cases hb <;> cases kinds
    case program typed' =>
      have statements := decides_argument "statements" (decides_nodes ih typed typed')
      rw [literal, literal, same]
      exact decides_call "ProgramNode" statements.last
  | @element id tag _ _ _ attributeKinds typedAttributes typedChildren helperKinds onAttributes
      onChildren =>
    refine (WellTyped.element attributeKinds typedAttributes typedChildren
      helperKinds).legible_of_kind
      fun b hb kinds => ?_
    cases hb <;> cases kinds
    case element id' tag' _ _ _ _ typedAttributes' typedChildren' helperKinds' =>
      have leaf {helpers : List Node} (kinds : ∀ a ∈ helpers, a.kind? = some .mustache) :
          ∀ a ∈ helpers, a.WellTyped := fun a member => wellTyped_of_leaf (.inr (kinds a member))
      have onHelpers := fun a member => legible_of_leaf (.inr (helperKinds a member))
      have tags := decides_argument "tag" (decides_text tag tag')
      have attributes := decides_argument "attributes"
        (decides_nodes onAttributes typedAttributes typedAttributes')
      have children := decides_argument "children"
          (decides_nodes onChildren typedChildren typedChildren')
      have helpers := decides_argument "helpers"
        (decides_nodes onHelpers (leaf helperKinds) (leaf helperKinds'))
      simp only [literal, same, Bool.and_eq_true, beq_iff_eq, and_assoc]
      exact decides_call "ElementNode" (tags.joined
        (attributes.joined (children.joined helpers.last)))
  | @attr id name value kind =>
    refine (WellTyped.attr kind).legible_of_kind fun b hb kinds => ?_
    cases hb <;> cases kinds
    case attr id' name' value' kind' =>
      have names := decides_argument "name" (decides_text name name')
      have values := decides_argument "value"
          (legible_of_leaf kind value' (wellTyped_of_leaf kind'))
      simp only [literal, same, Bool.and_eq_true, beq_iff_eq]
      exact decides_call "AttrNode" (names.joined values.last)
  | @block id path params _ _ bodyKind typedBody inverseKind typedInverse onBody onInverse =>
    refine (WellTyped.block bodyKind typedBody inverseKind typedInverse).legible_of_kind
      fun b hb kinds => ?_
    cases hb <;> cases kinds
    case block id' path' params' _ _ _ typedBody' _ typedInverse' =>
      have paths := decides_argument "path" (decides_text path path')
      have parameters := decides_argument "params" (decides_texts params params')
      have bodies := decides_argument "program" (decides_branch onBody typedBody typedBody')
      have inverses := decides_argument "inverse"
          (decides_branch onInverse typedInverse typedInverse')
      simp only [literal, same, Bool.and_eq_true, beq_iff_eq, and_assoc]
      exact decides_call "BlockNode" (paths.joined
        (parameters.joined (bodies.joined inverses.last)))
  | @component id tag _ _ _ attributeKinds typedAttributes bodyKind typedBody inverseKind
      typedInverse
      onAttributes onBody onInverse =>
    refine (WellTyped.component attributeKinds typedAttributes bodyKind typedBody inverseKind
      typedInverse).legible_of_kind fun b hb kinds => ?_
    cases hb <;> cases kinds
    case component id' tag' _ _ _ _ typedAttributes' _ typedBody' _ typedInverse' =>
      have tags := decides_argument "tag" (decides_text tag tag')
      have attributes := decides_argument "attributes"
        (decides_nodes onAttributes typedAttributes typedAttributes')
      have bodies := decides_argument "program" (decides_branch onBody typedBody typedBody')
      have inverses := decides_argument "inverse"
          (decides_branch onInverse typedInverse typedInverse')
      simp only [literal, same, Bool.and_eq_true, beq_iff_eq, and_assoc]
      exact decides_call "ComponentNode"
        (tags.joined (attributes.joined (bodies.joined inverses.last)))
  | text => exact legible_text _ _
  | mustache => exact legible_mustache _ _ _ _

/-- Well-typed nodes are equal exactly if they have the same literal. -/
theorem WellTyped.same_iff_literal_eq {a b : Node} (ha : a.WellTyped) (hb : b.WellTyped) :
    a.same b ↔ a.literal = b.literal :=
  (ha.legible b hb).eq_iff.symm

def quotingSample (texts : List String) : Node := .program 0 (texts.map (Node.text 1))

theorem quotingSample_literal :
    ((quotingSample ["x'), TextNode(chars='y"]).WellTyped ∧ (quotingSample ["x", "y"]).WellTyped) ∧
      ¬ (quotingSample ["x'), TextNode(chars='y"]).same (quotingSample ["x", "y"]) ∧
      (quotingSample ["x'), TextNode(chars='y"]).literal ≠ (quotingSample ["x", "y"]).literal := by
  have typed : (quotingSample ["x'), TextNode(chars='y"]).WellTyped := by decide
  have typed' : (quotingSample ["x", "y"]).WellTyped := by decide
  have different : ¬ (quotingSample ["x'), TextNode(chars='y"]).same
      (quotingSample ["x", "y"]) := by decide
  exact ⟨⟨typed, typed'⟩, different, mt (typed.same_iff_literal_eq typed').mpr different⟩

end Node
end TemplateActions
