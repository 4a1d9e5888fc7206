import TemplateActions.Yaml.Meaning

/-!
The node that a text stands for. The value of the text is that of the node.
-/
namespace TemplateActions.Yaml

/-- Holds for the node that a text stands for. -/
structure Denotes (text : List Char) (node : Node) : Prop where
  printable : text.all isPrintable
  tokens : ∃ tokens, Yaml.tokens (normalizeBreaks text) = .ok tokens ∧
    Node.ofTokens? tokens = some (some node)

variable {text : List Char}

theorem Denotes.read_eq {node : Node} (denotes : Denotes text node) :
    read text = match node.meaning.value with
      | .ok value => .ok value
      | .error fault => .error fault.failure := by
  obtain ⟨printable, tokens, isTokens, isNode⟩ := denotes
  rw [read, printable, isTokens]
  cases value : node.meaning.value <;> simp only [Bool.not_true, Bool.false_eq_true, if_false,
    isNode, value]

/-- Reading fails before there is a node, or the text stands for nothing, or for a node. -/
theorem read_cases (text : List Char) :
    read text = .error .malformed ∨
      (∃ failure, tokens (normalizeBreaks text) = .error failure ∧ read text = .error failure) ∨
      read text = .ok .null ∨ ∃ node, Denotes text node := by
  by_cases printable : text.all isPrintable
  · rcases isTokens : tokens (normalizeBreaks text) with failure | tokens
    · refine .inr (.inl ⟨failure, rfl, ?_⟩)
      rw [read, printable, isTokens]
      rfl
    · rcases isNode : Node.ofTokens? tokens with _ | _ | node
      · refine .inl ?_
        rw [read, printable, isTokens]
        simp only [Bool.not_true, Bool.false_eq_true, if_false, isNode]
      · refine .inr (.inr (.inl ?_))
        rw [read, printable, isTokens]
        simp only [Bool.not_true, Bool.false_eq_true, if_false, isNode]
      · exact .inr (.inr (.inr ⟨node, printable, tokens, isTokens, isNode⟩))
  · refine .inl ?_
    rw [read, Bool.eq_false_iff.mpr printable]
    rfl

end TemplateActions.Yaml
