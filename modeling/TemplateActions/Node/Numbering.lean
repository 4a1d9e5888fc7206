import TemplateActions.Node.Basic

/-!
Numbering a tree: its positions get the identity numbers `n, n + 1, …` in source order, so that no
node stands in two places.
-/
namespace TemplateActions.Node

mutual

/-- The tree numbered from `n` on, and the first number that it leaves free. -/
def numberFrom (n : Nat) : Node → Node × Nat
  | .program _ statements =>
    let (statements, next) := numberAll (n + 1) statements
    (.program n statements, next)
  | .element _ tag attributes children helpers =>
    let (attributes, next) := numberAll (n + 1) attributes
    let (helpers, next) := numberAll next helpers
    let (children, next) := numberAll next children
    (.element n tag attributes children helpers, next)
  | .attr _ name value =>
    let (value, next) := value.numberFrom (n + 1)
    (.attr n name value, next)
  | .block _ path params body inverse =>
    let (body, next) := numberOption (n + 1) body
    let (inverse, next) := numberOption next inverse
    (.block n path params body inverse, next)
  | .component _ tag attributes body inverse =>
    let (attributes, next) := numberAll (n + 1) attributes
    let (body, next) := numberOption next body
    let (inverse, next) := numberOption next inverse
    (.component n tag attributes body inverse, next)
  | .text _ chars => (.text n chars, n + 1)
  | .mustache _ path params escaped => (.mustache n path params escaped, n + 1)
  | .foreign _ kind => (.foreign n kind, n + 1)
  | .bare _ value => (.bare n value, n + 1)

def numberAll (n : Nat) : List Node → List Node × Nat
  | [] => ([], n)
  | node :: rest =>
    let (node, next) := node.numberFrom n
    let (rest, next) := numberAll next rest
    (node :: rest, next)

def numberOption (n : Nat) : Option Node → Option Node × Nat
  | none => (none, n)
  | some node =>
    let (node, next) := node.numberFrom n
    (some node, next)

end

def numbered (root : Node) : Node := (root.numberFrom 0).1

end TemplateActions.Node
