import TemplateActions.Node.Basic
import TemplateActions.Path

/-!
The positions of a tree in source order, each with the path that leads to it.
-/
namespace TemplateActions.Node

mutual

def positions (path : Path) : Node → List (Path × Node)
  | node@(.program _ statements) => (path, node) :: itemPositions path .statements 0 statements
  | node@(.element _ _ attributes children helpers) =>
    (path, node) :: itemPositions path .attributes 0 attributes ++
      itemPositions path .helpers 0 helpers ++ itemPositions path .children 0 children
  | node@(.attr _ _ value) => (path, node) :: value.positions (path.field .value)
  | node@(.block _ _ _ body inverse) =>
    (path, node) :: fieldPositions path .program body ++ fieldPositions path .inverse inverse
  | node@(.component _ _ attributes body inverse) =>
    (path, node) :: itemPositions path .attributes 0 attributes ++
      fieldPositions path .program body ++ fieldPositions path .inverse inverse
  | node => [(path, node)]

def itemPositions (path : Path) (slot : Field) (index : Nat) : List Node → List (Path × Node)
  | [] => []
  | node :: rest =>
    node.positions (path.item slot index) ++ itemPositions path slot (index + 1) rest

def fieldPositions (path : Path) (slot : Field) : Option Node → List (Path × Node)
  | none => []
  | some node => node.positions (path.field slot)

end

/-- The nodes of the tree in source order, each with the text of its path from the given start. -/
def traversal (start : String) (root : Node) : List (String × Node) :=
  (root.positions ⟨start, []⟩).map fun p => (p.1.text, p.2)

end TemplateActions.Node
