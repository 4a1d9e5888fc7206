import TemplateActions.Node.Basic

/-!
Actions: the instructions that a template tree is compiled to. Every action names the node it comes
from; places are positions in the source, counted from zero.
-/
namespace TemplateActions

/-- The position of a child among its siblings, and their number. Both are unknown for a child that
is visited on its own. -/
structure Place where
  index : Option Int
  count : Option Int
deriving DecidableEq

inductive ActionKind where
  | startProgram
  | endProgram
  | openElement
  | closeElement
  | text
  | mustache
  | block
  | component
deriving DecidableEq

namespace ActionKind

def all : List ActionKind :=
  [.startProgram, .endProgram, .openElement, .closeElement, .text, .mustache, .block, .component]

def name : ActionKind → String
  | .startProgram => "startProgram"
  | .endProgram => "endProgram"
  | .openElement => "openElement"
  | .closeElement => "closeElement"
  | .text => "text"
  | .mustache => "mustache"
  | .block => "block"
  | .component => "component"

end ActionKind

inductive Action where
  | startProgram (node : Node) (templates : Nat)
  | endProgram (node : Node)
  | openElement (node : Node) (place : Place) (singleRoot : Bool) (mustaches : Nat)
  | closeElement (node : Node) (place : Place) (singleRoot : Bool)
  | text (node : Node) (place : Place) (singleRoot : Bool)
  | mustache (node : Node) (place : Place)
  | block (node : Node) (place : Place)
  | component (node : Node) (place : Place)

namespace Action

def kind : Action → ActionKind
  | .startProgram .. => .startProgram
  | .endProgram .. => .endProgram
  | .openElement .. => .openElement
  | .closeElement .. => .closeElement
  | .text .. => .text
  | .mustache .. => .mustache
  | .block .. => .block
  | .component .. => .component

def node : Action → Node
  | .startProgram node _ | .endProgram node | .openElement node _ _ _ | .closeElement node _ _
  | .text node _ _ | .mustache node _ | .block node _ | .component node _ => node

inductive Argument where
  | none
  | int (n : Int)
  | bool (b : Bool)
deriving DecidableEq

def Argument.ofOption : Option Int → Argument
  | .none => .none
  | .some n => .int n

def placeArguments (place : Place) : List Argument :=
  [.ofOption place.index, .ofOption place.count]

def arguments : Action → List Argument
  | .startProgram _ templates => [.int templates]
  | .endProgram _ => []
  | .openElement _ place singleRoot mustaches =>
    placeArguments place ++ [.bool singleRoot, .int mustaches]
  | .closeElement _ place singleRoot | .text _ place singleRoot =>
    placeArguments place ++ [.bool singleRoot]
  | .mustache _ place | .block _ place | .component _ place => placeArguments place

end Action
end TemplateActions
