import TemplateActions.Value.Basic

/-!
Template trees. Every node carries an identity number: two occurrences with the same number are
one node that stands in two places. A slot may hold any object at all, also a node of a kind the
compiler does not know or a bare value; a tree in which every slot holds what it should is well
typed.
-/
namespace TemplateActions

inductive NodeKind where
  | program
  | element
  | attr
  | block
  | component
  | text
  | mustache
deriving DecidableEq

namespace NodeKind

def all : List NodeKind := [.program, .element, .attr, .block, .component, .text, .mustache]

def name : NodeKind → String
  | .program => "program"
  | .element => "element"
  | .attr => "attr"
  | .block => "block"
  | .component => "component"
  | .text => "text"
  | .mustache => "mustache"

def ofName? (name : String) : Option NodeKind := all.find? (·.name == name)

end NodeKind

/-- A node of another kind: the name of its type, its own label if it has one, and its fields. -/
structure Foreign where
  typeName : String
  label : Option String
  fields : List (String × String)
deriving DecidableEq

inductive Node where
  | program (id : Nat) (statements : List Node)
  | element (id : Nat) (tag : String) (attributes children helpers : List Node)
  | attr (id : Nat) (name : String) (value : Node)
  | block (id : Nat) (path : String) (params : List String) (program inverse : Option Node)
  | component (id : Nat) (tag : String) (attributes : List Node) (program inverse : Option Node)
  | text (id : Nat) (chars : String)
  | mustache (id : Nat) (path : String) (params : List String) (escaped : Bool)
  | foreign (id : Nat) (kind : Foreign)
  | bare (id : Nat) (value : Value)

namespace Node

def id : Node → Nat
  | .program id _ | .element id _ _ _ _ | .attr id _ _ | .block id _ _ _ _ | .component id _ _ _ _
  | .text id _ | .mustache id _ _ _ | .foreign id _ | .bare id _ => id

def kind? : Node → Option NodeKind
  | .program .. => some .program
  | .element .. => some .element
  | .attr .. => some .attr
  | .block .. => some .block
  | .component .. => some .component
  | .text .. => some .text
  | .mustache .. => some .mustache
  | .foreign .. | .bare .. => none

def label? : Node → Option String
  | .foreign _ kind => kind.label
  | node => node.kind?.map NodeKind.name

def typeName : Node → String
  | .program .. => "ProgramNode"
  | .element .. => "ElementNode"
  | .attr .. => "AttrNode"
  | .block .. => "BlockNode"
  | .component .. => "ComponentNode"
  | .text .. => "TextNode"
  | .mustache .. => "MustacheNode"
  | .foreign _ kind => kind.typeName
  | .bare _ value => value.typeName

def isProgram : Node → Bool
  | .program .. => true
  | _ => false

def isMustache : Node → Bool
  | .mustache .. => true
  | _ => false

def isDynamic : Node → Bool
  | .attr _ _ value => value.isMustache
  | _ => false

end Node
end TemplateActions
