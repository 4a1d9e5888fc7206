import TemplateActions.Node.Basic
import TemplateActions.Value.Literal

/-!
Literals of nodes: the name of the type and all fields in the order of their declaration.
-/
namespace TemplateActions

namespace Literal

def argument (name : String) (value : List Char) : List Char := name.toList ++ '=' :: value

def texts (items : List String) : List Char := bracketed (items.map text)

end Literal

namespace Node

open Literal (call argument bracketed)

mutual

def literal : Node → List Char
  | .program _ statements =>
    call "ProgramNode" [argument "statements" (bracketed (literals statements))]
  | .element _ tag attributes children helpers =>
    call "ElementNode" [argument "tag" (Literal.text tag),
      argument "attributes" (bracketed (literals attributes)),
      argument "children" (bracketed (literals children)),
      argument "helpers" (bracketed (literals helpers))]
  | .attr _ name value =>
    call "AttrNode" [argument "name" (Literal.text name), argument "value" value.literal]
  | .block _ path params body inverse =>
    call "BlockNode" [argument "path" (Literal.text path), argument "params" (Literal.texts params),
      argument "program" (optionLiteral body), argument "inverse" (optionLiteral inverse)]
  | .component _ tag attributes body inverse =>
    call "ComponentNode" [argument "tag" (Literal.text tag),
      argument "attributes" (bracketed (literals attributes)),
      argument "program" (optionLiteral body), argument "inverse" (optionLiteral inverse)]
  | .text _ chars => call "TextNode" [argument "chars" (Literal.text chars)]
  | .mustache _ path params escaped =>
    call "MustacheNode"
      [argument "path" (Literal.text path), argument "params" (Literal.texts params),
      argument "escaped" (Literal.bool escaped)]
  | .foreign _ kind =>
    call kind.typeName (kind.fields.map fun (name, value) => argument name (Literal.text value))
  | .bare _ value => value.literal

def literals : List Node → List (List Char)
  | [] => []
  | node :: rest => node.literal :: literals rest

def optionLiteral : Option Node → List Char
  | none => "None".toList
  | some node => node.literal

end

mutual

def isWritable : Node → Bool
  | .program _ statements => areWritable statements
  | .element _ _ attributes children helpers =>
    areWritable attributes && areWritable children && areWritable helpers
  | .attr _ _ value => value.isWritable
  | .block _ _ _ body inverse => optionIsWritable body && optionIsWritable inverse
  | .component _ _ attributes body inverse =>
    areWritable attributes && optionIsWritable body && optionIsWritable inverse
  | .text .. | .mustache .. | .foreign .. => true
  | .bare _ value => value.isWritable

def areWritable : List Node → Bool
  | [] => true
  | node :: rest => node.isWritable && areWritable rest

def optionIsWritable : Option Node → Bool
  | none => true
  | some node => node.isWritable

end

end Node
end TemplateActions
