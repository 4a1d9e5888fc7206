import TemplateActions.Node.Basic
import TemplateActions.Path
import TemplateActions.Value.Literal

/-!
What can be wrong with a tree document. A defect is reported with the path of the value that has it.
-/
namespace TemplateActions

inductive Shape where
  | text
  | list
  | bool
deriving DecidableEq

def Shape.name : Shape → String
  | .text => "str"
  | .list => "list"
  | .bool => "bool"

inductive Defect where
  | notMapping (found : Value)
  | unknownType (found : Value)
  | unexpectedKeys (keys : List Value)
  | missing
  | wrongShape (wanted : Shape) (found : Value)
  | wrongNode (wanted found : NodeKind)
  | attributeValue (found : NodeKind)
  | rootNode (found : NodeKind)

namespace Defect

def quoted (kind : NodeKind) : String := "'" ++ kind.name ++ "'"

def message : Defect → String
  | .notMapping found => "expected mapping with 'type', got " ++ found.typeName
  | .unknownType found =>
    "unknown node type " ++ String.ofList found.literal ++ " (expected one of: " ++
      String.intercalate ", " (NodeKind.all.map NodeKind.name) ++ ")"
  | .unexpectedKeys keys => "unexpected keys: " ++ String.ofList (Value.list keys).literal
  | .missing => "required field missing"
  | .wrongShape wanted found => "expected " ++ wanted.name ++ ", got " ++ found.typeName
  | .wrongNode wanted found => "expected " ++ quoted wanted ++ " node, got " ++ quoted found
  | .attributeValue found => "attribute value must be 'text' or 'mustache', got " ++ quoted found
  | .rootNode found => "root node must be " ++ quoted .program ++ ", got " ++ quoted found

end Defect

/-- How the loading of a document fails. A defect has a message; the other failures end the run:
keys that cannot be put in order, and integers that are too long to be written. -/
inductive DocumentFailure where
  | defect (path : Path) (defect : Defect)
  | incomparableKeys
  | overlongInteger

end TemplateActions
