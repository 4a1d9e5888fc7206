import TemplateActions.Node.Basic
import TemplateActions.Number.Decimal
import TemplateActions.Text.Indent
import TemplateActions.Text.Quoted

/-!
The outline of a tree, for reading: a line for each node, indented by two spaces per level. The
programs of blocks and components stand below labels; helpers and values of attributes have no
lines.
-/
namespace TemplateActions.Node

def invocation (path : String) (params : List String) : String :=
  String.intercalate " " (path :: params)

def summary : Node → String
  | .text _ chars => "text " ++ Quoted.literal chars
  | .mustache _ path params escaped =>
    if escaped then "mustache \x7b\x7b" ++ invocation path params ++ "\x7d\x7d"
    else "mustache \x7b\x7b\x7b" ++ invocation path params ++ "\x7d\x7d\x7d"
  | .attr _ name value => "attr " ++ name ++ (if value.isMustache then " (dynamic)" else "")
  | .element _ tag _ _ helpers =>
    "element <" ++ tag ++ ">" ++
      (if helpers.isEmpty then "" else " helpers=" ++ Decimal.ofNat helpers.length)
  | .block _ path params _ _ => "block #" ++ invocation path params
  | .component _ tag _ _ _ => "component <" ++ tag ++ ">"
  | .program _ statements => "program (" ++ Decimal.ofNat statements.length ++ " statements)"
  | node => node.typeName

def margin (level : Int) : String := String.ofList (Indent.blanks (2 * level))

mutual

def outline (level : Int) : Node → List String
  | node@(.program _ statements) =>
    (margin level ++ node.summary) :: outlines (level + 1) statements
  | node@(.element _ _ attributes children _) =>
    (margin level ++ node.summary) :: outlines (level + 1) attributes ++
      outlines (level + 1) children
  | node@(.block _ _ _ body inverse) =>
    (margin level ++ node.summary) :: labelled level "program" body ++
      labelled level "inverse" inverse
  | node@(.component _ _ attributes body inverse) =>
    (margin level ++ node.summary) :: outlines (level + 1) attributes ++
      labelled level "program" body ++ labelled level "inverse" inverse
  | node => [margin level ++ node.summary]

def outlines (level : Int) : List Node → List String
  | [] => []
  | node :: rest => outline level node ++ outlines level rest

def labelled (level : Int) (label : String) : Option Node → List String
  | none => []
  | some node => (margin level ++ "  " ++ label ++ ":") :: outline (level + 2) node

end

def outlineText (level : Int) (node : Node) : String := String.intercalate "\n" (node.outline level)

def writeOutline (level : Int) (node : Node) : Except IndentFault String :=
  match Indent.fault? 2 level with
  | none => .ok (node.outlineText level)
  | some fault => .error fault

end TemplateActions.Node
