import TemplateActions.Action
import TemplateActions.Json.Basic
import TemplateActions.Node.Positions

/-!
Reports on compiled trees. An action refers to its node by the path of the node in the tree, so no
node of the tree may stand in two places.
-/
namespace TemplateActions

inductive ReportError where
  | shared (first second : Path)
  | outside (kind : ActionKind)
deriving DecidableEq

def ReportError.message : ReportError → String
  | .shared first second =>
    "Node object is shared between " ++ first.text ++ " and " ++ second.text ++
      "; report trees must not share nodes"
  | .outside kind => "Action '" ++ kind.name ++ "' refers to a node outside of the tree"

structure ReportEntry where
  kind : ActionKind
  path : Path
  arguments : List Action.Argument
deriving DecidableEq

structure Report where
  version : String
  entries : List ReportEntry
deriving DecidableEq

abbrev Index := List (Nat × Path)

namespace Index

def path? (index : Index) (node : Node) : Option Path := List.lookup node.id index

/-- Adds positions in order, up to the first node that has another path already. -/
def add : Index → List (Path × Node) → Except ReportError Index
  | index, [] => .ok index
  | index, (path, node) :: rest =>
    match index.path? node with
    | some first =>
      if first.text = path.text then add index rest else .error (.shared first path)
    | none => add (index ++ [(node.id, path)]) rest

def ofTree (root : Node) : Except ReportError Index := add [] (root.positions Path.root)

def entries (index : Index) : List Action → Except ReportError (List ReportEntry)
  | [] => .ok []
  | action :: rest =>
    match index.path? action.node with
    | none => .error (.outside action.kind)
    | some path =>
      match entries index rest with
      | .ok entries => .ok (⟨action.kind, path, action.arguments⟩ :: entries)
      | .error e => .error e

end Index

namespace Report

def build (version : String) (root : Node) (actions : List Action) : Except ReportError Report :=
  match Index.ofTree root with
  | .error e => .error e
  | .ok index => (index.entries actions).map (Report.mk version)

def templateCount (report : Report) : Nat := report.entries.countP (·.kind == .startProgram)

def actionCount (report : Report) : Nat := report.entries.length

def argumentJson : Action.Argument → Json
  | .none => .null
  | .int n => .int n
  | .bool b => .bool b

def entryJson (entry : ReportEntry) : Json :=
  .object [("kind", .text entry.kind.name), ("node", .text entry.path.text),
    ("args", .array (entry.arguments.map argumentJson))]

def toJson (report : Report) : Json :=
  .object [("tool_version", .text report.version), ("template_count", .int report.templateCount),
    ("action_count", .int report.actionCount), ("actions", .array (report.entries.map entryJson))]

end Report

end TemplateActions
