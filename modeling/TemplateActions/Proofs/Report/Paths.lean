import TemplateActions.Proofs.Document.Addresses
import TemplateActions.Proofs.Report.Loaded

/-!
The paths of reports. The path of an entry, followed through the document of the tree, leads to the
mapping of the node that the entry is about; the place that the entry gives is the place of this
mapping in the document.
-/
namespace TemplateActions

open Document

namespace ActionKind

def isMarker : ActionKind → Bool
  | .startProgram | .endProgram => true
  | _ => false

theorem nodeKind_of_isMarker {kind : ActionKind} (h : kind.isMarker) :
    kind.nodeKind = .program := by
  cases kind with
  | startProgram | endProgram => rfl
  | _ => cases h

def hasSingleRoot : ActionKind → Bool
  | .openElement | .closeElement | .text => true
  | _ => false

end ActionKind

/-- Holds if a value is the item of a list in a mapping of a document, and the arguments of an entry
begin with its index, the length of the list and, where the kind has it, whether the value is the
only statement of a program. -/
structure ReportEntry.PlacedIn (data : Value) (entry : ReportEntry) (outer : Path) (slot : Field)
    (index : Nat) (items : List Value) : Prop where
  isSlot : slot = .statements ∨ slot = .children
  path : entry.path = outer.item slot index
  list : ∃ entries, at? data outer = some (.map entries) ∧ get? slot entries = some (.list items)
  inside : index < items.length
  arguments : ∃ rest, entry.arguments = .int index :: .int items.length :: rest ∧
    (entry.kind.hasSingleRoot → ∃ single rest', rest = .bool single :: rest' ∧
      (single = true ↔ slot = .statements ∧ index = 0 ∧ items.length = 1))

/-- Holds if the path of an entry leads to the mapping of its node in a document, and its place is
the place of this mapping. -/
structure ReportEntry.PointsInto (data : Value) (entry : ReportEntry) : Prop where
  start : entry.path.start = "$"
  node : ∃ entries, at? data entry.path = some (.map entries) ∧
    get? .type entries = some (.text entry.kind.nodeKind.name)
  place : entry.kind.isMarker = false →
    ∃ outer slot index items, entry.PlacedIn data outer slot index items

variable {data : Value} {root node : Node} {action : Action} {entry : ReportEntry} {path : Path}

theorem Node.arguments_ownActions {counts : Counts} {c : Context} {index count : Nat}
    (counted : c.place = ⟨some index, some count⟩) (own : action ∈ node.ownActions counts c) :
    action.kind.isMarker = false ∧ ∃ rest, action.arguments = .int index :: .int count :: rest ∧
      (action.kind.hasSingleRoot → ∃ rest', rest = .bool c.singleRoot :: rest') := by
  cases node with
  | element =>
    rcases List.mem_pair.mp own with rfl | rfl <;>
      exact ⟨rfl, _, by rw [Action.arguments, counted]; rfl, fun _ => ⟨_, rfl⟩⟩
  | text =>
    obtain rfl := List.mem_singleton.mp own
    exact ⟨rfl, _, by rw [Action.arguments, counted]; rfl, fun _ => ⟨_, rfl⟩⟩
  | block | component | mustache =>
    obtain rfl := List.mem_singleton.mp own
    exact ⟨rfl, _, by rw [Action.arguments, counted]; rfl, nofun⟩
  | program | attr | foreign | bare => cases own

theorem Document.Describes.names {value : Value} {kind : NodeKind} (h : Describes value node)
    (isKind : node.kind? = some kind) (isValue : at? data path = some value) :
    ∃ entries, at? data path = some (.map entries) ∧
      get? .type entries = some (.text kind.name) := by
  obtain ⟨entries, rfl, ofKind⟩ := h.ofKind isKind
  exact ⟨entries, isValue, ofKind.type⟩

namespace ReportEntry

theorem pointsInto_of_own {counts : Counts} {c : Context} {outer : Path} {slot : Field}
    {entries : Entries} {items : List Value} {wanted : Option NodeKind} {nodes : List Node}
    {index : Nat} (isSlot : slot = .statements ∨ slot = .children)
    (isOuter : at? data outer = some (.map entries)) (isList : items? slot entries = some items)
    (fits : Matches wanted items nodes) (each : ∀ p ∈ items.zip nodes, Describes p.1 p.2)
    (found : nodes[index]? = some node) (count : c.place.count = some (nodes.length : Int))
    (single : c.singleRoot = true ↔ slot = .statements ∧ nodes.length = 1)
    (own : action ∈ node.ownActions counts (c.atIndex index))
    (path : entry.path = outer.item slot index) (kind : entry.kind = action.kind)
    (arguments : entry.arguments = action.arguments) (start : outer.start = "$") :
    entry.PointsInto data := by
  obtain ⟨value, isValue, paired⟩ := fits.getElem? found
  have inside : index < items.length := (List.getElem?_eq_some_iff.mp isValue).1
  have leads : at? data entry.path = some value := by
    rw [path]
    refine (at?_step data outer _).trans ?_
    rw [isOuter, Option.bind_some, step?_item isList, isValue]
  have counted : (c.atIndex index).place = ⟨some (index : Int), some (items.length : Int)⟩ := by
    rw [fits.length, ← count]
    rfl
  obtain ⟨-, rest, isRest, hasSingle⟩ := Node.arguments_ownActions counted own
  refine ⟨path ▸ start, ?_, fun _ => ⟨outer, slot, index, items, isSlot, path, ?_, inside,
    rest, ?_, ?_⟩⟩
  · rw [kind]
    exact (each _ paired).names (Node.mem_ownActions own).2 leads
  · exact ⟨entries, isOuter, get?_of_items? isList (List.ne_nil_of_length_pos (by omega))⟩
  · exact arguments.trans isRest
  · intro has
    obtain ⟨rest', isSingle⟩ := hasSingle (kind ▸ has)
    refine ⟨_, rest', isSingle, ?_⟩
    rw [← fits.length] at single
    constructor
    · intro isTrue
      obtain ⟨isStatements, one⟩ := single.mp isTrue
      exact ⟨isStatements, by omega, one⟩
    · rintro ⟨isStatements, -, one⟩
      exact single.mpr ⟨isStatements, one⟩

theorem pointsInto_of_marker {value : Value} (marker : entry.kind.isMarker)
    (described : Describes value node) (isKind : node.kind? = some .program)
    (leads : at? data entry.path = some value) (start : entry.path.start = "$") :
    entry.PointsInto data := by
  refine ⟨start, ?_, fun notMarker => ?_⟩
  · rw [ActionKind.nodeKind_of_isMarker marker]
    exact described.names isKind leads
  · rw [marker] at notMarker
    cases notMarker

theorem pointsInto_of_located {counts : Counts} (described : Describes data root)
    (located : action.Located counts (root.positions Path.root) entry.path)
    (kind : entry.kind = action.kind) (arguments : entry.arguments = action.arguments) :
    entry.PointsInto data := by
  have leads {path : Path} {node : Node} {kind : NodeKind}
      (here : (path, node) ∈ root.positions Path.root) (isKind : node.kind? = some kind)
      (notText : kind ≠ .text) : ∃ value, at? data path = some value ∧ Describes value node := by
    refine (described.found rfl here).resolve_right fun isText => notText ?_
    exact Option.some.inj (isKind.symm.trans isText)
  have starts {path : Path} {node : Node} (here : (path, node) ∈ root.positions Path.root) :
      path.start = "$" := (Node.positions_within here).1
  generalize isPath : entry.path = path at located
  cases located with
  | start here isProgram | finish here isProgram =>
    have isKind := Node.kind?_of_isProgram isProgram
    obtain ⟨value, isValue, isDescribed⟩ := leads here isKind (by decide)
    have marker : entry.kind.isMarker := by
      rw [kind]
      rfl
    exact pointsInto_of_marker marker isDescribed isKind (isPath ▸ isValue) (isPath ▸ starts here)
  | statement here found own =>
    obtain ⟨value, isValue, isDescribed⟩ := leads here rfl (by decide)
    cases isDescribed with
    | program _ isStatements fits each =>
      refine pointsInto_of_own (.inl rfl) isValue isStatements fits each found rfl ?_
        own isPath kind
        arguments (starts here)
      simp [Context.inProgram]
  | child here found own =>
    obtain ⟨value, isValue, isDescribed⟩ := leads here rfl (by decide)
    cases isDescribed with
    | element _ _ _ _ _ isChildren fits each =>
      refine pointsInto_of_own (.inr rfl) isValue isChildren fits each found rfl ?_ own isPath kind
        arguments (starts here)
      simp [Context.inElement]

end ReportEntry

namespace Document

/-- Every entry of the report on a document points into the document. -/
theorem tree_report_points {data : Value} {root : Node} (version : String)
    (loaded : tree data = .ok root) : ∃ actions report, root.compileActions.1 = .ok actions ∧
      Report.build version root actions = .ok report ∧ ∀ entry ∈ report.entries,
        entry.PointsInto data := by
  obtain ⟨report, built, represented⟩ := report_of_tree version loaded
  refine ⟨_, report, compileActions_of_tree loaded, built, fun entry member => ?_⟩
  obtain ⟨action, isAction, represents⟩ := Report.exists_action represented member
  obtain ⟨path, located⟩ := Node.reading_located isAction
  have distinct := ids_of_tree_nodup loaded
  rw [Node.preorder, List.map_map] at distinct
  have same := List.inj_on_of_nodup_map distinct represents.position located.mem_positions rfl
  exact ReportEntry.pointsInto_of_located (describes_of_tree loaded)
    ((Prod.mk.inj same).1 ▸ located) represents.kind represents.arguments

theorem sampleDocument_points :
    tree sampleDocument = .ok sampleRoot ∧
      ∃ actions report, sampleRoot.compileActions.1 = .ok actions ∧
        Report.build "0.1.0" sampleRoot actions = .ok report ∧
        (∀ entry ∈ report.entries, entry.PointsInto sampleDocument) ∧
        (report.entries.map fun entry => (entry.kind, entry.path.text)) =
          [(.startProgram, "$.statements[1].children[1].program"),
            (.text, "$.statements[1].children[1].program.statements[0]"),
            (.endProgram, "$.statements[1].children[1].program"),
            (.startProgram, "$"), (.text, "$.statements[0]"), (.openElement, "$.statements[1]"),
            (.text, "$.statements[1].children[0]"), (.block, "$.statements[1].children[1]"),
            (.text, "$.statements[1].children[2]"), (.closeElement, "$.statements[1]"),
            (.endProgram, "$")] := by
  have loaded : tree sampleDocument = .ok sampleRoot := by rfl
  obtain ⟨actions, report, compiled, built, points⟩ := tree_report_points "0.1.0" loaded
  refine ⟨loaded, actions, report, compiled, built, points, ?_⟩
  cases compiled
  cases built
  decide +kernel

end Document
end TemplateActions
