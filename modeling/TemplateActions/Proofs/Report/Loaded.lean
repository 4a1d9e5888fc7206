import TemplateActions.Proofs.Document.Census
import TemplateActions.Proofs.Document.Loading
import TemplateActions.Proofs.Node.Identity
import TemplateActions.Proofs.Report.Entries
import TemplateActions.Proofs.Visitor.Places

/-!
Reports on the trees of documents. A tree that is loaded from a document is compiled, and there is a
report on it. The census of the document says how many entries the report has.
-/
namespace TemplateActions

namespace Document

variable {data : Value} {root : Node}

theorem ids_of_tree_nodup (loaded : tree data = .ok root) : (root.preorder.map Node.id).Nodup := by
  obtain ⟨n, -, -, rfl⟩ := tree_eq_ok_iff.mp loaded
  exact Node.ids_numbered_nodup n

theorem compileActions_of_tree (loaded : tree data = .ok root) :
    root.compileActions.1 = .ok (root.reading .ofTree) :=
  (describes_of_tree loaded).wellTyped.compileActions_eq (kind?_of_tree loaded)

theorem report_of_tree (version : String) (loaded : tree data = .ok root) :
    ∃ report, Report.build version root (root.reading .ofTree) = .ok report ∧
      List.Forall₂ (ReportEntry.Represents root) (root.reading .ofTree) report.entries := by
  refine Report.build_eq_ok version (ids_of_tree_nodup loaded) fun action member => ?_
  obtain ⟨path, located⟩ := Node.reading_located member
  exact ⟨path, located.mem_positions⟩

theorem kinds_of_tree (loaded : tree data = .ok root) :
    ((root.reading .ofTree).map Action.kind).Perm (calledKinds data) := by
  have outside : root.segment .ofTree (.inProgram 0) = [] := by
    have kind := kind?_of_tree loaded
    cases root <;> cases kind
    rfl
  have calls : Calls .ofTree data root := (describes_of_tree loaded).calls
  have perm := calls (.inProgram 0)
  rwa [outside, List.append_nil] at perm

theorem length_actionKinds (kinds : List NodeKind) :
    (kinds.flatMap NodeKind.actionKinds).length =
      2 * (kinds.count .program + kinds.count .element) + kinds.count .text +
        kinds.count .mustache + kinds.count .block + kinds.count .component := by
  induction kinds with
  | nil => rfl
  | cons kind rest ih =>
    rw [List.flatMap_cons, List.length_append, ih]
    cases kind <;> simp [NodeKind.actionKinds] <;> omega

theorem count_startProgram_actionKinds (kinds : List NodeKind) :
    (kinds.flatMap NodeKind.actionKinds).count .startProgram = kinds.count .program := by
  induction kinds with
  | nil => rfl
  | cons kind rest ih =>
    rw [List.flatMap_cons, List.count_append, ih]
    cases kind <;> simp [NodeKind.actionKinds, Nat.add_comm]

/-- From a document that is loaded, a report is made without failing, and no node of the tree stands
in two places. The census of the document gives the number of its templates and of its actions. -/
theorem tree_report_census {data : Value} {root : Node} (version : String)
    (loaded : tree data = .ok root) : ((root.positions Path.root).map (·.2.id)).Nodup ∧
      ∃ actions report, root.compileActions.1 = .ok actions ∧
        Report.build version root actions = .ok report ∧
        report.templateCount = (census data).count .program ∧
        report.actionCount = actions.length ∧
        actions.length = 2 * ((census data).count .program + (census data).count .element) +
          (census data).count .text + (census data).count .mustache +
          (census data).count .block + (census data).count .component := by
  have distinct := ids_of_tree_nodup loaded
  rw [Node.preorder, List.map_map] at distinct
  obtain ⟨report, built, represented⟩ := report_of_tree version loaded
  have kinds := kinds_of_tree loaded
  refine ⟨distinct, _, report, compileActions_of_tree loaded, built, ?_, ?_, ?_⟩
  · rw [report.templateCount_eq, Report.kinds_eq represented, kinds.count_eq, calledKinds,
      count_startProgram_actionKinds]
  · exact represented.length_eq.symm
  · rw [← length_actionKinds, ← calledKinds, ← kinds.length_eq, List.length_map]

def sampleDocument : Value :=
  let text := Value.map [(.text "type", .text "text"), (.text "chars", .text "x")]
  let named := Value.map [(.text "value", text), (.text "name", .text "id"),
    (.text "type", .text "attr")]
  let body := Value.map [(.text "type", .text "program"), (.text "statements", .list [text])]
  let block := Value.map [(.text "type", .text "block"), (.text "path", .text "if"),
    (.text "program", body), (.text "inverse", .null)]
  let element := Value.map [(.text "type", .text "element"), (.text "tag", .text "p"),
    (.text "attributes", .list [named]), (.text "children", .list [text, block, text])]
  .map [(.text "type", .text "program"), (.text "statements", .list [text, element])]

def sampleRoot : Node :=
  .program 0 [.text 1 "x",
    .element 2 "p" [.attr 3 "id" (.text 4 "x")]
      [.text 5 "x", .block 6 "if" [] (some (.program 7 [.text 8 "x"])) none, .text 9 "x"] []]

theorem sampleDocument_report :
    tree sampleDocument = .ok sampleRoot ∧
      ((sampleRoot.positions Path.root).map (·.2.id)).Nodup ∧
      ∃ actions report, sampleRoot.compileActions.1 = .ok actions ∧
        Report.build "0.1.0" sampleRoot actions = .ok report ∧ report.templateCount = 2 ∧
        report.actionCount = 11 := by
  have loaded : tree sampleDocument = .ok sampleRoot := by rfl
  obtain ⟨distinct, actions, report, compiled, built, templates, count, length⟩ :=
    tree_report_census "0.1.0" loaded
  refine ⟨loaded, distinct, actions, report, compiled, built, templates.trans ?_,
    count.trans (length.trans ?_)⟩
  · decide +kernel
  · decide +kernel

end Document
end TemplateActions
