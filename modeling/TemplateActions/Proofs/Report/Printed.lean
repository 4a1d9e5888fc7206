import TemplateActions.Proofs.Json.Grammar
import TemplateActions.Proofs.Report.Sharing

/-!
What reports print. The kinds, the texts of the paths and the arguments of all entries can be told
from the value that is printed. All paths of a report on a tree have the same start, so such a
report is told from its value as a whole.
-/
namespace TemplateActions

theorem ActionKind.name_injective : Function.Injective ActionKind.name := by
  intro kind kind' same
  cases kind <;> cases kind' <;> simp_all [name]

namespace Report

/-- What a report says: the version, and each entry in order. -/
def contents (report : Report) : String × List (ActionKind × String × List Action.Argument) :=
  (report.version, report.entries.map fun entry => (entry.kind, entry.path.text, entry.arguments))

theorem isExact_toJson (report : Report) : Json.IsExact report.toJson := by
  have isArgument (argument : Action.Argument) : Json.IsExact (argumentJson argument) := by
    cases argument <;> trivial
  have isEntry (entry : ReportEntry) : Json.IsExact (entryJson entry) := by
    refine ⟨trivial, trivial, Json.areExact_iff.mpr ?_, trivial⟩
    exact List.forall_mem_map.mpr fun argument _ => isArgument argument
  refine ⟨trivial, trivial, trivial, Json.areExact_iff.mpr ?_, trivial⟩
  exact List.forall_mem_map.mpr fun entry _ => isEntry entry

theorem argumentJson_injective : Function.Injective argumentJson := by
  intro argument argument' same
  cases argument <;> cases argument' <;> simp_all [argumentJson]

theorem entryJson_inj {entry entry' : ReportEntry} :
    entryJson entry = entryJson entry' ↔
      (entry.kind, entry.path.text, entry.arguments) =
        (entry'.kind, entry'.path.text, entry'.arguments) := by
  simp [entryJson, ActionKind.name_injective.eq_iff,
    (List.map_injective_iff.mpr argumentJson_injective).eq_iff]

variable {report report' : Report}

theorem contents_eq_of_toJson (same : report.toJson = report'.toJson) :
    report.contents = report'.contents := by
  simp only [toJson, Json.object.injEq, List.cons.injEq, Prod.mk.injEq, Json.array.injEq,
    Json.text.injEq] at same
  obtain ⟨⟨-, version⟩, -, -, ⟨-, entries⟩, -⟩ := same
  rw [← List.forall₂_eq_eq_eq, List.forall₂_map_left_iff, List.forall₂_map_right_iff] at entries
  refine Prod.ext version ?_
  rw [contents, contents, ← List.forall₂_eq_eq_eq, List.forall₂_map_left_iff,
    List.forall₂_map_right_iff]
  exact entries.imp fun _ _ => entryJson_inj.mp

theorem start_of_build {version : String} {root : Node} {actions : List Action}
    (built : Report.build version root actions = .ok report) :
    ∀ entry ∈ report.entries, entry.path.start = "$" := by
  have single : ¬ root.Shares := by
    intro shares
    obtain ⟨first, again, repeats⟩ := Node.exists_repeats shares
    nomatch built.symm.trans (build_of_repeats version repeats actions)
  have inside : ∀ a ∈ actions, root.Holds a.node := by
    by_contra outside
    obtain ⟨before, a, after, rfl, inside, isOutside⟩ :=
      Node.exists_first_outside (by simpa using outside)
    nomatch built.symm.trans (build_of_outside version single inside isOutside)
  obtain ⟨report', built', shows⟩ := build_of_holds version single inside
  obtain rfl : report = report' := Except.ok.inj (built.symm.trans built')
  intro entry member
  obtain ⟨action, -, shown⟩ := exists_action shows member
  obtain ⟨e, here, isPath, -⟩ := shown.path
  rw [← isPath]
  exact (Node.positions_within here).1

theorem eq_of_contents {version version' : String} {root root' : Node}
    {actions actions' : List Action}
    (built : Report.build version root actions = .ok report)
    (built' : Report.build version' root' actions' = .ok report')
    (same : report.contents = report'.contents) : report = report' := by
  have start := start_of_build built
  have start' := start_of_build built'
  obtain ⟨shown, entries⟩ := report
  obtain ⟨shown', entries'⟩ := report'
  clear built built'
  rw [contents, contents, Prod.mk.injEq] at same
  obtain ⟨rfl, same⟩ := same
  rw [← List.forall₂_eq_eq_eq, List.forall₂_map_left_iff, List.forall₂_map_right_iff] at same
  refine congrArg (Report.mk shown) ?_
  dsimp only at same start start'
  induction same with
  | nil => rfl
  | cons here _ ih =>
    obtain ⟨first, others⟩ := List.forall_mem_cons.mp start
    obtain ⟨first', others'⟩ := List.forall_mem_cons.mp start'
    simp only [Prod.mk.injEq, Path.text_inj (first.trans first'.symm)] at here
    exact congrArg₂ List.cons ((ReportEntry.mk.injEq ..).mpr here) (ih others others')

end Report
end TemplateActions
