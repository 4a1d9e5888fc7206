import TemplateActions.Proofs.Node.Slots
import TemplateActions.Report

/-!
The entries of reports. If no node of a tree stands in two places, and all actions belong to nodes
of the tree, there is a report: one entry for each action, in order, with the path of its node.
-/
namespace TemplateActions

namespace Index

theorem path?_eq_none_iff {index : Index} {node : Node} :
    index.path? node = none ↔ node.id ∉ index.map (·.1) := by
  rw [path?, List.lookup_eq_none_iff]
  simp only [bne_iff_ne, ne_eq, List.mem_map, not_exists, not_and]
  exact forall₂_congr fun _ _ => not_congr eq_comm

theorem path?_of_mem {index : Index} {path : Path} {node : Node}
    (distinct : (index.map (·.1)).Nodup)
    (member : (node.id, path) ∈ index) : index.path? node = some path := by
  induction index with
  | nil => cases member
  | cons entry rest ih =>
    rw [List.map_cons, List.nodup_cons] at distinct
    rw [path?, List.lookup_cons]
    rcases List.mem_cons.mp member with rfl | later
    · simp
    · have other : (node.id == entry.1) = false := by
        refine beq_eq_false_iff_ne.mpr fun same => distinct.1 ?_
        exact List.mem_map.mpr ⟨_, later, same⟩
      rw [other]
      exact ih distinct.2 later

def ofPositions (positions : List (Path × Node)) : Index := positions.map fun e => (e.2.id, e.1)

theorem map_ofPositions (positions : List (Path × Node)) :
    (ofPositions positions).map (·.1) = positions.map (·.2.id) := List.map_map

theorem add_eq_ok {index : Index} {positions : List (Path × Node)}
    (distinct : (index.map (·.1) ++ positions.map (·.2.id)).Nodup) :
    index.add positions = .ok (index ++ ofPositions positions) := by
  induction positions generalizing index with
  | nil => rw [add, ofPositions, List.map_nil, List.append_nil]
  | cons e rest ih =>
    rw [List.map_cons, List.nodup_middle, List.nodup_cons] at distinct
    have fresh : index.path? e.2 = none :=
      path?_eq_none_iff.mpr fun seen => distinct.1 (List.mem_append_left _ seen)
    rw [add, fresh]
    dsimp only
    rw [ih, List.append_assoc, List.singleton_append]
    · rfl
    rw [List.map_append, List.map_singleton, List.append_assoc, List.singleton_append,
      List.nodup_middle, List.nodup_cons]
    exact distinct

theorem path?_ofPositions {positions : List (Path × Node)}
    (distinct : (positions.map (·.2.id)).Nodup)
    {e : Path × Node} {node : Node} (here : e ∈ positions) (same : e.2.id = node.id) :
    (ofPositions positions).path? node = some e.1 := by
  refine path?_of_mem (by rwa [map_ofPositions]) ?_
  exact List.mem_map.mpr ⟨e, here, by rw [same]⟩

theorem ofTree_eq_ok {root : Node} (distinct : ((root.positions Path.root).map (·.2.id)).Nodup) :
    ofTree root = .ok (ofPositions (root.positions Path.root)) := by
  rw [ofTree, add_eq_ok (by simpa using distinct), List.nil_append]

theorem entries_forall₂ {index : Index} {R : Action → ReportEntry → Prop} {actions : List Action}
    (each : ∀ a ∈ actions, ∃ path, index.path? a.node = some path ∧
      R a ⟨a.kind, path, a.arguments⟩) :
    ∃ entries, index.entries actions = .ok entries ∧ List.Forall₂ R actions entries := by
  induction actions with
  | nil => exact ⟨[], rfl, .nil⟩
  | cons action rest ih =>
    rw [List.forall_mem_cons] at each
    obtain ⟨path, found, represented⟩ := each.1
    obtain ⟨entries, isRest, later⟩ := ih each.2
    refine ⟨⟨action.kind, path, action.arguments⟩ :: entries, ?_, .cons represented later⟩
    rw [Index.entries, found]
    dsimp only
    rw [isRest]

end Index

/-- Holds if an entry stands for an action of a tree. -/
structure ReportEntry.Represents (root : Node) (action : Action) (entry : ReportEntry) : Prop where
  position : (entry.path, action.node) ∈ root.positions Path.root
  kind : entry.kind = action.kind
  arguments : entry.arguments = action.arguments

namespace Report

theorem build_forall₂ (version : String) {root : Node} {R : Action → ReportEntry → Prop}
    {actions : List Action}
    (distinct : ((root.positions Path.root).map (·.2.id)).Nodup)
    (each : ∀ a ∈ actions, ∃ path,
      (Index.ofPositions (root.positions Path.root)).path? a.node = some path ∧
        R a ⟨a.kind, path, a.arguments⟩) :
    ∃ report, Report.build version root actions = .ok report ∧
      List.Forall₂ R actions report.entries := by
  obtain ⟨entries, isEntries, represented⟩ := Index.entries_forall₂ each
  refine ⟨⟨version, entries⟩, ?_, represented⟩
  rw [Report.build, Index.ofTree_eq_ok distinct]
  dsimp only
  rw [isEntries]
  rfl

theorem build_eq_ok (version : String) {root : Node} {actions : List Action}
    (distinct : (root.preorder.map Node.id).Nodup)
    (inside : ∀ a ∈ actions, ∃ path, (path, a.node) ∈ root.positions Path.root) :
    ∃ report, Report.build version root actions = .ok report ∧
      List.Forall₂ (ReportEntry.Represents root) actions report.entries := by
  rw [Node.preorder, List.map_map] at distinct
  refine build_forall₂ version distinct fun a member => ?_
  obtain ⟨path, here⟩ := inside a member
  exact ⟨path, Index.path?_ofPositions distinct here rfl, here, rfl, rfl⟩

variable {root : Node} {actions : List Action} {report : Report}

theorem kinds_eq (h : List.Forall₂ (ReportEntry.Represents root) actions report.entries) :
    report.entries.map (·.kind) = actions.map Action.kind := by
  generalize report.entries = entries at h
  induction h with
  | nil => rfl
  | cons here _ ih => rw [List.map_cons, List.map_cons, here.kind, ih]

theorem exists_action {R : Action → ReportEntry → Prop} (h : List.Forall₂ R actions report.entries)
    {entry : ReportEntry} (member : entry ∈ report.entries) :
    ∃ action ∈ actions, R action entry := by
  generalize report.entries = entries at h member
  induction h with
  | nil => cases member
  | cons here _ ih =>
    rcases List.mem_cons.mp member with rfl | later
    · exact ⟨_, List.mem_cons_self, here⟩
    · obtain ⟨action, inRest, represents⟩ := ih later
      exact ⟨action, List.mem_cons_of_mem _ inRest, represents⟩

theorem templateCount_eq (report : Report) :
    report.templateCount = (report.entries.map (·.kind)).count .startProgram := by
  rw [templateCount, List.count, List.countP_map]
  rfl

end Report
end TemplateActions
