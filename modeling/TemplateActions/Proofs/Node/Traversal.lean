import TemplateActions.Proofs.Node.Slots
import TemplateActions.Proofs.Path.Notation

/-!
The traversal of a tree: its nodes in source order with the texts of their paths. The text of a
path is an address: it belongs to one node only, and the addresses of the tree that stands there
are those that go on behind it with a point.
-/
namespace TemplateActions

namespace Path

/-- Holds if a text is that of a path, or goes on behind it with a point. -/
def Extends (text path : String) : Prop := text = path ∨ path.toList ++ ['.'] <+: text.toList

instance (text path : String) : Decidable (Extends text path) := inferInstanceAs (Decidable (_ ∨ _))

theorem extends_iff {text path : String} :
    Extends text path ↔ ∃ rest, Step.Starts rest ∧ text.toList = path.toList ++ rest := by
  constructor
  · rintro (rfl | ⟨rest, same⟩)
    · exact ⟨[], Step.starts_nil, (List.append_nil _).symm⟩
    · rw [List.append_assoc] at same
      exact ⟨'.' :: rest, fun c first => (Option.some.inj first).symm, same.symm⟩
  · rintro ⟨rest, starts, same⟩
    cases rest with
    | nil => exact .inl (String.toList_injective (by rw [same, List.append_nil]))
    | cons c rest =>
      obtain rfl := starts c rfl
      exact .inr ⟨rest, by rw [same, List.append_assoc, List.singleton_append]⟩

theorem extends_text_iff {path top : Path} (start : path.start = top.start) :
    Extends path.text top.text ↔ path.Within top := by
  rw [extends_iff]
  constructor
  · rintro ⟨rest, starts, same⟩
    rw [toList_text, toList_text, start, List.append_assoc] at same
    exact ⟨start, Step.prefix_of_chars starts (List.append_cancel_left same)⟩
  · rintro ⟨-, more, steps⟩
    refine ⟨Step.chars more, Step.starts_chars more, ?_⟩
    rw [toList_text, toList_text, start, ← steps, Step.chars_append, List.append_assoc]

example : Extends "$.statements[1].children[0]" "$.statements[1]" ∧
    ¬ Extends "$.statements[12]" "$.statements[1]" := by decide

end Path

namespace Node

theorem positions_eq_map (start first : String) (steps : List Step) (node : Node) :
    node.positions ⟨start, steps⟩ =
      (node.positions ⟨first, []⟩).map fun p => (⟨start, steps ++ p.1.steps⟩, p.2) := by
  suffices shift : ∀ more, node.positions ⟨start, steps ++ more⟩ =
      (node.positions ⟨first, more⟩).map fun p => (⟨start, steps ++ p.1.steps⟩, p.2) by
    simpa using shift []
  induction node using slot_induction with
  | step node ih =>
    intro more
    rw [positions_eq, positions_eq, List.map_cons, positionsBelow, positionsBelow, List.map_flatMap]
    congr 1
    refine List.flatMap_congr fun s hs => ?_
    rw [Path.step, Path.step, List.append_assoc]
    exact ih s hs _

theorem map_text_positions (path : Path) (node : Node) :
    (node.positions path).map (fun p => (p.1.text, p.2)) =
      (node.traversal "").map fun p => (path.text ++ p.1, p.2) := by
  rw [positions_eq_map path.start "" path.steps node, traversal, List.map_map, List.map_map]
  refine List.map_congr_left fun p here => ?_
  have start : p.1.start = "" := (positions_within here).1
  refine Prod.ext (String.toList_injective ?_) rfl
  simp [Path.toList_text, Step.chars_append, start]

theorem traversal_eq_map (start : String) (node : Node) :
    node.traversal start = (node.traversal "").map fun p => (start ++ p.1, p.2) := by
  rw [traversal, map_text_positions]
  simp [Path.text]

theorem traversal_text (path : Path) (node : Node) :
    node.traversal path.text = (node.positions path).map fun p => (p.1.text, p.2) := by
  rw [traversal_eq_map, map_text_positions]

theorem head?_traversal (start : String) (node : Node) :
    (node.traversal start).head? = some (start, node) := by
  rw [traversal, positions_eq]
  simp [Path.text]

variable {root : Node}

theorem text_inj_of_positions {top : Path} {e e' : Path × Node} (here : e ∈ root.positions top)
    (here' : e' ∈ root.positions top) : e.1.text = e'.1.text ↔ e.1 = e'.1 :=
  Path.text_inj ((positions_within here).1.trans (positions_within here').1.symm)

theorem position_eq_of_path {top : Path} {e e' : Path × Node} (here : e ∈ root.positions top)
    (here' : e' ∈ root.positions top) (same : e.1 = e'.1) : e = e' :=
  List.inj_on_of_nodup_map (root.positions_nodup top) here here' same

theorem traversal_nodup (start : String) (root : Node) :
    ((root.traversal start).map (·.1)).Nodup := by
  rw [traversal, List.map_map, List.nodup_map_iff_inj_on (root.positions_nodup _).of_map]
  intro e here e' here' same
  exact position_eq_of_path here here' ((text_inj_of_positions here here').mp same)

variable {start : String} {p : String × Node}

/-- The tree at a position, traversed from there, is one run of the traversal, with nothing around
it whose address goes on behind that of the position. -/
theorem traversal_run (here : p ∈ root.traversal start) :
    ∃ before after, root.traversal start = before ++ p.2.traversal p.1 ++ after ∧
      (∀ q ∈ p.2.traversal p.1, Path.Extends q.1 p.1) ∧
      ∀ q ∈ before ++ after, ¬ Path.Extends q.1 p.1 := by
  obtain ⟨⟨path, node⟩, position, rfl⟩ := List.mem_map.mp here
  obtain ⟨before, after, run, outside⟩ := positions_run position
  have below_iff {e : Path × Node} (there : e ∈ root.positions ⟨start, []⟩) :
      Path.Extends e.1.text path.text ↔ e.1.Within path :=
    Path.extends_text_iff ((positions_within there).1.trans (positions_within position).1.symm)
  have around {e : Path × Node} (there : e ∈ before ++ after) : e ∈ root.positions ⟨start, []⟩ := by
    rw [run]
    simp only [List.mem_append] at there ⊢
    tauto
  refine ⟨before.map fun e => (e.1.text, e.2), after.map fun e => (e.1.text, e.2), ?_, ?_, ?_⟩
  · rw [traversal, run, List.map_append, List.map_append, traversal_text]
  · rw [traversal_text, List.forall_mem_map]
    exact fun e below => (Path.extends_text_iff (positions_within below).1).mpr
      (positions_within below)
  · rw [← List.map_append, List.forall_mem_map]
    exact fun e there => mt (below_iff (around there)).mp (outside e there)

theorem filter_traversal (here : p ∈ root.traversal start) :
    (root.traversal start).filter (fun q => Path.Extends q.1 p.1) = p.2.traversal p.1 := by
  obtain ⟨before, after, run, inside, outside⟩ := traversal_run here
  rw [List.forall_mem_append] at outside
  rw [run, List.filter_append, List.filter_append, List.filter_eq_nil_iff.mpr,
    List.filter_eq_self.mpr,
    List.filter_eq_nil_iff.mpr, List.nil_append, List.append_nil]
  · simpa using outside.2
  · simpa using inside
  · simpa using outside.1

/-- In every tree, also one that holds what it should not, the addresses are pairwise different. A
node traversed from its address gives a run of the whole traversal that begins there and consists
of all that has this address or one that goes on behind it with a point. The start stands in front
of all addresses and decides nothing else. -/
theorem traversal_addresses (root : Node) :
    (∀ start, ((root.traversal start).map (·.1)).Nodup) ∧
      (∀ start, ∀ p ∈ root.traversal start,
        (∃ before after, root.traversal start = before ++ p.2.traversal p.1 ++ after) ∧
          (p.2.traversal p.1).head? = some p ∧
          (root.traversal start).filter (fun q => Path.Extends q.1 p.1) = p.2.traversal p.1) ∧
      ∃ tails : List (String × Node), ∀ start,
        root.traversal start = tails.map fun t => (start ++ t.1, t.2) := by
  refine ⟨fun start => root.traversal_nodup start, fun start p here => ?_, root.traversal "", ?_⟩
  · obtain ⟨before, after, run, -⟩ := traversal_run here
    exact ⟨⟨before, after, run⟩, head?_traversal p.1 p.2, filter_traversal here⟩
  · exact fun start => root.traversal_eq_map start

def strayElement : Node :=
  .element 3 "p" [.text 4 ""] [.text 4 ""] [.foreign 5 ⟨"CommentNode", none, []⟩]

def strayTree : Node := .program 0 [.attr 1 "id" (.bare 2 .null), strayElement]

theorem strayTree_addresses :
    ("t.statements[1]", strayElement) ∈ strayTree.traversal "t" ∧
      (strayTree.traversal "t").filter (fun q => Path.Extends q.1 "t.statements[1]") =
        strayElement.traversal "t.statements[1]" ∧
      (strayElement.traversal "t.statements[1]").map (·.1) =
        ["t.statements[1]", "t.statements[1].attributes[0]", "t.statements[1].helpers[0]",
          "t.statements[1].children[0]"] := by
  have here : ("t.statements[1]", strayElement) ∈ strayTree.traversal "t" :=
    List.mem_of_getElem? (i := 3) rfl
  exact ⟨here, ((traversal_addresses strayTree).2.1 "t" _ here).2.2, by decide⟩

end Node
end TemplateActions
