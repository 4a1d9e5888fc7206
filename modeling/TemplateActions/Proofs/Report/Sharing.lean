import Mathlib.Data.List.Induction
import TemplateActions.Proofs.Node.Traversal
import TemplateActions.Proofs.Report.Entries

/-!
When there is a report. Nodes are looked up by identity, so a tree in which one object stands at
two positions has none, and neither have actions of objects outside of the tree. The index is
filled in source order; it fails at the first position whose object has been met before. In every
other case an object has one path, and no other object has a path with the same text.
-/
namespace TemplateActions

/-- A list in which a key occurs twice has a first item whose key has occurred before. -/
theorem exists_first_repetition {α : Type} (key : α → Nat) {xs : List α}
    (repeated : ¬ (xs.map key).Nodup) :
    ∃ before first between again after, xs = before ++ first :: between ++ again :: after ∧
      key first = key again ∧ ((before ++ first :: between).map key).Nodup := by
  induction xs using List.reverseRecOn with
  | nil => exact absurd List.nodup_nil repeated
  | append_singleton xs last ih =>
    by_cases distinct : (xs.map key).Nodup
    · have seen : key last ∈ xs.map key := by
        by_contra fresh
        refine repeated ?_
        rw [List.map_append, List.map_singleton, ← List.concat_eq_append]
        exact distinct.concat fresh
      obtain ⟨first, member, same⟩ := List.mem_map.mp seen
      obtain ⟨before, between, rfl⟩ := List.append_of_mem member
      exact ⟨before, first, between, last, [], rfl, same, distinct⟩
    · obtain ⟨before, first, between, again, after, rfl, same, nodup⟩ := ih distinct
      exact ⟨before, first, between, again, after ++ [last], by simp, same, nodup⟩

namespace Node

/-- Holds if an object stands at a path of the tree. Equal objects are told apart. -/
def StandsAt (root : Node) (path : Path) (node : Node) : Prop :=
  ∃ e ∈ root.positions Path.root, e.1 = path ∧ e.2.id = node.id

def Holds (root node : Node) : Prop := ∃ path, root.StandsAt path node

/-- Holds if one object stands at two positions. -/
def Shares (root : Node) : Prop :=
  ∃ e ∈ root.positions Path.root, ∃ e' ∈ root.positions Path.root, e.1 ≠ e'.1 ∧ e.2.id = e'.2.id

/-- Holds if `again` is the earliest position whose object stands at a position before, and
`first` is that position. -/
def Repeats (root : Node) (first again : Path) : Prop :=
  ∃ before between after, ∃ node node' : Node,
    root.positions Path.root = before ++ (first, node) :: between ++ (again, node') :: after ∧
      node.id = node'.id ∧ ((before ++ (first, node) :: between).map (·.2.id)).Nodup

variable {root : Node}

theorem not_shares_iff : ¬ root.Shares ↔ ((root.positions Path.root).map (·.2.id)).Nodup := by
  rw [List.nodup_map_iff_inj_on (root.positions_nodup Path.root).of_map]
  simp only [Shares, not_exists, not_and]
  constructor
  · intro apart e here e' here' same
    by_contra different
    exact apart e here e' here' (fun path => different (position_eq_of_path here here' path)) same
  · intro single e here e' here' different same
    exact different (congrArg Prod.fst (single e here e' here' same))

theorem holds_iff {node : Node} :
    root.Holds node ↔ node.id ∈ (root.positions Path.root).map (·.2.id) := by
  rw [List.mem_map]
  constructor
  · rintro ⟨path, e, here, -, same⟩
    exact ⟨e, here, same⟩
  · rintro ⟨e, here, same⟩
    exact ⟨e.1, e, here, rfl, same⟩

theorem exists_repeats (shares : root.Shares) : ∃ first again, root.Repeats first again := by
  have repeated := mt not_shares_iff.mpr (not_not.mpr shares)
  obtain ⟨before, first, between, again, after, split, same, distinct⟩ :=
    exists_first_repetition (fun e : Path × Node => e.2.id) repeated
  exact ⟨first.1, again.1, before, between, after, first.2, again.2, split, same, distinct⟩

theorem Repeats.shares {first again : Path} (h : root.Repeats first again) : root.Shares := by
  obtain ⟨before, between, after, node, node', split, same, -⟩ := h
  by_contra single
  have distinct := not_shares_iff.mp single
  rw [split, List.map_append, List.map_cons, List.nodup_middle, List.nodup_cons] at distinct
  exact distinct.1 (List.mem_append_left _ (by simp [same]))

theorem exists_first_outside {actions : List Action} (some : ∃ a ∈ actions, ¬ root.Holds a.node) :
    ∃ before a after, actions = before ++ a :: after ∧ (∀ b ∈ before, root.Holds b.node) ∧
      ¬ root.Holds a.node := by
  classical
  have isSome : (actions.find? fun a => ¬ root.Holds a.node).isSome := by
    simpa only [List.find?_isSome, decide_eq_true_eq] using some
  obtain ⟨a, isFirst⟩ := Option.isSome_iff_exists.mp isSome
  obtain ⟨outside, before, after, split, inside⟩ := List.find?_eq_some_iff_append.mp isFirst
  exact ⟨before, a, after, split, by simpa using inside, of_decide_eq_true outside⟩

end Node

namespace Index

theorem add_append (index : Index) (xs ys : List (Path × Node)) :
    index.add (xs ++ ys) =
      match index.add xs with
      | .ok index => index.add ys
      | .error e => .error e := by
  induction xs generalizing index with
  | nil => rfl
  | cons e rest ih =>
    rw [List.cons_append, add, add]
    cases index.path? e.2 with
    | none => exact ih _
    | some first =>
      dsimp only
      split
      · exact ih _
      · rfl

theorem add_repeated {before between after : List (Path × Node)} {first again : Path × Node}
    (same : first.2.id = again.2.id)
    (distinct : ((before ++ first :: between).map (·.2.id)).Nodup)
    (apart : first.1.text ≠ again.1.text) :
    add [] (before ++ first :: between ++ again :: after) = .error (.shared first.1 again.1) := by
  have found := path?_ofPositions distinct (by simp) same
  rw [add_append, add_eq_ok (by simpa using distinct), List.nil_append]
  dsimp only
  rw [add, found]
  exact if_neg apart

theorem ofTree_of_repeats {root : Node} {first again : Path} (h : root.Repeats first again) :
    ofTree root = .error (.shared first again) := by
  obtain ⟨before, between, after, node, node', split, same, distinct⟩ := h
  rw [ofTree, split]
  refine add_repeated same distinct fun text => ?_
  have here : (first, node) ∈ root.positions Path.root := by simp [split]
  have here' : (again, node') ∈ root.positions Path.root := by simp [split]
  obtain rfl : first = again := (Node.text_inj_of_positions here here').mp text
  have nodup := root.positions_nodup Path.root
  rw [split, List.map_append, List.map_cons, List.nodup_middle, List.nodup_cons] at nodup
  exact nodup.1 (List.mem_append_left _ (by simp))

theorem path?_ofPositions_iff {root : Node} (single : ¬ root.Shares) {node : Node} {path : Path} :
    (ofPositions (root.positions Path.root)).path? node = some path ↔ root.StandsAt path node := by
  have distinct := Node.not_shares_iff.mp single
  constructor
  · intro found
    have inside : node.id ∈ (ofPositions (root.positions Path.root)).map (·.1) := by
      by_contra outside
      rw [path?_eq_none_iff.mpr outside] at found
      cases found
    rw [map_ofPositions] at inside
    obtain ⟨e, here, same⟩ := List.mem_map.mp inside
    exact ⟨e, here, Option.some.inj ((path?_ofPositions distinct here same).symm.trans found), same⟩
  · rintro ⟨e, here, rfl, same⟩
    exact path?_ofPositions distinct here same

theorem path?_ofPositions_eq_none_iff {root node : Node} :
    (ofPositions (root.positions Path.root)).path? node = none ↔ ¬ root.Holds node := by
  rw [path?_eq_none_iff, map_ofPositions, Node.holds_iff]

theorem entries_outside {index : Index} {before after : List Action} {action : Action}
    (inside : ∀ b ∈ before, index.path? b.node ≠ none) (outside : index.path? action.node = none) :
    index.entries (before ++ action :: after) = .error (.outside action.kind) := by
  induction before with
  | nil => rw [List.nil_append, entries, outside]
  | cons b rest ih =>
    rw [List.forall_mem_cons] at inside
    obtain ⟨path, found⟩ := Option.ne_none_iff_exists'.mp inside.1
    rw [List.cons_append, entries, found]
    dsimp only
    rw [ih inside.2]

end Index

/-- Holds if an entry shows an action of a tree: its kind, its arguments, and the path of its
object, which is the path of no other one. -/
structure ReportEntry.Shows (root : Node) (action : Action) (entry : ReportEntry) : Prop where
  kind : entry.kind = action.kind
  path : root.StandsAt entry.path action.node
  single : ∀ e ∈ root.positions Path.root,
    e.2.id = action.node.id ↔ e.1.text = entry.path.text
  arguments : entry.arguments = action.arguments

theorem ReportEntry.shows_of_standsAt {root : Node} (single : ¬ root.Shares) {action : Action}
    {path : Path} (h : root.StandsAt path action.node) :
    ReportEntry.Shows root action ⟨action.kind, path, action.arguments⟩ := by
  refine ⟨rfl, h, fun e here => ?_, rfl⟩
  obtain ⟨e', here', rfl, same⟩ := h
  rw [Node.text_inj_of_positions here here', ← same]
  constructor
  · intro objects
    exact by_contra fun different => single ⟨e, here, e', here', different, objects⟩
  · intro paths
    rw [Node.position_eq_of_path here here' paths]

namespace Report

variable {root : Node} {actions : List Action}

theorem build_of_repeats (version : String) {first again : Path} (h : root.Repeats first again)
    (actions : List Action) : Report.build version root actions = .error (.shared first again) := by
  rw [Report.build, Index.ofTree_of_repeats h]

theorem build_of_outside (version : String) (single : ¬ root.Shares) {before after : List Action}
    {action : Action}
    (inside : ∀ b ∈ before, root.Holds b.node) (outside : ¬ root.Holds action.node) :
    Report.build version root (before ++ action :: after) = .error (.outside action.kind) := by
  have notFound := Index.path?_ofPositions_eq_none_iff.mpr outside
  have found : ∀ b ∈ before, (Index.ofPositions (root.positions Path.root)).path? b.node ≠ none :=
    fun b member missing => Index.path?_ofPositions_eq_none_iff.mp missing (inside b member)
  rw [Report.build, Index.ofTree_eq_ok (Node.not_shares_iff.mp single)]
  dsimp only
  rw [Index.entries_outside found notFound]
  rfl

theorem build_of_holds (version : String) (single : ¬ root.Shares)
    (inside : ∀ a ∈ actions, root.Holds a.node) :
    ∃ report, Report.build version root actions = .ok report ∧
      List.Forall₂ (ReportEntry.Shows root) actions report.entries := by
  refine build_forall₂ version (Node.not_shares_iff.mp single) fun a member => ?_
  obtain ⟨path, stands⟩ := inside a member
  exact ⟨path, (Index.path?_ofPositions_iff single).mpr stands,
    ReportEntry.shows_of_standsAt single stands⟩

theorem counts_of_shows {report : Report}
    (h : List.Forall₂ (ReportEntry.Shows root) actions report.entries) :
    report.actionCount = actions.length ∧
      report.templateCount = actions.countP (·.kind == .startProgram) := by
  rw [actionCount, templateCount]
  generalize report.entries = entries at h
  refine ⟨h.length_eq.symm, ?_⟩
  induction h with
  | nil => rfl
  | cons here _ ih => rw [List.countP_cons, List.countP_cons, here.kind, ih]

/-- A report fails exactly if an object stands at two positions of the tree, or an action belongs to
an object outside of it. The first failure goes before the second: it names the earliest repetition
and the first path of the repeated object; the second one names the kind of the first such action.
Without a failure there is an entry for each action, in order. -/
theorem build_decided (version : String) (root : Node) (actions : List Action) :
    ((∃ e, Report.build version root actions = .error e) ↔
        root.Shares ∨ ∃ a ∈ actions, ¬ root.Holds a.node) ∧
      (∀ e, Report.build version root actions = .error e ↔
        (∃ first again, root.Repeats first again ∧ e = .shared first again) ∨
          ¬ root.Shares ∧ ∃ before a after, actions = before ++ a :: after ∧
            (∀ b ∈ before, root.Holds b.node) ∧ ¬ root.Holds a.node ∧ e = .outside a.kind) ∧
      (¬ root.Shares → (∀ a ∈ actions, root.Holds a.node) →
        ∃ report, Report.build version root actions = .ok report ∧
          List.Forall₂ (ReportEntry.Shows root) actions report.entries ∧
          report.actionCount = actions.length ∧
          report.templateCount = actions.countP (·.kind == .startProgram)) := by
  by_cases shares : root.Shares
  · obtain ⟨first, again, repeats⟩ := Node.exists_repeats shares
    have failed := build_of_repeats version repeats actions
    refine ⟨iff_of_true ⟨_, failed⟩ (.inl shares), fun e => ⟨fun isError => ?_, ?_⟩, absurd shares⟩
    · exact .inl ⟨first, again, repeats, Except.error.inj (isError.symm.trans failed)⟩
    · rintro (⟨first', again', repeats', rfl⟩ | ⟨single, -⟩)
      · exact build_of_repeats version repeats' actions
      · exact absurd shares single
  by_cases outside : ∃ a ∈ actions, ¬ root.Holds a.node
  · obtain ⟨before, a, after, rfl, inside, isOutside⟩ := Node.exists_first_outside outside
    have failed : Report.build version root (before ++ a :: after) = .error (.outside a.kind) :=
      build_of_outside version shares inside isOutside
    refine ⟨iff_of_true ⟨_, failed⟩ (.inr outside), fun e => ⟨fun isError => ?_, ?_⟩,
      fun _ all => ?_⟩
    · have isOutsideError := Except.error.inj (isError.symm.trans failed)
      exact .inr ⟨shares, before, a, after, rfl, inside, isOutside, isOutsideError⟩
    · rintro (⟨first, again, repeats, -⟩ | ⟨-, before', a', after', split, inside', outside', rfl⟩)
      · exact absurd repeats.shares shares
      · rw [split]
        exact build_of_outside version shares inside' outside'
    · exact absurd (all a (by simp)) isOutside
  · have inside : ∀ a ∈ actions, root.Holds a.node := by simpa using outside
    obtain ⟨report, built, shows⟩ := build_of_holds version shares inside
    have noError (e : ReportError) : ¬ Report.build version root actions = .error e := by
      rw [built]
      exact nofun
    refine ⟨iff_of_false (fun ⟨e, failed⟩ => noError e failed) (not_or_intro shares outside),
      fun e => iff_of_false (noError e) ?_, fun _ _ =>
        ⟨report, built, shows, counts_of_shows shows⟩⟩
    rintro (⟨first, again, repeats, -⟩ | ⟨-, before, a, after, rfl, -, isOutside, -⟩)
    · exact shares repeats.shares
    · exact isOutside (inside a (by simp))

example :
    Report.build "1.0" (.program 0 [.element 1 "a" [] [.text 2 "x"] [], .text 2 "x"]) [] =
        .error (.shared ⟨"$", [.item .statements 0, .item .children 0]⟩
          ⟨"$", [.item .statements 1]⟩) ∧
      Report.build "1.0" (.program 0 [.text 1 "x", .text 2 "x"])
        [.text (.text 2 "x") ⟨some 1, some 2⟩ false] =
        .ok ⟨"1.0", [⟨.text, ⟨"$", [.item .statements 1]⟩, [.int 1, .int 2, .bool false]⟩]⟩ := by
  decide +kernel

end Report
end TemplateActions
