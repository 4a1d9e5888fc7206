import Mathlib.Algebra.Ring.Nat
import TemplateActions.Node.Outline
import TemplateActions.Proofs.Document.Loading
import TemplateActions.Proofs.Document.Typing
import TemplateActions.Proofs.Number.Notation
import TemplateActions.Proofs.Text.Quoted

/-!
The lines of an outline. They come from the positions of a tree in order, one for each position
that is shown, and one for the label of each program in a field. A line shows how deep it stands;
but the names of a node are written as they are, and a line feed in one of them breaks its line.
-/
namespace TemplateActions

namespace Outline

/-- A row of an outline: its depth below the root, and what stands in it. -/
abbrev Row := Nat × String

inductive Entry where
  | mk (content : String) (below : List Entry)

namespace Entry

mutual

def rows (depth : Nat) : Entry → List Row
  | .mk content below => (depth, content) :: rowsOf (depth + 1) below

def rowsOf (depth : Nat) : List Entry → List Row
  | [] => []
  | entry :: rest => entry.rows depth ++ rowsOf depth rest

end

theorem rowsOf_eq_flatMap (depth : Nat) (entries : List Entry) :
    rowsOf depth entries = entries.flatMap (rows depth) := by
  induction entries with
  | nil => rfl
  | cons entry rest ih => rw [rowsOf, ih, List.flatMap_cons]

theorem rowsOf_append (depth : Nat) (entries entries' : List Entry) :
    rowsOf depth (entries ++ entries') = rowsOf depth entries ++ rowsOf depth entries' := by
  simp only [rowsOf_eq_flatMap, List.flatMap_append]

end Entry

end Outline

open Outline

namespace Step

/-- Helpers of an element and the value of an attribute are not shown. -/
def isShown (s : Step) : Bool := s.slot != .helpers && s.slot != .value

/-- The levels that a step leads down; a field has a label on the level between. -/
def depth : Step → Nat
  | .item .. => 1
  | .field _ => 2

end Step

namespace Path

def isShown (path : Path) : Bool := path.steps.all Step.isShown

def depth (path : Path) : Nat := (path.steps.map Step.depth).sum

/-- The label above a position: the name of the field that it stands in. -/
def label? (path : Path) : Option Row :=
  match path.steps.getLast? with
  | some (.field slot) => some (path.depth - 1, slot.text ++ ":")
  | _ => none

end Path

namespace Node

def shown (node : Node) : List (Path × Node) :=
  (node.positions Path.root).filter fun p => p.1.isShown

/-- The rows of a position: its label, if it has one, and then the node. -/
def rowsAt (p : Path × Node) : List Row := p.1.label?.toList ++ [(p.1.depth, p.2.summary)]

/-- The rows of the outline of a tree. -/
def rows (node : Node) : List Row := node.shown.flatMap rowsAt

mutual

def entry : Node → Entry
  | node@(.program _ statements) => .mk node.summary (entries statements)
  | node@(.element _ _ attributes children _) =>
    .mk node.summary (entries attributes ++ entries children)
  | node@(.block _ _ _ body inverse) =>
    .mk node.summary (fieldEntry .program body ++ fieldEntry .inverse inverse)
  | node@(.component _ _ attributes body inverse) =>
    .mk node.summary (entries attributes ++ fieldEntry .program body ++ fieldEntry .inverse inverse)
  | node => .mk node.summary []

def entries : List Node → List Entry
  | [] => []
  | node :: rest => node.entry :: entries rest

def fieldEntry (slot : Field) : Option Node → List Entry
  | none => []
  | some node => [.mk (slot.text ++ ":") [node.entry]]

end

theorem entries_eq_map (nodes : List Node) : entries nodes = nodes.map entry := by
  induction nodes with
  | nil => rfl
  | cons node rest ih => rw [entries, ih, List.map_cons]

def line (level : Int) (row : Row) : String := margin (level + row.1) ++ row.2

theorem margin_succ {level : Int} (nonneg : 0 ≤ level) :
    margin level ++ "  " = margin (level + 1) := by
  have count : (2 * (level + 1)).toNat = (2 * level).toNat + 2 := by omega
  rw [margin, margin, Indent.blanks, Indent.blanks, count, List.replicate_add, String.ofList_append]
  rfl

theorem deeper (level : Int) (depth : Nat) :
    level + depth + 1 = level + (depth + 1 : Nat) := by omega

theorem line_label {level : Int} (nonneg : 0 ≤ level) (depth : Nat) (label : String) :
    margin (level + depth) ++ "  " ++ label ++ ":" = line level (depth + 1, label ++ ":") := by
  rw [line, margin_succ (by omega), deeper, String.append_assoc]

mutual

theorem outline_eq_entry {level : Int} (nonneg : 0 ≤ level) : ∀ (node : Node) (depth : Nat),
    node.outline (level + depth) = (node.entry.rows depth).map (line level)
  | .program _ statements, depth => by
    rw [outline, entry, Entry.rows, List.map_cons, outlines_eq_entries nonneg statements]
    rfl
  | .element _ _ attributes children _, depth => by
    rw [outline, entry, Entry.rows, Entry.rowsOf_append, List.map_cons, List.map_append,
      outlines_eq_entries nonneg attributes, outlines_eq_entries nonneg children]
    rfl
  | .block _ _ _ body inverse, depth => by
    have onBody : labelled (level + depth) "program" body = _ :=
      labelled_eq_entry nonneg body .program depth
    have onInverse : labelled (level + depth) "inverse" inverse = _ :=
      labelled_eq_entry nonneg inverse .inverse depth
    rw [outline, entry, Entry.rows, Entry.rowsOf_append, List.map_cons, List.map_append,
      onBody, onInverse]
    rfl
  | .component _ _ attributes body inverse, depth => by
    have onBody : labelled (level + depth) "program" body = _ :=
      labelled_eq_entry nonneg body .program depth
    have onInverse : labelled (level + depth) "inverse" inverse = _ :=
      labelled_eq_entry nonneg inverse .inverse depth
    rw [outline, entry, Entry.rows, Entry.rowsOf_append, Entry.rowsOf_append, List.map_cons,
      List.map_append,
      List.map_append, outlines_eq_entries nonneg attributes, onBody, onInverse]
    rfl
  | .attr .., _ | .text .., _ | .mustache .., _ | .foreign .., _ | .bare .., _ => rfl

theorem outlines_eq_entries {level : Int} (nonneg : 0 ≤ level) :
    ∀ (nodes : List Node) (depth : Nat),
    outlines (level + depth + 1) nodes = (Entry.rowsOf (depth + 1) (entries nodes)).map (line level)
  | [], _ => rfl
  | node :: rest, depth => by
    rw [outlines, entries, Entry.rowsOf, List.map_append, deeper,
      outline_eq_entry nonneg node, ← deeper,
      outlines_eq_entries nonneg rest]

theorem labelled_eq_entry {level : Int} (nonneg : 0 ≤ level) :
    ∀ (branch : Option Node) (slot : Field) (depth : Nat),
    labelled (level + depth) slot.text branch =
      (Entry.rowsOf (depth + 1) (fieldEntry slot branch)).map (line level)
  | none, _, _ => rfl
  | some node, slot, depth => by
    have below : level + depth + 2 = level + (depth + 1 + 1 : Nat) := by omega
    rw [labelled, fieldEntry, Entry.rowsOf, Entry.rowsOf, Entry.rows, Entry.rowsOf, Entry.rowsOf,
      List.append_nil, List.append_nil, List.map_cons, line_label nonneg, below,
        outline_eq_entry nonneg node]

end

/-- The outline of a node shows its rows. -/
theorem outline_eq_rows {level : Int} (nonneg : 0 ≤ level) (node : Node) :
    node.outline level = (node.entry.rows 0).map (line level) := by
  have whole := outline_eq_entry nonneg node 0
  rwa [Int.natCast_zero, Int.add_zero] at whole

def slotEntry (s : Step × Node) : Entry :=
  match s.1 with
  | .item .. => s.2.entry
  | .field slot => .mk (slot.text ++ ":") [s.2.entry]

def shownSlots (node : Node) : List (Step × Node) := node.slots.filter fun s => s.1.isShown

theorem filter_itemSlots (slot : Field) (nodes : List Node) :
    (itemSlots slot nodes).filter (fun s => s.1.isShown) =
      if slot = .helpers ∨ slot = .value then [] else itemSlots slot nodes := by
  split
  case isTrue hidden =>
    rw [List.filter_eq_nil_iff]
    intro s member
    rw [Step.isShown, (mem_itemSlots member).1]
    rcases hidden with rfl | rfl <;> decide
  case isFalse shown =>
    rw [List.filter_eq_self]
    intro s member
    rw [Step.isShown, (mem_itemSlots member).1]
    simpa using shown

theorem filter_fieldSlots (slot : Field) (branch : Option Node) :
    (fieldSlots slot branch).filter (fun s => s.1.isShown) =
      if slot = .helpers ∨ slot = .value then [] else fieldSlots slot branch := by
  cases branch with
  | none => simp [fieldSlots]
  | some node => cases slot <;> rfl

theorem map_slotEntry_items (slot : Field) (nodes : List Node) :
    (itemSlots slot nodes).map slotEntry = entries nodes := by
  have nodesOnly := congrArg (List.map entry) (List.zipIdx_map_fst 0 nodes)
  rw [List.map_map] at nodesOnly
  rw [entries_eq_map, itemSlots, List.map_map, ← nodesOnly]
  rfl

theorem map_slotEntry_field (slot : Field) (branch : Option Node) :
    (fieldSlots slot branch).map slotEntry = fieldEntry slot branch := by
  cases branch <;> rfl

theorem entry_eq (node : Node) : node.entry = .mk node.summary (node.shownSlots.map slotEntry) := by
  cases node with
  | attr id name value => rfl
  | _ => simp [entry, shownSlots, slots, filter_itemSlots, filter_fieldSlots, map_slotEntry_items,
      map_slotEntry_field]

theorem isShown_step {path : Path} {s : Step} :
    (path.step s).isShown = (path.isShown && s.isShown) := by
  simp [Path.isShown, Path.step]

theorem depth_step {path : Path} {s : Step} : (path.step s).depth = path.depth + s.depth := by
  simp [Path.depth, Path.step]

theorem isShown_of_within {path top : Path} (within : path.Within top) (shown : path.isShown) :
    top.isShown := by
  obtain ⟨steps, isPath⟩ := within.2
  rw [Path.isShown, ← isPath, List.all_append, Bool.and_eq_true] at shown
  exact shown.1

theorem filter_positions_of_hidden {path : Path} (hidden : path.isShown = false) (node : Node) :
    (node.positions path).filter (fun p => p.1.isShown) = [] := by
  rw [List.filter_eq_nil_iff]
  intro p member shown
  rw [isShown_of_within (positions_within member) shown] at hidden
  cases hidden

theorem flatMap_filter {α β : Type} (p : α → Bool) (f : α → List β) (items : List α) :
    (items.filter p).flatMap f = items.flatMap fun a => if p a then f a else [] := by
  induction items with
  | nil => rfl
  | cons a rest ih =>
    rw [List.filter_cons, List.flatMap_cons, ← ih]
    split <;> rfl

theorem rows_slotEntry (path : Path) (s : Step × Node) :
    (slotEntry s).rows (path.depth + 1) =
      (path.step s.1).label?.toList ++ s.2.entry.rows (path.step s.1).depth := by
  obtain ⟨s, node⟩ := s
  rw [depth_step, Path.label?, depth_step]
  cases s <;> simp [slotEntry, Path.step, Step.depth, Entry.rows, Entry.rowsOf]

theorem flatMap_rowsAt {path : Path} (shown : path.isShown) (node : Node) :
    ((node.positions path).filter fun p => p.1.isShown).flatMap rowsAt =
      path.label?.toList ++ node.entry.rows path.depth := by
  induction node using slot_induction generalizing path with
  | step node ih =>
    -- Below a slot that is not shown, no position is shown.
    have each : ∀ s ∈ node.slots,
        ((s.2.positions (path.step s.1)).filter fun p => p.1.isShown).flatMap rowsAt =
          if s.1.isShown then (slotEntry s).rows (path.depth + 1) else [] := by
      intro s member
      have step := @isShown_step path s.1
      rw [shown, Bool.true_and] at step
      split
      case isTrue isShown => rw [ih s member (step.trans isShown), rows_slotEntry]
      case isFalse hidden =>
        rw [filter_positions_of_hidden (step.trans (Bool.eq_false_iff.mpr hidden)),
          List.flatMap_nil]
    rw [positions_eq, List.filter_cons, if_pos shown, List.flatMap_cons, positionsBelow,
      List.filter_flatMap,
      List.flatMap_assoc, List.flatMap_congr each, entry_eq, Entry.rows, rowsAt, List.append_assoc,
      List.singleton_append, Entry.rowsOf_eq_flatMap, shownSlots, List.flatMap_map, flatMap_filter]

theorem rows_eq_entry_rows (node : Node) : node.rows = node.entry.rows 0 := by
  rw [rows, shown, flatMap_rowsAt rfl node]
  rfl

/-- The texts that stand in the summary of a node as they are. -/
def names : Node → List String
  | .element _ tag _ _ _ | .component _ tag _ _ _ => [tag]
  | .attr _ name _ => [name]
  | .block _ path params _ _ | .mustache _ path params _ => path :: params
  | .foreign _ kind => [kind.typeName]
  | .program .. | .text .. | .bare .. => []

def Breaks (s : String) : Prop := '\n' ∈ s.toList

instance (s : String) : Decidable (Breaks s) := inferInstanceAs (Decidable (_ ∈ _))

theorem breaks_append {s t : String} : Breaks (s ++ t) ↔ Breaks s ∨ Breaks t := by
  rw [Breaks, String.toList_append, List.mem_append]
  rfl

theorem breaks_intercalate {separator : String} (whole : ¬ Breaks separator)
    (pieces : List String) :
    Breaks (separator.intercalate pieces) ↔ ∃ piece ∈ pieces, Breaks piece := by
  induction pieces with
  | nil => simp [String.intercalate_nil, Breaks]
  | cons piece rest ih =>
    cases rest with
    | nil => simp [String.intercalate_singleton]
    | cons next rest =>
      rw [String.intercalate_cons_cons, breaks_append, breaks_append, ih]
      simp [whole]

theorem not_mem_ofNat {c : Char} (other : Decimal.isDigit c = false) (n : Nat) :
    c ∉ (Decimal.ofNat n).toList := by
  rw [Decimal.ofNat, String.toList_ofList]
  intro member
  rw [Decimal.isDigit_of_mem_natChars member] at other
  cases other

theorem not_breaks_ofNat (n : Nat) : ¬ Breaks (Decimal.ofNat n) := not_mem_ofNat rfl n

theorem not_breaks_typeName (value : Value) : ¬ Breaks value.typeName := by
  cases value <;> rw [Value.typeName] <;> decide

theorem breaks_summary (node : Node) : Breaks node.summary ↔ ∃ name ∈ node.names, Breaks name := by
  cases node with
  | program id statements => simp +decide [summary, names, breaks_append, not_breaks_ofNat]
  | element id tag attributes children helpers =>
    rw [summary]
    split <;> simp +decide [names, breaks_append, not_breaks_ofNat]
  | attr id name value =>
    rw [summary]
    split <;> simp +decide [names, breaks_append]
  | block id path params body inverse =>
    rw [summary, breaks_append, invocation, breaks_intercalate (by decide)]
    simp +decide [names]
  | component id tag attributes body inverse => simp +decide [summary, names, breaks_append]
  | text id chars =>
    have literal : ¬ Breaks (Quoted.literal chars) := Quoted.newline_not_mem_literal chars
    simp +decide [summary, names, breaks_append, literal]
  | mustache id path params escaped =>
    rw [summary]
    split <;> simp +decide [names, breaks_append, invocation, breaks_intercalate]
  | foreign id kind => simp [summary, names, typeName]
  | bare id value => simp [summary, names, typeName, not_breaks_typeName]

theorem breaks_line {level : Int} {row : Row} : Breaks (line level row) ↔ Breaks row.2 := by
  have blanks : ¬ Breaks (margin (level + row.1)) := by simp [Breaks, margin, Indent.blanks]
  rw [line, breaks_append]
  exact or_iff_right blanks

theorem label?_eq_some_iff {path : Path} {row : Row} : path.label? = some row ↔
    ∃ slot, path.steps.getLast? = some (.field slot) ∧ row =
    (path.depth - 1, slot.text ++ ":") := by
  rw [Path.label?]
  split
  case h_1 slot isField => simp [isField, eq_comm]
  case h_2 other =>
    refine iff_of_false nofun ?_
    rintro ⟨slot, isField, -⟩
    exact other slot isField

theorem mem_rows_iff {node : Node} {row : Row} : row ∈ node.rows ↔
    ∃ p ∈ node.shown, p.1.label? = some row ∨ row = (p.1.depth, p.2.summary) := by
  simp only [rows, rowsAt, List.mem_flatMap, List.mem_append, Option.mem_toList, List.mem_singleton]

theorem not_breaks_label (slot : Field) : ¬ Breaks (slot.text ++ ":") := by
  cases slot <;> decide

theorem breaks_rows_iff (node : Node) :
    (∃ row ∈ node.rows, Breaks row.2) ↔ ∃ p ∈ node.shown, ∃ name ∈ p.2.names, Breaks name := by
  simp only [mem_rows_iff, ← breaks_summary]
  constructor
  · rintro ⟨row, ⟨p, member, label | rfl⟩, breaks⟩
    · obtain ⟨slot, -, rfl⟩ := label?_eq_some_iff.mp label
      exact absurd breaks (not_breaks_label slot)
    · exact ⟨p, member, breaks⟩
  · rintro ⟨p, member, breaks⟩
    exact ⟨_, ⟨p, member, .inr rfl⟩, breaks⟩

theorem not_mem_of_mem_splitOn {α : Type} [DecidableEq α] {x : α} {items piece : List α}
    (member : piece ∈ items.splitOn x) : x ∉ piece := by
  induction items generalizing piece with
  | nil =>
    rw [List.splitOn_nil, List.mem_singleton] at member
    rw [member]
    exact List.not_mem_nil
  | cons item rest ih =>
    rw [List.splitOn_cons_eq_if_modifyHead] at member
    split at member
    case isTrue =>
      rcases List.mem_cons.mp member with rfl | member
      · exact List.not_mem_nil
      · exact ih member
    case isFalse other =>
      cases split : rest.splitOn x with
      | nil => exact absurd split (List.splitOn_ne_nil x rest)
      | cons first later =>
        rw [split] at member ih
        rw [List.modifyHead_cons, List.mem_cons] at member
        rcases member with rfl | member
        · have first := ih List.mem_cons_self
          rw [List.mem_cons, not_or]
          exact ⟨fun same => other (by rw [same, beq_self_eq_true]), first⟩
        · exact ih (List.mem_cons_of_mem _ member)

theorem splitOn_intercalate_iff {lines : List String} (filled : lines ≠ []) :
    (("\n".intercalate lines).toList.splitOn '\n' = lines.map String.toList) ↔
      ∀ l ∈ lines, ¬ Breaks l := by
  have joined : ("\n".intercalate lines).toList = ['\n'].intercalate (lines.map String.toList) :=
    String.toList_intercalate
  have each : (∀ l ∈ lines.map String.toList, '\n' ∉ l) ↔ ∀ l ∈ lines, ¬ Breaks l :=
    List.forall_mem_map
  rw [← each]
  constructor
  · intro split l member
    exact not_mem_of_mem_splitOn (split ▸ member)
  · intro whole
    rw [joined]
    exact List.splitOn_intercalate '\n' whole (by simpa using filled)

theorem summary_eq_name {node : Node} {kind : NodeKind} (h : node.kind? = some kind) :
    ∃ details, node.summary.toList = kind.name.toList ++ ' ' :: details := by
  cases node <;> cases h <;> rw [summary]
  case mustache => split <;> simp only [String.toList_append, List.append_assoc] <;> exact ⟨_, rfl⟩
  all_goals
    simp only [String.toList_append, List.append_assoc]
    exact ⟨_, rfl⟩

theorem toList_line {level : Int} (nonneg : 0 ≤ level) (row : Row) :
    (line level row).toList = List.replicate (2 * (level.toNat + row.1)) ' ' ++ row.2.toList := by
  have count : (2 * (level + row.1)).toNat = 2 * (level.toNat + row.1) := by omega
  rw [line, String.toList_append, margin, String.toList_ofList, Indent.blanks, count]

theorem starts_of_head? {chars : List Char} (h : chars.head?.any (· != ' ')) :
    ∃ c rest, chars = c :: rest ∧ c ≠ ' ' := by
  cases chars with
  | nil => cases h
  | cons c rest => exact ⟨c, rest, rfl, by simpa using h⟩

theorem label_starts (slot : Field) : (slot.text ++ ":").toList.head?.any (· != ' ') := by
  cases slot <;> decide

theorem WellTyped.exists_kind {node : Node} (h : node.WellTyped) :
    ∃ kind, node.kind? = some kind := by
  cases h <;> exact ⟨_, rfl⟩

theorem WellTyped.row_starts {root : Node} (h : root.WellTyped) {row : Row}
    (member : row ∈ root.rows) : ∃ c rest, row.2.toList = c :: rest ∧ c ≠ ' ' := by
  obtain ⟨p, inShown, label | rfl⟩ := mem_rows_iff.mp member
  · obtain ⟨slot, -, rfl⟩ := label?_eq_some_iff.mp label
    exact starts_of_head? (label_starts slot)
  · have typed := h.of_mem_preorder (mem_preorder (List.mem_filter.mp inShown).1)
    obtain ⟨kind, isKind⟩ := typed.exists_kind
    obtain ⟨details, isSummary⟩ := summary_eq_name isKind
    rw [isSummary]
    exact starts_of_head? (by cases kind <;> rfl)

/-- The text of an outline, cut at its line feeds, shows the rows of the tree exactly if no name
of a node that is shown has a line feed in it. -/
theorem splitOn_outlineText_iff {level : Int} (nonneg : 0 ≤ level) (node : Node) :
    (node.outlineText level).toList.splitOn '\n' = node.rows.map
      (fun row => (line level row).toList) ↔
      ∀ p ∈ node.shown, ∀ name ∈ p.2.names, '\n' ∉ name.toList := by
  have lines : node.outline level = node.rows.map (line level) := by
    rw [outline_eq_rows nonneg, rows_eq_entry_rows]
  have filled : node.rows ≠ [] := by
    rw [rows_eq_entry_rows, entry_eq, Entry.rows]
    exact List.cons_ne_nil _ _
  rw [outlineText, lines, ← Function.comp_def, ← List.map_map,
    splitOn_intercalate_iff (by simpa using filled), List.forall_mem_map]
  simp only [breaks_line]
  have broken := not_congr (breaks_rows_iff node)
  simp only [not_exists, not_and] at broken
  exact broken

/-- The outline of a tree that was loaded has one line for each row of the tree, in order, exactly
if no name of a node that is shown has a line feed in it. Before what stands in a row there are
two blanks for each level. -/
theorem outline_lines {data : Value} {root : Node} (loaded : Document.tree data = .ok root)
    {level : Int}
    (nonneg : 0 ≤ level) (fits : Indent.fault? 2 level = none) :
    ∃ text, root.writeOutline level = .ok text ∧
      (text.toList.splitOn '\n' = root.rows.map (fun row => (line level row).toList) ↔
        ∀ p ∈ root.shown, ∀ name ∈ p.2.names, '\n' ∉ name.toList) ∧
      ∀ row ∈ root.rows, ∃ c rest, c ≠ ' ' ∧
        (line level row).toList = List.replicate (2 * (level.toNat + row.1)) ' ' ++ c :: rest := by
  refine ⟨root.outlineText level, by rw [writeOutline, fits], splitOn_outlineText_iff nonneg root,
    fun row member => ?_⟩
  obtain ⟨c, rest, starts, notBlank⟩ :=
    (Document.describes_of_tree loaded).wellTyped.row_starts member
  exact ⟨c, rest, notBlank, by rw [toList_line nonneg, starts]⟩

def blockDocument : Value :=
  .map [(.text "type", .text "program"), (.text "statements", .list
    [.map [(.text "type", .text "block"), (.text "path", .text "if"),
      (.text "program", .map [(.text "type", .text "program")])]])]

theorem blockDocument_lines :
    ∃ root text, Document.tree blockDocument = .ok root ∧ root.writeOutline 1 = .ok text ∧
      text.toList.splitOn '\n' = ["  program (1 statements)", "    block #if", "      program:",
        "        program (0 statements)"].map String.toList := by
  have loaded : Document.tree blockDocument =
      .ok (.program 0 [.block 1 "if" [] (some (.program 2 [])) none]) :=
    rfl
  obtain ⟨text, written, split, -⟩ := @outline_lines _ _ loaded 1 (by decide) (by decide)
  refine ⟨_, text, loaded, written, (split.mpr (by decide)).trans ?_⟩
  rfl

def brokenTag : Value :=
  .map [(.text "type", .text "program"), (.text "statements", .list
    [.map [(.text "type", .text "element"), (.text "tag", .text "a\nb")]])]

/-- Its two nodes have three lines. -/
theorem brokenTag_lines :
    ∃ root text, Document.tree brokenTag = .ok root ∧ root.writeOutline 0 = .ok text ∧
      root.rows = [(0, "program (1 statements)"), (1, "element <a\nb>")] ∧
      text.toList.splitOn '\n' =
        ["program (1 statements)", "  element <a", "b>"].map String.toList :=
  ⟨.program 0 [.element 1 "a\nb" [] [] []], _, rfl, rfl, by decide +kernel, by decide +kernel⟩

end Node
end TemplateActions
