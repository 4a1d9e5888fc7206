import TemplateActions.Proofs.Node.Outline
import TemplateActions.Proofs.Path.Notation
import TemplateActions.Proofs.Text.Pieces

/-!
What an outline tells of a tree. The depths of the rows show which node stands in which, and a row
shows the kind of its node: from an outline without broken lines the kinds, their nesting, the
tags, the counts and the texts can be read back.
-/
namespace TemplateActions

/-- What the outline of a tree tells of it. A program has its statements, so also their count; the
parts of an element are its attributes and then its children. -/
inductive Sketch where
  | program (statements : List Sketch)
  | element (tag : String) (helpers : Nat) (parts : List Sketch)
  | attr
  | block (body inverse : Option Sketch)
  | component (tag : String) (attributes : List Sketch) (body inverse : Option Sketch)
  | text (chars : String)
  | mustache
  | other

namespace Outline.Entry

def content : Entry → String
  | .mk content _ => content

theorem head?_rowsOf {depth : Nat} {entries : List Entry} {rest : List Row}
    (shallow : ∀ row ∈ rest.head?, row.1 < depth) :
    ∀ row ∈ (rowsOf depth entries ++ rest).head?, row.1 < depth + 1 := by
  intro row isHead
  cases entries with
  | nil => exact Nat.lt_succ_of_lt (shallow row isHead)
  | cons entry later =>
    obtain ⟨content, below⟩ := entry
    rw [rowsOf, rows, List.cons_append, List.cons_append, List.head?_cons,
      Option.mem_some] at isHead
    rw [← isHead]
    exact Nat.lt_succ_self depth

/-- Parts end where a row stands less deep, so their rows can be told from those that follow. -/
theorem rowsOf_append_inj {depth : Nat} : ∀ {entries entries' : List Entry} {rest rest' : List Row},
    (∀ row ∈ rest.head?, row.1 < depth) → (∀ row ∈ rest'.head?, row.1 < depth) →
    rowsOf depth entries ++ rest = rowsOf depth entries' ++ rest' → entries = entries' ∧
    rest = rest'
  | [], [], _, _, _, _, same => ⟨rfl, same⟩
  | [], .mk _ _ :: _, _, _, shallow, _, same => by
    have deep := shallow _ (congrArg List.head? same)
    exact absurd deep (Nat.lt_irrefl _)
  | .mk _ _ :: _, [], _, _, _, shallow, same => by
    have deep := shallow _ (congrArg List.head? same.symm)
    exact absurd deep (Nat.lt_irrefl _)
  | .mk content below :: later, .mk content' below' :: later', rest, rest', shallow, shallow',
      same =>
    by
    -- What stands below the first part ends where the later parts begin, one level higher.
    simp only [rowsOf, rows, List.cons_append, List.append_assoc, List.cons.injEq, Prod.mk.injEq,
      true_and] at same
    obtain ⟨rfl, same⟩ := same
    obtain ⟨rfl, behind⟩ := rowsOf_append_inj (head?_rowsOf shallow) (head?_rowsOf shallow') same
    obtain ⟨rfl, rfl⟩ := rowsOf_append_inj shallow shallow' behind
    exact ⟨rfl, rfl⟩

theorem rows_injective (depth : Nat) : Function.Injective (rows depth) := by
  intro entry entry' same
  have whole (entry : Entry) : entry.rows depth = rowsOf depth [entry] ++ [] := by
    rw [rowsOf, rowsOf, List.append_nil, List.append_nil]
  rw [whole, whole] at same
  obtain ⟨entries, -⟩ := rowsOf_append_inj (by simp) (by simp) same
  exact List.singleton_injective entries

end Outline.Entry

open Outline

namespace Node

mutual

def sketch : Node → Sketch
  | .program _ statements => .program (sketches statements)
  | .element _ tag attributes children helpers =>
    .element tag helpers.length (sketches attributes ++ sketches children)
  | .attr .. => .attr
  | .block _ _ _ body inverse => .block (branchSketch body) (branchSketch inverse)
  | .component _ tag attributes body inverse =>
    .component tag (sketches attributes) (branchSketch body) (branchSketch inverse)
  | .text _ chars => .text chars
  | .mustache .. => .mustache
  | .foreign .. | .bare .. => .other

def sketches : List Node → List Sketch
  | [] => []
  | node :: rest => node.sketch :: sketches rest

def branchSketch : Option Node → Option Sketch
  | none => none
  | some node => some node.sketch

end

theorem sketches_append (nodes nodes' : List Node) :
    sketches (nodes ++ nodes') = sketches nodes ++ sketches nodes' := by
  induction nodes with
  | nil => rfl
  | cons node rest ih => rw [List.cons_append, sketches, sketches, ih, List.cons_append]

def initial (kind : NodeKind) : Char := kind.name.toList.headD ' '

theorem initial_injective : Function.Injective initial := by
  intro kind kind' same
  cases kind <;> cases kind' <;> first | rfl | exact absurd same (by decide)

theorem head?_summary {node : Node} {kind : NodeKind} (h : node.kind? = some kind) :
    node.summary.toList.head? = some (initial kind) := by
  obtain ⟨details, isSummary⟩ := summary_eq_name h
  rw [isSummary]
  cases kind <;> rfl

theorem kind?_eq_of_summary {a b : Node} (ha : a.WellTyped) (hb : b.WellTyped)
    (same : a.summary = b.summary) : a.kind? = b.kind? := by
  obtain ⟨kind, isKind⟩ := ha.exists_kind
  obtain ⟨kind', isKind'⟩ := hb.exists_kind
  have heads : some (initial kind) = some (initial kind') := by
    rw [← head?_summary isKind, ← head?_summary isKind', same]
  rw [isKind, isKind', initial_injective (Option.some.inj heads)]

theorem append_cons_inj_of_last {a : Char} {before before' after after' : List Char}
    (last : a ∉ after)
    (last' : a ∉ after') (same : before ++ a :: after = before' ++ a :: after') :
    before = before' ∧ after = after' := by
  have turned := congrArg (fun l => l.reverse.splitOn a) same
  simp only [List.reverse_append, List.reverse_cons, List.append_assoc,
    List.singleton_append] at turned
  rw [List.splitOn_append_cons_self_of_not_mem (by simpa using last),
    List.splitOn_append_cons_self_of_not_mem (by simpa using last')] at turned
  obtain rfl := List.reverse_injective (List.cons.inj turned).1
  exact ⟨List.append_cancel_right same, rfl⟩

theorem text_summary_inj {id id' : Nat} {chars chars' : String}
    (same : (Node.text id chars).summary = (Node.text id' chars').summary) : chars = chars' := by
  have lists := congrArg String.toList same
  rw [summary, summary, String.toList_append, String.toList_append] at lists
  exact Quoted.literal_injective (String.toList_injective (List.append_cancel_left lists))

def helperNote (helpers : List Node) : String :=
  if helpers.isEmpty then "" else " helpers=" ++ Decimal.ofNat helpers.length

theorem not_mem_helperNote (helpers : List Node) : '>' ∉ (helperNote helpers).toList := by
  rw [helperNote]
  split
  · exact List.not_mem_nil
  · rw [String.toList_append, List.mem_append, not_or]
    exact ⟨by decide, not_mem_ofNat rfl _⟩

theorem length_eq_of_helperNote {helpers helpers' : List Node}
    (same : (helperNote helpers).toList = (helperNote helpers').toList) :
    helpers.length = helpers'.length := by
  rw [helperNote, helperNote] at same
  split at same <;> split at same
  case isTrue.isTrue none none' =>
    rw [List.isEmpty_iff.mp none, List.isEmpty_iff.mp none']
  case isFalse.isFalse =>
    rw [String.toList_append, String.toList_append] at same
    exact Decimal.natChars_injective (String.ofList_injective
      (String.toList_injective (List.append_cancel_left same)))
  all_goals
    rw [String.toList_append] at same
    cases same

theorem element_summary_inj {id id' : Nat} {tag tag' : String}
    {attributes attributes' children children' helpers helpers' : List Node}
    (same : (Node.element id tag attributes children helpers).summary =
      (Node.element id' tag' attributes' children' helpers').summary) :
    tag = tag' ∧ helpers.length = helpers'.length := by
  have written (id : Nat) (tag : String) (attributes children helpers : List Node) :
      (Node.element id tag attributes children helpers).summary.toList =
        ("element <".toList ++ tag.toList) ++ '>' :: (helperNote helpers).toList := by
    rw [summary, String.toList_append, String.toList_append, String.toList_append,
      List.append_assoc]
    rfl
  have lists := congrArg String.toList same
  rw [written, written] at lists
  obtain ⟨before, after⟩ := append_cons_inj_of_last (not_mem_helperNote _)
      (not_mem_helperNote _) lists
  exact ⟨String.toList_injective (List.append_cancel_left before), length_eq_of_helperNote after⟩

theorem component_summary_inj {id id' : Nat} {tag tag' : String}
    {attributes attributes' : List Node}
    {body body' inverse inverse' : Option Node}
    (same : (Node.component id tag attributes body inverse).summary =
      (Node.component id' tag' attributes' body' inverse').summary) : tag = tag' := by
  have lists := congrArg String.toList same
  simp only [summary, String.toList_append] at lists
  exact String.toList_injective (List.append_cancel_left (List.append_cancel_right lists))

theorem content_entry (node : Node) : node.entry.content = node.summary := by
  rw [entry_eq, Entry.content]

theorem kind?_eq_of_entry {a b : Node} (ha : a.WellTyped) (hb : b.WellTyped)
    (same : a.entry = b.entry) : a.kind? = b.kind? := by
  refine kind?_eq_of_summary ha hb ?_
  rw [← content_entry, ← content_entry, same]

theorem entries_append (nodes nodes' : List Node) :
    entries (nodes ++ nodes') = entries nodes ++ entries nodes' := by
  rw [entries_eq_map, entries_eq_map, entries_eq_map, List.map_append]

theorem fieldEntries_inj {body body' inverse inverse' : Option Node}
    (same : fieldEntry .program body ++ fieldEntry .inverse inverse =
      fieldEntry .program body' ++ fieldEntry .inverse inverse') :
    body.map entry = body'.map entry ∧ inverse.map entry = inverse'.map entry := by
  cases body <;> cases body' <;> cases inverse <;> cases inverse' <;>
    simp_all [fieldEntry, Field.text]

theorem entries_append_inj {attributes attributes' : List Node} {labels labels' : List Entry}
    (kinds : ∀ a ∈ attributes, a.kind? = some .attr)
    (kinds' : ∀ a ∈ attributes', a.kind? = some .attr)
    (noAttr : ∀ e ∈ labels, e.content.toList.head? ≠ some (initial .attr))
    (noAttr' : ∀ e ∈ labels', e.content.toList.head? ≠ some (initial .attr))
    (same : entries attributes ++ labels = entries attributes' ++ labels') :
    entries attributes = entries attributes' ∧ labels = labels' := by
  have first {attributes : List Node} {labels : List Entry}
      (kinds : ∀ a ∈ attributes, a.kind? = some .attr)
      (noAttr : ∀ e ∈ labels, e.content.toList.head? ≠ some (initial .attr)) :
      (entries attributes ++ labels).filter
        (fun e => e.content.toList.head? = some (initial .attr)) =
        entries attributes := by
    rw [List.filter_append, List.filter_eq_self.mpr, List.filter_eq_nil_iff.mpr, List.append_nil]
    · exact fun e member => by simpa using noAttr e member
    · rw [entries_eq_map, List.forall_mem_map]
      exact fun a member => by simp [content_entry, head?_summary (kinds a member)]
  have attributesSame := (first kinds noAttr).symm.trans
      ((congrArg _ same).trans (first kinds' noAttr'))
  rw [attributesSame] at same
  exact ⟨attributesSame, List.append_cancel_left same⟩

def Settled (node : Node) : Prop :=
  ∀ other : Node, other.WellTyped → node.entry = other.entry → node.sketch = other.sketch

theorem sketches_eq_of_entries {nodes nodes' : List Node} (settled : ∀ n ∈ nodes, n.Settled)
    (typed' : ∀ n ∈ nodes', n.WellTyped) (same : entries nodes = entries nodes') :
    sketches nodes = sketches nodes' := by
  induction nodes generalizing nodes' with
  | nil =>
    cases nodes' with
    | nil => rfl
    | cons node' rest' => cases same
  | cons node rest ih =>
    cases nodes' with
    | nil => cases same
    | cons node' rest' =>
      obtain ⟨here, later⟩ := List.cons.inj same
      rw [List.forall_mem_cons] at settled typed'
      rw [sketches, sketches, settled.1 node' typed'.1 here, ih settled.2 typed'.2 later]

theorem branchSketch_eq_of_entry {branch branch' : Option Node} (settled : ∀ n ∈ branch, n.Settled)
    (typed' : ∀ n ∈ branch', n.WellTyped) (same : branch.map entry = branch'.map entry) :
    branchSketch branch = branchSketch branch' := by
  cases branch <;> cases branch'
  case none.none => rfl
  case some.some node node' =>
    rw [branchSketch, branchSketch, settled node rfl node' (typed' node' rfl)
      (Option.some.inj same)]
  all_goals cases same

theorem fieldEntry_content {slot : Field} {branch : Option Node} :
    ∀ e ∈ fieldEntry slot branch, e.content = slot.text ++ ":" := by
  cases branch with
  | none => exact List.forall_mem_nil _
  | some node =>
    intro e member
    rw [fieldEntry, List.mem_singleton] at member
    rw [member, Entry.content]

theorem labels_no_attr {body inverse : Option Node} :
    ∀ e ∈ fieldEntry .program body ++ fieldEntry .inverse inverse,
      e.content.toList.head? ≠ some (initial .attr) := by
  intro e member
  rcases List.mem_append.mp member with onBody | onInverse
  · rw [fieldEntry_content e onBody]
    decide
  · rw [fieldEntry_content e onInverse]
    decide

theorem WellTyped.settled {a : Node} (h : a.WellTyped) : a.Settled := by
  induction h with
  | program typed ih =>
    intro b hb same
    -- Rows that agree name the same kind, so six of the seven cases of the other tree are void.
    have kinds := kind?_eq_of_entry (.program typed) hb same
    cases hb <;> cases kinds
    case program typed' =>
      rw [entry, entry, Entry.mk.injEq] at same
      rw [sketch, sketch, sketches_eq_of_entries ih typed' same.2]
  | element attributeKinds typedAttributes typedChildren helperKinds onAttributes onChildren =>
    intro b hb same
    have kinds := kind?_eq_of_entry
      (.element attributeKinds typedAttributes typedChildren helperKinds) hb same
    cases hb <;> cases kinds
    case element attributeKinds' typedAttributes' typedChildren' helperKinds' =>
      rw [entry, entry, Entry.mk.injEq, ← entries_append, ← entries_append] at same
      obtain ⟨rfl, count⟩ := element_summary_inj same.1
      rw [sketch, sketch, count, ← sketches_append, ← sketches_append,
        sketches_eq_of_entries ?_ ?_ same.2]
      · exact List.forall_mem_append.mpr ⟨onAttributes, onChildren⟩
      · exact List.forall_mem_append.mpr ⟨typedAttributes', typedChildren'⟩
  | attr kind =>
    intro b hb same
    have kinds := kind?_eq_of_entry (.attr kind) hb same
    cases hb <;> cases kinds
    rfl
  | block bodyKind typedBody inverseKind typedInverse onBody onInverse =>
    intro b hb same
    have kinds := kind?_eq_of_entry (.block bodyKind typedBody inverseKind typedInverse) hb same
    cases hb <;> cases kinds
    case block bodyKind' typedBody' inverseKind' typedInverse' =>
      rw [entry, entry, Entry.mk.injEq] at same
      obtain ⟨sameBody, sameInverse⟩ := fieldEntries_inj same.2
      rw [sketch, sketch, branchSketch_eq_of_entry onBody typedBody' sameBody,
        branchSketch_eq_of_entry onInverse typedInverse' sameInverse]
  | component attributeKinds typedAttributes bodyKind typedBody inverseKind typedInverse
      onAttributes onBody
      onInverse =>
    intro b hb same
    have kinds := kind?_eq_of_entry
      (.component attributeKinds typedAttributes bodyKind typedBody inverseKind
        typedInverse) hb same
    cases hb <;> cases kinds
    case component attributeKinds' typedAttributes' bodyKind' typedBody' inverseKind'
      typedInverse' =>
      rw [entry, entry, Entry.mk.injEq, List.append_assoc, List.append_assoc] at same
      obtain ⟨sameAttributes, labels⟩ :=
        entries_append_inj attributeKinds attributeKinds' labels_no_attr labels_no_attr same.2
      obtain ⟨sameBody, sameInverse⟩ := fieldEntries_inj labels
      rw [sketch, sketch, component_summary_inj same.1,
        sketches_eq_of_entries onAttributes typedAttributes' sameAttributes,
        branchSketch_eq_of_entry onBody typedBody' sameBody,
        branchSketch_eq_of_entry onInverse typedInverse' sameInverse]
  | text =>
    intro b hb same
    have kinds := kind?_eq_of_entry .text hb same
    cases hb <;> cases kinds
    case text =>
      have summaries := congrArg Entry.content same
      rw [content_entry, content_entry] at summaries
      rw [sketch, sketch, text_summary_inj summaries]
  | mustache =>
    intro b hb same
    have kinds := kind?_eq_of_entry .mustache hb same
    cases hb <;> cases kinds
    rfl

theorem replicate_append_inj {m n : Nat} {c c' : Char} {rest rest' : List Char} (other : c ≠ ' ')
    (other' : c' ≠ ' ')
    (same : List.replicate m ' ' ++ c :: rest = List.replicate n ' ' ++ c' :: rest') :
    m = n ∧ c :: rest = c' :: rest' := by
  induction m generalizing n with
  | zero =>
    cases n with
    | zero => exact ⟨rfl, same⟩
    | succ n => exact absurd (List.cons.inj same).1 other
  | succ m ih =>
    cases n with
    | zero => exact absurd (List.cons.inj same).1.symm other'
    | succ n =>
      obtain ⟨rfl, behind⟩ := ih (List.cons.inj same).2
      exact ⟨rfl, behind⟩

theorem rows_eq_of_lines {level : Int} (nonneg : 0 ≤ level) {rows rows' : List Row}
    (starts : ∀ row ∈ rows, ∃ c rest, row.2.toList = c :: rest ∧ c ≠ ' ')
    (starts' : ∀ row ∈ rows', ∃ c rest, row.2.toList = c :: rest ∧ c ≠ ' ')
    (same : rows.map (fun row => (line level row).toList) =
      rows'.map fun row => (line level row).toList) : rows = rows' := by
  induction rows generalizing rows' with
  | nil => exact (List.map_eq_nil_iff.mp same.symm).symm
  | cons row rest ih =>
    cases rows' with
    | nil => cases same
    | cons row' rest' =>
      obtain ⟨here, later⟩ := List.cons.inj same
      rw [List.forall_mem_cons] at starts starts'
      obtain ⟨c, details, isRow, other⟩ := starts.1
      obtain ⟨c', details', isRow', other'⟩ := starts'.1
      dsimp only at here
      rw [toList_line nonneg, toList_line nonneg, isRow, isRow'] at here
      obtain ⟨count, contents⟩ := replicate_append_inj other other' here
      have depth : row.1 = row'.1 := by omega
      have content : row.2 = row'.2 :=
        String.toList_injective (isRow.trans (contents.trans isRow'.symm))
      rw [Prod.ext depth content, ih starts.2 starts'.2 later]

/-- If two well-typed trees have the same outline, and no name that is shown has a line feed in
it, the trees have the same kinds of nodes in the same places, the same tags, counts and texts. -/
theorem WellTyped.sketch_eq_of_writeOutline {a b : Node} (ha : a.WellTyped) (hb : b.WellTyped)
    {level : Int} (nonneg : 0 ≤ level) {text : String}
    (whole : ∀ p ∈ a.shown, ∀ name ∈ p.2.names, '\n' ∉ name.toList)
    (whole' : ∀ p ∈ b.shown, ∀ name ∈ p.2.names, '\n' ∉ name.toList)
    (written : a.writeOutline level = .ok text) (written' : b.writeOutline level = .ok text) :
    a.sketch = b.sketch := by
  have isText {node : Node} (h : node.writeOutline level = .ok text) :
      node.outlineText level = text := by
    rw [writeOutline] at h
    split at h <;> cases h
    rfl
  have lines := (splitOn_outlineText_iff nonneg a).mpr whole
  have lines' := (splitOn_outlineText_iff nonneg b).mpr whole'
  rw [isText written] at lines
  rw [isText written'] at lines'
  have rows := rows_eq_of_lines nonneg (fun _ => ha.row_starts) (fun _ => hb.row_starts)
    (lines.symm.trans lines')
  rw [rows_eq_entry_rows, rows_eq_entry_rows] at rows
  exact ha.settled b hb (Entry.rows_injective 0 rows)

def styledSample (path : String) : Node :=
  .program 0
    [.element 1 "div" [.attr 2 "class" (.mustache 3 path [] true)] [.text 4 "two\nlines"]
      [.mustache 5 path [] true]]

theorem styledSample_sketch :
    (∃ text, (styledSample "on").writeOutline 2 = .ok text ∧
      (styledSample "off").writeOutline 2 = .ok text) ∧
      (styledSample "on").sketch = (styledSample "off").sketch ∧
      (styledSample "on").sketch = .program [.element "div" 1 [.attr, .text "two\nlines"]] := by
  have typed : (styledSample "on").WellTyped := by decide
  have typed' : (styledSample "off").WellTyped := by decide
  have written : (styledSample "on").writeOutline 2 = .ok ((styledSample "on").outlineText 2) := rfl
  have written' : (styledSample "off").writeOutline 2 =
      .ok ((styledSample "on").outlineText 2) := by
    decide +kernel
  exact ⟨⟨_, written, written'⟩, typed.sketch_eq_of_writeOutline typed' (by decide)
    (by decide) (by decide)
    written written', rfl⟩

end Node
end TemplateActions
