import Mathlib.Data.List.Nodup
import TemplateActions.Node.Positions

/-!
The slots of a node: its children in source order, each with the step that leads to it. The steps of
a node differ from each other, so the paths of a tree never run together again; the positions below
a node are one run of the positions of the tree.
-/
namespace TemplateActions

def Step.slot : Step → Field
  | .field slot | .item slot _ => slot

namespace Path

def step (path : Path) (s : Step) : Path := ⟨path.start, path.steps ++ [s]⟩

/-- Holds if the path leads to `top` or to a position below it. -/
def Within (path top : Path) : Prop := path.start = top.start ∧ top.steps <+: path.steps

instance (path top : Path) : Decidable (path.Within top) := inferInstanceAs (Decidable (_ ∧ _))

theorem Within.refl (path : Path) : path.Within path := ⟨rfl, List.prefix_rfl⟩

theorem Within.trans {a b c : Path} (h : a.Within b) (h' : b.Within c) : a.Within c :=
  ⟨h.1.trans h'.1, h'.2.trans h.2⟩

theorem Within.antisymm {a b : Path} (h : a.Within b) (h' : b.Within a) : a = b := by
  obtain ⟨start, steps⟩ := a
  obtain ⟨start', steps'⟩ := b
  obtain rfl : start = start' := h.1
  obtain rfl : steps' = steps := h.2.eq_of_length_le h'.2.length_le
  rfl

theorem step_within (path : Path) (s : Step) : (path.step s).Within path :=
  ⟨rfl, List.prefix_append _ _⟩

theorem not_within_step (path : Path) (s : Step) : ¬ path.Within (path.step s) := by
  intro h
  have length := h.2.length_le
  simp only [step, List.length_append, List.length_singleton] at length
  omega

theorem Within.ne_of_step {path a : Path} {s : Step} (h : a.Within (path.step s)) : a ≠ path := by
  rintro rfl
  exact not_within_step _ s h

theorem Within.step_eq {path a : Path} {s s' : Step} (h : a.Within (path.step s))
    (h' : a.Within (path.step s')) : s = s' := by
  have shorter := List.prefix_of_prefix_length_le h.2 h'.2 (by simp [step])
  simpa [step] using shorter

end Path

namespace Node

def itemSlots (slot : Field) (nodes : List Node) : List (Step × Node) :=
  nodes.zipIdx.map fun item => (.item slot item.2, item.1)

def fieldSlots (slot : Field) (node : Option Node) : List (Step × Node) :=
  node.toList.map fun node => (.field slot, node)

def slots : Node → List (Step × Node)
  | .program _ statements => itemSlots .statements statements
  | .element _ _ attributes children helpers =>
    itemSlots .attributes attributes ++ itemSlots .helpers helpers ++ itemSlots .children children
  | .attr _ _ value => [(.field .value, value)]
  | .block _ _ _ body inverse => fieldSlots .program body ++ fieldSlots .inverse inverse
  | .component _ _ attributes body inverse =>
    itemSlots .attributes attributes ++ fieldSlots .program body ++ fieldSlots .inverse inverse
  | .text .. | .mustache .. | .foreign .. | .bare .. => []

def slotNodes (node : Node) : List Node := node.slots.map (·.2)

def positionsBelow (path : Path) (node : Node) : List (Path × Node) :=
  node.slots.flatMap fun s => s.2.positions (path.step s.1)

theorem itemPositions_eq (path : Path) (slot : Field) (index : Nat) (nodes : List Node) :
    itemPositions path slot index nodes =
      (nodes.zipIdx index).flatMap fun item => item.1.positions (path.item slot item.2) := by
  induction nodes generalizing index with
  | nil => rfl
  | cons node rest ih => rw [itemPositions, ih, List.zipIdx_cons, List.flatMap_cons]

theorem itemPositions_eq_slots (path : Path) (slot : Field) (nodes : List Node) :
    itemPositions path slot 0 nodes =
      (itemSlots slot nodes).flatMap fun s => s.2.positions (path.step s.1) := by
  rw [itemPositions_eq, itemSlots, List.flatMap_map]
  rfl

theorem fieldPositions_eq_slots (path : Path) (slot : Field) (node : Option Node) :
    fieldPositions path slot node =
      (fieldSlots slot node).flatMap fun s => s.2.positions (path.step s.1) := by
  cases node with
  | none => rfl
  | some node => simp [fieldPositions, fieldSlots, Path.field, Path.step]

theorem positions_eq (path : Path) (node : Node) :
    node.positions path = (path, node) :: node.positionsBelow path := by
  cases node <;>
    simp only [positions, positionsBelow, slots, itemPositions_eq_slots, fieldPositions_eq_slots,
      List.flatMap_append, List.append_assoc, List.cons_append, List.flatMap_nil,
      List.flatMap_singleton]
  rfl

theorem mem_itemSlots {slot : Field} {nodes : List Node} {s : Step × Node}
    (h : s ∈ itemSlots slot nodes) : s.1.slot = slot ∧ s.2 ∈ nodes := by
  obtain ⟨⟨node, index⟩, item, rfl⟩ := List.mem_map.mp h
  exact ⟨rfl, List.fst_mem_of_mem_zipIdx item⟩

theorem mem_itemSlots_iff {slot : Field} {nodes : List Node} {s : Step × Node} :
    s ∈ itemSlots slot nodes ↔ ∃ index, s.1 = .item slot index ∧ nodes[index]? = some s.2 := by
  rw [itemSlots, List.mem_map]
  constructor
  · rintro ⟨⟨node, index⟩, item, rfl⟩
    exact ⟨index, rfl, List.mem_zipIdx_iff_getElem?.mp item⟩
  · rintro ⟨index, step, found⟩
    exact ⟨(s.2, index), List.mem_zipIdx_iff_getElem?.mpr found, Prod.ext step.symm rfl⟩

theorem statement_mem_slots (id : Nat) {statements : List Node} {index : Nat} {node : Node}
    (found : statements[index]? = some node) :
    (.item .statements index, node) ∈ slots (.program id statements) :=
  mem_itemSlots_iff.mpr ⟨index, rfl, found⟩

theorem child_mem_slots (id : Nat) (tag : String) (attributes helpers : List Node)
    {children : List Node} {index : Nat} {node : Node} (found : children[index]? = some node) :
    (.item .children index, node) ∈ slots (.element id tag attributes children helpers) :=
  List.mem_append_right _ (mem_itemSlots_iff.mpr ⟨index, rfl, found⟩)

@[simp] theorem map_itemSlots (slot : Field) (nodes : List Node) :
    (itemSlots slot nodes).map (·.2) = nodes := by
  rw [itemSlots, List.map_map]
  exact List.zipIdx_map_fst 0 nodes

@[simp] theorem map_fieldSlots (slot : Field) (node : Option Node) :
    (fieldSlots slot node).map (·.2) = node.toList := by
  cases node <;> rfl

theorem mem_fieldSlots {slot : Field} {node : Option Node} {s : Step × Node}
    (h : s ∈ fieldSlots slot node) : s.1.slot = slot ∧ node = some s.2 := by
  obtain ⟨node, present, rfl⟩ := List.mem_map.mp h
  exact ⟨rfl, Option.mem_toList.mp present⟩

theorem slotNodes_program (id : Nat) (statements : List Node) :
    slotNodes (.program id statements) = statements := map_itemSlots _ _

theorem slotNodes_element (id : Nat) (tag : String) (attributes children helpers : List Node) :
    slotNodes (.element id tag attributes children helpers) =
      attributes ++ helpers ++ children := by
  simp [slotNodes, slots]

theorem slotNodes_block (id : Nat) (path : String) (params : List String)
    (body inverse : Option Node) :
    slotNodes (.block id path params body inverse) = body.toList ++ inverse.toList := by
  simp [slotNodes, slots]

theorem slotNodes_component (id : Nat) (tag : String) (attributes : List Node)
    (body inverse : Option Node) :
    slotNodes (.component id tag attributes body inverse) =
      attributes ++ body.toList ++ inverse.toList := by
  simp [slotNodes, slots]

theorem sizeOf_slot_lt {node : Node} {s : Step × Node} (h : s ∈ node.slots) :
    sizeOf s.2 < sizeOf node := by
  have item {slot : Field} {nodes : List Node} (h : s ∈ itemSlots slot nodes) :
      sizeOf s.2 < sizeOf nodes := List.sizeOf_lt_of_mem (mem_itemSlots h).2
  have field {slot : Field} {child : Option Node} (h : s ∈ fieldSlots slot child) :
      sizeOf s.2 < sizeOf child := by
    rw [(mem_fieldSlots h).2, Option.some.sizeOf_spec]
    omega
  cases node with
  | program id statements =>
    have := item h
    simp only [program.sizeOf_spec]
    omega
  | element id tag attributes children helpers =>
    simp only [slots, List.mem_append] at h
    simp only [element.sizeOf_spec]
    rcases h with (h | h) | h <;> have := item h <;> omega
  | attr id name value =>
    cases List.mem_singleton.mp h
    simp only [attr.sizeOf_spec]
    omega
  | block id path params body inverse =>
    simp only [slots, List.mem_append] at h
    simp only [block.sizeOf_spec]
    rcases h with h | h <;> have := field h <;> omega
  | component id tag attributes body inverse =>
    simp only [slots, List.mem_append] at h
    simp only [component.sizeOf_spec]
    rcases h with (h | h) | h
    · have := item h
      omega
    all_goals
      have := field h
      omega
  | text | mustache | foreign | bare => exact absurd h (List.not_mem_nil)

/-- To prove something of all trees, prove it of a node whose slots satisfy it. -/
theorem slot_induction {motive : Node → Prop}
    (step : ∀ node, (∀ s ∈ node.slots, motive s.2) → motive node) (node : Node) : motive node :=
  step node fun s _ => slot_induction step s.2
termination_by sizeOf node
decreasing_by exact sizeOf_slot_lt ‹_›

theorem itemSlots_nodup (slot : Field) (nodes : List Node) :
    ((itemSlots slot nodes).map (·.1)).Nodup := by
  have steps : (itemSlots slot nodes).map (·.1) =
      (nodes.zipIdx.map (·.2)).map (Step.item slot) := by
    rw [itemSlots, List.map_map, List.map_map]
    rfl
  rw [steps, List.zipIdx_map_snd]
  exact (List.nodup_range').map fun i j same => (Step.item.inj same).2

theorem fieldSlots_nodup (slot : Field) (node : Option Node) :
    ((fieldSlots slot node).map (·.1)).Nodup := by
  cases node <;> simp [fieldSlots]

theorem nodup_append_slots {l l' : List (Step × Node)} (h : (l.map (·.1)).Nodup)
    (h' : (l'.map (·.1)).Nodup) (apart : ∀ s ∈ l, ∀ s' ∈ l', s.1.slot ≠ s'.1.slot) :
    ((l ++ l').map (·.1)).Nodup := by
  rw [List.map_append, List.nodup_append]
  refine ⟨h, h', ?_⟩
  rintro _ left _ right rfl
  obtain ⟨s, hs, same⟩ := List.mem_map.mp left
  obtain ⟨s', hs', same'⟩ := List.mem_map.mp right
  exact apart s hs s' hs' (by rw [same, same'])

theorem slots_nodup (node : Node) : (node.slots.map (·.1)).Nodup := by
  cases node with
  | program id statements => exact itemSlots_nodup _ _
  | element id tag attributes children helpers =>
    refine nodup_append_slots (nodup_append_slots (itemSlots_nodup _ _) (itemSlots_nodup _ _) ?_)
      (itemSlots_nodup _ _) ?_
    · intro s hs s' hs'
      simp [(mem_itemSlots hs).1, (mem_itemSlots hs').1]
    · intro s hs s' hs'
      rcases List.mem_append.mp hs with hs | hs <;>
        simp [(mem_itemSlots hs).1, (mem_itemSlots hs').1]
  | attr id name value => simp [slots]
  | block id path params body inverse =>
    refine nodup_append_slots (fieldSlots_nodup _ _) (fieldSlots_nodup _ _) ?_
    intro s hs s' hs'
    simp [(mem_fieldSlots hs).1, (mem_fieldSlots hs').1]
  | component id tag attributes body inverse =>
    refine nodup_append_slots (nodup_append_slots (itemSlots_nodup _ _) (fieldSlots_nodup _ _) ?_)
      (fieldSlots_nodup _ _) ?_
    · intro s hs s' hs'
      simp [(mem_itemSlots hs).1, (mem_fieldSlots hs').1]
    · intro s hs s' hs'
      rcases List.mem_append.mp hs with hs | hs
      · simp [(mem_itemSlots hs).1, (mem_fieldSlots hs').1]
      · simp [(mem_fieldSlots hs).1, (mem_fieldSlots hs').1]
  | text | mustache | foreign | bare => exact List.nodup_nil

theorem slot_eq_of_within {node : Node} {s s' : Step × Node} {path a : Path} (hs : s ∈ node.slots)
    (hs' : s' ∈ node.slots) (h : a.Within (path.step s.1)) (h' : a.Within (path.step s'.1)) :
    s = s' := by
  exact List.inj_on_of_nodup_map node.slots_nodup hs hs' (h.step_eq h')

theorem mem_positionsBelow {path : Path} {node : Node} {e : Path × Node} :
    e ∈ node.positionsBelow path ↔ ∃ s ∈ node.slots, e ∈ s.2.positions (path.step s.1) :=
  List.mem_flatMap

theorem positions_within {path : Path} {node : Node} {e : Path × Node}
    (h : e ∈ node.positions path) : e.1.Within path := by
  induction node using slot_induction generalizing path with
  | step node ih =>
    rw [positions_eq, List.mem_cons, mem_positionsBelow] at h
    rcases h with rfl | ⟨s, hs, h⟩
    · exact .refl path
    · exact (ih s hs h).trans (path.step_within s.1)

/-- The positions of a tree that lie within a position of it are one run of them, and are the
positions of the tree that stands there. -/
theorem positions_run {root node : Node} {top path : Path} (h : (path, node) ∈ root.positions top) :
    ∃ before after, root.positions top = before ++ node.positions path ++ after ∧
      ∀ e ∈ before ++ after, ¬ e.1.Within path := by
  induction root using slot_induction generalizing top with
  | step root ih =>
    rw [positions_eq, List.mem_cons, mem_positionsBelow] at h
    rcases h with same | ⟨s, hs, h⟩
    · cases same
      exact ⟨[], [], by simp, by simp⟩
    · obtain ⟨left, right, split⟩ := List.append_of_mem hs
      obtain ⟨before, after, run, outside⟩ := ih s hs h
      refine ⟨(top, root) :: (left.flatMap (fun s => s.2.positions (top.step s.1)) ++ before),
        after ++ right.flatMap (fun s => s.2.positions (top.step s.1)), ?_, ?_⟩
      · simp [positions_eq top root, positionsBelow, split, run]
      · have within : path.Within (top.step s.1) := positions_within h
        have distinct := root.slots_nodup
        rw [split, List.map_append, List.map_cons, List.nodup_middle, ← List.map_append,
          List.nodup_cons] at distinct
        have apart {s' : Step × Node} {e : Path × Node} (member : s' ∈ left ++ right)
            (he : e ∈ s'.2.positions (top.step s'.1)) : ¬ e.1.Within path := by
          intro inside
          have same := (positions_within he).step_eq (inside.trans within)
          exact distinct.1 (List.mem_map.mpr ⟨s', member, same⟩)
        intro e he
        simp only [List.cons_append, List.mem_cons, List.mem_append, List.mem_flatMap] at he
        rcases he with rfl | (⟨s', hs', he⟩ | he) | he | ⟨s', hs', he⟩
        · exact fun inside => top.not_within_step s.1 (inside.trans within)
        · exact apart (List.mem_append_left _ hs') he
        · exact outside e (List.mem_append_left _ he)
        · exact outside e (List.mem_append_right _ he)
        · exact apart (List.mem_append_right _ hs') he

theorem mem_positions_slot {root node : Node} {top path : Path} {s : Step × Node}
    (here : (path, node) ∈ root.positions top) (hs : s ∈ node.slots) :
    (path.step s.1, s.2) ∈ root.positions top := by
  obtain ⟨before, after, run, -⟩ := positions_run here
  have below : (path.step s.1, s.2) ∈ node.positions path := by
    rw [positions_eq, List.mem_cons, mem_positionsBelow]
    refine .inr ⟨s, hs, ?_⟩
    rw [positions_eq]
    exact List.mem_cons_self
  rw [run]
  exact List.mem_append_left _ (List.mem_append_right _ below)

theorem positions_nodup (path : Path) (node : Node) : ((node.positions path).map (·.1)).Nodup := by
  induction node using slot_induction generalizing path with
  | step node ih =>
    have apart : node.slots.Pairwise fun s s' => s.1 ≠ s'.1 := List.pairwise_map.mp node.slots_nodup
    rw [positions_eq, List.map_cons, positionsBelow, List.map_flatMap, List.nodup_cons,
      List.nodup_flatMap]
    refine ⟨?_, fun s hs => ih s hs _, apart.imp fun {s s'} different => ?_⟩
    · intro member
      obtain ⟨s, -, member⟩ := List.mem_flatMap.mp member
      obtain ⟨e, he, same⟩ := List.mem_map.mp member
      exact (positions_within he).ne_of_step same
    · intro p left right
      obtain ⟨e, he, rfl⟩ := List.mem_map.mp left
      obtain ⟨e', he', same⟩ := List.mem_map.mp right
      exact different ((positions_within he).step_eq (same ▸ positions_within he'))

theorem positions_after {root : Node} {top : Path} {before after : List (Path × Node)}
    {u e : Path × Node} (split : root.positions top = before ++ u :: after) (he : e ∈ after) :
    ∀ d ∈ e.2.positions e.1, d ∈ after := by
  have member : (e.1, e.2) ∈ root.positions top := by rw [split]; simp [he]
  obtain ⟨left, right, run, -⟩ := positions_run member
  obtain ⟨first, last, rfl⟩ := List.append_of_mem he
  have whole : root.positions top = (before ++ u :: first) ++ e :: last := by simp [split]
  have here : root.positions top = left ++ e :: (e.2.positionsBelow e.1 ++ right) := by
    rw [run, positions_eq, List.append_assoc, List.cons_append]
  have once : e ∉ before ++ u :: first ∧ e ∉ last := by
    have distinct := (root.positions_nodup top).of_map
    rw [whole, List.nodup_middle, List.nodup_cons, List.mem_append, not_or] at distinct
    exact distinct.1
  obtain ⟨-, -, rfl⟩ :=
    (List.append_cons_inj_of_notMem once.1 once.2).mp (whole.symm.trans here)
  intro d hd
  rw [positions_eq, List.mem_cons] at hd
  simp only [List.mem_append, List.mem_cons]
  tauto

/-- All nodes of a tree in source order. -/
def preorder (node : Node) : List Node := (node.positions Path.root).map (·.2)

theorem positions_nodes (path path' : Path) (node : Node) :
    (node.positions path).map (·.2) = (node.positions path').map (·.2) := by
  induction node using slot_induction generalizing path path' with
  | step node ih =>
    rw [positions_eq path, positions_eq path']
    simp only [positionsBelow, List.map_cons, List.map_flatMap]
    congr 1
    exact List.flatMap_congr fun s hs => ih s hs _ _

theorem preorder_eq (node : Node) : node.preorder = node :: node.slotNodes.flatMap preorder := by
  rw [preorder, positions_eq, List.map_cons, positionsBelow, List.map_flatMap, slotNodes,
    List.flatMap_map]
  congr 1
  exact List.flatMap_congr fun s _ => positions_nodes _ _ s.2

theorem preorder_inherits {motive : Node → Prop}
    (slots : ∀ {node part : Node}, motive node → part ∈ node.slotNodes → motive part)
    {root node : Node} (h : motive root) (member : node ∈ root.preorder) : motive node := by
  induction root using slot_induction with
  | step root ih =>
    rw [preorder_eq, List.mem_cons, List.mem_flatMap] at member
    rcases member with rfl | ⟨part, slot, member⟩
    · exact h
    · obtain ⟨s, hs, rfl⟩ := List.mem_map.mp slot
      exact ih s hs (slots h slot) member

theorem mem_preorder {root : Node} {top : Path} {e : Path × Node} (h : e ∈ root.positions top) :
    e.2 ∈ root.preorder := by
  rw [preorder, positions_nodes Path.root top]
  exact List.mem_map_of_mem h

end Node
end TemplateActions
