import TemplateActions.Proofs.Node.Slots

/-!
The surface of a tree: the positions that no program stands above. Its programs are the outermost
ones, and the programs whose nearest enclosing program stands at a position of a tree are the
outermost ones in the slots of that position.
-/
namespace TemplateActions

namespace Node

/-- Holds if no program, among some positions, stands above a path. -/
def Exposed (positions : List (Path × Node)) (path : Path) : Prop :=
  ∀ a ∈ positions, a.2.isProgram → path.Within a.1 → a.1 = path

instance (positions : List (Path × Node)) (path : Path) : Decidable (Exposed positions path) :=
  inferInstanceAs (Decidable (∀ a ∈ positions, _))

/-- Holds if the nearest program above `inner`, among some positions, stands at `outer`. -/
def Encloses (positions : List (Path × Node)) (outer inner : Path) : Prop :=
  inner.Within outer ∧ inner ≠ outer ∧
    ∀ a ∈ positions, a.2.isProgram → a.1.Within outer → inner.Within a.1 →
      a.1 = outer ∨ a.1 = inner

instance (positions : List (Path × Node)) (outer inner : Path) :
    Decidable (Encloses positions outer inner) :=
  inferInstanceAs (Decidable (_ ∧ _ ∧ ∀ a ∈ positions, _))

/-- The programs whose nearest enclosing program stands at a position. -/
def nestedIn (positions : List (Path × Node)) (outer : Path) : List Node :=
  (positions.filter fun e => e.2.isProgram && decide (Encloses positions outer e.1)).map (·.2)

def surface (path : Path) (node : Node) : List (Path × Node) :=
  (node.positions path).filter fun e => Exposed (node.positions path) e.1

def surfaceNodes (node : Node) : List Node := (node.surface Path.root).map (·.2)

def outermost (node : Node) : List Node := node.surfaceNodes.filter (·.isProgram)

/-- The outermost programs in the slots of a node. -/
def nested (node : Node) : List Node := node.slotNodes.flatMap outermost

theorem mem_own_slot {path : Path} {node : Node} {s : Step × Node} {e a : Path × Node}
    (hs : s ∈ node.slots) (he : e ∈ s.2.positions (path.step s.1))
    (ha : a ∈ node.positionsBelow path) (above : e.1.Within a.1) :
    a ∈ s.2.positions (path.step s.1) := by
  obtain ⟨s', hs', ha'⟩ := mem_positionsBelow.mp ha
  obtain rfl := slot_eq_of_within hs hs' (positions_within he) (above.trans (positions_within ha'))
  exact ha'

theorem exposed_root (path : Path) (node : Node) : Exposed (node.positions path) path :=
  fun _ ha _ above => (positions_within ha).antisymm above

theorem exposed_slot_iff {path : Path} {node : Node} {s : Step × Node} {e : Path × Node}
    (hs : s ∈ node.slots) (he : e ∈ s.2.positions (path.step s.1)) :
    Exposed (node.positions path) e.1 ↔
      node.isProgram = false ∧ Exposed (s.2.positions (path.step s.1)) e.1 := by
  have strict := positions_within he
  rw [Exposed, positions_eq, List.forall_mem_cons]
  constructor
  · rintro ⟨top, below⟩
    refine ⟨?_, fun a ha => below a (mem_positionsBelow.mpr ⟨s, hs, ha⟩)⟩
    by_contra isProgram
    exact strict.ne_of_step (top (by simpa using isProgram)
      (strict.trans (path.step_within s.1))).symm
  · rintro ⟨plain, own⟩
    refine ⟨fun isProgram => by simp [plain] at isProgram, fun a ha isProgram above => ?_⟩
    exact own a (mem_own_slot hs he ha above) isProgram above

theorem encloses_slot_iff {path : Path} {node : Node} {s : Step × Node} {e : Path × Node}
    (hs : s ∈ node.slots) (he : e ∈ s.2.positions (path.step s.1)) :
    Encloses (node.positions path) path e.1 ↔ Exposed (s.2.positions (path.step s.1)) e.1 := by
  have strict := positions_within he
  have above : e.1.Within path := strict.trans (path.step_within s.1)
  rw [Encloses, positions_eq, List.forall_mem_cons]
  constructor
  · rintro ⟨-, -, -, nearest⟩ a ha isProgram inside
    have lower := positions_within ha
    have found := nearest a (mem_positionsBelow.mpr ⟨s, hs, ha⟩) isProgram
      (lower.trans (path.step_within s.1)) inside
    exact found.resolve_left lower.ne_of_step
  · intro own
    refine ⟨above, strict.ne_of_step, fun _ _ _ => .inl rfl, fun a ha isProgram _ inside => ?_⟩
    exact .inr (own a (mem_own_slot hs he ha inside) isProgram inside)

theorem encloses_run_iff {before after positions : List (Path × Node)} {outer inner : Path}
    (outside : ∀ e ∈ before ++ after, ¬ e.1.Within outer) :
    Encloses (before ++ positions ++ after) outer inner ↔ Encloses positions outer inner := by
  refine and_congr_right fun _ => and_congr_right fun _ => ?_
  constructor
  · intro nearest a ha
    exact nearest a (List.mem_append_left _ (List.mem_append_right _ ha))
  · intro nearest a ha isProgram within
    have own : a ∉ before ++ after := fun far => outside a far within
    refine nearest a ?_ isProgram within
    simp only [List.mem_append, not_or] at ha own
    tauto

theorem surface_eq (path : Path) (node : Node) :
    node.surface path = (path, node) ::
      if node.isProgram then [] else node.slots.flatMap fun s => s.2.surface (path.step s.1) := by
  have top := exposed_root path node
  rw [surface]
  conv_lhs => arg 2; rw [positions_eq]
  rw [List.filter_cons_of_pos (by simpa using top), positionsBelow, List.filter_flatMap]
  congr 1
  split
  case isTrue isProgram =>
    refine List.flatMap_eq_nil_iff.mpr fun s hs => List.filter_eq_nil_iff.mpr fun e he => ?_
    simp [exposed_slot_iff hs he, isProgram]
  case isFalse plain =>
    refine List.flatMap_congr fun s hs => List.filter_congr fun e he => ?_
    simp [exposed_slot_iff hs he, plain]

theorem map_surface (path : Path) (node : Node) :
    (node.surface path).map (·.2) = node.surfaceNodes := by
  suffices ∀ path', (node.surface path).map (·.2) = (node.surface path').map (·.2) from this _
  induction node using slot_induction generalizing path with
  | step node ih =>
    intro path'
    rw [surface_eq path, surface_eq path']
    split
    · rfl
    · simp only [List.map_cons, List.map_flatMap]
      congr 1
      exact List.flatMap_congr fun s hs => ih s hs _ _

theorem surfaceNodes_eq (node : Node) :
    node.surfaceNodes =
      node :: if node.isProgram then [] else node.slotNodes.flatMap surfaceNodes := by
  rw [surfaceNodes, surface_eq, List.map_cons]
  split
  · rfl
  · simp only [List.map_flatMap, map_surface, slotNodes, List.flatMap_map]

theorem outermost_eq (node : Node) :
    node.outermost = if node.isProgram then [node] else node.nested := by
  rw [outermost, surfaceNodes_eq]
  split
  case isTrue isProgram => simp [isProgram]
  case isFalse plain =>
    rw [List.filter_cons_of_neg (by simpa using plain), List.filter_flatMap]
    rfl

theorem nestedIn_positions (path : Path) (node : Node) :
    nestedIn (node.positions path) path = node.nested := by
  have head : ¬ Encloses (node.positions path) path path := fun encloses => encloses.2.1 rfl
  rw [nestedIn]
  conv_lhs => arg 2; arg 2; rw [positions_eq]
  rw [List.filter_cons_of_neg (by simp [head]), positionsBelow, List.filter_flatMap,
    List.map_flatMap, nested, slotNodes, List.flatMap_map]
  refine List.flatMap_congr fun s hs => ?_
  rw [outermost, ← map_surface (path.step s.1), surface, List.filter_map, List.filter_filter]
  refine congrArg _ (List.filter_congr fun e he => ?_)
  simp [encloses_slot_iff hs he]

/-- The programs whose nearest enclosing program stands at a position of a tree are the outermost
programs in the slots of that position. -/
theorem nestedIn_eq {root node : Node} {top path : Path} (h : (path, node) ∈ root.positions top) :
    nestedIn (root.positions top) path = node.nested := by
  obtain ⟨before, after, run, outside⟩ := positions_run h
  have none_outside {l : List (Path × Node)} (hl : ∀ e ∈ l, e ∈ before ++ after) :
      l.filter (fun e => e.2.isProgram &&
        decide (Encloses (before ++ node.positions path ++ after) path e.1)) = [] := by
    refine List.filter_eq_nil_iff.mpr fun e he => ?_
    have far : ¬ Encloses (before ++ node.positions path ++ after) path e.1 :=
      fun encloses => outside e (hl e he) encloses.1
    simp only [decide_eq_false far, Bool.and_false, Bool.false_eq_true, not_false_eq_true]
  rw [run, nestedIn, List.filter_append, List.filter_append,
    none_outside fun e he => List.mem_append_left _ he,
    none_outside fun e he => List.mem_append_right _ he, List.nil_append, List.append_nil]
  simp only [encloses_run_iff outside]
  exact nestedIn_positions path node

end Node
end TemplateActions
