import Mathlib.Algebra.GroupWithZero.Nat
import TemplateActions.Proofs.Visitor.Reading

/-!
The nesting of programs, read off the actions. The counts make the actions a postfix form: a
consumer with a stack takes, at the start of a program, as many programs as it counts. These are the
programs nested in it, and in the end the root alone is left.
-/
namespace TemplateActions

namespace Action

def isMarker : Action → Bool
  | .startProgram .. | .endProgram .. => true
  | _ => false

def templates : Action → Nat
  | .startProgram _ templates => templates
  | _ => 0

def isEnd : Action → Bool
  | .endProgram _ => true
  | _ => false

end Action

/-- A consumer of actions: the programs that no program took yet, the latest one first, and what
each program took. -/
structure Consumer where
  stack : List Node := []
  taken : List (Node × List Node) := []

namespace Consumer

/-- The start of a program takes as many programs as it counts, and fails if there are fewer; its
end leaves the program on the stack. -/
def step (s : Consumer) : Action → Option Consumer
  | .startProgram program templates =>
    if templates ≤ s.stack.length then
      some ⟨s.stack.drop templates, s.taken ++ [(program, s.stack.take templates)]⟩
    else none
  | .endProgram program => some { s with stack := program :: s.stack }
  | _ => some s

def run (s : Consumer) : List Action → Option Consumer
  | [] => some s
  | action :: rest => (s.step action).bind fun s => s.run rest

theorem run_append (s : Consumer) (first next : List Action) :
    s.run (first ++ next) = (s.run first).bind fun s => s.run next := by
  induction first generalizing s with
  | nil => rfl
  | cons action rest ih => simp only [List.cons_append, run, ih, Option.bind_assoc]

theorem run_unmarked (s : Consumer) {actions : List Action}
    (unmarked : ∀ a ∈ actions, a.isMarker = false) : s.run actions = some s := by
  induction actions with
  | nil => rfl
  | cons action rest ih =>
    have idle : s.step action = some s := by
      have plain := unmarked action List.mem_cons_self
      cases action <;> first | rfl | cases plain
    rw [run, idle]
    exact ih fun a member => unmarked a (List.mem_cons_of_mem _ member)

/-- An action takes from the stack as many programs as it counts, and leaves one that it ends. -/
theorem step_balance {s s' : Consumer} {action : Action} (h : s.step action = some s') :
    s'.stack.length + action.templates = s.stack.length + if action.isEnd then 1 else 0 := by
  cases action with
  | startProgram program templates =>
    rw [step, Option.ite_none_right_eq_some] at h
    obtain ⟨enough, same⟩ := h
    cases same
    simp only [Action.templates, Action.isEnd, List.length_drop, Bool.false_eq_true, if_false]
    omega
  | endProgram program =>
    cases h
    rfl
  | _ =>
    cases h
    rfl

theorem run_balance {s s' : Consumer} {actions : List Action} (h : s.run actions = some s') :
    s'.stack.length + (actions.map Action.templates).sum =
      s.stack.length + actions.countP Action.isEnd := by
  induction actions generalizing s with
  | nil =>
    cases h
    rfl
  | cons action rest ih =>
    obtain ⟨middle, first, later⟩ := Option.bind_eq_some_iff.mp h
    have here := step_balance first
    have there := ih later
    simp only [List.map_cons, List.sum_cons, List.countP_cons]
    omega

end Consumer

namespace Node

mutual

theorem segment_unmarked (counts : Counts) : ∀ (node : Node) (c : Context),
    ∀ a ∈ segment counts c node, a.isMarker = false
  | .element _ _ _ children _, c => by
    have inside := segments_unmarked counts children (.inElement children.length) 0
    simpa [segment, Action.isMarker, or_imp, forall_and] using inside
  | .program .., _ | .attr .., _ | .block .., _ | .component .., _ | .text .., _ | .mustache .., _
  | .foreign .., _ | .bare .., _ => by simp [segment, Action.isMarker]

theorem segments_unmarked (counts : Counts) : ∀ (nodes : List Node) (c : Context) (index : Nat),
    ∀ a ∈ segments counts c index nodes, a.isMarker = false
  | [], _, _ => nofun
  | node :: rest, c, index => by
    simp only [segments, List.mem_append, or_imp, forall_and]
    exact ⟨segment_unmarked counts node _, segments_unmarked counts rest c _⟩

end

theorem run_programBlock {program : Node} (isProgram : program.isProgram) (stack : List Node)
    (taken : List (Node × List Node)) :
    Consumer.run ⟨program.nested ++ stack, taken⟩ (program.programBlock .ofTree) =
      some ⟨program :: stack, taken ++ [(program, program.nested)]⟩ := by
  cases program <;> cases isProgram
  rw [programBlock, Consumer.run, Consumer.step, if_pos (by simp [Counts.ofTree])]
  simp only [Option.bind_some, Counts.ofTree, List.drop_left, List.take_left]
  rw [Consumer.run_append, Consumer.run_unmarked _ (segments_unmarked _ _ _ _)]
  rfl

/-- What the programs of some trees take, the last program first. -/
def nestings (programs : List Node) : List (Node × List Node) :=
  programs.reverse.map fun program => (program, program.nested)

theorem nestings_append (first next : List Node) :
    nestings (first ++ next) = nestings next ++ nestings first := by
  simp [nestings]

theorem run_readings {nodes : List Node}
    (each : ∀ node ∈ nodes, ∀ s : Consumer, s.run (node.reading .ofTree) =
      some ⟨node.outermost ++ s.stack, s.taken ++ nestings node.programs⟩) (s : Consumer) :
    s.run (readings .ofTree nodes) =
      some ⟨nodes.flatMap outermost ++ s.stack, s.taken ++ nestings (nodes.flatMap programs)⟩ := by
  induction nodes with
  | nil => simp [Consumer.run, nestings, readings]
  | cons node rest ih =>
    have later := ih fun n member => each n (List.mem_cons_of_mem _ member)
    rw [readings_cons, Consumer.run_append, later, Option.bind_some, each node List.mem_cons_self]
    simp only [List.flatMap_cons, nestings_append, List.append_assoc]

/-- The reading of a tree leaves its outermost programs, for any consumer. -/
theorem run_reading (node : Node) (s : Consumer) :
    s.run (node.reading .ofTree) =
      some ⟨node.outermost ++ s.stack, s.taken ++ nestings node.programs⟩ := by
  induction node using slot_induction generalizing s with
  | step node ih =>
    have slots : ∀ part ∈ node.slotNodes, ∀ s : Consumer, s.run (part.reading .ofTree) =
        some ⟨part.outermost ++ s.stack, s.taken ++ nestings part.programs⟩ := by
      intro part member
      obtain ⟨slot, isSlot, rfl⟩ := List.mem_map.mp member
      exact ih slot isSlot
    -- The programs in the slots come first; they leave on the stack what a program here takes.
    rw [reading_eq, Consumer.run_append, run_readings slots, Option.bind_some, outermost_eq,
      programs_eq]
    split
    case isTrue isProgram =>
      rw [← nested, run_programBlock isProgram]
      simp [nestings]
    case isFalse plain =>
      rw [programBlock_eq_nil _ plain]
      rfl

theorem countP_isEnd_of_unmarked {actions : List Action}
    (unmarked : ∀ a ∈ actions, a.isMarker = false) : actions.countP Action.isEnd = 0 := by
  refine List.countP_eq_zero.mpr fun a member => ?_
  have plain := unmarked a member
  cases a <;> first | exact Bool.false_ne_true | cases plain

theorem countP_isEnd_reading (counts : Counts) (root : Node) :
    (root.reading counts).countP Action.isEnd = root.programs.length := by
  have block : ∀ program ∈ root.programs.reverse,
      (program.programBlock counts).countP Action.isEnd = 1 := by
    intro program member
    have isProgram := (List.mem_filter.mp (List.mem_reverse.mp member)).2
    cases program <;> cases isProgram
    rw [programBlock, List.countP_cons, List.countP_append,
      countP_isEnd_of_unmarked (segments_unmarked _ _ _ _)]
    rfl
  rw [reading, List.countP_flatMap, Function.comp_def, List.map_congr_left block, List.map_const']
  simp

/-- The programs of a tree with their paths, in source order. -/
def programPositions (root : Node) : List (Path × Node) :=
  (root.positions Path.root).filter (·.2.isProgram)

theorem map_programPositions (root : Node) : root.programPositions.map (·.2) = root.programs := by
  rw [programs, preorder, List.filter_map]
  rfl

theorem nestings_programs (root : Node) :
    nestings root.programs = root.programPositions.reverse.map fun p =>
      (p.2, nestedIn (root.positions Path.root) p.1) := by
  rw [nestings, ← map_programPositions, ← List.map_reverse, List.map_map]
  refine List.map_congr_left fun p member => ?_
  have position := (List.mem_filter.mp (List.mem_reverse.mp member)).1
  exact congrArg (Prod.mk p.2) (nestedIn_eq position).symm

/-- The actions of a well-typed program tell how its programs are nested: a consumer takes for every
program those whose nearest enclosing program it is, in source order, and the root is left. -/
theorem WellTyped.run_compileActions {root : Node} (h : root.WellTyped)
    (kind : root.kind? = some .program) :
    ∃ actions, root.compileActions.1 = .ok actions ∧
      Consumer.run {} actions = some
        { stack := [root]
          taken := root.programPositions.reverse.map fun p =>
            (p.2, nestedIn (root.positions Path.root) p.1) } ∧
      (actions.map Action.templates).sum + 1 = root.programPositions.length := by
  have isProgram : root.isProgram := by cases root <;> cases kind; rfl
  have run := run_reading root {}
  rw [outermost_eq, if_pos isProgram] at run
  refine ⟨_, h.compileActions_eq kind, ?_, ?_⟩
  · rw [run, ← nestings_programs]
    rfl
  · have balance := Consumer.run_balance run
    rw [countP_isEnd_reading, ← map_programPositions, List.length_map] at balance
    simp only [List.append_nil, List.length_singleton, List.length_nil] at balance
    omega

theorem sampleTree_run :
    sampleTree.WellTyped ∧ ∃ actions taken, sampleTree.compileActions.1 = .ok actions ∧
      Consumer.run {} actions = some ⟨[sampleTree], taken⟩ ∧
      taken.map (fun t => (t.1.id, t.2.map id)) =
        [(21, []), (15, []), (11, []), (8, []), (6, [8]), (0, [6, 11, 15, 21])] := by
  have typed : sampleTree.WellTyped := by decide
  obtain ⟨actions, compiled, run, -⟩ := typed.run_compileActions rfl
  exact ⟨typed, actions, _, compiled, run, by decide +kernel⟩

end Node
end TemplateActions
