import TemplateActions.Proofs.Node.NearlyTyped
import TemplateActions.Proofs.Visitor.Places

/-!
Visits that meet an object they have no rule for. The visitor walks backwards, so it stops at the
last such object in source order. By then the programs behind it are finished; the frames of the
programs and elements around it are dropped, and what stands before it is never visited.
-/
namespace TemplateActions

namespace Node

/-- The blocks of the programs among some nodes, the last one first. -/
def blocks (nodes : List Node) : List Action :=
  (nodes.filter (·.isProgram)).reverse.flatMap (programBlock .ofTree)

theorem blocks_cons (node : Node) (rest : List Node) :
    blocks (node :: rest) = blocks rest ++ node.programBlock .ofTree := by
  cases isProgram : node.isProgram
  · rw [programBlock_eq_nil _ (by simp [isProgram]), List.append_nil, blocks,
      List.filter_cons_of_neg (by simp [isProgram])]
    rfl
  · rw [blocks, List.filter_cons_of_pos isProgram, List.reverse_cons, List.flatMap_append,
      List.flatMap_singleton]
    rfl

/-- What is left of a walk over nodes from the last one to the first: the unknown object that stops
it, and the blocks of the programs behind that object. -/
def walk : List Node → Option Node × List Action
  | [] => (none, [])
  | node :: rest =>
    match walk rest with
    | (some u, actions) => (some u, actions)
    | (none, actions) =>
      if node.isUnknown then (some node, actions) else (none, actions ++ node.programBlock .ofTree)

theorem walk_append (first next : List Node) :
    walk (first ++ next) =
      match walk next with
      | (some u, actions) => (some u, actions)
      | (none, actions) => ((walk first).1, actions ++ (walk first).2) := by
  induction first with
  | nil =>
    rw [List.nil_append]
    rcases walk next with ⟨_ | u, actions⟩
    · exact congrArg (Prod.mk none) (List.append_nil actions).symm
    · rfl
  | cons node rest ih =>
    rw [List.cons_append, walk, ih, walk]
    rcases walk next with ⟨_ | u, actions⟩
    · rcases walk rest with ⟨_ | u, actions'⟩
      · dsimp only
        split
        · rfl
        · simp only [List.append_assoc]
      · rfl
    · rfl

theorem walk_of_known {nodes : List Node} (known : ∀ n ∈ nodes, n.isUnknown = false) :
    walk nodes = (none, blocks nodes) := by
  induction nodes with
  | nil => rfl
  | cons node rest ih =>
    rw [List.forall_mem_cons] at known
    rw [walk, ih known.2, blocks_cons]
    simp [known.1]

theorem walk_stopped {before after : List Node} {u : Node} (isUnknown : u.isUnknown)
    (known : ∀ n ∈ after, n.isUnknown = false) :
    walk (before ++ u :: after) = (some u, blocks after) := by
  rw [walk_append, walk, walk_of_known known]
  simp [isUnknown]

theorem known_of_walk {nodes : List Node} (through : (walk nodes).1 = none) :
    ∀ n ∈ nodes, n.isUnknown = false := by
  induction nodes with
  | nil => exact nofun
  | cons node rest ih =>
    rw [walk] at through
    rcases inRest : walk rest with ⟨_ | u, actions⟩
    · simp only [inRest] at through
      split at through
      · cases through
      · rename_i isKnown
        refine List.forall_mem_cons.mpr ⟨?_, ih (by rw [inRest])⟩
        simpa using isKnown
    · simp only [inRest] at through
      cases through

/-- An outcome that stops and flushes as a walk over some nodes does. -/
structure Walks (nodes : List Node) (o : Outcome) : Prop where
  error : o.error = (walk nodes).1.map .unknownNode
  flushed : o.flushed = (walk nodes).2

theorem walks_nil {o : Outcome} (error : o.error = none) (flushed : o.flushed = []) :
    Walks [] o := ⟨error, flushed⟩

theorem Walks.andThen {earlier later : List Node} {o o' : Outcome} (first : Walks later o)
    (next : Walks earlier o') : Walks (earlier ++ later) (o.andThen o') := by
  obtain ⟨error, flushed⟩ := first
  have whole := walk_append earlier later
  generalize walk later = left at error flushed whole
  obtain ⟨_ | u, actions⟩ := left
  · constructor
    · rw [whole, Outcome.andThen, error]
      exact next.error
    · rw [whole, Outcome.andThen, error]
      exact congrArg₂ (· ++ ·) flushed next.flushed
  · constructor
    · rw [whole, Outcome.andThen, error]
      exact error
    · rw [whole, Outcome.andThen, error]
      exact flushed

theorem Walks.behind {node : Node} {nodes : List Node} {o : Outcome} (h : Walks nodes o)
    (known : node.isUnknown = false) (plain : node.isProgram = false) :
    Walks (node :: nodes) o := by
  have same : walk (node :: nodes) = walk nodes := by
    rw [walk, programBlock_eq_nil _ (by simp [plain])]
    rcases walk nodes with ⟨_ | u, actions⟩ <;> simp [known]
  exact ⟨same ▸ h.error, same ▸ h.flushed⟩

theorem Walks.behind_all {quiet nodes : List Node} {o : Outcome} (h : Walks nodes o)
    (each : ∀ n ∈ quiet, n.isUnknown = false ∧ n.isProgram = false) : Walks (quiet ++ nodes) o := by
  induction quiet with
  | nil => exact h
  | cons node rest ih =>
    rw [List.forall_mem_cons] at each
    exact (ih each.2).behind each.1.1 each.1.2

theorem WellTyped.walks {node : Node} (h : node.WellTyped) (c : Context) :
    Walks node.preorder (node.outcome (some c)) := by
  rw [h.outcome_eq]
  exact ⟨by rw [walk_of_known h.all_known]; rfl, by rw [walk_of_known h.all_known]; rfl⟩

/-- A program that holds an unknown object leaves what its statements leave. -/
theorem Walks.ofProgram {program u : Node} {nodes : List Node} {actions : List Action} {o : Outcome}
    (h : Walks nodes o) (stopped : walk nodes = (some u, actions)) :
    Walks (program :: nodes) (o.ofProgram program) := by
  obtain ⟨error, flushed⟩ := h
  rw [stopped] at error flushed
  constructor
  · rw [walk, stopped, Outcome.ofProgram, error]
    rfl
  · rw [walk, stopped, Outcome.ofProgram, error]
    exact flushed

theorem Walks.ofElement {element : Node} {c : Context} {helpers : Nat} {nodes : List Node}
    {o : Outcome} (h : Walks nodes o) : Walks nodes (o.ofElement element c helpers) := by
  obtain ⟨error, flushed⟩ := h
  obtain ⟨_, _, _, _, _ | e⟩ := o
  · exact ⟨error, flushed⟩
  · exact ⟨error, flushed⟩

theorem walks_children {nodes : List Node}
    (each : ∀ n ∈ nodes, ∀ c, Walks n.preorder (n.outcome (some c))) (c : Context) (index : Nat) :
    Walks (nodes.flatMap preorder) (childrenOutcome c index nodes) := by
  induction nodes generalizing index with
  | nil => exact walks_nil rfl rfl
  | cons node rest ih =>
    rw [List.forall_mem_cons] at each
    exact (ih each.2 (index + 1)).andThen (each.1 _)

theorem walks_option {node : Option Node}
    (each : ∀ p ∈ node, ∀ c, Walks p.preorder (p.outcome (some c))) (c : Context) :
    Walks (node.toList.flatMap preorder) (optionOutcome (some c) node) := by
  cases node with
  | none => exact walks_nil rfl rfl
  | some p =>
    rw [Option.toList_some, List.flatMap_singleton]
    exact each p rfl c

theorem quiet_attributes {attributes : List Node} (kinds : ∀ a ∈ attributes, a.kind? = some .attr)
    (typed : ∀ a ∈ attributes, a.WellTyped) :
    ∀ n ∈ attributes.flatMap preorder, n.isUnknown = false ∧ n.isProgram = false := by
  rw [List.forall_mem_flatMap]
  intro a member n inside
  refine ⟨(typed a member).all_known n inside, ?_⟩
  rcases (typed a member).mem_preorder_attr (kinds a member) inside with kind | kind | kind <;>
    cases n <;> cases kind <;> rfl

theorem quiet_helpers {helpers : List Node} (kinds : ∀ h ∈ helpers, h.kind? = some .mustache) :
    ∀ n ∈ helpers.flatMap preorder, n.isUnknown = false ∧ n.isProgram = false := by
  rw [List.forall_mem_flatMap]
  intro h member n inside
  have kind := kinds h member
  rw [preorder_of_leaf (.inr kind), List.mem_singleton] at inside
  subst inside
  refine ⟨known_of_kind kind, ?_⟩
  cases n <;> cases kind
  rfl

theorem walks_branches {action : Action} {body inverse : Option Node}
    (onBody : ∀ p ∈ body, ∀ c, Walks p.preorder (p.outcome (some c)))
    (onInverse : ∀ p ∈ inverse, ∀ c, Walks p.preorder (p.outcome (some c))) (c : Context) :
    Walks (body.toList.flatMap preorder ++ inverse.toList.flatMap preorder)
      (Outcome.andThen { emitted := [action], mustaches := 1 }
        ((optionOutcome (some c) inverse).andThen (optionOutcome (some c) body))) := by
  have called : Walks [] { emitted := [action], mustaches := 1 } := walks_nil rfl rfl
  have both := called.andThen ((walks_option onInverse c).andThen (walks_option onBody c))
  rwa [List.append_nil] at both

/-- A visit stops and flushes as a walk over all positions does. -/
theorem NearlyTyped.walks {node : Node} (h : node.NearlyTyped) (c : Context) :
    Walks node.preorder (node.outcome (some c)) := by
  induction h generalizing c with
  | @unknown node isUnknown =>
    cases node <;> cases isUnknown <;> exact ⟨rfl, rfl⟩
  | @program id statements typed ih =>
    have inner := walks_children ih (.inProgram statements.length) 0
    -- A program that is finished has counts; they are those of a well-typed tree.
    rcases inside : walk (statements.flatMap preorder) with ⟨_ | u, actions⟩
    · have known := known_of_walk (congrArg Prod.fst inside)
      refine ((NearlyTyped.program typed).wellTyped ?_).walks c
      rw [preorder_eq, slotNodes_program]
      exact List.forall_mem_cons.mpr ⟨rfl, known⟩
    · rw [preorder_eq, slotNodes_program]
      exact inner.ofProgram inside
  | @element id tag attributes children helpers kinds typed _ mustaches ih =>
    have inner := walks_children ih (.inElement children.length) 0
    rw [preorder_eq, slotNodes_element, List.flatMap_append, List.flatMap_append, outcome,
      Outcome.inside]
    dsimp only
    rw [allOutcome_eq kinds]
    refine Walks.behind (Walks.ofElement ?_) rfl rfl
    rw [List.append_assoc]
    refine .behind_all (.behind_all ⟨?_, ?_⟩ (quiet_helpers mustaches))
      (quiet_attributes kinds typed)
    · exact inner.error
    · exact inner.flushed
  | attr kind => exact (WellTyped.attr kind).walks c
  | block _ _ _ _ ihBody ihInverse =>
    rw [preorder_eq, slotNodes_block, List.flatMap_append, outcome, Outcome.inside]
    exact (walks_branches ihBody ihInverse c).behind rfl rfl
  | component kinds typed _ _ _ _ ihBody ihInverse =>
    rw [preorder_eq, slotNodes_component, List.append_assoc, List.flatMap_append,
      List.flatMap_append, outcome, Outcome.inside]
    exact ((walks_branches ihBody ihInverse c).behind_all (quiet_attributes kinds typed)).behind
      rfl rfl
  | text => exact WellTyped.text.walks c
  | mustache => exact WellTyped.mustache.walks c

theorem exists_last_unknown {positions : List (Path × Node)}
    (present : ∃ e ∈ positions, e.2.isUnknown) :
    ∃ before u after, positions = before ++ u :: after ∧ u.2.isUnknown ∧
      ∀ e ∈ after, e.2.isUnknown = false := by
  induction positions with
  | nil => simp at present
  | cons e rest ih =>
    by_cases later : ∃ e ∈ rest, e.2.isUnknown
    · obtain ⟨before, u, after, rfl, isUnknown, known⟩ := ih later
      exact ⟨e :: before, u, after, rfl, isUnknown, known⟩
    · refine ⟨[], e, rest, rfl, ?_, fun e' member => ?_⟩
      · simpa [later] using present
      · simpa using fun isUnknown => later ⟨e', member, isUnknown⟩

theorem NearlyTyped.wellTyped_after {root : Node} (h : root.NearlyTyped)
    {before after : List (Path × Node)} {u e : Path × Node}
    (split : root.positions Path.root = before ++ u :: after)
    (known : ∀ e ∈ after, e.2.isUnknown = false) (he : e ∈ after) : e.2.WellTyped := by
  have member : e ∈ root.positions Path.root := by rw [split]; simp [he]
  refine (preorder_inherits NearlyTyped.slotNode h (mem_preorder member)).wellTyped ?_
  intro n inside
  rw [preorder, positions_nodes Path.root e.1, List.mem_map] at inside
  obtain ⟨d, hd, rfl⟩ := inside
  exact known d (positions_after split he d hd)

/-- A program stops at the last unknown object and flushes the blocks of the programs behind it. -/
theorem NearlyTyped.outcome_stopped {root : Node} (h : root.NearlyTyped)
    (kind : root.kind? = some .program) {before after : List (Path × Node)} {u : Path × Node}
    (split : root.positions Path.root = before ++ u :: after) (isUnknown : u.2.isUnknown)
    (known : ∀ e ∈ after, e.2.isUnknown = false) :
    (root.outcome none).error = some (.unknownNode u.2) ∧
      (root.outcome none).flushed = (after.filter (·.2.isProgram)).reverse.flatMap
        fun e => e.2.programBlock .ofTree := by
  -- The root is a program, so the visit does the same inside any frame.
  have anywhere : root.outcome none = root.outcome (some ⟨⟨none, none⟩, false⟩) := by
    cases root <;> cases kind
    rfl
  have stopped : walk root.preorder = (some u.2, blocks (after.map (·.2))) := by
    rw [preorder, split, List.map_append, List.map_cons]
    exact walk_stopped isUnknown (List.forall_mem_map.mpr known)
  obtain ⟨error, flushed⟩ := h.walks ⟨⟨none, none⟩, false⟩
  rw [← anywhere, stopped] at error flushed
  refine ⟨error, ?_⟩
  rw [flushed, blocks, List.filter_map, ← List.map_reverse, List.flatMap_map]
  rfl

theorem node_after_of_mem_block {root : Node} {before after : List (Path × Node)}
    {u e : Path × Node} (split : root.positions Path.root = before ++ u :: after) (he : e ∈ after)
    {a : Action} (member : a ∈ e.2.programBlock .ofTree) : ∃ d ∈ after, d.2 = a.node := by
  have here : (e.1, e.2) ∈ e.2.positions e.1 := by
    rw [positions_eq]
    exact List.mem_cons_self
  obtain ⟨path, located⟩ := programBlock_located here member
  exact ⟨_, positions_after split he _ located.mem_positions, rfl⟩

/-- Visiting a program that is well typed but for unknown objects stops at the last of them in
source order. The stack is empty then. What has reached the global list are the blocks of the
programs behind that object, the last one first; they are the blocks that these programs end with
when they are compiled alone, and all their actions belong to nodes behind the object. -/
theorem NearlyTyped.visit_stops {root : Node} (h : root.NearlyTyped)
    (kind : root.kind? = some .program) (present : ∃ e ∈ root.positions Path.root, e.2.isUnknown) :
    ∃ before u after, root.positions Path.root = before ++ u :: after ∧ u.2.isUnknown ∧
      (∀ e ∈ after, e.2.isUnknown = false) ∧
      (root.visit {}).2 = some (.unknownNode u.2) ∧
      (root.visit {}).1.stack = [] ∧
      (root.visit {}).1.actions = (after.filter (·.2.isProgram)).reverse.flatMap
        (fun e => e.2.programBlock .ofTree) ∧
      (∀ e ∈ after, e.2.isProgram → e.2.compileActions.1 =
        .ok (readings .ofTree e.2.slotNodes ++ e.2.programBlock .ofTree)) ∧
      (∀ a ∈ (root.visit {}).1.actions, ∃ e ∈ after, e.2 = a.node) ∧
      root.compileActions.1 = .error (.unknownNode u.2) := by
  obtain ⟨before, u, after, split, isUnknown, known⟩ := exists_last_unknown present
  obtain ⟨error, flushed⟩ := h.outcome_stopped kind split isUnknown known
  obtain ⟨stack, actions, failure⟩ := visit_explained root {}
  have finished := actions.trans flushed
  refine ⟨before, u, after, split, isUnknown, known, failure.trans error, stack,
    finished, ?_, ?_, ?_⟩
  · intro e he isProgram
    rw [(h.wellTyped_after split known he).compileActions_eq (kind?_of_isProgram isProgram),
      reading_eq]
  · intro a member
    rw [finished] at member
    obtain ⟨e, he, member⟩ := List.mem_flatMap.mp member
    have inAfter : e ∈ after := (List.mem_filter.mp (List.mem_reverse.mp he)).1
    exact node_after_of_mem_block split inAfter member
  · rw [Node.compileActions_eq, error]

def brokenTree : Node :=
  .program 0
    [.block 1 "if" [] (some (.bare 2 (.text "yes"))) (some (.program 3 [])),
      .program 4 [.text 5 "before"],
      .element 6 "p" []
        [.foreign 7 ⟨"CommentNode", none, [("value", "x")]⟩,
          .block 8 "each" [] (some (.program 9 [.text 10 "item"])) none] [],
      .component 11 "Card" [] none (some (.program 12 []))]

theorem brokenTree_nearlyTyped : brokenTree.NearlyTyped := by
  refine .program ?_
  simp only [List.forall_mem_cons, List.not_mem_nil, IsEmpty.forall_iff, implies_true, and_true]
  refine ⟨.block ?_ ?_ ?_ ?_, ?_, .element nofun nofun ?_ nofun, ?_⟩
  · simp [isUnknown, kind?]
  · simpa using NearlyTyped.unknown rfl
  · simp [kind?]
  · simpa using (by decide : WellTyped (.program 3 [])).nearlyTyped
  · exact (by decide : WellTyped (.program 4 [.text 5 "before"])).nearlyTyped
  · simp only [List.forall_mem_cons, List.not_mem_nil, IsEmpty.forall_iff, implies_true, and_true]
    refine ⟨.unknown rfl, WellTyped.nearlyTyped ?_⟩
    decide
  · refine WellTyped.nearlyTyped ?_
    decide

theorem brokenTree_visit :
    brokenTree.NearlyTyped ∧ ∃ u, (brokenTree.visit {}).2 = some (.unknownNode u) ∧ u.id = 7 ∧
      (brokenTree.visit {}).1.stack = [] ∧
      (brokenTree.visit {}).1.actions.map (fun a => (a.kind, a.node.id)) =
        [(.startProgram, 12), (.endProgram, 12),
          (.startProgram, 9), (.text, 10), (.endProgram, 9)] := by
  have present : ∃ e ∈ brokenTree.positions Path.root, e.2.isUnknown :=
    ⟨(⟨"$", [.item .statements 0, .field .program]⟩, .bare 2 (.text "yes")),
      List.mem_cons_of_mem _ (List.mem_cons_of_mem _ List.mem_cons_self), rfl⟩
  obtain ⟨before, u, after, -, -, -, error, stack, -⟩ :=
    brokenTree_nearlyTyped.visit_stops rfl present
  have found : (brokenTree.visit {}).2 =
      some (.unknownNode (.foreign 7 ⟨"CommentNode", none, [("value", "x")]⟩)) := rfl
  have same := VisitError.unknownNode.inj (Option.some.inj (error.symm.trans found))
  exact ⟨brokenTree_nearlyTyped, u.2, error, congrArg id same, stack, by decide +kernel⟩

end Node
end TemplateActions
