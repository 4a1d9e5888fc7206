import Mathlib.Data.List.ModifyLast
import Mathlib.Logic.Relation
import TemplateActions.Proofs.Visitor.Nesting

/-!
Siblings in another order. If statements of programs and children of elements change places, at
any depth, a tree compiles to the same actions apart from their order, their nodes and their
indices. The statements of the root keep their segments; only the indices at the ends of a segment
follow the place.
-/
namespace TemplateActions

namespace Action

/-- The kind and the arguments of an action, without its node and its index among siblings. -/
def unindexed (action : Action) : ActionKind × List Argument :=
  (action.kind, if action.isMarker then action.arguments else action.arguments.tail)

/-- The action with another index among siblings; the markers of programs have none. -/
def atIndex (index : Nat) : Action → Action
  | .openElement node place singleRoot mustaches =>
    .openElement node { place with index := some index } singleRoot mustaches
  | .closeElement node place singleRoot =>
    .closeElement node { place with index := some index } singleRoot
  | .text node place singleRoot => .text node { place with index := some index } singleRoot
  | .mustache node place => .mustache node { place with index := some index }
  | .block node place => .block node { place with index := some index }
  | .component node place => .component node { place with index := some index }
  | action => action

/-- The actions with another index for the outermost ones, the first and the last. -/
def reindexOuter (index : Nat) (actions : List Action) : List Action :=
  (actions.modifyHead (atIndex index)).modifyLast (atIndex index)

end Action

namespace Node

/-- One list of statements or of children is put in another order. The nodes around the list are
other nodes then, with other identity numbers. -/
inductive Reorders : Node → Node → Prop
  | statements {id id' : Nat} {statements statements' : List Node} :
      statements.Perm statements' → Reorders (.program id statements) (.program id' statements')
  | children {id id' : Nat} {tag : String} {attributes children children' helpers : List Node} :
      children.Perm children' → Reorders (.element id tag attributes children helpers)
        (.element id' tag attributes children' helpers)
  | inStatement {id id' : Nat} {before after : List Node} {node node' : Node} :
      Reorders node node' →
      Reorders (.program id (before ++ node :: after)) (.program id' (before ++ node' :: after))
  | inChild {id id' : Nat} {tag : String} {attributes before after helpers : List Node}
      {node node' : Node} :
      Reorders node node' →
      Reorders (.element id tag attributes (before ++ node :: after) helpers)
        (.element id' tag attributes (before ++ node' :: after) helpers)
  | inBlockBody {id id' : Nat} {path : String} {params : List String} {body body' : Node}
      {inverse : Option Node} :
      Reorders body body' →
      Reorders (.block id path params (some body) inverse)
        (.block id' path params (some body') inverse)
  | inBlockInverse {id id' : Nat} {path : String} {params : List String} {body : Option Node}
      {inverse inverse' : Node} :
      Reorders inverse inverse' →
      Reorders (.block id path params body (some inverse))
        (.block id' path params body (some inverse'))
  | inComponentBody {id id' : Nat} {tag : String} {attributes : List Node} {body body' : Node}
      {inverse : Option Node} :
      Reorders body body' →
      Reorders (.component id tag attributes (some body) inverse)
        (.component id' tag attributes (some body') inverse)
  | inComponentInverse {id id' : Nat} {tag : String} {attributes : List Node} {body : Option Node}
      {inverse inverse' : Node} :
      Reorders inverse inverse' →
      Reorders (.component id tag attributes body (some inverse))
        (.component id' tag attributes body (some inverse'))

/-- What the segment of a node says, without nodes and indices. -/
def shape (c : Context) (node : Node) : List (ActionKind × List Action.Argument) :=
  (node.segment .ofTree c).map Action.unindexed

@[simp] theorem shape_atIndex (c : Context) (index : Nat) (node : Node) :
    node.shape (c.atIndex index) = node.shape c := by
  cases node <;>
    simp [shape, segment, Action.unindexed, Action.isMarker, Action.arguments,
      Action.placeArguments,
      Context.atIndex, Action.kind]

theorem map_unindexed_segments (c : Context) (index : Nat) (nodes : List Node) :
    (segments .ofTree c index nodes).map Action.unindexed = nodes.flatMap (shape c) := by
  induction nodes generalizing index with
  | nil => rfl
  | cons node rest ih =>
    rw [segments, List.map_append, ih, List.flatMap_cons, ← shape_atIndex c index node]
    rfl

/-- Two lists of nodes that say the same to the node around them, and compile to the same actions
apart from nodes and indices. -/
structure AlikeAll (nodes nodes' : List Node) : Prop where
  length : nodes.length = nodes'.length
  dynamic : nodes.countP (·.Dynamic) = nodes'.countP (·.Dynamic)
  outermost : (nodes.flatMap outermost).length = (nodes'.flatMap outermost).length
  readings : ((readings .ofTree nodes).map Action.unindexed).Perm
    ((Node.readings .ofTree nodes').map Action.unindexed)
  shapes : ∀ c, (nodes.flatMap (shape c)).Perm (nodes'.flatMap (shape c))

abbrev Alike (node node' : Node) : Prop := AlikeAll [node] [node']

namespace AlikeAll

variable {nodes nodes' more more' : List Node}

theorem refl (nodes : List Node) : AlikeAll nodes nodes :=
  ⟨rfl, rfl, rfl, .refl _, fun _ => .refl _⟩

theorem of_perm (perm : nodes.Perm nodes') : AlikeAll nodes nodes' where
  length := perm.length_eq
  dynamic := perm.countP_eq _
  outermost := (perm.flatMap_right _).length_eq
  readings := by
    -- The programs below are compiled from the last one to the first one.
    rw [readings_eq, readings_eq]
    have programs := perm.flatMap_right programs
    have reversed := (List.reverse_perm _).trans (programs.trans (List.reverse_perm _).symm)
    exact (reversed.flatMap_right _).map _
  shapes := fun c => perm.flatMap_right _

theorem append (first : AlikeAll nodes nodes') (second : AlikeAll more more') :
    AlikeAll (nodes ++ more) (nodes' ++ more') where
  length := by rw [List.length_append, List.length_append, first.length, second.length]
  dynamic := by rw [List.countP_append, List.countP_append, first.dynamic, second.dynamic]
  outermost := by
    simp only [List.flatMap_append, List.length_append, first.outermost, second.outermost]
  readings := by
    simp only [readings_append, List.map_append]
    exact second.readings.append first.readings
  shapes := by
    intro c
    simp only [List.flatMap_append]
    exact (first.shapes c).append (second.shapes c)

theorem replace {node node' : Node} (before after : List Node) (alike : Alike node node') :
    AlikeAll (before ++ node :: after) (before ++ node' :: after) :=
  (refl before).append (alike.append (refl after))

theorem dynamic_iff (h : AlikeAll nodes nodes') :
    (∃ node ∈ nodes, node.Dynamic) ↔ ∃ node ∈ nodes', node.Dynamic := by
  have positive (nodes : List Node) : (∃ node ∈ nodes, node.Dynamic) ↔
      0 < nodes.countP (·.Dynamic) := by
    simp [List.countP_pos_iff]
  rw [positive, positive, h.dynamic]

end AlikeAll

/-- Nodes of one kind are alike if their slots and their own actions are. -/
theorem alike_of_slots {node node' : Node} (isProgram : node.isProgram = node'.isProgram)
    (dynamic : node.Dynamic ↔ node'.Dynamic) (slots : AlikeAll node.slotNodes node'.slotNodes)
    (block : ((node.programBlock .ofTree).map Action.unindexed).Perm
      ((node'.programBlock .ofTree).map Action.unindexed))
    (shapes : ∀ c, (node.shape c).Perm (node'.shape c)) : Alike node node' where
  length := rfl
  dynamic := by simp only [List.countP_singleton, dynamic]
  outermost := by
    simp only [List.flatMap_singleton, outermost_eq, isProgram]
    split
    · rfl
    · exact slots.outermost
  readings := by
    simp only [readings, List.reverse_singleton, List.flatMap_singleton, reading_eq,
      List.map_append]
    exact slots.readings.append block
  shapes := by simpa only [List.flatMap_singleton] using shapes

theorem templates_program (id : Nat) (statements : List Node) :
    Counts.ofTree.templates (.program id statements) = (statements.flatMap outermost).length := by
  simp only [Counts.ofTree, nested, slotNodes_program]

theorem map_unindexed_programBlock (id : Nat) (statements : List Node) :
    (programBlock .ofTree (.program id statements)).map Action.unindexed =
      (.startProgram, [.int (statements.flatMap outermost).length]) ::
        (statements.flatMap (shape (.inProgram statements.length)) ++ [(.endProgram, [])]) := by
  rw [programBlock, List.map_cons, List.map_append, map_unindexed_segments, ← templates_program id]
  rfl

theorem shape_element (c : Context) (id : Nat) (tag : String)
    (attributes children helpers : List Node) :
    shape c (.element id tag attributes children helpers) =
      (.openElement, [.ofOption c.place.count, .bool c.singleRoot,
        .int (mustacheCount (.element id tag attributes children helpers))]) ::
        (children.flatMap (shape (.inElement children.length)) ++
          [(.closeElement, [.ofOption c.place.count, .bool c.singleRoot])]) := by
  rw [shape, segment, List.map_cons, List.map_append, map_unindexed_segments]
  rfl

theorem alike_program {id id' : Nat} {statements statements' : List Node}
    (alike : AlikeAll statements statements') :
    Alike (.program id statements) (.program id' statements') := by
  refine alike_of_slots rfl (by simp) ?_ ?_ fun c => .refl _
  · rwa [slotNodes_program, slotNodes_program]
  · rw [map_unindexed_programBlock, map_unindexed_programBlock, alike.outermost, ← alike.length]
    exact ((alike.shapes _).append_right _).cons _

theorem alike_element {id id' : Nat} {tag : String}
    {attributes children children' helpers : List Node}
    (alike : AlikeAll children children') :
    Alike (.element id tag attributes children helpers)
      (.element id' tag attributes children' helpers) := by
  refine alike_of_slots rfl ?_ ?_ (.refl _) fun c => ?_
  · rw [dynamic_element_iff, dynamic_element_iff, alike.dynamic_iff]
  · rw [slotNodes_element, slotNodes_element]
    exact (AlikeAll.refl _).append alike
  · rw [shape_element, shape_element, mustacheCount, mustacheCount, alike.dynamic, ← alike.length]
    exact ((alike.shapes _).append_right _).cons _

theorem alike_block {id id' : Nat} {path : String} {params : List String}
    {body body' inverse inverse' : Option Node} (onBody : AlikeAll body.toList body'.toList)
    (onInverse : AlikeAll inverse.toList inverse'.toList) :
    Alike (.block id path params body inverse) (.block id' path params body' inverse') := by
  refine alike_of_slots rfl (by simp) ?_ (.refl _) fun c => .refl _
  rw [slotNodes_block, slotNodes_block]
  exact onBody.append onInverse

theorem alike_component {id id' : Nat} {tag : String} {attributes : List Node}
    {body body' inverse inverse' : Option Node} (onBody : AlikeAll body.toList body'.toList)
    (onInverse : AlikeAll inverse.toList inverse'.toList) :
    Alike (.component id tag attributes body inverse)
      (.component id' tag attributes body' inverse') := by
  refine alike_of_slots rfl (by simp) ?_ (.refl _) fun c => .refl _
  rw [slotNodes_component, slotNodes_component]
  exact ((AlikeAll.refl _).append onBody).append onInverse

namespace Reorders

variable {node node' : Node}

theorem alike (h : Reorders node node') : Alike node node' := by
  induction h with
  | statements perm => exact alike_program (.of_perm perm)
  | children perm => exact alike_element (.of_perm perm)
  | inStatement _ ih => exact alike_program (ih.replace _ _)
  | inChild _ ih => exact alike_element (ih.replace _ _)
  | inBlockBody _ ih => exact alike_block ih (.refl _)
  | inBlockInverse _ ih => exact alike_block (.refl _) ih
  | inComponentBody _ ih => exact alike_component ih (.refl _)
  | inComponentInverse _ ih => exact alike_component (.refl _) ih

theorem kind?_eq (h : Reorders node node') : node'.kind? = node.kind? := by
  cases h <;> rfl

theorem forall_replace {p : Node → Prop} {before after : List Node} {n n' : Node}
    (all : ∀ m ∈ before ++ n :: after, p m) (here : p n → p n') :
    ∀ m ∈ before ++ n' :: after, p m := by
  simp only [List.mem_append, List.mem_cons] at all ⊢
  rintro m (first | rfl | last)
  · exact all m (.inl first)
  · exact here (all n (.inr (.inl rfl)))
  · exact all m (.inr (.inr last))

theorem wellTyped (h : Reorders node node') (typed : node.WellTyped) : node'.WellTyped := by
  induction h with
  | statements perm =>
    cases typed with
    | program all => exact .program fun s member => all s (perm.mem_iff.mpr member)
  | children perm =>
    cases typed with
    | element kinds attributes all mustaches =>
      exact .element kinds attributes (fun c member => all c (perm.mem_iff.mpr member)) mustaches
  | inStatement _ ih =>
    cases typed with
    | program all => exact .program (forall_replace all ih)
  | inChild _ ih =>
    cases typed with
    | element kinds attributes all mustaches =>
      exact .element kinds attributes (forall_replace all ih) mustaches
  | inBlockBody inner ih =>
    cases typed with
    | block kind body kind' inverse =>
      exact .block (by simpa [inner.kind?_eq] using kind)
        (by simpa using ih (body _ rfl)) kind' inverse
  | inBlockInverse inner ih =>
    cases typed with
    | block kind body kind' inverse =>
      exact .block kind body (by simpa [inner.kind?_eq] using kind')
        (by simpa using ih (inverse _ rfl))
  | inComponentBody inner ih =>
    cases typed with
    | component kinds attributes kind body kind' inverse =>
      exact .component kinds attributes (by simpa [inner.kind?_eq] using kind)
        (by simpa using ih (body _ rfl)) kind' inverse
  | inComponentInverse inner ih =>
    cases typed with
    | component kinds attributes kind body kind' inverse =>
      exact .component kinds attributes kind body (by simpa [inner.kind?_eq] using kind')
        (by simpa using ih (inverse _ rfl))

end Reorders

/-- What one change of order leaves alone, any number of them leaves alone. -/
theorem reordered {root root' : Node} (moved : Relation.ReflTransGen Reorders root root')
    (typed : root.WellTyped) : root'.WellTyped ∧ root'.kind? = root.kind? ∧
      ((root.reading .ofTree).map Action.unindexed).Perm
        ((root'.reading .ofTree).map Action.unindexed) := by
  induction moved with
  | refl => exact ⟨typed, rfl, .refl _⟩
  | tail _ step ih =>
    obtain ⟨typed, kind, perm⟩ := ih
    have same := step.alike.readings
    simp only [readings, List.reverse_singleton, List.flatMap_singleton] at same
    exact ⟨step.wellTyped typed, step.kind?_eq.trans kind, perm.trans same⟩

theorem segments_eq (counts : Counts) (c : Context) (index : Nat) (nodes : List Node) :
    segments counts c index nodes =
      (nodes.zipIdx index).flatMap fun s => s.1.segment counts (c.atIndex s.2) := by
  induction nodes generalizing index with
  | nil => rfl
  | cons node rest ih => rw [segments, ih, List.zipIdx_cons, List.flatMap_cons]

theorem segment_atIndex (counts : Counts) (c : Context) (i j : Nat) (node : Node) :
    node.segment counts (c.atIndex j) = Action.reindexOuter j
      (node.segment counts (c.atIndex i)) := by
  cases node with
  | element id tag attributes children helpers =>
    rw [segment, segment, Action.reindexOuter, List.modifyHead_cons, ← List.cons_append,
      ← List.cons_append, List.modifyLast_concat]
    rfl
  | _ => rfl

/-- The blocks of the programs below a node, in the order in which they are compiled. -/
def nestedBlocks (node : Node) : List (List Action) :=
  (node.slotNodes.flatMap programs).reverse.map (programBlock .ofTree)

theorem nestedBlocks_perm (id id' : Nat) {statements statements' : List Node}
    (perm : statements.Perm statements') :
    (nestedBlocks (.program id statements)).Perm (nestedBlocks (.program id' statements')) := by
  have programs := perm.flatMap_right programs
  rw [nestedBlocks, nestedBlocks, slotNodes_program, slotNodes_program]
  exact ((List.reverse_perm _).trans (programs.trans (List.reverse_perm _).symm)).map _

theorem reading_eq_nestedBlocks (node : Node) :
    node.reading .ofTree = node.nestedBlocks.flatten ++ node.programBlock .ofTree := by
  rw [reading_eq, readings_eq, nestedBlocks, List.flatMap_def]

/-- The segment of a node at a place among the statements of a program. -/
def statementSegment (statements : Nat) (s : Node × Nat) : List Action :=
  s.1.segment .ofTree ((Context.inProgram statements).atIndex s.2)

/-- The block of a program with a count of nested programs and with segments for its statements. -/
def blockOf (program : Node) (templates : Nat) (segments : List (List Action)) : List Action :=
  .startProgram program templates :: (segments.flatten ++ [.endProgram program])

theorem WellTyped.compileActions_program {id : Nat} {statements : List Node}
    (h : (Node.program id statements).WellTyped) :
    (Node.program id statements).compileActions.1 =
      .ok ((Node.program id statements).nestedBlocks.flatten ++
        blockOf (.program id statements) (statements.flatMap outermost).length
          (statements.zipIdx.map (statementSegment statements.length))) := by
  rw [h.compileActions_eq rfl, reading_eq_nestedBlocks, programBlock, segments_eq, blockOf,
    ← List.flatMap_def, ← templates_program id]
  rfl

/-- If lists of statements and of children are put in other orders, a well-typed program compiles to
the same actions, apart from their order, their nodes and their indices. If these are the statements
of the root alone, its block has the same segments in the new order, with other indices for their
outermost actions, and before it stand the same blocks of nested programs in another order. -/
theorem WellTyped.compileActions_reordered {root : Node} (h : root.WellTyped)
    (kind : root.kind? = some .program) :
    (∀ root', Relation.ReflTransGen Reorders root root' →
      ∃ actions actions', root.compileActions.1 = .ok actions ∧ root'.compileActions.1 =
        .ok actions' ∧
        actions.length = actions'.length ∧
        (actions.map Action.unindexed).Perm (actions'.map Action.unindexed)) ∧
      ∀ (id id' : Nat) (statements statements' : List Node) (root' : Node),
        root = .program id statements → root' = .program id' statements' →
          statements.Perm statements' →
        ∃ templates, root.compileActions.1 = .ok (root.nestedBlocks.flatten ++
            blockOf root templates (statements.zipIdx.map (statementSegment statements.length))) ∧
          root'.compileActions.1 = .ok (root'.nestedBlocks.flatten ++
            blockOf root' templates (statements'.zipIdx.map (statementSegment statements.length))) ∧
          root.nestedBlocks.Perm root'.nestedBlocks ∧
          ∀ node i j, statementSegment statements.length (node, j) =
            Action.reindexOuter j (statementSegment statements.length (node, i)) := by
  constructor
  · intro root' moved
    obtain ⟨typed, kind', perm⟩ := reordered moved h
    refine ⟨_, _, h.compileActions_eq kind, typed.compileActions_eq (kind'.trans kind), ?_, perm⟩
    simpa using perm.length_eq
  · rintro id id' statements statements' root' rfl rfl perm
    have step : Reorders (.program id statements) (.program id' statements') := .statements perm
    have typed := step.wellTyped h
    have compiled := typed.compileActions_program
    rw [← (perm.flatMap_right outermost).length_eq, ← perm.length_eq] at compiled
    exact ⟨_, h.compileActions_program, compiled, nestedBlocks_perm id id' perm,
      fun node i j => segment_atIndex _ _ i j node⟩

def reorderedSample : Node :=
  .program 30
    [.component 18 "Card" [.attr 19 "size" (.text 20 "2")] (some (.program 21 [])) none,
    .element 31 "div" [.attr 2 "class" (.mustache 3 "style" [] true)]
      [.text 13 "end",
      .element 32 "p" []
        [.block 33 "if" ["shown"]
          (some (.program 34 [.program 8 [.attr 9 "id" (.text 10 "")], .text 7 "yes"]))
          (some (.program 11 [.mustache 12 "name" [] false]))] []]
      [.mustache 14 "on" [] true],
    .program 15 [.element 16 "b" [] [.text 17 "alone"] []]]

theorem reorders_sample : Relation.ReflTransGen Reorders sampleTree reorderedSample := by
  refine .head (@Reorders.inStatement 0 30 [] _ _ _ (@Reorders.inChild 1 31 _ _ [] _ _ _ _
    (@Reorders.inChild 4 32 _ _ [] _ _ _ _ (@Reorders.inBlockBody 5 33 _ _ _ _ _
      (@Reorders.statements 6 34 _ _ (.swap _ _ _)))))) ?_
  refine .head (@Reorders.inStatement 30 30 [] _ _ _ (@Reorders.children 31 31 _ _ _ _ _
    (.swap _ _ _))) ?_
  exact .single (.statements (@List.perm_append_comm _ [_, _] [_]))

theorem compileActions_reorderedSample :
    sampleTree.WellTyped ∧ Relation.ReflTransGen Reorders sampleTree reorderedSample ∧
      ∃ actions actions', sampleTree.compileActions.1 = .ok actions ∧
        reorderedSample.compileActions.1 = .ok actions' ∧
        (actions.map Action.unindexed).Perm (actions'.map Action.unindexed) ∧
        (actions.take 4).map Action.kind =
          [.startProgram, .endProgram, .startProgram, .openElement] ∧
        (actions'.take 4).map Action.kind =
          [.startProgram, .openElement, .text, .closeElement] := by
  have typed : sampleTree.WellTyped := by decide
  obtain ⟨actions, actions', compiled, compiled', -, perm⟩ :=
    (typed.compileActions_reordered rfl).1 _ reorders_sample
  obtain rfl := Except.ok.inj ((typed.compileActions_eq rfl).symm.trans compiled)
  have typed' : reorderedSample.WellTyped := by decide
  obtain rfl := Except.ok.inj ((typed'.compileActions_eq rfl).symm.trans compiled')
  exact ⟨typed, reorders_sample, _, _, compiled, compiled', perm, by decide +kernel,
    by decide +kernel⟩

end Node
end TemplateActions
