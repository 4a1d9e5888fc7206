import TemplateActions.Visitor.Compile

/-!
What a visit does, said without the stack: the actions and counts that it adds to the innermost
frame, the actions that it adds to the global list, and the error that ends it. All of it is a
function of the node and of what the innermost frame shows of its place; this holds for every
object and every visitor. Only the log is left out.
-/
namespace TemplateActions

structure Context where
  place : Place
  singleRoot : Bool

namespace Context

def inProgram (statements : Nat) : Context := ⟨⟨none, some statements⟩, statements == 1⟩

def inElement (children : Nat) : Context := ⟨⟨none, some children⟩, false⟩

def atIndex (c : Context) (index : Nat) : Context :=
  { c with place := { c.place with index := some index } }

end Context

/-- What a visit adds to the innermost frame (`emitted` and the counts) and to the global list. -/
structure Outcome where
  emitted : List Action := []
  mustaches : Nat := 0
  templates : Nat := 0
  flushed : List Action := []
  error : Option VisitError := none

namespace Outcome

def failed (e : VisitError) : Outcome := { error := some e }

def andThen (first next : Outcome) : Outcome :=
  match first.error with
  | some _ => first
  | none =>
    ⟨first.emitted ++ next.emitted, first.mustaches + next.mustaches,
      first.templates + next.templates, first.flushed ++ next.flushed, next.error⟩

/-- The outcome of a program whose statements have the given outcome. An error drops the frame, and
with it all but the programs that were finished before. -/
def ofProgram (program : Node) (inner : Outcome) : Outcome :=
  match inner.error with
  | some e => { flushed := inner.flushed, error := some e }
  | none =>
    { templates := 1
      flushed := inner.flushed ++ .startProgram program inner.templates ::
        (inner.emitted.reverse ++ [.endProgram program]) }

def ofElement (element : Node) (c : Context) (helpers : Nat) (inner : Outcome) : Outcome :=
  match inner.error with
  | some e => { flushed := inner.flushed, error := some e }
  | none =>
    { emitted := .closeElement element c.place c.singleRoot ::
        (inner.emitted ++ [.openElement element c.place c.singleRoot (helpers + inner.mustaches)])
      mustaches := if helpers + inner.mustaches = 0 then 0 else 1
      templates := inner.templates
      flushed := inner.flushed }

def inside (kind : NodeKind) (c? : Option Context) (next : Context → Outcome) : Outcome :=
  match c? with
  | none => failed (.outsideProgram kind)
  | some c => next c

end Outcome

namespace Node

mutual

def outcome (c? : Option Context) : Node → Outcome
  | node@(.program _ statements) =>
    (childrenOutcome (.inProgram statements.length) 0 statements).ofProgram node
  | node@(.element _ _ attributes children helpers) =>
    Outcome.inside .element c? fun c =>
      let inner := Context.inElement children.length
      ((allOutcome (some inner) attributes).andThen (childrenOutcome inner 0 children)).ofElement
        node c helpers.length
  | node@(.attr ..) =>
    Outcome.inside .attr c? fun _ => { mustaches := if node.isDynamic then 1 else 0 }
  | node@(.block _ _ _ body inverse) =>
    Outcome.inside .block c? fun c =>
      Outcome.andThen { emitted := [.block node c.place], mustaches := 1 }
        ((optionOutcome c? inverse).andThen (optionOutcome c? body))
  | node@(.component _ _ _ body inverse) =>
    Outcome.inside .component c? fun c =>
      Outcome.andThen { emitted := [.component node c.place], mustaches := 1 }
        ((optionOutcome c? inverse).andThen (optionOutcome c? body))
  | node@(.text ..) =>
    Outcome.inside .text c? fun c => { emitted := [.text node c.place c.singleRoot] }
  | node@(.mustache ..) =>
    Outcome.inside .mustache c? fun c => { emitted := [.mustache node c.place], mustaches := 1 }
  | node@(.foreign ..) | node@(.bare ..) => Outcome.failed (.unknownNode node)
termination_by structural node => node

def childrenOutcome (c : Context) (index : Nat) : List Node → Outcome
  | [] => {}
  | node :: rest =>
    (childrenOutcome c (index + 1) rest).andThen (outcome (some (c.atIndex index)) node)

def allOutcome (c? : Option Context) : List Node → Outcome
  | [] => {}
  | node :: rest => (allOutcome c? rest).andThen (outcome c? node)

def optionOutcome (c? : Option Context) : Option Node → Outcome
  | none => {}
  | some node => outcome c? node

end

end Node

namespace Frame

def context (frame : Frame) : Context := ⟨frame.place, frame.isSingleRoot⟩

def add (frame : Frame) (o : Outcome) : Frame :=
  { frame with
    actions := frame.actions ++ o.emitted
    mustaches := frame.mustaches + o.mustaches
    templates := frame.templates + o.templates }

def withIndex (frame : Frame) (index : Option Int) : Frame :=
  { frame with place := { frame.place with index } }

@[simp] theorem add_empty (frame : Frame) : frame.add {} = frame := by simp [add]

theorem add_andThen (frame : Frame) {o : Outcome} (next : Outcome) (ok : o.error = none) :
    frame.add (o.andThen next) = (frame.add o).add next := by
  simp [add, Outcome.andThen, ok, Nat.add_assoc]

theorem context_program (program : Node) (statements : Nat) (actions : List Action)
    (isProgram : program.isProgram) :
    context { owner := some program, target := .global, place := ⟨none, some statements⟩,
              actions := actions } = .inProgram statements := by
  have single : (some (statements : Int) == some 1) = (statements == 1) := by
    rw [Bool.eq_iff_iff, beq_iff_eq, beq_iff_eq, Option.some_inj]
    omega
  simp [context, Context.inProgram, isSingleRoot, ownedByProgram, isProgram, single]

theorem modifyHead_add_idle (stack : List Frame) (flushed : List Action)
    (error : Option VisitError) :
    stack.modifyHead (·.add { flushed, error }) = stack := by
  cases stack <;> simp [add]

end Frame

namespace Visitor

def context? (v : Visitor) : Option Context := v.stack.head?.map Frame.context

end Visitor

/-- The result of a visit is the visitor with the outcome added, whatever has been logged. -/
structure Outcome.Explains (o : Outcome) (v : Visitor) (result : Visited) : Prop where
  stack : result.1.stack = v.stack.modifyHead (·.add o)
  actions : result.1.actions = v.actions ++ o.flushed
  error : result.2 = o.error

namespace Outcome.Explains

variable {v : Visitor} {o o' : Outcome} {result : Visited}

theorem context?_eq (h : o.Explains v result) : result.1.context? = v.context? := by
  simp only [Visitor.context?, h.stack]
  cases v.stack <;> rfl

theorem empty (v : Visitor) : ({} : Outcome).Explains v (v, none) where
  stack := by cases h : v.stack <;> simp
  actions := (List.append_nil _).symm
  error := rfl

theorem failed {w : Visitor} (e : VisitError) (stack : w.stack = v.stack)
    (actions : w.actions = v.actions) : (Outcome.failed e).Explains v (w, some e) where
  stack := by rw [stack, Outcome.failed, Frame.modifyHead_add_idle]
  actions := by rw [actions, Outcome.failed, List.append_nil]
  error := rfl

theorem update {change : Frame → Frame} (changed : ∀ frame, change frame = frame.add o)
    (unflushed : o.flushed = []) (ok : o.error = none) :
    o.Explains v (v.update change, none) where
  stack := by rw [funext changed]; rfl
  actions := by rw [unflushed, List.append_nil]; rfl
  error := ok.symm

theorem seq {w : Visitor} (first : o.Explains v (w, none)) (second : o'.Explains w result) :
    (o.andThen o').Explains v result := by
  obtain ⟨stack, actions, error⟩ := first
  have ok : o.error = none := error.symm
  dsimp only at stack actions
  refine ⟨?_, ?_, ?_⟩
  · simp only [second.stack, stack, List.modifyHead_modifyHead]
    simp only [Function.comp_def, Frame.add_andThen _ o' ok]
  · rw [second.actions, actions, List.append_assoc]
    simp [Outcome.andThen, ok]
  · rw [second.error]
    simp [Outcome.andThen, ok]

theorem andThen {next : Visitor → Visited} (first : o.Explains v result)
    (second : o'.Explains result.1 (next result.1)) :
    (o.andThen o').Explains v (result.andThen next) := by
  obtain ⟨w, _ | e⟩ := result
  · exact first.seq second
  · have stopped : o.andThen o' = o := by simp [Outcome.andThen, ← first.error]
    rw [stopped]
    exact first

theorem inside {kind : NodeKind} {o : Context → Outcome} {next : Frame → Visited}
    (step : ∀ frame rest, v.stack = frame :: rest → (o frame.context).Explains v (next frame)) :
    (Outcome.inside kind v.context? o).Explains v (Visited.inside kind v next) := by
  rcases v with ⟨_ | ⟨frame, rest⟩, actions, log⟩
  · exact failed _ rfl rfl
  · exact step frame rest rfl

theorem branches {action : Action} {body inverse : Option Node}
    (onInverse : ∀ w : Visitor,
      (Node.optionOutcome w.context? inverse).Explains w (Node.visitOption inverse w))
    (onBody : ∀ w : Visitor,
      (Node.optionOutcome w.context? body).Explains w (Node.visitOption body w)) :
    (Outcome.andThen { emitted := [action], mustaches := 1 }
      ((Node.optionOutcome v.context? inverse).andThen
        (Node.optionOutcome v.context? body))).Explains
      v ((Node.visitOption inverse (v.update fun f => f.countMustache.emit action)).andThen
        fun w => Node.visitOption body w) := by
  have called : Explains { emitted := [action], mustaches := 1 } v
      (v.update fun f => f.countMustache.emit action, none) := update (fun _ => rfl) rfl rfl
  have first := onInverse (v.update fun f => f.countMustache.emit action)
  have second := onBody (Node.visitOption inverse (v.update fun f => f.countMustache.emit action)).1
  rw [first.context?_eq, called.context?_eq] at second
  rw [called.context?_eq] at first
  exact called.seq (first.andThen second)

end Outcome.Explains

/-- Explains a result that may have moved the innermost frame on to another child. -/
def Outcome.Moves (o : Outcome) (v : Visitor) (result : Visited) : Prop :=
  ∃ index, o.Explains (v.update (·.withIndex index)) result

theorem Outcome.Explains.moves {v : Visitor} {o : Outcome} {result : Visited}
    (h : o.Explains v result) : o.Moves v result := by
  rcases v with ⟨_ | ⟨frame, rest⟩, actions, log⟩
  · exact ⟨none, h⟩
  · exact ⟨frame.place.index, h⟩

namespace Outcome.Moves

variable {v : Visitor} {o o' : Outcome} {result : Visited}

theorem context?_atIndex {c : Context} (h : o.Moves v result) (context : v.context? = some c)
    (index : Nat) : (result.1.update (·.atIndex index)).context? = some (c.atIndex index) := by
  obtain ⟨_, stack, -, -⟩ := h
  rcases v with ⟨_ | ⟨frame, rest⟩, actions, log⟩
  · cases context
  · cases context
    simp only [Visitor.context?, Visitor.update, stack]
    rfl

theorem andThen {next : Visitor → Visited} (first : o.Moves v result)
    (second : o'.Moves result.1 (next result.1)) :
    (o.andThen o').Moves v (result.andThen next) := by
  obtain ⟨index, first⟩ := first
  obtain ⟨w, _ | e⟩ := result
  · -- The second part overwrites the index, so the first one may have had the new index as well.
    obtain ⟨index', second⟩ := second
    have moved : o.Explains (v.update (·.withIndex index'))
        (w.update (·.withIndex index'), none) := by
      refine ⟨?_, first.actions, first.error⟩
      have stack := first.stack
      simp only [Visitor.update] at stack ⊢
      simp only [stack, List.modifyHead_modifyHead]
      rfl
    exact ⟨index', moved.seq second⟩
  · have stopped : o.andThen o' = o := by simp [Outcome.andThen, ← first.error]
    rw [stopped]
    exact ⟨index, first⟩

theorem height {frame : Frame} (inside : o.Moves (v.push frame) result) :
    result.1.stack.length = v.stack.length + 1 := by
  obtain ⟨index, stack, -, -⟩ := inside
  rw [stack, List.length_modifyHead, Visitor.update, List.length_modifyHead]
  rfl

theorem leaveProgram {frame : Frame} {program : Node}
    (inside : o.Moves (v.push frame) result) (fresh : frame.actions = [.endProgram program])
    (uncounted : frame.templates = 0) :
    (o.ofProgram program).Explains v
      (result.leave v.stack.length fun w => w.leaveProgram program) := by
  rw [Visited.leave.eq_def, if_pos inside.height]
  obtain ⟨⟨stack', actions', log⟩, failure⟩ := result
  obtain ⟨index, stack, actions, error⟩ := inside
  simp only [Visitor.push, Visitor.update, List.modifyHead_cons] at stack actions error
  subst stack actions
  cases failure with
  | some e =>
    simp only [Outcome.ofProgram, ← error]
    refine ⟨?_, rfl, rfl⟩
    rw [Frame.modifyHead_add_idle]
    rfl
  | none =>
    simp only [Outcome.ofProgram, ← error]
    refine ⟨?_, ?_, rfl⟩
    · simp [Visitor.leaveProgram, Visitor.flushGlobal, Visitor.record, Frame.add]
      rfl
    · simp [Visitor.leaveProgram, Visitor.flushGlobal, Visitor.record, Frame.add,
        Frame.withIndex, Frame.emit, fresh, uncounted]

theorem leaveElement {frame parent : Frame} {rest : List Frame} (element : Node)
    (inside : o.Moves (v.push frame) result) (top : v.stack = parent :: rest)
    (fresh : frame.actions = [.closeElement element parent.place parent.isSingleRoot])
    (uncounted : frame.templates = 0) :
    (o.ofElement element parent.context frame.mustaches).Explains v
      (result.leave v.stack.length
        fun w => w.leaveElement element parent.place parent.isSingleRoot) := by
  rw [Visited.leave.eq_def, if_pos inside.height]
  obtain ⟨⟨stack', actions', log⟩, failure⟩ := result
  obtain ⟨index, stack, actions, error⟩ := inside
  simp only [Visitor.push, Visitor.update, List.modifyHead_cons] at stack actions error
  subst stack actions
  cases failure with
  | some e =>
    simp only [Outcome.ofElement, ← error]
    refine ⟨?_, rfl, rfl⟩
    rw [Frame.modifyHead_add_idle]
    rfl
  | none =>
    simp only [Outcome.ofElement, ← error]
    refine ⟨?_, ?_, rfl⟩
    · simp [Visitor.leaveElement, top, Frame.add, Frame.withIndex, Frame.emit,
        Frame.absorb, Frame.context, fresh, uncounted]
      split <;> rfl
    · simp [Visitor.leaveElement]

end Outcome.Moves

namespace Node

mutual

/-- A visit does what the outcome of the node says, for every object and every visitor. -/
theorem visit_explained : ∀ (node : Node) (v : Visitor),
    (node.outcome v.context?).Explains v (node.visit v)
  | .program id statements, v => by
    rw [outcome, visit]
    refine (visitChildren_explained statements 0 (v.push _) ?_).leaveProgram ?_ ?_
    · exact congrArg some (Frame.context_program _ statements.length _ rfl)
    · rfl
    · rfl
  | .element id tag attributes children helpers, v => by
    rw [outcome, visit]
    refine .inside fun parent rest top => ?_
    dsimp only
    generalize framed : Frame.mk _ _ _ _ _ _ = frame
    have first := visitAll_explained attributes (v.push frame)
    have second := visitChildren_explained children 0 _ first.context?_eq
    have left := (first.moves.andThen second).leaveElement
      (.element id tag attributes children helpers) top
    subst framed
    exact left rfl rfl
  | .attr id name value, v => by
    rw [outcome, visit]
    refine .inside fun parent rest top => ?_
    split
    · exact .update (fun _ => by simp [Frame.countMustache, Frame.add]) rfl rfl
    · exact .empty v
  | .block id path params body inverse, v => by
    rw [outcome, visit]
    exact .inside fun _ _ _ =>
      .branches (visitOption_explained inverse) (visitOption_explained body)
  | .component id tag attributes body inverse, v => by
    rw [outcome, visit]
    exact .inside fun _ _ _ =>
      .branches (visitOption_explained inverse) (visitOption_explained body)
  | .text id chars, v => by
    rw [outcome, visit]
    exact .inside fun _ _ _ =>
      .update (fun _ => by simp [Frame.emit, Frame.add, Frame.context]) rfl rfl
  | .mustache id path params escaped, v => by
    rw [outcome, visit]
    exact .inside fun _ _ _ => .update (fun _ => rfl) rfl rfl
  | .foreign id kind, v => .failed _ rfl rfl
  | .bare id value, v => .failed _ rfl rfl

theorem visitChildren_explained : ∀ (nodes : List Node) (index : Nat) (v : Visitor) {c : Context},
    v.context? = some c → (childrenOutcome c index nodes).Moves v (visitChildren index nodes v)
  | [], _, v, _, _ => (Outcome.Explains.empty v).moves
  | node :: rest, index, v, c, context => by
    have first := visitChildren_explained rest (index + 1) v context
    have second := visit_explained node
      ((visitChildren (index + 1) rest v).1.update (·.atIndex index))
    rw [first.context?_atIndex context] at second
    exact first.andThen ⟨some index, second⟩

theorem visitAll_explained : ∀ (nodes : List Node) (v : Visitor),
    (allOutcome v.context? nodes).Explains v (visitAll nodes v)
  | [], v => .empty v
  | node :: rest, v => by
    have first := visitAll_explained rest v
    have second := visit_explained node (visitAll rest v).1
    rw [first.context?_eq] at second
    exact first.andThen second

theorem visitOption_explained : ∀ (node : Option Node) (v : Visitor),
    (optionOutcome v.context? node).Explains v (visitOption node v)
  | none, v => .empty v
  | some node, v => visit_explained node v

end

/-- Compiling gives the actions that reach the global list, unless there is an error. -/
theorem compileActions_eq (root : Node) :
    root.compileActions.1 =
      match (root.outcome none).error with
      | some e => .error e
      | none => .ok (root.outcome none).flushed := by
  obtain ⟨-, actions, error⟩ := visit_explained root {}
  rw [compileActions]
  generalize root.visit {} = result at *
  obtain ⟨⟨stack, found, log⟩, failure⟩ := result
  obtain rfl : found = (root.outcome none).flushed := actions
  obtain rfl : failure = (root.outcome none).error := error
  cases (root.outcome none).error <;> rfl

end Node
end TemplateActions
