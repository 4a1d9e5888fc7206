import Mathlib.Data.List.Induction
import TemplateActions.Proofs.Visitor.Nesting
import TemplateActions.Proofs.Visitor.Outcome
import TemplateActions.Visitor.Session

/-!
Sessions in which one visitor visits any objects, one after the other, and is reset at times. Visits
may fail, and slots may hold what does not belong there. Between two calls the stack is empty, and
the global list consists of whole blocks: a program with its markers, and between them elements with
their brackets, properly nested. Incomplete elements and programs are never seen, because a frame
hands its actions on only when it is complete.
-/
namespace TemplateActions

namespace Action

/-- Actions in which elements are opened and closed in proper nesting, both times with the same node
and the same place, and which hold no markers of programs. -/
inductive Nested : List Action → Prop
  | nil : Nested []
  | plain {action : Action} {rest : List Action} :
      action.isMarker = false → action.kind ≠ .openElement → action.kind ≠ .closeElement →
      Nested rest → Nested (action :: rest)
  | element {node : Node} {place : Place} {singleRoot : Bool} {mustaches : Nat}
      {inner rest : List Action} :
      Nested inner → Nested rest →
      Nested (.openElement node place singleRoot mustaches ::
        (inner ++ .closeElement node place singleRoot :: rest))

theorem Nested.append {first next : List Action} (h : Nested first) (h' : Nested next) :
    Nested (first ++ next) := by
  induction h with
  | nil => exact h'
  | plain unmarked unopened unclosed _ ih => exact .plain unmarked unopened unclosed ih
  | element inner _ _ ih =>
    rw [List.cons_append, List.append_assoc, List.cons_append]
    exact .element inner ih

theorem Nested.unmarked {actions : List Action} (h : Nested actions) :
    ∀ a ∈ actions, a.isMarker = false := by
  induction h with
  | nil => exact nofun
  | plain unmarked _ _ _ ih => exact List.forall_mem_cons.mpr ⟨unmarked, ih⟩
  | element _ _ inInner inRest =>
    simp only [List.mem_cons, List.mem_append]
    rintro a (rfl | member | rfl | member)
    · rfl
    · exact inInner a member
    · rfl
    · exact inRest a member

/-- A whole program: between its two markers nothing but properly nested actions. -/
def IsBlock (actions : List Action) : Prop :=
  ∃ program templates inner,
    actions = .startProgram program templates :: (inner ++ [.endProgram program]) ∧
      (∀ a ∈ inner, a.isMarker = false) ∧ Nested inner

def AreBlocks (actions : List Action) : Prop :=
  ∃ blocks : List (List Action), actions = blocks.flatten ∧ ∀ block ∈ blocks, IsBlock block

theorem areBlocks_nil : AreBlocks [] := ⟨[], rfl, nofun⟩

theorem AreBlocks.append {first next : List Action} (h : AreBlocks first) (h' : AreBlocks next) :
    AreBlocks (first ++ next) := by
  obtain ⟨blocks, rfl, each⟩ := h
  obtain ⟨blocks', rfl, each'⟩ := h'
  refine ⟨blocks ++ blocks', List.flatten_append.symm, fun block member => ?_⟩
  exact (List.mem_append.mp member).elim (each block) (each' block)

theorem IsBlock.areBlocks {block : List Action} (h : IsBlock block) : AreBlocks block :=
  ⟨[block], (List.append_nil block).symm, by simpa using h⟩

end Action

open TemplateActions.Action (Nested AreBlocks)

/-- What is handed on is complete: nested actions in reverse for the innermost frame, whole programs
for the global list. This holds of outcomes with an error, too. -/
structure Outcome.Complete (o : Outcome) : Prop where
  emitted : Nested o.emitted.reverse
  flushed : AreBlocks o.flushed

namespace Outcome

theorem complete_of_empty {o : Outcome} (emitted : o.emitted = []) (flushed : o.flushed = []) :
    o.Complete :=
  ⟨emitted ▸ .nil, flushed ▸ Action.areBlocks_nil⟩

theorem complete_plain {action : Action} (mustaches : Nat) (unmarked : action.isMarker = false)
    (unopened : action.kind ≠ .openElement) (unclosed : action.kind ≠ .closeElement) :
    Complete { emitted := [action], mustaches } :=
  ⟨.plain unmarked unopened unclosed .nil, Action.areBlocks_nil⟩

theorem complete_inside {kind : NodeKind} {c? : Option Context} {next : Context → Outcome}
    (each : ∀ c, (next c).Complete) : (inside kind c? next).Complete := by
  cases c? with
  | none => exact complete_of_empty rfl rfl
  | some c => exact each c

variable {o o' : Outcome}

theorem Complete.andThen (h : o.Complete) (h' : o'.Complete) : (o.andThen o').Complete := by
  rw [Outcome.andThen]
  split
  · exact h
  · refine ⟨?_, h.flushed.append h'.flushed⟩
    rw [List.reverse_append]
    exact h'.emitted.append h.emitted

theorem Complete.ofProgram (h : o.Complete) (program : Node) : (o.ofProgram program).Complete := by
  rw [Outcome.ofProgram]
  split
  · exact ⟨.nil, h.flushed⟩
  · refine ⟨.nil, h.flushed.append (Action.IsBlock.areBlocks ?_)⟩
    exact ⟨program, o.templates, o.emitted.reverse, rfl, h.emitted.unmarked, h.emitted⟩

theorem Complete.ofElement (h : o.Complete) (element : Node) (c : Context) (helpers : Nat) :
    (o.ofElement element c helpers).Complete := by
  rw [Outcome.ofElement]
  split
  · exact ⟨.nil, h.flushed⟩
  · refine ⟨?_, h.flushed⟩
    simp only [List.reverse_cons, List.reverse_append, List.reverse_nil, List.nil_append,
      List.cons_append]
    exact .element h.emitted .nil

theorem Complete.branches {action : Action} {body inverse : Outcome}
    (unmarked : action.isMarker = false) (unopened : action.kind ≠ .openElement)
    (unclosed : action.kind ≠ .closeElement) (onInverse : inverse.Complete)
    (onBody : body.Complete) :
    (Outcome.andThen { emitted := [action], mustaches := 1 } (inverse.andThen body)).Complete :=
  (complete_plain 1 unmarked unopened unclosed).andThen (onInverse.andThen onBody)

end Outcome

namespace Node

mutual

/-- A visit hands on what is complete, for every object and wherever it fails. -/
theorem outcome_complete : ∀ (node : Node) (c? : Option Context), (node.outcome c?).Complete
  | .program id statements, c? => by
    rw [outcome]
    exact (childrenOutcome_complete statements _ 0).ofProgram _
  | .element id tag attributes children helpers, c? => by
    rw [outcome]
    refine Outcome.complete_inside fun c => ?_
    exact ((allOutcome_complete attributes _).andThen
      (childrenOutcome_complete children _ 0)).ofElement _ c _
  | .attr id name value, c? => by
    rw [outcome]
    exact Outcome.complete_inside fun _ => Outcome.complete_of_empty rfl rfl
  | .block id path params body inverse, c? => by
    rw [outcome]
    refine Outcome.complete_inside fun _ => Outcome.Complete.branches rfl nofun nofun ?_ ?_
    · exact optionOutcome_complete inverse c?
    · exact optionOutcome_complete body c?
  | .component id tag attributes body inverse, c? => by
    rw [outcome]
    refine Outcome.complete_inside fun _ => Outcome.Complete.branches rfl nofun nofun ?_ ?_
    · exact optionOutcome_complete inverse c?
    · exact optionOutcome_complete body c?
  | .text id chars, c? => by
    rw [outcome]
    exact Outcome.complete_inside fun _ => Outcome.complete_plain 0 rfl nofun nofun
  | .mustache id path params escaped, c? => by
    rw [outcome]
    exact Outcome.complete_inside fun _ => Outcome.complete_plain 1 rfl nofun nofun
  | .foreign id kind, c? => Outcome.complete_of_empty rfl rfl
  | .bare id value, c? => Outcome.complete_of_empty rfl rfl

theorem childrenOutcome_complete : ∀ (nodes : List Node) (c : Context) (index : Nat),
    (childrenOutcome c index nodes).Complete
  | [], _, _ => Outcome.complete_of_empty rfl rfl
  | node :: rest, c, index =>
    (childrenOutcome_complete rest c (index + 1)).andThen (outcome_complete node _)

theorem allOutcome_complete : ∀ (nodes : List Node) (c? : Option Context),
    (allOutcome c? nodes).Complete
  | [], _ => Outcome.complete_of_empty rfl rfl
  | node :: rest, c? => (allOutcome_complete rest c?).andThen (outcome_complete node c?)

theorem optionOutcome_complete : ∀ (node : Option Node) (c? : Option Context),
    (optionOutcome c? node).Complete
  | none, _ => Outcome.complete_of_empty rfl rfl
  | some node, c? => outcome_complete node c?

end

end Node

namespace Session

/-- The calls that users of a visitor make. -/
inductive Call where
  | visit (node : Node)
  | reset

def Call.step : Call → Step
  | .visit node => .visit node
  | .reset => .reset

/-- A fresh session after some calls. A call that fails leaves its traces, and the session goes
on. -/
def after (calls : List Call) : Session := calls.foldl (fun s call => (s.run call.step).1) {}

theorem after_concat (calls : List Call) (call : Call) :
    after (calls ++ [call]) = ((after calls).run call.step).1 := by
  rw [after, List.foldl_append]
  rfl

/-- A session between two calls: no frame is open, and the actions are whole programs. -/
structure Settled (s : Session) : Prop where
  opened : s.opened = []
  actions : AreBlocks s.actions

theorem Settled.run {s : Session} (h : s.Settled) (call : Call) : (s.run call.step).1.Settled := by
  cases call with
  | visit node =>
    obtain ⟨-, actions, -⟩ := Node.visit_explained node s.visitor
    refine ⟨h.opened, ?_⟩
    rw [Call.step, Session.run]
    simp only [adopt, actions]
    exact h.actions.append (Node.outcome_complete node _).flushed
  | reset => exact ⟨rfl, Action.areBlocks_nil⟩

theorem after_settled (calls : List Call) : (after calls).Settled := by
  induction calls using List.reverseRecOn with
  | nil => exact ⟨rfl, Action.areBlocks_nil⟩
  | append_singleton calls call ih =>
    rw [after_concat]
    exact ih.run call

/-- After any calls, failed ones among them, the stack is empty and the actions are whole programs,
one after the other, with properly nested elements in each. -/
theorem after_areBlocks (calls : List Call) :
    (after calls).visitor.stack = [] ∧
      ∃ blocks : List (List Action), (after calls).visitor.actions = blocks.flatten ∧
        ∀ block ∈ blocks, ∃ program templates inner,
          block = .startProgram program templates :: (inner ++ [.endProgram program]) ∧
            (∀ a ∈ inner, a.isMarker = false) ∧ Nested inner := by
  obtain ⟨opened, actions⟩ := after_settled calls
  exact ⟨by rw [visitor, opened, List.map_nil], actions⟩

example :
    (after [.visit (.program 0 [.bare 1 .null, .program 2 [.element 3 "p" [] [.text 4 "x"] []]]),
        .visit (.program 5 [.block 6 "if" [] (some (.element 7 "b" [] [] [])) none])]).actions.map
      (fun a => (a.kind, a.node.id)) =
      [(.startProgram, 2), (.openElement, 3), (.text, 4), (.closeElement, 3), (.endProgram, 2),
        (.startProgram, 5), (.openElement, 7), (.closeElement, 7), (.block, 6),
        (.endProgram, 5)] := by
  decide +kernel

end Session
end TemplateActions
