import TemplateActions.Proofs.Visitor.Sessions

/-!
What a visit changes. Whatever a visitor holds, whatever object it visits and however the visit
ends, the stack keeps its frames: only the innermost one gains something, and only at the end of
its actions and in its counts. What is gained depends on the object and on what the innermost
frame shows of its place, so a visitor that is used again does what a fresh one does.
-/
namespace TemplateActions

/-- Holds if the second frame is the first one with more visited below its owner. -/
structure Frame.GrowsTo (frame later : Frame) : Prop where
  owner : later.owner = frame.owner
  target : later.target = frame.target
  place : later.place = frame.place
  mustaches : frame.mustaches ≤ later.mustaches
  templates : frame.templates ≤ later.templates
  actions : frame.actions <+: later.actions

theorem Frame.growsTo_add (frame : Frame) (o : Outcome) : frame.GrowsTo (frame.add o) where
  owner := rfl
  target := rfl
  place := rfl
  mustaches := Nat.le_add_right _ _
  templates := Nat.le_add_right _ _
  actions := List.prefix_append _ _

namespace Outcome

variable {o : Outcome} {e : VisitError}

theorem ofProgram_failed (program : Node) (failed : o.error = some e) :
    o.ofProgram program = { flushed := o.flushed, error := some e } := by
  rw [ofProgram, failed]

theorem ofProgram_finished (program : Node) (ok : o.error = none) :
    (o.ofProgram program).error = none ∧ ∀ frame : Frame,
      frame.add (o.ofProgram program) = frame.countTemplate := by
  simp [ofProgram, ok, Frame.add, Frame.countTemplate]

theorem ofElement_failed (element : Node) (c : Context) (helpers : Nat)
    (failed : o.error = some e) :
    o.ofElement element c helpers = { flushed := o.flushed, error := some e } := by
  rw [ofElement, failed]

end Outcome

namespace Node

variable {x : Node}

theorem outcome_of_isProgram (isProgram : x.isProgram) (c? : Option Context) :
    x.outcome c? = x.outcome none := by
  cases x <;> cases isProgram
  rfl

theorem add_outcome_of_isProgram (isProgram : x.isProgram) (ok : (x.outcome none).error = none)
    (frame : Frame) : frame.add (x.outcome none) = frame.countTemplate := by
  cases x with
  | program id statements =>
    rw [outcome] at ok ⊢
    generalize childrenOutcome _ 0 statements = inner at ok ⊢
    cases failure : inner.error with
    | none => exact (Outcome.ofProgram_finished _ failure).2 frame
    | some e => rw [Outcome.ofProgram_failed _ failure] at ok; cases ok
  | _ => cases isProgram

theorem outcome_of_error (kind : x.kind? = some .program ∨ x.kind? = some .element)
    {c? : Option Context} {e : VisitError} (failed : (x.outcome c?).error = some e) :
    ∃ flushed, x.outcome c? = { flushed, error := some e } := by
  cases x with
  | program id statements =>
    rw [outcome] at failed ⊢
    generalize childrenOutcome _ 0 statements = inner at failed ⊢
    cases failure : inner.error with
    | none => rw [(Outcome.ofProgram_finished _ failure).1] at failed; cases failed
    | some e' =>
      rw [Outcome.ofProgram_failed _ failure] at failed ⊢
      cases failed
      exact ⟨_, rfl⟩
  | element id tag attributes children helpers =>
    rw [outcome] at failed ⊢
    cases c? with
    | none =>
      cases failed
      exact ⟨[], rfl⟩
    | some c =>
      dsimp only [Outcome.inside] at failed ⊢
      generalize Outcome.andThen _ _ = inner at failed ⊢
      cases failure : inner.error with
      | none => rw [Outcome.ofElement, failure] at failed; cases failed
      | some e' =>
        rw [Outcome.ofElement_failed _ _ _ failure] at failed ⊢
        cases failed
        exact ⟨_, rfl⟩
  | _ => rcases kind with kind | kind <;> cases kind

/-- However a visit ends, the stack has the same frames as before; those below the innermost one are
unchanged, and the innermost one has at most grown, as has the global list. A program or an element
that fails leaves the innermost frame unchanged, too. -/
theorem visit_frames (x : Node) (v : Visitor) :
    (v.stack = [] → (x.visit v).1.stack = []) ∧
      (∀ top rest, v.stack = top :: rest →
        ∃ later, (x.visit v).1.stack = later :: rest ∧ top.GrowsTo later) ∧
      v.actions <+: (x.visit v).1.actions ∧
      (x.kind? = some .program ∨ x.kind? = some .element → (x.visit v).2 ≠ none →
        (x.visit v).1.stack = v.stack) := by
  obtain ⟨stack, actions, error⟩ := visit_explained x v
  refine ⟨fun empty => ?_, fun top rest split => ?_, ?_, fun kind failed => ?_⟩
  · rw [stack, empty, List.modifyHead_nil]
  · rw [stack, split, List.modifyHead_cons]
    exact ⟨_, rfl, top.growsTo_add _⟩
  · rw [actions]
    exact List.prefix_append _ _
  · obtain ⟨e, isError⟩ := Option.ne_none_iff_exists'.mp failed
    obtain ⟨flushed, isOutcome⟩ := outcome_of_error kind (error.symm.trans isError)
    rw [stack, isOutcome, Frame.modifyHead_add_idle]

/-- In a session, an object is visited as by a fresh visitor, behind the actions that are there. -/
theorem run_visit_eq_fresh (calls : List Session.Call) (x : Node) :
    ((Session.after calls).run (.visit x)).2 = (x.visit {}).2.map .visit ∧
      ((Session.after calls).run (.visit x)).1.actions =
        (Session.after calls).actions ++ (x.visit {}).1.actions := by
  have outside : (Session.after calls).visitor.context? = none := by
    rw [Visitor.context?, Session.visitor, (Session.after_settled calls).opened]
    rfl
  obtain ⟨-, actions, error⟩ := visit_explained x (Session.after calls).visitor
  obtain ⟨-, freshActions, freshError⟩ := visit_explained x {}
  rw [outside] at actions error
  refine ⟨?_, ?_⟩
  · rw [freshError]
    exact congrArg (Option.map _) error
  · rw [freshActions]
    exact actions

/-- A visit does the same in any two visitors whose innermost frames show the same place, or that
have no frames at all: it ends the same way, and adds the same to the global list and to the
innermost frame. For a program even this does not matter, and a program that does not fail adds
what it is compiled to. So whatever was visited before, with or without errors, a visitor does
what a fresh one does, and after a reset it holds what a fresh one would hold. -/
theorem visit_determined (x : Node) :
    (∀ v w : Visitor, v.context? = w.context? →
      ∃ o : Outcome, o.Explains v (x.visit v) ∧ o.Explains w (x.visit w)) ∧
      (x.isProgram → ∃ o : Outcome, (∀ v, o.Explains v (x.visit v)) ∧
        (o.error = none → x.compileActions.1 = .ok o.flushed ∧
          ∀ frame : Frame, frame.add o = frame.countTemplate)) ∧
      ∀ calls : List Session.Call,
        ((Session.after calls).run (.visit x)).2 = (x.visit {}).2.map .visit ∧
          ((Session.after calls).run (.visit x)).1.actions =
            (Session.after calls).actions ++ (x.visit {}).1.actions ∧
          (Session.after (calls ++ [.reset, .visit x])).actions = (x.visit {}).1.actions := by
  refine ⟨fun v w same => ?_, fun isProgram => ?_, fun calls => ?_⟩
  · exact ⟨_, visit_explained x v, same ▸ visit_explained x w⟩
  · refine ⟨x.outcome none, fun v => ?_, fun ok => ⟨?_, add_outcome_of_isProgram isProgram ok⟩⟩
    · rw [← outcome_of_isProgram isProgram v.context?]
      exact visit_explained x v
    · rw [compileActions_eq, ok]
  · obtain ⟨error, actions⟩ := run_visit_eq_fresh calls x
    refine ⟨error, actions, ?_⟩
    rw [List.append_cons, Session.after_concat]
    refine (run_visit_eq_fresh (calls ++ [.reset]) x).2.trans ?_
    rw [Session.after_concat]
    rfl

end Node
end TemplateActions
