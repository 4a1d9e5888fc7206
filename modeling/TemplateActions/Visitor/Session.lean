import TemplateActions.Visitor.Basic

/-!
Sessions: a visitor that is driven step by step. Besides visiting nodes, a session may push frames
of its own, and pop and flush them in any order. Such frames are numbered from zero in the order
of pushing, and keep their contents when they leave the stack.
-/
namespace TemplateActions

inductive SessionError where
  | visit (e : VisitError)
  | noFrame
  | noSuchFrame

/-- `opened` lists the frames on the stack by number, the innermost first. -/
structure Session where
  frames : List Frame := []
  opened : List Nat := []
  actions : List Action := []
  log : List Record := []

namespace Session

inductive Step where
  | visit (node : Node)
  | reset
  | push (owner : Option Node) (target : FlushTarget) (place : Place)
  | set (place : Place)
  | pop (frame : Nat)
  | flush (frame : Nat) (parent : Option Nat)

def visitor (s : Session) : Visitor :=
  ⟨s.opened.map fun n => s.frames[n]?.getD {}, s.actions, s.log⟩

def adopt (s : Session) (v : Visitor) : Session :=
  { s with
    frames := (s.opened.zip v.stack).foldl (fun frames (n, frame) => frames.set n frame) s.frames
    actions := v.actions
    log := v.log }

def flush (s : Session) (frame : Frame) (parent : Option Nat) : Session × Option SessionError :=
  match frame.target, parent with
  | .global, _ => (s.adopt (s.visitor.flushGlobal frame), none)
  | .parent, none => (s, some (.visit .noParent))
  | .parent, some n =>
    let frames := s.frames.modify n fun parent =>
      { parent with actions := parent.actions ++ frame.actions }
    ({ s with frames }, none)

def run (s : Session) : Step → Session × Option SessionError
  | .visit node =>
    let (v, e) := node.visit s.visitor
    (s.adopt v, e.map .visit)
  | .reset => ({ s with opened := [], actions := [] }, none)
  | .push owner target place =>
    let frames := s.frames ++ [{ owner, target, place }]
    ({ s with frames, opened := s.frames.length :: s.opened }, none)
  | .set place =>
    match s.opened with
    | [] => (s, some .noFrame)
    | n :: _ => ({ s with frames := s.frames.modify n fun frame => { frame with place } }, none)
  | .pop n =>
    match s.opened with
    | [] => (s, some .noSuchFrame)
    | top :: rest =>
      if s.frames.length ≤ n then (s, some .noSuchFrame)
      else ({ s with opened := rest }, if top = n then none else some (.visit .frameMismatch))
  | .flush n parent =>
    match s.frames[n]? with
    | none => (s, some .noSuchFrame)
    | some frame =>
      if parent.any (s.frames.length ≤ ·) then (s, some .noSuchFrame) else s.flush frame parent

end Session
end TemplateActions
