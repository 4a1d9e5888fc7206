import TemplateActions.Frame
import TemplateActions.Node.Literal
import TemplateActions.Record

/-!
The visitor walks a template tree depth first and backwards. A frame is pushed when it enters a
program or an element and popped when it leaves it, also if it leaves because of an error. A
finished program goes to the global list of actions, reversed and at once, so that nested programs
stand before the program around them.
-/
namespace TemplateActions

inductive VisitError where
  | unknownNode (node : Node)
  | outsideProgram (kind : NodeKind)
  | frameMismatch
  | noParent

def VisitError.message : VisitError → String
  | .unknownNode node => "Unknown template node type: " ++ node.label?.getD node.typeName
  | .outsideProgram kind => "Node '" ++ kind.name ++ "' must be visited inside a program"
  | .frameMismatch => "Frame stack corrupted: popped frame does not match the node being left"
  | .noParent => "Frame stack corrupted: nested frame has no parent to flush into"

/-- The innermost frame stands first on the stack. -/
structure Visitor where
  stack : List Frame := []
  actions : List Action := []
  log : List Record := []

namespace Visitor

def current? (v : Visitor) : Option Frame := v.stack.head?

def push (v : Visitor) (frame : Frame) : Visitor := { v with stack := frame :: v.stack }

def pop (v : Visitor) : Visitor := { v with stack := v.stack.tail }

def update (v : Visitor) (change : Frame → Frame) : Visitor :=
  { v with stack := v.stack.modifyHead change }

def record (v : Visitor) (entry : Record) : Visitor := { v with log := v.log ++ [entry] }

def flushRecord (statements : Option Int) (actions total : Nat) : Record :=
  .debug <| statements.map fun n =>
    "Flushed program with " ++ Decimal.ofInt n ++ " statement(s): " ++ Decimal.ofNat actions ++
      " action(s), " ++ Decimal.ofNat total ++ " total"

/-- Moves the actions of a frame to the end of the global list, in reverse. -/
def flushGlobal (v : Visitor) (frame : Frame) : Visitor :=
  let actions := v.actions ++ frame.actions.reverse
  { v with actions }.record (flushRecord frame.place.count frame.actions.length actions.length)

def leaveProgram (v : Visitor) (program : Node) : Visitor :=
  match v.stack with
  | [] => v
  | frame :: rest =>
    let frame := frame.emit (.startProgram program frame.templates)
    { v with stack := rest.modifyHead Frame.countTemplate }.flushGlobal frame

/-- Ends the element whose frame is the innermost one; `place` and `singleRoot` are its own. -/
def leaveElement (v : Visitor) (element : Node) (place : Place) (singleRoot : Bool) : Visitor :=
  match v.stack with
  | [] => v
  | frame :: rest =>
    let frame := frame.emit (.openElement element place singleRoot frame.mustaches)
    { v with stack := rest.modifyHead fun parent =>
        { parent.absorb frame with actions := parent.actions ++ frame.actions } }

end Visitor

/-- A visitor after a visit, and the error that ended the visit early if there was one. The visitor
holds all that was done up to then. -/
abbrev Visited := Visitor × Option VisitError

namespace Visited

def andThen (result : Visited) (next : Visitor → Visited) : Visited :=
  match result with
  | (v, some e) => (v, some e)
  | (v, none) => next v

/-- Leaves the frame that was pushed onto `below` others, which is dropped if there was an error.
It has to be the innermost one. -/
def leave (result : Visited) (below : Nat) (finish : Visitor → Visitor) : Visited :=
  if result.1.stack.length = below + 1 then
    match result with
    | (v, some e) => (v.pop, some e)
    | (v, none) => (finish v, none)
  else (result.1.pop, some .frameMismatch)

/-- Gives up on an object that the visitor has no rule for. Its record has a text if the object
can be written. -/
def unknown (text : String) (node : Node) (v : Visitor) : Visited :=
  let message := if node.isWritable then some (text ++ String.ofList node.literal) else none
  (v.record (.error message), some (.unknownNode node))

/-- Goes on inside the innermost frame; without one, a node of that kind cannot be visited. -/
def inside (kind : NodeKind) (v : Visitor) (next : Frame → Visited) : Visited :=
  match v.current? with
  | none => (v, some (.outsideProgram kind))
  | some frame => next frame

end Visited

namespace Node

mutual

def visit : Node → Visitor → Visited
  | node@(.program _ statements), v =>
    let frame : Frame :=
      { owner := some node, target := .global, place := ⟨none, some statements.length⟩,
        actions := [.endProgram node] }
    (visitChildren 0 statements (v.push frame)).leave v.stack.length fun v => v.leaveProgram node
  | node@(.element _ _ attributes children helpers), v =>
    Visited.inside .element v fun parent =>
      let frame : Frame :=
        { owner := some node, target := .parent, place := ⟨none, some children.length⟩,
          mustaches := helpers.length,
          actions := [.closeElement node parent.place parent.isSingleRoot] }
      let inside := (visitAll attributes (v.push frame)).andThen fun v => visitChildren 0 children v
      inside.leave v.stack.length fun v => v.leaveElement node parent.place parent.isSingleRoot
  | node@(.attr ..), v =>
    Visited.inside .attr v fun _ =>
      (if node.isDynamic then v.update Frame.countMustache else v, none)
  | node@(.block _ _ _ body inverse), v =>
    Visited.inside .block v fun frame =>
      let v := v.update fun f => f.countMustache.emit (.block node frame.place)
      (visitOption inverse v).andThen
        fun v => visitOption body v
  | node@(.component _ _ _ body inverse), v =>
    Visited.inside .component v fun frame =>
      let v := v.update fun f => f.countMustache.emit (.component node frame.place)
      (visitOption inverse v).andThen
        fun v => visitOption body v
  | node@(.text ..), v =>
    Visited.inside .text v fun frame =>
      (v.update fun f => f.emit (.text node frame.place frame.isSingleRoot), none)
  | node@(.mustache ..), v =>
    Visited.inside .mustache v fun frame =>
      (v.update fun f => f.countMustache.emit (.mustache node frame.place), none)
  | node@(.foreign ..), v => Visited.unknown "No handler for node " node v
  | node@(.bare ..), v => Visited.unknown "Refusing to visit non-template object " node v
termination_by structural node => node

/-- Visits the children of the innermost frame's owner from the last one to the first. `index` is
the position of the first of them. -/
def visitChildren (index : Nat) : List Node → Visitor → Visited
  | [], v => (v, none)
  | node :: rest, v =>
    (visitChildren (index + 1) rest v).andThen fun v =>
      visit node (v.update fun f => f.atIndex index)

/-- Visits nodes that have no position from the last one to the first. -/
def visitAll : List Node → Visitor → Visited
  | [], v => (v, none)
  | node :: rest, v => (visitAll rest v).andThen fun v => visit node v

def visitOption : Option Node → Visitor → Visited
  | none, v => (v, none)
  | some node, v => visit node v

end

end Node
end TemplateActions
