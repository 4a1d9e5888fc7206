import TemplateActions.Action

/-!
Frames: what is known about a program or an element while its children are visited.
-/
namespace TemplateActions

/-- Where the actions of a finished frame go: reversed to the global list, or as they are to the
enclosing frame. -/
inductive FlushTarget where
  | global
  | parent
deriving DecidableEq

/-- `place` tells which child of the owner is being visited, `templates` counts the nested programs
seen so far, and `mustaches` the dynamic parts directly below the owner. -/
structure Frame where
  owner : Option Node := none
  target : FlushTarget := .parent
  place : Place := ⟨none, none⟩
  templates : Nat := 0
  mustaches : Nat := 0
  actions : List Action := []

namespace Frame

def ownedByProgram (frame : Frame) : Bool :=
  match frame.owner with
  | some owner => owner.isProgram
  | none => false

def isSingleRoot (frame : Frame) : Bool := frame.ownedByProgram && frame.place.count == some 1

def atIndex (frame : Frame) (index : Nat) : Frame :=
  { frame with place := { frame.place with index := some index } }

def emit (frame : Frame) (action : Action) : Frame :=
  { frame with actions := frame.actions ++ [action] }

def countMustache (frame : Frame) : Frame := { frame with mustaches := frame.mustaches + 1 }

/-- What a frame keeps of a nested program that was visited below it. -/
def countTemplate (frame : Frame) : Frame := { frame with templates := frame.templates + 1 }

/-- What a frame keeps of an element that was visited below it, apart from its actions. -/
def absorb (frame element : Frame) : Frame :=
  { frame with
    mustaches := if element.mustaches = 0 then frame.mustaches else frame.mustaches + 1
    templates := frame.templates + element.templates }

end Frame
end TemplateActions
