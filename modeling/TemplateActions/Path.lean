import TemplateActions.Number.Decimal

/-!
Paths into trees and documents: a start, then fields and items of list fields.
-/
namespace TemplateActions

inductive Field where
  | type
  | statements
  | tag
  | attributes
  | children
  | helpers
  | name
  | value
  | path
  | params
  | program
  | inverse
  | chars
  | escaped
deriving DecidableEq

def Field.text : Field → String
  | .type => "type"
  | .statements => "statements"
  | .tag => "tag"
  | .attributes => "attributes"
  | .children => "children"
  | .helpers => "helpers"
  | .name => "name"
  | .value => "value"
  | .path => "path"
  | .params => "params"
  | .program => "program"
  | .inverse => "inverse"
  | .chars => "chars"
  | .escaped => "escaped"

inductive Step where
  | field (slot : Field)
  | item (slot : Field) (index : Nat)
deriving DecidableEq

def Step.text : Step → String
  | .field slot => "." ++ slot.text
  | .item slot index => "." ++ slot.text ++ "[" ++ Decimal.ofNat index ++ "]"

structure Path where
  start : String
  steps : List Step
deriving DecidableEq

namespace Path

def root : Path := ⟨"$", []⟩

def field (path : Path) (slot : Field) : Path := ⟨path.start, path.steps ++ [.field slot]⟩

def item (path : Path) (slot : Field) (index : Nat) : Path :=
  ⟨path.start, path.steps ++ [.item slot index]⟩

def text (path : Path) : String := path.start ++ String.join (path.steps.map Step.text)

end Path
end TemplateActions
