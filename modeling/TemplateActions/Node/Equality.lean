import TemplateActions.Node.Basic
import TemplateActions.Value.Comparison

/-!
Equality of nodes by value: the same kind and equal fields, whatever the identity numbers.
-/
namespace TemplateActions.Node

mutual

def same : Node → Node → Bool
  | .program _ xs, .program _ ys => allSame xs ys
  | .element _ tag attributes children helpers, .element _ tag' attributes' children' helpers' =>
    tag == tag' && allSame attributes attributes' && allSame children children' &&
      allSame helpers helpers'
  | .attr _ name value, .attr _ name' value' => name == name' && same value value'
  | .block _ path params body inverse, .block _ path' params' body' inverse' =>
    path == path' && params == params' && optionSame body body' && optionSame inverse inverse'
  | .component _ tag attributes body inverse, .component _ tag' attributes' body' inverse' =>
    tag == tag' && allSame attributes attributes' && optionSame body body' &&
      optionSame inverse inverse'
  | .text _ chars, .text _ chars' => chars == chars'
  | .mustache _ path params escaped, .mustache _ path' params' escaped' =>
    path == path' && params == params' && escaped == escaped'
  | .foreign _ kind, .foreign _ kind' => kind == kind'
  | .bare _ value, .bare _ value' => value.same value'
  | _, _ => false
termination_by structural x => x

def allSame : List Node → List Node → Bool
  | [], [] => true
  | x :: xs, y :: ys => same x y && allSame xs ys
  | _, _ => false

def optionSame : Option Node → Option Node → Bool
  | none, none => true
  | some x, some y => same x y
  | _, _ => false

end

end TemplateActions.Node
