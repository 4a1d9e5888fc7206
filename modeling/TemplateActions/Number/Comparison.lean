import TemplateActions.Number.Binary64

/-!
Equality and order between integers and binary floating-point numbers, decided on exact values.
Not-a-number is neither equal nor less than anything, itself included.
-/
namespace TemplateActions

inductive Magnitude where
  | lowest
  | ratio (num : Int) (den : Nat)
  | highest
  | undefined
deriving DecidableEq

namespace Magnitude

def ofInt (n : Int) : Magnitude := .ratio n 1

def ofBinary64 : Binary64 → Magnitude
  | .infinity negative => if negative then .lowest else .highest
  | .nan => .undefined
  | x => match x.ratio? with
    | some (num, den) => .ratio num den
    | none => .undefined

def same : Magnitude → Magnitude → Bool
  | .lowest, .lowest => true
  | .highest, .highest => true
  | .ratio a b, .ratio c d => a * d == c * b
  | _, _ => false

def less : Magnitude → Magnitude → Bool
  | .undefined, _ => false
  | _, .undefined => false
  | .lowest, other => other != .lowest
  | .ratio a b, .ratio c d => a * d < c * b
  | .ratio .., .highest => true
  | _, _ => false

end Magnitude
end TemplateActions
