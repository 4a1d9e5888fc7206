import TemplateActions.Number.Comparison
import TemplateActions.Value.Basic

/-!
Equality and order of values. Truth values count as the numbers zero and one, so that `true`, `1`
and `1.0` are the same key of a mapping. Values of different kinds are never equal, and comparing
them by order fails.
-/
namespace TemplateActions

/-- Dates are ordered by the list of their parts. -/
def Date.key (d : Date) : List Nat := [d.year, d.month, d.day]

def DateTime.key (t : DateTime) : List Nat :=
  t.date.key ++ [t.hour, t.minute, t.second, t.microsecond]

namespace Value

def magnitude? : Value → Option Magnitude
  | .bool b => some (.ofInt (if b then 1 else 0))
  | .int n => some (.ofInt n)
  | .float x => some (.ofBinary64 x)
  | _ => none

def numberSame (m : Magnitude) (other : Value) : Bool :=
  match other.magnitude? with
  | some n => m.same n
  | none => false

mutual

/-- Equality of values; mappings and sets disregard order. -/
def same : Value → Value → Bool
  | .null, .null => true
  | .text a, .text b => a == b
  | .bytes a, .bytes b => a == b
  | .date a, .date b => a == b
  | .dateTime a, .dateTime b => a == b
  | .list xs, .list ys => allSame xs ys
  | .tuple xs, .tuple ys => allSame xs ys
  | .set xs, .set ys => xs.length == ys.length && subset xs ys
  | .map xs, .map ys => xs.length == ys.length && submap xs ys
  | .bool b, other => numberSame (.ofInt (if b then 1 else 0)) other
  | .int n, other => numberSame (.ofInt n) other
  | .float x, other => numberSame (.ofBinary64 x) other
  | _, _ => false
termination_by structural x => x

def allSame : List Value → List Value → Bool
  | [], [] => true
  | x :: xs, y :: ys => same x y && allSame xs ys
  | _, _ => false

def subset : List Value → List Value → Bool
  | [], _ => true
  | x :: xs, ys => ys.any (fun y => same x y) && subset xs ys

def submap : List (Value × Value) → List (Value × Value) → Bool
  | [], _ => true
  | (key, value) :: rest, ys =>
    ys.any (fun entry => same key entry.1 && same value entry.2) && submap rest ys

end

def numberLess? (m : Magnitude) (other : Value) : Option Bool :=
  other.magnitude?.map m.less

mutual

/-- Whether the first value comes before the second, if they can be compared at all. -/
def less? : Value → Value → Option Bool
  | .text a, .text b => some (decide (a < b))
  | .bytes a, .bytes b => some (decide (a.map UInt8.toNat < b.map UInt8.toNat))
  | .date a, .date b => some (decide (a.key < b.key))
  | .dateTime a, .dateTime b => some (decide (a.key < b.key))
  | .list xs, .list ys => allLess? xs ys
  | .tuple xs, .tuple ys => allLess? xs ys
  | .bool b, other => numberLess? (.ofInt (if b then 1 else 0)) other
  | .int n, other => numberLess? (.ofInt n) other
  | .float x, other => numberLess? (.ofBinary64 x) other
  | _, _ => none
termination_by structural x => x

def allLess? : List Value → List Value → Option Bool
  | [], [] => some false
  | [], _ :: _ => some true
  | _ :: _, [] => some false
  | x :: xs, y :: ys => if same x y then allLess? xs ys else less? x y

end

def insertSorted? (x : Value) : List Value → Option (List Value)
  | [] => some [x]
  | y :: ys =>
    match less? x y with
    | none => none
    | some true => some (x :: y :: ys)
    | some false => (insertSorted? x ys).map (y :: ·)

/-- The values in ascending order, or nothing if two of them cannot be compared. -/
def sorted? : List Value → Option (List Value)
  | [] => some []
  | x :: xs => (sorted? xs).bind (insertSorted? x)

end Value
end TemplateActions
