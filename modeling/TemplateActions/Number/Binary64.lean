/-!
Binary floating-point numbers with 53 significant bits, as exact data. A finite number is
`± significand * 2 ^ exponent`; rounding a quotient and comparing numbers is done in integers only.
-/
namespace TemplateActions

inductive Binary64 where
  | finite (negative : Bool) (significand : Nat) (exponent : Int)
  | infinity (negative : Bool)
  | nan
deriving DecidableEq

namespace Binary64

def leastExponent : Int := -1074

def greatestExponent : Int := 971

def zero (negative : Bool) : Binary64 := .finite negative 0 leastExponent

def neg : Binary64 → Binary64
  | .finite negative significand exponent => .finite (!negative) significand exponent
  | .infinity negative => .infinity (!negative)
  | .nan => .nan

/-- The integer nearest to `num / den`; a tie goes to the even one. -/
def nearest (num den : Nat) : Nat :=
  let quotient := num / den
  let twice := 2 * (num % den)
  if twice < den then quotient
  else if den < twice then quotient + 1
  else if quotient % 2 = 0 then quotient
  else quotient + 1

/-- The exponent `k` with `2 ^ k ≤ num / den < 2 ^ (k + 1)`, for positive arguments. -/
def magnitude (num den : Nat) : Int :=
  let guess : Int := (num.log2 : Int) - (den.log2 : Int)
  if den * Nat.pow 2 guess.toNat ≤ num * Nat.pow 2 (-guess).toNat then guess else guess - 1

def ofRatio (negative : Bool) (num den : Nat) : Binary64 :=
  if num = 0 then zero negative
  else
    let exponent := max (magnitude num den - 52) leastExponent
    let significand := nearest (num * Nat.pow 2 (-exponent).toNat) (den * Nat.pow 2 exponent.toNat)
    let carried := decide (significand = Nat.pow 2 53)
    let exponent := if carried then exponent + 1 else exponent
    if greatestExponent < exponent then .infinity negative
    else .finite negative (if carried then Nat.pow 2 52 else significand) exponent

/-- The number nearest to `digits * 10 ^ scale`. The first bounds only spare the arithmetic on
values that are out of range anyway. -/
def ofDecimal (negative : Bool) (digits : Nat) (scale : Int) : Binary64 :=
  let top := ((Nat.toDigits 10 digits).length : Int) + scale
  if digits = 0 || top < -330 then zero negative
  else if 310 < top then .infinity negative
  else ofRatio negative (digits * Nat.pow 10 scale.toNat) (Nat.pow 10 (-scale).toNat)

def ratio? : Binary64 → Option (Int × Nat)
  | .finite negative significand exponent =>
    let size : Int := (significand * Nat.pow 2 exponent.toNat : Nat)
    some (if negative then -size else size, Nat.pow 2 (-exponent).toNat)
  | _ => none

def isZero : Binary64 → Bool
  | .finite _ significand _ => significand == 0
  | _ => false

def isFinite : Binary64 → Bool
  | .finite .. => true
  | _ => false

def whole? (x : Binary64) : Option Int :=
  match x.ratio? with
  | some (num, den) => if num % den = 0 then some (num / den) else none
  | none => none

end Binary64
end TemplateActions
