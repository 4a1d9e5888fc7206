import TemplateActions.Number.Binary64
import TemplateActions.Number.Decimal

/-!
Decimal text of a binary floating-point number: the fewest digits that read back as the number,
and of those the nearest to it. A number is first placed on the coarsest grid of decimal points
that has a point between the neighbouring numbers; the style then says how the point is written.
-/
namespace TemplateActions.Shortest

structure Point where
  digits : Nat
  scale : Int
deriving DecidableEq

/-- The number `significand * 2 ^ exponent` and the ends of the interval of reals that round to
it, counted in quarters of `2 ^ exponent`. The gap below the least significand of a binade is half
as wide. -/
structure Interval where
  low : Nat
  middle : Nat
  high : Nat
  closed : Bool
  unit : Int

def interval (significand : Nat) (exponent : Int) : Interval where
  low := if significand = Nat.pow 2 52 && exponent != Binary64.leastExponent
    then 4 * significand - 1 else 4 * significand - 2
  middle := 4 * significand
  high := 4 * significand + 2
  closed := significand % 2 == 0
  unit := exponent - 2

/-- The point of the grid of multiples of `10 ^ scale` that lies in the interval and is nearest to
its middle; a tie goes to the even multiple. -/
def onGrid (i : Interval) (scale : Int) : Option Nat :=
  let grid := Nat.pow 10 scale.toNat * Nat.pow 2 (-i.unit).toNat
  let unit := Nat.pow 2 i.unit.toNat * Nat.pow 10 (-scale).toNat
  let inside (n : Nat) : Bool :=
    if i.closed then i.low * unit ≤ n * grid && n * grid ≤ i.high * unit
    else i.low * unit < n * grid && n * grid < i.high * unit
  let below := i.middle * unit / grid
  let above := below + 1
  match inside below, inside above with
  | true, true =>
    let left := i.middle * unit - below * grid
    let right := above * grid - i.middle * unit
    if left < right || (left == right && below % 2 == 0) then some below else some above
  | true, false => some below
  | false, true => some above
  | false, false => none

def search (i : Interval) (top : Int) : Nat → Option Point
  | 0 => none
  | tries + 1 =>
    match onGrid i top with
    | some digits => some ⟨digits, top⟩
    | none => search i (top - 1) tries

/-- The grids of multiples of `10 ^ 309` down to `10 ^ (-324)` cover every number but zero, which is
a point of all of them. -/
def point? (significand : Nat) (exponent : Int) : Option Point :=
  if significand = 0 then some ⟨0, 0⟩
  else search (interval significand exponent) 309 634

end Shortest

/-- How decimals are written: positional while the exponent of the leading digit lies from `least`
up to but not including `bound`, else in scientific notation with a signed exponent of at least
`exponentDigits` digits. -/
structure DecimalStyle where
  least : Int
  bound : Int
  exponentDigits : Nat
  nan : String
  infinity : String

namespace DecimalStyle

def exponentChars (style : DecimalStyle) (exponent : Int) : List Char :=
  let digits := Decimal.natChars exponent.natAbs
  (if exponent < 0 then '-' else '+') ::
    List.replicate (style.exponentDigits - digits.length) '0' ++ digits

def pointChars (style : DecimalStyle) (digits : List Char) (scale : Int) : List Char :=
  let leading := scale + digits.length - 1
  if style.least ≤ leading && leading < style.bound then
    if 0 ≤ scale then digits ++ List.replicate scale.toNat '0' ++ ['.', '0']
    else if 0 ≤ leading then
      digits.take (leading.toNat + 1) ++ '.' :: digits.drop (leading.toNat + 1)
    else '0' :: '.' :: List.replicate ((-leading).toNat - 1) '0' ++ digits
  else
    let fraction := digits.drop 1
    digits.take 1 ++ (if fraction.isEmpty then [] else '.' :: fraction) ++
      'e' :: style.exponentChars leading

def trim (digits : List Char) (scale : Int) : List Char × Int :=
  let zeros := min (digits.reverse.takeWhile (· == '0')).length (digits.length - 1)
  (digits.take (digits.length - zeros), scale + zeros)

def chars (style : DecimalStyle) : Binary64 → List Char
  | .nan => style.nan.toList
  | .infinity negative => (if negative then ['-'] else []) ++ style.infinity.toList
  | .finite negative significand exponent =>
    (if negative then ['-'] else []) ++
      match Shortest.point? significand exponent with
      | some point =>
        let (digits, scale) := trim (Decimal.natChars point.digits) point.scale
        style.pointChars digits scale
      | none => ['0', '.', '0']

def literal : DecimalStyle := ⟨-4, 16, 2, "nan", "inf"⟩

def document : DecimalStyle := ⟨-4, 16, 2, "NaN", "Infinity"⟩

end DecimalStyle
end TemplateActions
