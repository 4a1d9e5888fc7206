import TemplateActions.Number.Decimal
import TemplateActions.Text.Lines

/-!
Integers in the texts of settings. A sign, leading zeros, single underscores between digits and a
fraction of zeros are let through; a negative number has no leading zeros. White space around the
number is trimmed.
-/
namespace TemplateActions.Config

def canonicalInt? : List Char → Option Int
  | '-' :: digits => (natural? digits).map fun n => -(n : Int)
  | digits => (natural? digits).map fun n => (n : Int)
where
  natural? (digits : List Char) : Option Nat :=
    if digits.head? == some '0' && digits.length != 1 then none else Decimal.nat? digits

def withoutPlus : List Char → List Char
  | '+' :: rest => if rest.head? == some '-' then '+' :: rest else rest
  | text => text

/-- Goes on within leading zeros, the last of which is `last`. -/
def skipZeros? (last : Char) : List Char → Option (List Char)
  | [] => some [last]
  | c :: rest =>
    if c == '0' || c == '_' then skipZeros? c rest
    else if Decimal.isDigit c then some (c :: rest)
    else if c == '.' then some (last :: c :: rest)
    else none

def withoutZeros? : List Char → Option (List Char)
  | [] => none
  | c :: rest =>
    if c == '0' then skipZeros? c rest
    else if Decimal.isDigit c || c == '-' then some (c :: rest)
    else none

def withoutFraction (text : List Char) : List Char :=
  match text.dropWhile (· != '.') with
  | _ :: zeros => if !zeros.isEmpty && zeros.all (· == '0') then text.takeWhile (· != '.') else text
  | [] => text

def hasDouble (mark : Char) : List Char → Bool
  | a :: b :: rest => (a == mark && b == mark) || hasDouble mark (b :: rest)
  | _ => false

/-- Drops underscores that stand alone between other characters. -/
def withoutUnderscores (text : List Char) : List Char :=
  if text.head? == some '_' || text.getLast? == some '_' || hasDouble '_' text then text
  else text.filter (· != '_')

def trim (text : List Char) : List Char :=
  ((text.dropWhile Lines.isWhiteSpace).reverse.dropWhile Lines.isWhiteSpace).reverse

def int? (text : List Char) : Option Int :=
  match canonicalInt? text with
  | some n => some n
  | none =>
    match withoutZeros? (withoutPlus text) with
    | some text => canonicalInt? (withoutUnderscores (withoutFraction text))
    | none => none

end TemplateActions.Config
