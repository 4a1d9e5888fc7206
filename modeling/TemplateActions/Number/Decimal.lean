/-!
Decimal notation of integers: the digits without leading zeros, behind a minus sign if need be.
-/
namespace TemplateActions.Decimal

def natChars (n : Nat) : List Char := Nat.toDigits 10 n

def intChars : Int → List Char
  | .ofNat n => natChars n
  | .negSucc n => '-' :: natChars (n + 1)

def ofNat (n : Nat) : String := String.ofList (natChars n)

def ofInt (n : Int) : String := String.ofList (intChars n)

def isDigit (c : Char) : Bool := '0' ≤ c && c ≤ '9'

def digit (c : Char) : Nat := c.toNat - '0'.toNat

def value (digits : List Char) : Nat := digits.foldl (fun n c => 10 * n + digit c) 0

def nat? (text : List Char) : Option Nat :=
  if !text.isEmpty && text.all isDigit then some (value text) else none

def span (text : List Char) : List Char × List Char :=
  (text.takeWhile isDigit, text.dropWhile isDigit)

end TemplateActions.Decimal
