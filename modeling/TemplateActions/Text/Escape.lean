/-!
Escapes that name characters by number: hexadecimal digits, and the pairs of surrogate code units
that stand for one character.
-/
namespace TemplateActions.Escape

def hexDigit? (c : Char) : Option Nat :=
  if '0' ≤ c && c ≤ '9' then some (c.toNat - '0'.toNat)
  else if 'a' ≤ c && c ≤ 'f' then some (c.toNat - 'a'.toNat + 10)
  else if 'A' ≤ c && c ≤ 'F' then some (c.toNat - 'A'.toNat + 10)
  else none

def hex? (seen : Nat) : (count : Nat) → List Char → Option (Nat × List Char)
  | 0, rest => some (seen, rest)
  | _ + 1, [] => none
  | count + 1, c :: rest =>
    match hexDigit? c with
    | some d => hex? (seen * 16 + d) count rest
    | none => none

def joinSurrogates : List Nat → List Char
  | [] => []
  | high :: low :: rest =>
    if 0xd800 ≤ high && high < 0xdc00 && 0xdc00 ≤ low && low < 0xe000 then
      Char.ofNat (0x10000 + (high - 0xd800) * 0x400 + (low - 0xdc00)) :: joinSurrogates rest
    else Char.ofNat high :: joinSurrogates (low :: rest)
  | [code] => [Char.ofNat code]

end TemplateActions.Escape
