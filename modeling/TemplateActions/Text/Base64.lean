/-!
Base 64. Characters outside the alphabet are skipped; the text must end with a whole group or with
the padding that completes one.
-/
namespace TemplateActions.Base64

def sextet? (c : Char) : Option Nat :=
  if 'A' ≤ c && c ≤ 'Z' then some (c.toNat - 'A'.toNat)
  else if 'a' ≤ c && c ≤ 'z' then some (c.toNat - 'a'.toNat + 26)
  else if '0' ≤ c && c ≤ '9' then some (c.toNat - '0'.toNat + 52)
  else if c == '+' then some 62
  else if c == '/' then some 63
  else none

/-- Reads on within a group of four characters, `seen` of which are read: `bits` are those of them
that are not yet written, and `pads` counts the padding behind them. -/
def decodeGroup (seen bits pads : Nat) : List Char → Option (List UInt8)
  | [] => if seen = 0 then some [] else none
  | c :: rest =>
    if c == '=' then
      if seen < 2 then decodeGroup seen bits pads rest
      else if 4 ≤ seen + pads + 1 then some []
      else decodeGroup seen bits (pads + 1) rest
    else
      match sextet? c with
      | none => decodeGroup seen bits pads rest
      | some v =>
        match seen with
        | 0 => decodeGroup 1 v 0 rest
        | 1 => (decodeGroup 2 (v % 16) 0 rest).map ((bits * 4 + v / 16).toUInt8 :: ·)
        | 2 => (decodeGroup 3 (v % 4) 0 rest).map ((bits * 16 + v / 4).toUInt8 :: ·)
        | _ => (decodeGroup 0 0 0 rest).map ((bits * 64 + v).toUInt8 :: ·)

def decode? (text : List Char) : Option (List UInt8) := decodeGroup 0 0 0 text

end TemplateActions.Base64
