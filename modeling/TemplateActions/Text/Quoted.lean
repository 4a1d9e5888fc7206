import TemplateActions.Text.Printable

/-!
Quoted literals of texts and byte strings. A literal stands in single quotes unless the text holds a
single quote and no double quote. Backslashes and the quote in use are escaped, and so is all that
cannot be printed, with two, four or eight hexadecimal digits.
-/
namespace TemplateActions.Quoted

def quoteOf (text : List Char) : Char :=
  if text.contains '\'' && !text.contains '"' then '"' else '\''

def hexDigits (width n : Nat) : List Char :=
  let digits := Nat.toDigits 16 n
  List.replicate (width - digits.length) '0' ++ digits

def escapeCode (n : Nat) : List Char :=
  if n < 0x100 then '\\' :: 'x' :: hexDigits 2 n
  else if n < 0x10000 then '\\' :: 'u' :: hexDigits 4 n
  else '\\' :: 'U' :: hexDigits 8 n

def escapeChar (quote c : Char) : List Char :=
  if c = '\\' || c = quote then ['\\', c]
  else if c = '\n' then ['\\', 'n']
  else if c = '\r' then ['\\', 'r']
  else if c = '\t' then ['\\', 't']
  else if Printable.isPrintable c then [c]
  else escapeCode c.toNat

def chars (text : List Char) : List Char :=
  let quote := quoteOf text
  quote :: text.flatMap (escapeChar quote) ++ [quote]

def literal (text : String) : String := String.ofList (chars text.toList)

/-- Byte strings are written like texts of the first 128 characters, all other bytes being
escaped. -/
def bytesChars (bytes : List UInt8) : List Char :=
  let quote := quoteOf (bytes.map fun b => Char.ofNat b.toNat)
  'b' :: quote :: bytes.flatMap (fun b =>
    if b < 0x80 then escapeChar quote (Char.ofNat b.toNat) else escapeCode b.toNat) ++ [quote]

end TemplateActions.Quoted
