import TemplateActions.Text.Base64
import TemplateActions.Text.Lines
import TemplateActions.Value.Literal
import TemplateActions.Yaml.Schema

/-!
The values of scalars, as their tags ask for them. Underscores separate the digits of numbers and
count for nothing.
-/
namespace TemplateActions.Yaml.Scalar

def lower (text : List Char) : List Char := text.map Char.toLower

def sign : List Char → Bool × List Char
  | c :: rest =>
    if c == '-' then (true, rest) else if c == '+' then (false, rest) else (false, c :: rest)
  | [] => (false, [])

def numeral (text : List Char) : Except Failure (Bool × List Char) :=
  let text := text.filter (· != '_')
  if text.isEmpty then .error .emptyNumber else .ok (sign text)

def digits? (base : Nat) (seen : Nat) : List Char → Option Nat
  | [] => some seen
  | c :: rest =>
    match Escape.hexDigit? c with
    | some d => if d < base then digits? base (seen * base + d) rest else none
    | none => none

/-- An integer in a base, which may have blanks around it and a sign. -/
def intOf? (base : Nat) (text : List Char) : Option Int :=
  let (negative, digits) := sign (Lines.trim text)
  if digits.isEmpty || (base == 10 && Value.digitLimit < digits.length) then none
  else (digits? base 0 digits).map fun n => if negative then -(n : Int) else n

def int (text : List Char) : Except Failure Value :=
  match numeral text with
  | .error e => .error e
  | .ok (negative, body) =>
    let read :=
      match body with
      | '0' :: 'b' :: digits => intOf? 2 digits
      | '0' :: 'o' :: digits => intOf? 8 digits
      | '0' :: 'x' :: digits => intOf? 16 digits
      | digits => intOf? 10 digits
    match read with
    | some n => .ok (.int (if negative then -n else n))
    | none => .error .invalidNumber

def decimal? (negative : Bool) (text : List Char) : Option Binary64 :=
  let (whole, rest) := Decimal.span text
  let (fraction, rest) :=
    match rest with
    | '.' :: rest => Decimal.span rest
    | rest => ([], rest)
  let digits := whole ++ fraction
  let power :=
    match rest with
    | [] => some 0
    | 'e' :: rest =>
      let (negative, rest) := sign rest
      (Decimal.nat? rest).map fun n => if negative then -(n : Int) else n
    | _ => none
  if digits.isEmpty then none
  else power.map fun power => .ofDecimal negative (Decimal.value digits) (power - fraction.length)

def floatOf? (text : List Char) : Option Binary64 :=
  let (negative, body) := sign (Lines.trim text)
  if body == "inf".toList || body == "infinity".toList then some (.infinity negative)
  else if body == "nan".toList then some .nan
  else decimal? negative body

def float (text : List Char) : Except Failure Value :=
  match numeral (lower text) with
  | .error e => .error e
  | .ok (negative, body) =>
    let read :=
      if body == ".inf".toList then some (.infinity false)
      else if body == ".nan".toList then some .nan
      else floatOf? body
    match read with
    | some x => .ok (.float (if negative then x.neg else x))
    | none => .error .invalidNumber

def bool (text : List Char) : Except Failure Value :=
  let word := lower text
  if ["yes", "y", "true", "on"].any (·.toList == word) then .ok (.bool true)
  else if ["no", "n", "false", "off"].any (·.toList == word) then .ok (.bool false)
  else .error .unknownTruthValue

def timestamp (text : List Char) : Except Failure Value :=
  match Timestamp.parts? text with
  | some parts => parts.value
  | none => .error .malformed

def binary (text : List Char) : Except Failure Value :=
  if text.all fun c => c.toNat < 0x80 then
    match Base64.decode? text with
    | some bytes => .ok (.bytes bytes)
    | none => .error .malformed
  else .error .malformed

def value? (tag : Tag) (text : List Char) : Option (Except Failure Value) :=
  match tag with
  | .null => some (.ok .null)
  | .bool => some (bool text)
  | .int => some (int text)
  | .float => some (float text)
  | .text => some (.ok (.text (String.ofList text)))
  | .timestamp => some (timestamp text)
  | .binary => some (binary text)
  | _ => none

end TemplateActions.Yaml.Scalar
