import TemplateActions.Yaml.Timestamp
import TemplateActions.Text.Escape

/-!
Tags of nodes. A plain scalar without a tag has the one that its text suggests.
-/
namespace TemplateActions.Yaml

inductive Tag where
  | null
  | bool
  | int
  | float
  | text
  | timestamp
  | binary
  | sequence
  | mapping
  | set
  | orderedMapping
  | pairs
  | merge
  | value
  | unknown
deriving DecidableEq

namespace Tag

def names : List (String × Tag) :=
  [("null", .null), ("bool", .bool), ("int", .int), ("float", .float), ("str", .text),
    ("timestamp", .timestamp), ("binary", .binary), ("seq", .sequence), ("map", .mapping),
    ("set", .set), ("omap", .orderedMapping), ("pairs", .pairs), ("merge", .merge),
      ("value", .value)]

def coreStart : List Char := "tag:yaml.org,2002:".toList

def ofName (name : List Char) : Tag :=
  let named := names.find? fun (short, _) => name == coreStart ++ short.toList
  match named with
  | some (_, tag) => tag
  | none => .unknown

end Tag

namespace Schema

def isNumeral (c : Char) : Bool := Decimal.isDigit c || c == '_'

def withoutSign : List Char → List Char
  | c :: rest => if c == '-' || c == '+' then rest else c :: rest
  | [] => []

def isExponent (signRequired : Bool) : List Char → Bool
  | [] => false
  | c :: rest =>
    let digits := withoutSign rest
    (c == 'e' || c == 'E') && !digits.isEmpty && digits.all Decimal.isDigit &&
      !(signRequired && digits.length == rest.length)

def isInfinity (body : List Char) : Bool :=
  body == ".inf".toList || body == ".Inf".toList || body == ".INF".toList

def isNaN (body : List Char) : Bool :=
  body == ".nan".toList || body == ".NaN".toList || body == ".NAN".toList

/-- A number with a point or an exponent, behind its sign. A number that starts with the point
needs a sign in its exponent. -/
def isDecimal : List Char → Bool
  | [] => false
  | c :: rest =>
    if Decimal.isDigit c then
      match rest.dropWhile isNumeral with
      | '.' :: rest =>
        let rest := rest.dropWhile isNumeral
        rest.isEmpty || isExponent false rest
      | rest => isExponent false rest
    else if c == '.' then
      let tail := rest.dropWhile isNumeral
      rest.head?.any isNumeral && (tail.isEmpty || isExponent true tail)
    else false

def isFloat (text : List Char) : Bool :=
  isNaN text || isInfinity (withoutSign text) || isDecimal (withoutSign text)

def isDigitOf (base : Nat) (c : Char) : Bool := c == '_' || (Escape.hexDigit? c).any (· < base)

def isDigits (base : Nat) (digits : List Char) : Bool :=
  !digits.isEmpty && digits.all (isDigitOf base)

def isInt (text : List Char) : Bool :=
  if text.head? == some '_' then false
  else
    match withoutSign text with
    | '0' :: 'b' :: digits => isDigits 2 digits
    | '0' :: 'o' :: digits => isDigits 8 digits
    | '0' :: 'x' :: digits => isDigits 16 digits
    | digits => isDigits 10 digits

def isTimestamp (text : List Char) : Bool :=
  (Timestamp.parts? text).any fun parts => parts.time.isSome || parts.padded

def tagOf (text : List Char) : Tag :=
  if text.isEmpty || ["~", "null", "Null", "NULL"].any (·.toList == text) then .null
  else if ["true", "True", "TRUE", "false", "False", "FALSE"].any (·.toList == text) then .bool
  else if isFloat text then .float
  else if isInt text then .int
  else if text == "<<".toList then .merge
  else if text == "=".toList then .value
  else if isTimestamp text then .timestamp
  else .text

end Schema
end TemplateActions.Yaml
