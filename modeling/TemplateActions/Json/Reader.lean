import TemplateActions.Json.Basic
import TemplateActions.Number.Decimal
import TemplateActions.Text.Escape

/-!
Reads JSON text. Numbers with a fraction or an exponent become floating-point numbers, all others
integers; the names that are written for numbers that are not finite are read too.
-/
namespace TemplateActions.Json

def isBlank (c : Char) : Bool := c == ' ' || c == '\n' || c == '\r' || c == '\t'

def skipBlank (input : List Char) : List Char := input.dropWhile isBlank

def escaped? : Char → Option Char
  | '"' => some '"'
  | '\\' => some '\\'
  | '/' => some '/'
  | 'b' => some '\x08'
  | 'f' => some '\x0c'
  | 'n' => some '\n'
  | 'r' => some '\r'
  | 't' => some '\t'
  | _ => none

/-- Reads up to the closing quote. Four-digit escapes give code units, all else whole code points.
-/
def codes? : List Char → Option (List Nat × List Char)
  | [] => none
  | '"' :: rest => some ([], rest)
  | '\\' :: 'u' :: a :: b :: c :: d :: rest => do
    let a ← Escape.hexDigit? a
    let b ← Escape.hexDigit? b
    let c ← Escape.hexDigit? c
    let d ← Escape.hexDigit? d
    let (codes, rest) ← codes? rest
    return ((((a * 16 + b) * 16 + c) * 16 + d) :: codes, rest)
  | '\\' :: e :: rest => do
    let c ← escaped? e
    let (codes, rest) ← codes? rest
    return (c.toNat :: codes, rest)
  | c :: rest =>
    if c.toNat < 0x20 then none
    else do
      let (codes, rest) ← codes? rest
      return (c.toNat :: codes, rest)

def string? (input : List Char) : Option (String × List Char) :=
  (codes? input).map fun (codes, rest) => (String.ofList (Escape.joinSurrogates codes), rest)

def exponent? (input : List Char) : Option (Int × List Char) :=
  match input with
  | e :: rest =>
    if e = 'e' || e = 'E' then
      let (negative, rest) :=
        match rest with
        | '-' :: rest => (true, rest)
        | '+' :: rest => (false, rest)
        | rest => (false, rest)
      let (digits, rest) := Decimal.span rest
      if digits.isEmpty then none
      else some (if negative then -(Decimal.value digits : Int) else Decimal.value digits, rest)
    else none
  | [] => none

def fraction? (input : List Char) : Option (List Char × List Char) :=
  match input with
  | '.' :: rest =>
    let (digits, rest) := Decimal.span rest
    if digits.isEmpty then none else some (digits, rest)
  | _ => none

def number? (negative : Bool) (input : List Char) : Option (Json × List Char) :=
  let (whole, rest) := Decimal.span input
  if whole.isEmpty || (whole.head? == some '0' && whole.length != 1) then none
  else
    let fraction := fraction? rest
    let (digits, rest) := fraction.getD ([], rest)
    let exponent := exponent? rest
    let (power, rest) := exponent.getD (0, rest)
    if fraction.isNone && exponent.isNone then
      let size : Int := Decimal.value whole
      some (.int (if negative then -size else size), rest)
    else
      some (.float (.ofDecimal negative (Decimal.value (whole ++ digits))
        (power - digits.length)), rest)

def word? (input : List Char) : Option (Json × List Char) :=
  let words : List (String × Json) :=
    [("null", .null), ("true", .bool true), ("false", .bool false), ("NaN", .float .nan),
      ("Infinity", .float (.infinity false)), ("-Infinity", .float (.infinity true))]
  (words.find? fun (word, _) => word.toList.isPrefixOf input).map fun (word, value) =>
    (value, input.drop word.length)

mutual

/-- Reads a value. Each call takes one unit of fuel, and no more are made than there are
characters. -/
def value? : (fuel : Nat) → List Char → Option (Json × List Char)
  | 0, _ => none
  | fuel + 1, input =>
    match skipBlank input with
    | '"' :: rest => (string? rest).map fun (s, rest) => (.text s, rest)
    | '[' :: rest =>
      match skipBlank rest with
      | ']' :: rest => some (.array [], rest)
      | rest => (items? fuel rest).map fun (items, rest) => (.array items, rest)
    | '\x7b' :: rest =>
      match skipBlank rest with
      | '\x7d' :: rest => some (.object [], rest)
      | rest => (members? fuel rest).map fun (members, rest) => (.object members, rest)
    | input =>
      match word? input with
      | some result => some result
      | none =>
        match input with
        | '-' :: rest => number? true rest
        | rest => number? false rest

def items? : (fuel : Nat) → List Char → Option (List Json × List Char)
  | 0, _ => none
  | fuel + 1, input =>
    match value? fuel input with
    | none => none
    | some (item, rest) =>
      match skipBlank rest with
      | ']' :: rest => some ([item], rest)
      | ',' :: rest => (items? fuel rest).map fun (items, rest) => (item :: items, rest)
      | _ => none

def members? : (fuel : Nat) → List Char → Option (List (String × Json) × List Char)
  | 0, _ => none
  | fuel + 1, input =>
    match skipBlank input with
    | '"' :: rest =>
      match string? rest with
      | none => none
      | some (name, rest) =>
        match skipBlank rest with
        | ':' :: rest =>
          match value? fuel rest with
          | none => none
          | some (value, rest) =>
            match skipBlank rest with
            | '\x7d' :: rest => some ([(name, value)], rest)
            | ',' :: rest =>
              (members? fuel rest).map fun (members, rest) => ((name, value) :: members, rest)
            | _ => none
        | _ => none
    | _ => none

end

def parse? (source : String) : Option Json :=
  let input := source.toList
  match value? (input.length + 1) input with
  | some (value, rest) => if (skipBlank rest).isEmpty then some value else none
  | none => none

end TemplateActions.Json
