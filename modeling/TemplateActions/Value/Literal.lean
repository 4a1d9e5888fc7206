import TemplateActions.Number.Shortest
import TemplateActions.Text.Quoted
import TemplateActions.Value.Basic

/-!
Literals of values, as messages show them.
-/
namespace TemplateActions

def joinChars (separator : List Char) : List (List Char) → List Char
  | [] => []
  | [piece] => piece
  | piece :: rest => piece ++ separator ++ joinChars separator rest

namespace Literal

def comma : List Char := [',', ' ']

def call (name : String) (arguments : List (List Char)) : List Char :=
  name.toList ++ '(' :: joinChars comma arguments ++ [')']

def bracketed (items : List (List Char)) : List Char := '[' :: joinChars comma items ++ [']']

def text (s : String) : List Char := Quoted.chars s.toList

def bool (b : Bool) : List Char := (if b then "True" else "False").toList

def date (d : Date) : List Char :=
  call "datetime.date" [Decimal.natChars d.year, Decimal.natChars d.month, Decimal.natChars d.day]

/-- Seconds are left out when they and the fraction are zero, the fraction when it is zero. -/
def dateTime (t : DateTime) : List Char :=
  let tail :=
    if t.microsecond != 0 then [t.second, t.microsecond]
    else if t.second != 0 then [t.second]
    else []
  call "datetime.datetime"
    (([t.date.year, t.date.month, t.date.day, t.hour, t.minute] ++ tail).map Decimal.natChars)

end Literal

namespace Value

mutual

def literal : Value → List Char
  | .null => "None".toList
  | .bool b => Literal.bool b
  | .int n => Decimal.intChars n
  | .float x => DecimalStyle.literal.chars x
  | .text s => Literal.text s
  | .bytes b => Quoted.bytesChars b
  | .date d => Literal.date d
  | .dateTime t => Literal.dateTime t
  | .list items => Literal.bracketed (literals items)
  | .tuple [item] => '(' :: item.literal ++ [',', ')']
  | .tuple items => '(' :: joinChars Literal.comma (literals items) ++ [')']
  | .set [] => "set()".toList
  | .set items => '\x7b' :: joinChars Literal.comma (literals items) ++ ['\x7d']
  | .map entries => '\x7b' :: joinChars Literal.comma (entryLiterals entries) ++ ['\x7d']

def literals : List Value → List (List Char)
  | [] => []
  | item :: rest => item.literal :: literals rest

def entryLiterals : List (Value × Value) → List (List Char)
  | [] => []
  | (key, value) :: rest => (key.literal ++ ':' :: ' ' :: value.literal) :: entryLiterals rest

end

/-- The most digits that the literal of an integer may have. -/
def digitLimit : Nat := 4300

mutual

def isWritable : Value → Bool
  | .int n => (Decimal.natChars n.natAbs).length ≤ digitLimit
  | .list items | .tuple items | .set items => areWritable items
  | .map entries => entriesAreWritable entries
  | _ => true

def areWritable : List Value → Bool
  | [] => true
  | item :: rest => item.isWritable && areWritable rest

def entriesAreWritable : List (Value × Value) → Bool
  | [] => true
  | (key, value) :: rest => key.isWritable && value.isWritable && entriesAreWritable rest

end

end Value
end TemplateActions
