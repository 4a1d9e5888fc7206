import TemplateActions.Json.Basic
import TemplateActions.Number.Shortest
import TemplateActions.Text.Indent
import TemplateActions.Value.Literal

/-!
JSON text. Without an indent a value stands on one line; with one, every item and every member of a
container that is not empty has a line of its own. Only quotes, backslashes and control characters
below the space are escaped.
-/
namespace TemplateActions.Json

def escapeChar (c : Char) : List Char :=
  if c = '"' then ['\\', '"']
  else if c = '\\' then ['\\', '\\']
  else if c = '\n' then ['\\', 'n']
  else if c = '\r' then ['\\', 'r']
  else if c = '\t' then ['\\', 't']
  else if c = '\x08' then ['\\', 'b']
  else if c = '\x0c' then ['\\', 'f']
  else if c.toNat < 0x20 then
    ['\\', 'u', '0', '0', Nat.digitChar (c.toNat / 16), Nat.digitChar (c.toNat % 16)]
  else [c]

def stringChars (s : String) : List Char := '"' :: s.toList.flatMap escapeChar ++ ['"']

/-- What stands between a bracket and its first or last item at the given depth. An indent of zero
or less breaks lines only. -/
def lineBreak (indent : Option Int) (depth : Nat) : List Char :=
  match indent with
  | none => []
  | some width => '\n' :: Indent.blanks (width * depth)

def separator (indent : Option Int) (depth : Nat) : List Char :=
  match indent with
  | none => [',', ' ']
  | some _ => ',' :: lineBreak indent depth

mutual

def chars (indent : Option Int) (depth : Nat) : Json → List Char
  | .null => "null".toList
  | .bool b => (if b then "true" else "false").toList
  | .int n => Decimal.intChars n
  | .float x => DecimalStyle.document.chars x
  | .text s => stringChars s
  | .array [] => ['[', ']']
  | .array (item :: rest) =>
    '[' :: lineBreak indent (depth + 1) ++ chars indent (depth + 1) item ++
      itemsChars indent (depth + 1) rest ++ lineBreak indent depth ++ [']']
  | .object [] => ['\x7b', '\x7d']
  | .object ((name, value) :: rest) =>
    '\x7b' :: lineBreak indent (depth + 1) ++ stringChars name ++ ':' :: ' ' ::
      chars indent (depth + 1) value ++ membersChars indent (depth + 1) rest ++
      lineBreak indent depth ++ ['\x7d']

def itemsChars (indent : Option Int) (depth : Nat) : List Json → List Char
  | [] => []
  | item :: rest =>
    separator indent depth ++ chars indent depth item ++ itemsChars indent depth rest

def membersChars (indent : Option Int) (depth : Nat) : List (String × Json) → List Char
  | [] => []
  | (name, value) :: rest =>
    separator indent depth ++ stringChars name ++ ':' :: ' ' :: chars indent depth value ++
      membersChars indent depth rest

end

def render (indent : Option Int) (value : Json) : String := String.ofList (chars indent 0 value)

inductive WriteFault where
  | indent (fault : IndentFault)
  | overlongInteger
deriving DecidableEq

def isWritable (value : Json) : Bool := value.toValue.isWritable

/-- The text of a value, if the indent can be laid out, and after that the integers be written. A
single text needs no indent. -/
def write (indent : Option Int) (value : Json) : Except WriteFault String :=
  match value, indent.bind (Indent.fault? 1) with
  | .text _, _ => .ok (value.render indent)
  | _, some fault => .error (.indent fault)
  | _, none => if value.isWritable then .ok (value.render indent) else .error .overlongInteger

end TemplateActions.Json
