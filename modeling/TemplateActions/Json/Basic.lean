import TemplateActions.Number.Binary64
import TemplateActions.Value.Basic

/-!
JSON values. Objects keep the order of their members, and integers are told apart from numbers with
a fraction or an exponent.
-/
namespace TemplateActions

inductive Json where
  | null
  | bool (b : Bool)
  | int (n : Int)
  | float (x : Binary64)
  | text (s : String)
  | array (items : List Json)
  | object (members : List (String × Json))

namespace Json

mutual

def toValue : Json → Value
  | .null => .null
  | .bool b => .bool b
  | .int n => .int n
  | .float x => .float x
  | .text s => .text s
  | .array items => .list (toValues items)
  | .object members => .map (toEntries members)

def toValues : List Json → List Value
  | [] => []
  | item :: rest => item.toValue :: toValues rest

def toEntries : List (String × Json) → List (Value × Value)
  | [] => []
  | (name, value) :: rest => (.text name, value.toValue) :: toEntries rest

end

end Json
end TemplateActions
