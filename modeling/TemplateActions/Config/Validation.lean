import TemplateActions.Config.Basic
import TemplateActions.Config.Number
import TemplateActions.Number.Word
import TemplateActions.Text.Utf8

/-!
Settings from the entries of a mapping. Each setting is looked at on its own; the problems are
listed in the order of the settings, and after them those of other keys in the order of the
mapping.
-/
namespace TemplateActions.Config

inductive ProblemKind where
  | levelName
  | boolType
  | boolText
  | intType
  | intText
  | intSize
  | intFraction
  | notFinite
  | negative
  | unknownKey
  | keyType
deriving DecidableEq

namespace ProblemKind

def name : ProblemKind → String
  | .levelName => "literal_error"
  | .boolType => "bool_type"
  | .boolText => "bool_parsing"
  | .intType => "int_type"
  | .intText => "int_parsing"
  | .intSize => "int_parsing_size"
  | .intFraction => "int_from_float"
  | .notFinite => "finite_number"
  | .negative => "greater_than_equal"
  | .unknownKey => "extra_forbidden"
  | .keyType => "invalid_key"

def message : ProblemKind → String
  | .levelName => "Input should be 'DEBUG', 'INFO', 'WARNING' or 'ERROR'"
  | .boolType => "Input should be a valid boolean"
  | .boolText => "Input should be a valid boolean, unable to interpret input"
  | .intType => "Input should be a valid integer"
  | .intText => "Input should be a valid integer, unable to parse string as an integer"
  | .intSize => "Unable to parse input string as an integer, exceeded maximum size"
  | .intFraction => "Input should be a valid integer, got a number with a fractional part"
  | .notFinite => "Input should be a finite number"
  | .negative => "Input should be greater than or equal to 0"
  | .unknownKey => "Extra inputs are not permitted"
  | .keyType => "Keys should be strings"

end ProblemKind

structure Problem where
  key : Value
  kind : ProblemKind

abbrev Checked (α : Type) := Except ProblemKind α

def checkLevel : Value → Checked ConfigLevel
  | .text name =>
    match ConfigLevel.ofName? name with
    | some level => .ok level
    | none => .error .levelName
  | _ => .error .levelName

def lower (text : List Char) : List Char := text.map Char.toLower

def boolOfText (text : List Char) : Checked Bool :=
  let word := lower text
  if ["0", "off", "f", "false", "n", "no"].any (·.toList == word) then .ok false
  else if ["1", "on", "t", "true", "y", "yes"].any (·.toList == word) then .ok true
  else .error .boolText

def boolOfInt (n : Int) : Checked Bool :=
  if n = 0 then .ok false else if n = 1 then .ok true else .error .boolText

def checkPretty : Value → Checked Bool
  | .bool b => .ok b
  | .int n => if Word.holds n then boolOfInt n else .error .boolType
  | .float x =>
    match x.whole? with
    | some n => if Word.holds n && n != -Word.limit then boolOfInt n else .error .boolType
    | none => .error .boolType
  | .text s => boolOfText s.toList
  | .bytes b =>
    match Utf8.decode b with
    | .ok text => boolOfText text
    | .error _ => .error .boolText
  | _ => .error .boolType

def intOfText (text : List Char) : Checked Int :=
  let text := trim text
  if Value.digitLimit < text.length then .error .intSize
  else
    match int? text with
    | some n => .ok n
    | none => .error .intText

def intOfFloat (x : Binary64) : Checked Int :=
  if !x.isFinite then .error .notFinite
  else
    match x.whole? with
    | some n => if -Word.limit < n && n < Word.limit then .ok n else .error .intSize
    | none => .error .intFraction

def intOf : Value → Checked Int
  | .bool b => .ok (if b then 1 else 0)
  | .int n => .ok n
  | .float x => intOfFloat x
  | .text s => intOfText s.toList
  | .bytes b =>
    match Utf8.decode b with
    | .ok text => intOfText text
    | .error _ => .error .intText
  | _ => .error .intType

def checkIndent (value : Value) : Checked Nat :=
  match intOf value with
  | .ok (.ofNat n) => .ok n
  | .ok (.negSucc _) => .error .negative
  | .error kind => .error kind

def levelKey : String := "log_level"

def prettyKey : String := "pretty"

def indentKey : String := "indent"

abbrev Entries := List (Value × Value)

def isKey (name : String) : Value → Bool
  | .text key => key == name
  | _ => false

def get? (name : String) (entries : Entries) : Option Value :=
  (entries.find? fun entry => isKey name entry.1).map (·.2)

def setting {α : Type} (name : String) (check : Value → Checked α) (default : α)
    (entries : Entries) : Checked α :=
  match get? name entries with
  | some value => check value
  | none => .ok default

def problemOf {α : Type} (name : String) : Checked α → List Problem
  | .ok _ => []
  | .error kind => [⟨.text name, kind⟩]

def keyProblem? (key : Value) : Option Problem :=
  match key with
  | .text name =>
    if [levelKey, prettyKey, indentKey].contains name then none else some ⟨key, .unknownKey⟩
  | _ => some ⟨key, .keyType⟩

def validate (entries : Entries) : Except (List Problem) Config :=
  let level := setting levelKey checkLevel ({} : Config).level entries
  let pretty := setting prettyKey checkPretty ({} : Config).pretty entries
  let indent := setting indentKey checkIndent ({} : Config).indent entries
  let problems :=
    problemOf levelKey level ++ problemOf prettyKey pretty ++ problemOf indentKey indent ++
      entries.filterMap fun entry => keyProblem? entry.1
  match level, pretty, indent, problems with
  | .ok level, .ok pretty, .ok indent, [] => .ok ⟨level, pretty, indent⟩
  | _, _, _, problems => .error problems

end TemplateActions.Config
