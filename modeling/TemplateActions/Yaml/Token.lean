/-!
Tokens of structured text. Block collections have no brackets of their own: the ends of their lines
give them a start and an end token.
-/
namespace TemplateActions.Yaml

structure TagName where
  handle : Option (List Char)
  suffix : List Char
deriving DecidableEq

inductive Directive where
  | version (major minor : Nat)
  | tag (handle start : List Char)
  | reserved
deriving DecidableEq

def Directive.knownMinor : Nat := 2

inductive Token where
  | directive (d : Directive)
  | documentStart
  | documentEnd
  | blockSequenceStart
  | blockMappingStart
  | blockEnd
  | flowSequenceStart
  | flowSequenceEnd
  | flowMappingStart
  | flowMappingEnd
  | blockEntry
  | flowEntry
  | key
  | value
  | alias (name : List Char)
  | anchor (name : List Char)
  | tag (name : TagName)
  | scalar (plain : Bool) (text : List Char)
deriving DecidableEq

end TemplateActions.Yaml
