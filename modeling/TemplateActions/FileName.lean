/-!
Names of files: components behind a root, or behind the place where a program runs. Empty components
and single points count for nothing; a pair of points leads to the parent.
-/
namespace TemplateActions

inductive NameFault where
  | zeroCharacter
  | tooLong
deriving DecidableEq

structure FileName where
  root : String
  components : List String
deriving DecidableEq

namespace FileName

/-- Two slashes are a root of their own; any other number of slashes counts as one. -/
def rootOf : List Char → String
  | '/' :: '/' :: '/' :: _ => "/"
  | '/' :: '/' :: _ => "//"
  | '/' :: _ => "/"
  | _ => ""

def pieces (piece : List Char) : List Char → List String
  | [] => [String.ofList piece.reverse]
  | c :: rest =>
    if c == '/' then String.ofList piece.reverse :: pieces [] rest else pieces (c :: piece) rest

def ofText (text : String) : FileName :=
  ⟨rootOf text.toList, (pieces [] text.toList).filter fun c => c != "" && c != "."⟩

def text (name : FileName) : String :=
  if name.root.isEmpty && name.components.isEmpty then "."
  else name.root ++ String.intercalate "/" name.components

def child (directory : FileName) (name : String) : FileName :=
  { directory with components := directory.components ++ [name] }

def isAbsolute (name : FileName) : Bool := name.root != ""

def hasZero (name : FileName) : Bool := name.components.any fun c => c.toList.contains '\x00'

def under (name directory : FileName) : FileName :=
  if name.isAbsolute then name else ⟨directory.root, directory.components ++ name.components⟩

/-- Goes through components from a place, which is given with its last component first. -/
def follow (place : List String) : List String → List String
  | [] => place.reverse
  | c :: rest => if c == ".." then follow place.tail rest else follow (c :: place) rest

/-- The name without pairs of points, as if every component were a directory. -/
def resolved (name : FileName) : FileName := ⟨name.root, follow [] name.components⟩

end FileName
end TemplateActions
