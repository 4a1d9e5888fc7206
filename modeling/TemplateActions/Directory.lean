import TemplateActions.FileName
import TemplateActions.Text.Lines
import TemplateActions.Text.Utf8

/-!
A directory where a program runs: its own name, and the files and directories that can be reached
from it, under names without pairs of points.
-/
namespace TemplateActions

inductive FileEntry where
  | directory
  | file (bytes : List UInt8)

structure Directory where
  location : FileName
  entries : List (FileName × FileEntry)

namespace Directory

def add (d : Directory) (name : FileName) (entry : FileEntry) : Directory :=
  { d with entries := d.entries ++ [((name.under d.location).resolved, entry)] }

def addFile (d : Directory) (name : FileName) (bytes : List UInt8) : Directory :=
  let full := name.under d.location
  let above := (List.range full.components.length).map fun k =>
    (FileName.resolved ⟨full.root, full.components.take k⟩, FileEntry.directory)
  { d with entries := d.entries ++ above ++ [(full.resolved, .file bytes)] }

def entry? (d : Directory) (name : FileName) : Option FileEntry := d.entries.lookup name

def isAbove (name below : FileName) : Bool :=
  name.root == below.root && name.components.isPrefixOf below.components

def isDirectory (d : Directory) (name : FileName) : Bool :=
  match d.entry? name with
  | some .directory => true
  | some (.file _) => false
  | none => isAbove name d.location || d.entries.any fun entry => isAbove name entry.1

/-- Goes through components from a place, which is given with its last component first. A pair of
points needs a directory to lead out of. -/
def walk? (d : Directory) (root : String) (place : List String) : List String → Option FileName
  | [] => some ⟨root, place.reverse⟩
  | c :: rest =>
    if c == ".." then
      if d.isDirectory ⟨root, place.reverse⟩ then d.walk? root place.tail rest else none
    else d.walk? root (c :: place) rest

def componentLimit : Nat := 255

def nameLimit : Nat := 4095

/-- Holds if a component is looked for in a directory and is too long to stand there. -/
def meetsOverlong (d : Directory) (root : String) (place : List String) : List String → Bool
  | [] => false
  | c :: rest =>
    if !d.isDirectory ⟨root, place.reverse⟩ then false
    else if c == ".." then d.meetsOverlong root place.tail rest
    else componentLimit < c.utf8ByteSize || d.meetsOverlong root (c :: place) rest

/-- Holds for names whose length ends the search for a file. A name with the character zero is not
searched for at all. -/
def isOverlong (d : Directory) (name : FileName) : Bool :=
  let full := name.under d.location
  !name.hasZero &&
    (nameLimit < name.text.utf8ByteSize || d.meetsOverlong full.root [] full.components)

def bytes? (d : Directory) (name : FileName) : Option (List UInt8) :=
  let name := name.under d.location
  match (d.walk? name.root [] name.components).bind d.entry? with
  | some (.file bytes) => some bytes
  | _ => none

def text? (d : Directory) (name : FileName) : Option (Except Utf8.Malformed (List Char)) :=
  (d.bytes? name).map fun bytes =>
    match Utf8.decode bytes with
    | .ok text => .ok (Lines.normalize text)
    | .error malformed => .error malformed

def resolve (d : Directory) (name : FileName) : FileName := (name.under d.location).resolved

end Directory
end TemplateActions
