import TemplateActions.Directory
import TemplateActions.Document.Tree
import TemplateActions.Record
import TemplateActions.Yaml.Meaning

/-!
Trees from texts and from files. A text is JSON or any other structured text; `source` names it in
messages.
-/
namespace TemplateActions

inductive SourceDefect where
  | notFound
  | unreadable (cause : Utf8.Malformed)
  | malformed

def SourceDefect.message : SourceDefect → String
  | .notFound => "tree document not found"
  | .unreadable cause => "cannot read tree document: " ++ cause.message
  | .malformed => "invalid YAML/JSON: malformed text"

/-- How loading fails: the source cannot be read, the document is not one of a tree, or a value in
the text or the length of the name ends the run. -/
inductive LoadFailure where
  | source (name : String) (defect : SourceDefect)
  | document (failure : DocumentFailure)
  | value (failure : Yaml.Failure)
  | lookup (fault : NameFault)

def LoadFailure.report? : LoadFailure → Option (String × String)
  | .source name cause => some (name, cause.message)
  | .document (.defect path cause) => some (path.text, cause.message)
  | .document .incomparableKeys | .document .overlongInteger | .value _ | .lookup _ => none

namespace Document

abbrev Logged (α : Type) := Except LoadFailure α × List Record

def ofText (source : String) (text : List Char) : Logged Node :=
  match Yaml.read text with
  | .error .malformed => (.error (.source source .malformed), [])
  | .error failure => (.error (.value failure), [])
  | .ok data =>
    let log := [Record.debug (some ("Loaded tree document from " ++ source))]
    match tree data with
    | .ok root => (.ok root, log)
    | .error failure => (.error (.document failure), log)

def ofFile (directory : Directory) (name : FileName) : Logged Node :=
  if directory.isOverlong name then (.error (.lookup .tooLong), [])
  else
    match directory.text? name with
    | none => (.error (.source name.text .notFound), [])
    | some (.error cause) => (.error (.source name.text (.unreadable cause)), [])
    | some (.ok text) => ofText name.text text

end Document
end TemplateActions
