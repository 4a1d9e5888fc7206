import TemplateActions.Config.Validation
import TemplateActions.Directory
import TemplateActions.Yaml.Meaning

/-!
The configuration file. It is looked for in a directory, where it may be missing, unless a file is
named, which must be there. A document that stands for nothing leaves all settings at their
defaults.
-/
namespace TemplateActions

inductive ConfigDefect where
  | notFound
  | unreadable (cause : Utf8.Malformed)
  | malformed
  | notMapping (found : Value)
  | invalid (problems : List Config.Problem)

namespace ConfigDefect

def problemText (problem : Config.Problem) : String :=
  let key :=
    match problem.key with
    | .text name => name
    | key => String.ofList key.literal
  "\n" ++ key ++ "\n  " ++ problem.kind.message

def message : ConfigDefect → String
  | .notFound => "file not found"
  | .unreadable cause => "cannot read file: " ++ cause.message
  | .malformed => "invalid YAML: malformed text"
  | .notMapping found => "expected mapping at top level, got " ++ found.typeName
  | .invalid problems =>
    Decimal.ofNat problems.length ++ " validation error" ++
      (if problems.length = 1 then "" else "s") ++
      " for CompilerConfig" ++ String.join (problems.map problemText)

end ConfigDefect

/-- How the loading of a configuration fails. A defect has a message; the other failures end the
run. -/
inductive ConfigFailure where
  | defect (file : FileName) (cause : ConfigDefect)
  | value (failure : Yaml.Failure)
  | lookup (fault : NameFault)

def ConfigDefect.report (file : FileName) (cause : ConfigDefect) : String :=
  "Invalid config " ++ file.text ++ ": " ++ cause.message

namespace Config

def fileName : String := "tplc.yaml"

abbrev Logged := Except ConfigFailure Config × List Record

def ofValue (data : Value) : Except ConfigDefect Config :=
  if data.isEmpty then .ok {}
  else
    match data with
    | .map entries =>
      match validate entries with
      | .ok config => .ok config
      | .error problems => .error (.invalid problems)
    | found => .error (.notMapping found)

def loadedRecord (file : FileName) (config : Config) : Record :=
  let message := "Loaded config from " ++ file.text ++ ": " ++ String.ofList config.literal
  .debug (if config.isWritable then some message else none)

def ofText (file : FileName) (text : List Char) : Logged :=
  match Yaml.read text with
  | .error .malformed => (.error (.defect file .malformed), [])
  | .error failure => (.error (.value failure), [])
  | .ok data =>
    match ofValue data with
    | .error cause => (.error (.defect file cause), [])
    | .ok config =>
      (.ok config, [loadedRecord file config])

/-- The settings for a program that runs in the directory: those of the named file, or of the file
that is found below `root`. -/
def load (directory : Directory) (root : FileName) (named : Option FileName) : Logged :=
  let file := directory.resolve (named.getD (root.child fileName))
  if (named.getD root).hasZero then (.error (.lookup .zeroCharacter), [])
  else if directory.isOverlong file then (.error (.lookup .tooLong), [])
  else
    match directory.text? file with
    | none =>
      if named.isSome then (.error (.defect file .notFound), [])
      else (.ok {}, [Record.debug (some ("No " ++ file.text ++ " found, using defaults"))])
    | some (.error cause) => (.error (.defect file (.unreadable cause)), [])
    | some (.ok text) => ofText file text

end Config
end TemplateActions
