import TemplateActions.CommandLine.Basic
import TemplateActions.Config.Load
import TemplateActions.Document.Load
import TemplateActions.Json.Printer
import TemplateActions.Logging.Basic
import TemplateActions.Node.Outline
import TemplateActions.Report
import TemplateActions.Version
import TemplateActions.Visitor.Compile

/-!
What the program does for a command line in a directory. Faults of the user end it with code 2 and a
message. Records go to the handler from the time on that the configuration is known.
-/
namespace TemplateActions.CommandLine

structure Output where
  code : Nat
  stdout : String
  stderr : String
deriving DecidableEq

/-- A failure that ends the run without a message to the user. -/
inductive Crash where
  | value (failure : Yaml.Failure)
  | document (failure : DocumentFailure)
  | report (error : ReportError)
  | level (error : Logging.SetupError)
  | write (fault : Json.WriteFault)
  | lookup (fault : NameFault)

abbrev Ran := Except Crash Output

def usageCode : Nat := 2

def refuse (log message : String) : Ran :=
  .ok ⟨usageCode, "", log ++ String.ofList (Lines.trimRight message.toList) ++ "\n"⟩

def indentOf (config : Config) (pretty : Bool) : Option Int :=
  if pretty || config.pretty then some config.indent else none

def withTree (directory : Directory) (logging : Logging) (file : String)
    (next : String → Node → Ran) : Ran :=
  match Document.ofFile directory (.ofText file) with
  | (.ok root, records) => next (logging.lines records) root
  | (.error (.source name cause), records) =>
    refuse (logging.lines records) (name ++ ": " ++ cause.message)
  | (.error (.document (.defect path cause)), records) =>
    refuse (logging.lines records) (path.text ++ ": " ++ cause.message)
  | (.error (.document failure), _) => .error (.document failure)
  | (.error (.value failure), _) => .error (.value failure)
  | (.error (.lookup fault), _) => .error (.lookup fault)

def answer (indent : Option Int) (log : String) (document : Json) : Ran :=
  match document.write indent with
  | .ok text => .ok ⟨0, text, log⟩
  | .error fault => .error (.write fault)

def writeActions (version : String) (logging : Logging) (indent : Option Int) (log : String)
    (root : Node) : Ran :=
  let (compiled, records) := root.compileActions
  let log := log ++ logging.lines records
  match compiled with
  | .error e => refuse log ("Template visit failed: " ++ e.message)
  | .ok actions =>
    match Report.build version root actions with
    | .error e => .error (.report e)
    | .ok report => answer indent log report.toJson

def kindsJson : Json := .object [("kinds", .array (ActionKind.all.map fun kind => .text kind.name))]

def runCommand (version : String) (directory : Directory) (config : Config) (logging : Logging) :
    Command → Ran
  | .actions file pretty =>
    withTree directory logging file (writeActions version logging (indentOf config pretty))
  | .tree file =>
    withTree directory logging file fun log root => .ok ⟨0, root.outlineText 0 ++ "\n", log⟩
  | .kinds => answer (indentOf config false) "" kindsJson

def Invocation.configFile? (invocation : Invocation) : Option FileName :=
  if invocation.config == "" then none else some (.ofText invocation.config)

def Invocation.files (invocation : Invocation) : List FileName :=
  let config := invocation.configFile?.getD (.ofText Config.fileName)
  match invocation.command with
  | .actions file _ | .tree file => [config, .ofText file]
  | .kinds => [config]

def runInvocation (version : String) (directory : Directory) (debug : Option String)
    (invocation : Invocation) : Ran :=
  match (Config.load directory directory.location invocation.configFile?).1 with
  | .error (.value failure) => .error (.value failure)
  | .error (.lookup fault) => .error (.lookup fault)
  | .error (.defect file cause) => refuse "" (cause.report file)
  | .ok config =>
    match ({} : Logging).setup config.level.name debug with
    | .error e => .error (.level e)
    | .ok logging => runCommand version directory config logging invocation.command

def helpText (program : String) : String := "usage: " ++ program ++ " [options]\n"

/-- Runs the program, which is `installed` in a version or not at all. A nonempty `debug` asks for
all log records. -/
def run (installed : Option String) (directory : Directory) (debug : Option String)
    (args : List String) : Ran :=
  let version := versionOf installed
  match parse args with
  | .error e => .ok ⟨usageCode, "", e.message ++ "\n"⟩
  | .ok .version => .ok ⟨0, programName ++ " " ++ version ++ "\n", ""⟩
  | .ok (.help program) => .ok ⟨0, helpText program, ""⟩
  | .ok (.run invocation) => runInvocation version directory debug invocation

end TemplateActions.CommandLine
