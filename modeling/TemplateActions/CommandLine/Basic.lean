import TemplateActions.CommandLine.Option

/-!
The command line of the program: options of the program itself, a command, and behind it the options
and operands of the command.
-/
namespace TemplateActions.CommandLine

inductive Command where
  | actions (file : String) (pretty : Bool)
  | tree (file : String)
  | kinds
deriving DecidableEq

/-- A run of a command. An empty name of a configuration file counts as none. -/
structure Invocation where
  config : String
  command : Command
deriving DecidableEq

inductive Request where
  | run (invocation : Invocation)
  | version
  | help (program : String)
deriving DecidableEq

abbrev Parsed := Except UsageError Request

def programName : String := "tplc"

def helpOption : OptionSpec := ⟨.help, ["-h", "--help"], false⟩

def versionOption : OptionSpec := ⟨.version, ["-v", "--version"], false⟩

def configOption : OptionSpec := ⟨.config, ["--config"], true⟩

def prettyOption : OptionSpec := ⟨.pretty, ["--pretty"], false⟩

def programOptions : List OptionSpec := [helpOption, versionOption, configOption]

def commandNames : List String := ["actions", "tree", "kinds"]

structure Operands where
  file : Option String
  pretty : Bool
  extra : List String

inductive Behind where
  | operands (operands : Operands)
  | help

/-- Reads the arguments behind a command. If it takes an operand, the first one is taken, together
with a pair of dashes on either side. -/
def readOperands (options : List OptionSpec) (takesFile : Bool) (read : Operands) :
    List Argument → Except UsageCause Behind
  | [] => .ok (.operands read)
  | .option _ use :: rest =>
    match checkFlag options use with
    | .error cause => .error cause
    | .ok () =>
      if use.spec.key = .help then .ok .help
      else readOperands options takesFile { read with pretty := true } rest
  | .unknown text :: rest =>
    readOperands options takesFile { read with extra := read.extra ++ [text] } rest
  | .separator :: .operand text :: rest =>
    if takesFile && read.file.isNone then
      readOperands options takesFile { read with file := some text } rest
    else readOperands options takesFile { read with extra := read.extra ++ ["--", text] } rest
  | .separator :: rest =>
    readOperands options takesFile { read with extra := read.extra ++ ["--"] } rest
  | .operand text :: .separator :: rest =>
    if takesFile && read.file.isNone then
      readOperands options takesFile { read with file := some text } rest
    else readOperands options takesFile { read with extra := read.extra ++ [text, "--"] } rest
  | .operand text :: rest =>
    if takesFile && read.file.isNone then
      readOperands options takesFile { read with file := some text } rest
    else readOperands options takesFile { read with extra := read.extra ++ [text] } rest

def optionsOf (name : String) : List OptionSpec :=
  if name == "actions" then [helpOption, prettyOption] else [helpOption]

def command? (name : String) (operands : Operands) : Option Command :=
  if name == "kinds" then some .kinds
  else
    operands.file.map fun file =>
      if name == "actions" then .actions file operands.pretty else .tree file

/-- Reads a command and what stands behind it. Arguments that are left over are faults of the whole
command line. -/
def readCommand (config : String) (extra : List String) (name : String)
    (rest : List String) : Parsed :=
  let program := programName ++ " " ++ name
  let read : Except UsageCause Behind :=
    match arguments (optionsOf name) rest with
    | .error cause => .error cause
    | .ok arguments => readOperands (optionsOf name) (name != "kinds") ⟨none, false, []⟩ arguments
  if !commandNames.contains name then .error ⟨programName, .invalidChoice name commandNames⟩
  else
    match read with
    | .error cause => .error ⟨program, cause⟩
    | .ok .help => .ok (.help program)
    | .ok (.operands operands) =>
      match command? name operands with
      | none => .error ⟨program, .missing "tree"⟩
      | some command =>
        if (extra ++ operands.extra).isEmpty then .ok (.run ⟨config, command⟩)
        else .error ⟨programName, .unrecognized (extra ++ operands.extra)⟩

/-- The name of a file as the value of an option; a pair of dashes is no name. -/
def fileOf (value : String) : String := if value == "--" then "" else value

def readProgram (config : String) (extra : List String) : List Argument → Parsed
  | [] => .error ⟨programName, .missing "cmd"⟩
  | .separator :: rest =>
    if rest.isEmpty then .error ⟨programName, .missing "cmd"⟩
    else .error ⟨programName, .invalidChoice "--" commandNames⟩
  | .operand name :: rest => readCommand config extra name (rest.map Argument.text)
  | .unknown text :: rest => readProgram config (extra ++ [text]) rest
  | .option _ use :: rest =>
    if use.spec.takesValue then
      match use.attached, rest with
      | some value, rest => readProgram (fileOf value) extra rest
      | none, .operand value :: rest => readProgram value extra rest
      | none, _ => .error ⟨programName, .missingValue use.spec⟩
    else
      match checkFlag programOptions use with
      | .error cause => .error ⟨programName, cause⟩
      | .ok () => if use.spec.key = .version then .ok .version else .ok (.help programName)

def parse (args : List String) : Parsed :=
  match arguments programOptions args with
  | .error cause => .error ⟨programName, cause⟩
  | .ok arguments => readProgram "" [] arguments

end TemplateActions.CommandLine
