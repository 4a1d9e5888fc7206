import TemplateActions.Text.Digit
import TemplateActions.Text.Quoted

/-!
Options of command lines, and how arguments are told apart. A long option may be cut short while
it stays the only one that starts so, and its value may follow an equals sign. Flags of one letter
may be written together.
-/
namespace TemplateActions.CommandLine

inductive OptionKey where
  | help
  | version
  | config
  | pretty
deriving DecidableEq

structure OptionSpec where
  key : OptionKey
  names : List String
  takesValue : Bool

inductive UsageCause where
  | missing (name : String)
  | invalidChoice (choice : String) (choices : List String)
  | missingValue (spec : OptionSpec)
  | unexpectedValue (spec : OptionSpec) (value : String)
  | ambiguous (argument : String) (names : List String)
  | unrecognized (arguments : List String)

structure UsageError where
  program : String
  cause : UsageCause

def OptionSpec.text (spec : OptionSpec) : String := String.intercalate "/" spec.names

def UsageCause.message : UsageCause → String
  | .missing name => "the following arguments are required: " ++ name
  | .invalidChoice choice choices =>
    "argument cmd: invalid choice: " ++ Quoted.literal choice ++ " (choose from " ++
      String.intercalate ", " (choices.map Quoted.literal) ++ ")"
  | .missingValue spec => "argument " ++ spec.text ++ ": expected one argument"
  | .unexpectedValue spec value =>
    "argument " ++ spec.text ++ ": ignored explicit argument " ++ Quoted.literal value
  | .ambiguous argument names =>
    "ambiguous option: " ++ argument ++ " could match " ++ String.intercalate ", " names
  | .unrecognized arguments => "unrecognized arguments: " ++ String.intercalate " " arguments

def UsageError.message (e : UsageError) : String := e.program ++ ": error: " ++ e.cause.message

structure OptionUse where
  spec : OptionSpec
  name : String
  attached : Option String

/-- An argument. Behind the first pair of dashes that stands alone all others are operands. -/
inductive Argument where
  | operand (text : String)
  | separator
  | option (text : String) (use : OptionUse)
  | unknown (text : String)

def Argument.text : Argument → String
  | .operand text | .option text _ | .unknown text => text
  | .separator => "--"

def find? (options : List OptionSpec) (name : String) : Option OptionSpec :=
  options.find? fun spec => spec.names.contains name

def splitAtEquals? (text : String) : Option (String × String) :=
  match text.toList.dropWhile (· != '=') with
  | _ :: value => some (String.ofList (text.toList.takeWhile (· != '=')), String.ofList value)
  | [] => none

def startingWith (options : List OptionSpec) (start : String) (attached : Option String) :
    List OptionUse :=
  options.flatMap fun spec =>
    (spec.names.filter fun name => start.toList.isPrefixOf name.toList).map fun name =>
      ⟨spec, name, attached⟩

def candidates (options : List OptionSpec) (text : String) : List OptionUse :=
  match text.toList with
  | '-' :: '-' :: _ =>
    match splitAtEquals? text with
    | some (name, value) => startingWith options name (some value)
    | none => startingWith options text none
  | '-' :: letter :: tail =>
    match find? options (String.ofList ['-', letter]) with
    | some spec => [⟨spec, String.ofList ['-', letter], some (String.ofList tail)⟩]
    | none => []
  | _ => []

/-- Digits, which may have a point before the last of them. -/
def isNumber (text : List Char) : Bool :=
  match text.dropWhile Digit.isDecimal with
  | [] => !text.isEmpty
  | '.' :: digits => !digits.isEmpty && digits.all Digit.isDecimal
  | _ => false

def withoutFinalBreak (text : List Char) : List Char :=
  if text.getLast? == some '\n' then text.dropLast else text

/-- Numbers with a minus sign are operands, also with a line break behind them. -/
def isNegativeNumber (text : List Char) : Bool :=
  match text with
  | '-' :: rest => isNumber (withoutFinalBreak rest)
  | _ => false

def byName? (options : List OptionSpec) (text : String) : Option OptionUse :=
  match find? options text with
  | some spec => some ⟨spec, text, none⟩
  | none =>
    match splitAtEquals? text with
    | some (name, value) => (find? options name).map fun spec => ⟨spec, name, some value⟩
    | none => none

def classify (options : List OptionSpec) (text : String) : Except UsageCause Argument :=
  if text.toList.head? != some '-' || text.length = 1 then .ok (.operand text)
  else
    match byName? options text, candidates options text with
    | some use, _ => .ok (.option text use)
    | none, [use] => .ok (.option text use)
    | none, [] =>
      if isNegativeNumber text.toList || text.toList.contains ' ' then .ok (.operand text)
      else .ok (.unknown text)
    | none, uses => .error (.ambiguous text (uses.map (·.name)))

def arguments (options : List OptionSpec) : List String → Except UsageCause (List Argument)
  | [] => .ok []
  | text :: rest =>
    if text == "--" then .ok (.separator :: rest.map Argument.operand)
    else
      match classify options text with
      | .error cause => .error cause
      | .ok argument =>
        match arguments options rest with
        | .ok arguments => .ok (argument :: arguments)
        | .error cause => .error cause

/-- Flags that are written together with the flag `spec`. The first of them has its effect first. -/
def checkFlags (options : List OptionSpec) (spec : OptionSpec) : List Char → Except UsageCause Unit
  | [] => .ok ()
  | letter :: rest =>
    match find? options (String.ofList ['-', letter]) with
    | some next => checkFlags options next rest
    | none => .error (.unexpectedValue spec (String.ofList (letter :: rest)))

def isShort (name : String) : Bool := name.toList.drop 1 |>.head?.any (· != '-')

def checkFlag (options : List OptionSpec) (use : OptionUse) : Except UsageCause Unit :=
  match use.attached with
  | none => .ok ()
  | some attached =>
    if isShort use.name && attached != "" then checkFlags options use.spec attached.toList
    else .error (.unexpectedValue use.spec attached)

end TemplateActions.CommandLine
