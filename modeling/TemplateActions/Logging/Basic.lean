import TemplateActions.Logging.Names
import TemplateActions.Value.Literal

/-!
Where log records go. Records of the program's own logger and of those below it go to its
handlers, once one is installed, if they reach the level. Where no handler applies a record is
written without its level, if it is a warning or worse. A record may have no text; each handler that
it goes to reports this in the place of a line.
-/
namespace TemplateActions

/-- The state of the program's logger. Level zero leaves the decision to the outermost logger. The
flag holds from the first setup on that does not fail; the handlers are all alike. -/
structure Logging where
  level : Nat := 0
  settled : Bool := false
  handlers : Nat := 0
deriving DecidableEq

namespace Logging

inductive SetupError where
  | unknownName
  | textName
  | otherName
deriving DecidableEq

def loggerName : String := "tplc"

def wantsAll (debug : Option String) : Bool := debug.any (· != "")

/-- The level that a name stands for. With a nonempty `debug` it is that of all records, whatever
the name. -/
def requested (name : String) (debug : Option String) : Except SetupError Nat :=
  match named? (if wantsAll debug then Level.debug.name else name) with
  | some (.level number) => .ok number
  | some .text => .error .textName
  | some .other => .error .otherName
  | none => .error .unknownName

def settle (s : Logging) : Logging :=
  if s.settled then s
  else { s with settled := true, handlers := if s.handlers = 0 then 1 else s.handlers }

def setup (s : Logging) (name : String) (debug : Option String) : Except SetupError Logging :=
  match requested name debug with
  | .error e => .error e
  | .ok number => .ok ({ s with level := number } : Logging).settle

def installed (s : Logging) : Bool := s.handlers != 0

def isOwn (logger : String) : Bool :=
  logger == loggerName || (loggerName ++ ".").toList.isPrefixOf logger.toList

def threshold (s : Logging) (logger : String) : Nat :=
  if isOwn logger && s.level != 0 then s.level else Level.warning.number

def copies (s : Logging) (logger : String) (level : Int) : Nat :=
  if level < s.threshold logger then 0
  else if isOwn logger && s.installed then s.handlers
  else if level < Level.warning.number then 0
  else 1

def levelText (level : Int) : String :=
  match Level.all.find? fun l => l.number == level with
  | some l => l.name
  | none => if level = 0 then "NOTSET" else "Level " ++ Decimal.ofInt level

/-- Whether a record can have that level: its number must not be too long to be written. -/
def isNameable (level : Int) : Bool := (Value.int level).isWritable

def layout (level : Int) (message : String) : String :=
  "[" ++ levelText level ++ "] " ++ message ++ "\n"

/-- What a handler does with a record: it writes a line, or it reports that there is no text. -/
inductive Output where
  | line (text : String)
  | report
deriving DecidableEq

/-- The text of the line, if there is one. -/
def Output.text : Output → String
  | .line text => text
  | .report => ""

def output (laidOut : Bool) (r : Record) : Output :=
  match r.message with
  | none => .report
  | some message => .line (if laidOut then layout r.level message else message ++ "\n")

/-- What the handlers that a record goes to do with it. -/
def outputs (s : Logging) (logger : String) (r : Record) : List Output :=
  List.replicate (s.copies logger r.level) (output (isOwn logger && s.installed) r)

/-- The lines that are written for records of the program's own logger. -/
def lines (s : Logging) (records : List Record) : String :=
  String.join ((records.flatMap (s.outputs loggerName)).map Output.text)

end Logging
end TemplateActions
