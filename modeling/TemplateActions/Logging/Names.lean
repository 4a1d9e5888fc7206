import TemplateActions.Record

/-!
What the names of the logging vocabulary stand for. A level is set by a name, and only some names
are levels: others stand for texts, which are no levels, or for things that are no names at all.
-/
namespace TemplateActions.Logging

inductive Named where
  | level (number : Nat)
  | text
  | other
deriving DecidableEq

/-- Names of levels. A switch that is on counts as one. -/
def levelNames : List (String × Nat) :=
  [("CRITICAL", 50), ("FATAL", 50), ("ERROR", 40), ("WARNING", 30), ("WARN", 30), ("INFO", 20),
    ("DEBUG", 10), ("NOTSET", 0), ("raiseExceptions", 1), ("logThreads", 1), ("logProcesses", 1),
    ("logMultiprocessing", 1)]

def textNames : List String := ["BASIC_FORMAT"]

def otherNames : List String :=
  ["BufferingFormatter", "FileHandler", "Filter", "Filterer", "Formatter", "GenericAlias",
    "Handler", "LogRecord", "Logger", "LoggerAdapter", "Manager", "NullHandler", "PercentStyle",
    "PlaceHolder", "RootLogger", "StrFormatStyle", "StreamHandler", "StringTemplateStyle",
    "Template", "addLevelName", "atexit", "basicConfig", "captureWarnings", "collections",
    "critical", "currentframe", "debug", "disable", "error", "exception", "fatal",
    "getLevelName", "getLevelNamesMapping", "getLogRecordFactory", "getLogger", "getLoggerClass",
    "info", "io", "lastResort", "log", "makeLogRecord", "os", "re", "root",
    "setLogRecordFactory", "setLoggerClass", "shutdown", "sys", "threading", "time", "traceback",
    "warn", "warning", "warnings", "weakref"]

def innerTextNames : List String :=
  ["__author__", "__cached__", "__date__", "__doc__", "__file__", "__name__", "__package__",
    "__status__", "__version__", "_srcfile"]

def innerOtherNames : List String :=
  ["_STYLES", "_StderrHandler", "__all__", "__annotations__", "__builtins__", "__class__",
    "__delattr__", "__dict__", "__dir__", "__eq__", "__format__", "__ge__", "__getattribute__",
    "__getstate__", "__gt__", "__hash__", "__init__", "__init_subclass__", "__le__", "__loader__",
    "__lt__", "__ne__", "__new__", "__path__", "__reduce__", "__reduce_ex__", "__repr__",
    "__setattr__", "__sizeof__", "__spec__", "__str__", "__subclasshook__", "_acquireLock",
    "_addHandlerRef", "_after_at_fork_child_reinit_locks", "_at_fork_reinit_lock_weakset",
    "_checkLevel", "_defaultFormatter", "_defaultLastResort", "_handlerList", "_handlers",
    "_is_internal_frame", "_levelToName", "_lock", "_logRecordFactory", "_loggerClass",
    "_nameToLevel", "_register_at_fork_reinit_lock", "_releaseLock", "_removeHandlerRef",
    "_showwarning", "_startTime", "_str_formatter", "_warnings_showwarning"]

def named? (name : String) : Option Named :=
  match levelNames.lookup name with
  | some number => some (.level number)
  | none =>
    if textNames.contains name || innerTextNames.contains name then some .text
    else if otherNames.contains name || innerOtherNames.contains name then some .other
    else none

end TemplateActions.Logging
