import TemplateActions.Record
import TemplateActions.Value.Literal

/-!
The settings of the program. The level is one of the four that a configuration may name.
-/
namespace TemplateActions

inductive ConfigLevel where
  | debug
  | info
  | warning
  | error
deriving DecidableEq

namespace ConfigLevel

def all : List ConfigLevel := [.debug, .info, .warning, .error]

def level : ConfigLevel → Level
  | .debug => .debug
  | .info => .info
  | .warning => .warning
  | .error => .error

def name (l : ConfigLevel) : String := l.level.name

def ofName? (name : String) : Option ConfigLevel := all.find? fun l => l.name == name

end ConfigLevel

structure Config where
  level : ConfigLevel := .warning
  pretty : Bool := false
  indent : Nat := 2
deriving DecidableEq

namespace Config

def literal (c : Config) : List Char :=
  Literal.call "CompilerConfig"
    ["log_level=".toList ++ Literal.text c.level.name, "pretty=".toList ++ Literal.bool c.pretty,
      "indent=".toList ++ Decimal.natChars c.indent]

def isWritable (c : Config) : Bool := (Value.int c.indent).isWritable

end Config
end TemplateActions
