/-!
Log records: a level, which may be any number, and a text. A record whose text cannot be put
together has none.
-/
namespace TemplateActions

inductive Level where
  | debug
  | info
  | warning
  | error
  | critical
deriving DecidableEq

namespace Level

def all : List Level := [.debug, .info, .warning, .error, .critical]

def name : Level → String
  | .debug => "DEBUG"
  | .info => "INFO"
  | .warning => "WARNING"
  | .error => "ERROR"
  | .critical => "CRITICAL"

def number : Level → Nat
  | .debug => 10
  | .info => 20
  | .warning => 30
  | .error => 40
  | .critical => 50

end Level

structure Record where
  level : Int
  message : Option String
deriving DecidableEq

namespace Record

def debug (message : Option String) : Record := ⟨Level.debug.number, message⟩

def error (message : Option String) : Record := ⟨Level.error.number, message⟩

end Record
end TemplateActions
