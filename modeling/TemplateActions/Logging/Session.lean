import TemplateActions.Logging.Basic
import TemplateActions.Visitor.Compile

/-!
Sessions with the program's logger: setups, records of any logger, and compilations with the records
that they write, in any order. A setup that fails leaves the logger as it is.
-/
namespace TemplateActions.Logging

inductive Call where
  | setup (name : String) (debug : Option String)
  | emit (logger : String) (r : Record)
  | compile (root : Node)

inductive CallError where
  | setup (e : SetupError)
  | overlongLevel
deriving DecidableEq

/-- How a call ends: its error, and what the handlers do in it. -/
structure Reply where
  error : Option CallError := none
  outputs : List Output := []
deriving DecidableEq

def call (s : Logging) : Call → Logging × Reply
  | .setup name debug =>
    match s.setup name debug with
    | .ok s => (s, {})
    | .error e => (s, { error := some (.setup e) })
  | .emit logger r =>
    -- A level is named when the record is made, which is only done if the level is reached.
    if s.threshold logger ≤ r.level ∧ ¬ isNameable r.level then
      (s, { error := some .overlongLevel })
    else (s, { outputs := s.outputs logger r })
  | .compile root => (s, { outputs := root.compileActions.2.flatMap (s.outputs loggerName) })

def run (s : Logging) : List Call → Logging × List Reply
  | [] => (s, [])
  | first :: rest =>
    let (s, reply) := s.call first
    let (s, replies) := s.run rest
    (s, reply :: replies)

end TemplateActions.Logging
