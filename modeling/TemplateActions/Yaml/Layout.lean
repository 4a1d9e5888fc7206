import TemplateActions.Yaml.Failure
import TemplateActions.Yaml.Property
import TemplateActions.Yaml.Scalar.Block
import TemplateActions.Yaml.Scalar.Plain
import TemplateActions.Yaml.Scalar.Quoted

/-!
The tokens of a text. Columns decide where block collections start and end. A node is the key of a
mapping if a colon follows it on its line, so a token that can start a key is remembered, and the
key indicator is put in front of it when the colon is reached.
-/
namespace TemplateActions.Yaml

inductive Context where
  | block
  | flowSequence
  | flowMapping
deriving DecidableEq

/-- A place where a key may have started: the number of tokens before it and its position. A key
that is required stands where only a key can stand. -/
structure KeyCandidate where
  tokens : Nat
  start : Position
  required : Bool

structure Level where
  context : Context
  key : Option KeyCandidate

/-- The state of reading: what is left of the text, the tokens so far with the latest first, the
columns of the open block collections, and the open flow collections, both innermost first. -/
structure Layout where
  rest : List Char
  position : Position
  tokens : List Token
  columns : List Nat
  level : Level
  outer : List Level
  keyAllowed : Bool

namespace Layout

def start (text : List Char) : Layout := ⟨text, ⟨0, 0⟩, [], [], ⟨.block, none⟩, [], true⟩

abbrev Step := Except Failure Layout

def inFlow (s : Layout) : Bool := s.level.context != .block

def moveTo (s : Layout) (rest : List Char) : Layout :=
  { s with rest, position := s.position.over (s.rest.take (s.rest.length - rest.length)) }

def emit (s : Layout) (token : Token) : Layout := { s with tokens := token :: s.tokens }

def emitTo (s : Layout) (token : Token) (rest : List Char) : Layout := (s.moveTo rest).emit token

def keyLimit : Nat := 1024

def isFresh (s : Layout) (key : KeyCandidate) : Bool :=
  key.start.line == s.position.line && s.position.column ≤ key.start.column + keyLimit

def forgetKey (s : Layout) : Layout := { s with level := { s.level with key := none } }

def dropKey (s : Layout) : Step :=
  if s.level.key.any (·.required) then .error .malformed else .ok s.forgetKey

def saveKey (s : Layout) : Step :=
  if s.keyAllowed then
    match s.dropKey with
    | .error e => .error e
    | .ok s =>
      let required := !s.inFlow && s.columns.head? == some s.position.column
      .ok { s with level := { s.level with key := some ⟨s.tokens.length, s.position, required⟩ } }
  else .ok s

def expireLevel (s : Layout) (level : Level) : Level :=
  { level with key := level.key.filter s.isFresh }

def isOverdue (s : Layout) (level : Level) : Bool :=
  level.key.any fun key => key.required && !s.isFresh key

def expireKeys (s : Layout) : Step :=
  if (s.level :: s.outer).any s.isOverdue then .error .malformed
  else .ok { s with level := s.expireLevel s.level, outer := s.outer.map s.expireLevel }

/-- Holds if tokens that were read may turn out to belong to a key. -/
def holdsTokens (s : Layout) : Bool :=
  (s.level :: s.outer).any fun level => level.key.any s.isFresh

def insertAfter (s : Layout) (count : Nat) (token : Token) : Layout :=
  let later := s.tokens.length - count
  { s with tokens := s.tokens.take later ++ token :: s.tokens.drop later }

def closeColumns (column : Nat) : List Nat → List Nat × List Token
  | [] => ([], [])
  | c :: outer =>
    if column < c then
      let (columns, ends) := closeColumns column outer
      (columns, .blockEnd :: ends)
    else (c :: outer, [])

def closeBlocks (s : Layout) : Layout :=
  if s.inFlow then s
  else
    let (columns, ends) := closeColumns s.position.column s.columns
    { s with columns, tokens := ends ++ s.tokens }

def closeAllBlocks (s : Layout) : Layout :=
  if s.inFlow then s
  else { s with columns := [], tokens := s.columns.map (fun _ => Token.blockEnd) ++ s.tokens }

def opensBlock (s : Layout) (column : Nat) : Bool := s.columns.head?.all (· < column)

def openBlock (s : Layout) (column : Nat) (token : Token) : Layout :=
  if s.opensBlock column then { s.emit token with columns := column :: s.columns } else s

def leastColumn (s : Layout) : Nat :=
  match s.columns with
  | [] => 0
  | column :: _ => column + 1

/-- Skips white space and comments. The flag in front says whether a line ended. -/
def skip (flow comment : Bool) : List Char → Bool × List Char
  | [] => (false, [])
  | c :: rest =>
    if comment then
      if c == '\n' then (true, (skip flow false rest).2) else skip flow true rest
    else if c == ' ' || (flow && c == '\t') then skip flow false rest
    else if c == '#' then skip flow true rest
    else if isBreak c then (true, (skip flow false rest).2)
    else (false, c :: rest)

def skipBlank (s : Layout) : Layout :=
  let (ended, rest) := skip s.inFlow false s.rest
  let s := s.moveTo rest
  { s with keyAllowed := s.keyAllowed || (ended && !s.inFlow) }

def outermost (s : Layout) (token : Token) (rest : List Char) : Step :=
  match s.closeAllBlocks.dropKey with
  | .error e => .error e
  | .ok s => .ok { s.emitTo token rest with keyAllowed := false }

/-- What is left to be read behind a directive. A text in another version has other tokens. -/
def behind (rest : List Char) : Directive → List Char
  | .version _ minor => if minor = Directive.knownMinor then rest else []
  | _ => rest

/-- Nothing but a comment may follow the end marker on its line. -/
def documentEnd (s : Layout) (rest : List Char) : Step :=
  match rest.dropWhile (· == ' ') with
  | [] => s.outermost .documentEnd rest
  | c :: _ => if c == '#' || isBreak c then s.outermost .documentEnd rest else .error .malformed

def openFlow (s : Layout) (context : Context) (token : Token) (rest : List Char) : Step :=
  match s.saveKey with
  | .error e => .error e
  | .ok s =>
    .ok
      { s.emitTo token rest with
        level := ⟨context, none⟩, outer := s.level :: s.outer, keyAllowed := true }

def closeFlow (s : Layout) (token : Token) (rest : List Char) : Step :=
  match s.outer with
  | [] => .error .malformed
  | level :: outer => .ok { s.emitTo token rest with level, outer, keyAllowed := false }

def flowEntry (s : Layout) (rest : List Char) : Step :=
  match s.dropKey with
  | .error e => .error e
  | .ok s => .ok { s.emitTo .flowEntry rest with keyAllowed := true }

def blockEntry (s : Layout) (rest : List Char) : Step :=
  if s.inFlow || !s.keyAllowed then .error .malformed
  else
    match (s.openBlock s.position.column .blockSequenceStart).dropKey with
    | .error e => .error e
    | .ok s => .ok { s.emitTo .blockEntry rest with keyAllowed := true }

def openMapping (s : Layout) : Step :=
  if s.inFlow then .ok s
  else if s.keyAllowed then .ok (s.openBlock s.position.column .blockMappingStart)
  else .error .malformed

def explicitKey (s : Layout) (rest : List Char) : Step :=
  match s.openMapping with
  | .error e => .error e
  | .ok s =>
    match s.dropKey with
    | .error e => .error e
    | .ok s => .ok { s.emitTo .key rest with keyAllowed := !s.inFlow }

/-- A colon makes a key of what stands before it on the line. -/
def value (s : Layout) (rest : List Char) : Step :=
  match s.level.key with
  | some key =>
    let keyed := s.forgetKey.insertAfter key.tokens .key
    let opened :=
      if !s.inFlow && s.opensBlock key.start.column then
        { keyed.insertAfter key.tokens .blockMappingStart with
          columns := key.start.column :: s.columns }
      else keyed
    .ok { opened.emitTo .value rest with keyAllowed := false }
  | none =>
    match s.openMapping with
    | .error e => .error e
    | .ok s => .ok { s.emitTo .value rest with keyAllowed := !s.inFlow }

/-- Whether a colon separates a key from its value. In flow mappings it need not be followed by
white space, unless it follows such a colon while earlier tokens may still belong to a key. -/
def isValue (s : Layout) (held : Bool) (rest : List Char) : Bool :=
  match s.level.context with
  | .flowMapping => atWordEnd rest || !(held && s.tokens.head? == some .value)
  | _ => atWordEnd rest

def content (s : Layout) (read : Option (Token × List Char)) : Step :=
  match s.saveKey, read with
  | .error e, _ => .error e
  | .ok s, some (token, rest) => .ok { s.emitTo token rest with keyAllowed := false }
  | .ok _, none => .error .malformed

def quoted (s : Layout) (quote : Char) (rest : List Char) : Step :=
  match Quoted.read quote rest with
  | .error e => .error e
  | .ok (text, rest) => s.content (some (.scalar false text, rest))

def blockScalar (s : Layout) (folded : Bool) (rest : List Char) : Step :=
  match s.dropKey, Block.read? folded s.leastColumn rest with
  | .ok s, some (text, rest) => .ok { s.emitTo (.scalar false text) rest with keyAllowed := true }
  | _, _ => .error .malformed

def plain (s : Layout) : Step :=
  let scalar := Plain.read s.inFlow s.leastColumn s.rest
  match s.content (some (.scalar true scalar.text, scalar.rest)) with
  | .error e => .error e
  | .ok s => .ok { s with keyAllowed := scalar.atLineStart }

def token (s : Layout) (held : Bool) (c : Char) (rest : List Char) : Step :=
  if s.position.column = 0 && c == '%' then
    match Property.directive? rest with
    | some (directive, rest) => s.outermost (.directive directive) (behind rest directive)
    | none => .error .malformed
  else if s.position.column = 0 && atMarker '-' (c :: rest) then
    s.outermost .documentStart (rest.drop 2)
  else if s.position.column = 0 && atMarker '.' (c :: rest) then s.documentEnd (rest.drop 2)
  else if c == '[' then s.openFlow .flowSequence .flowSequenceStart rest
  else if c == '\x7b' then s.openFlow .flowMapping .flowMappingStart rest
  else if c == ']' then s.closeFlow .flowSequenceEnd rest
  else if c == '\x7d' then s.closeFlow .flowMappingEnd rest
  else if c == ',' then s.flowEntry rest
  else if c == '-' && atWordEnd rest then s.blockEntry rest
  else if c == '?' && (s.inFlow || atWordEnd rest) then s.explicitKey rest
  else if c == ':' && s.isValue held rest then s.value rest
  else if c == '*' then
    s.content ((Property.name? rest).map fun (name, rest) => (.alias name, rest))
  else if c == '&' then
    s.content ((Property.name? rest).map fun (name, rest) => (.anchor name, rest))
  else if c == '!' then s.content ((Property.tag? rest).map fun (name, rest) => (.tag name, rest))
  else if c == '|' && !s.inFlow then s.blockScalar false rest
  else if c == '>' && !s.inFlow then s.blockScalar true rest
  else if c == '\'' || c == '"' then s.quoted c rest
  else if Plain.starts s.inFlow c rest then s.plain
  else .error .malformed

def finish (s : Layout) : Except Failure (List Token) :=
  match s.closeAllBlocks.dropKey with
  | .error e => .error e
  | .ok s => .ok s.tokens.reverse

/-- Reads tokens to the end of the text. Each takes at least one character and one unit of fuel. -/
def run : (fuel : Nat) → Layout → Except Failure (List Token)
  | 0, _ => .error .malformed
  | fuel + 1, s =>
    match s.skipBlank.expireKeys with
    | .error e => .error e
    | .ok next =>
      match next.rest with
      | [] => next.finish
      | c :: rest =>
        match next.closeBlocks.token s.holdsTokens c rest with
        | .error e => .error e
        | .ok next => run fuel next

end Layout

def tokens (text : List Char) : Except Failure (List Token) :=
  let text := if text.head? == some byteOrderMark then text.drop 1 else text
  Layout.run (text.length + 1) (Layout.start text)

end TemplateActions.Yaml
