import TemplateActions.Yaml.Character

/-!
Plain scalars: words without quotes. A scalar goes on over the gaps between its words; a line break
within a gap reads as a space, and further breaks are kept.
-/
namespace TemplateActions.Yaml.Plain

def isBracket (c : Char) : Bool := c == '[' || c == ']' || c == '\x7b' || c == '\x7d'

def isIndicator (c : Char) : Bool :=
  isBracket c || c == '-' || c == '?' || c == ':' || c == ',' || c == '#' || c == '&' || c == '*' ||
    c == '!' || c == '|' || c == '>' || c == '\'' || c == '"' || c == '%' || c == '@' || c == '`'

def startsBlank : List Char → Bool
  | [] => true
  | c :: _ => isBlank c

def starts (flow : Bool) (c : Char) (rest : List Char) : Bool :=
  !(isIndicator c || isBlank c) ||
    (c == '-' && !startsBlank rest) ||
    (c == ':' && flow && !(rest.head?.any isSpace)) ||
    (!flow && (c == '?' || c == ':') && !startsBlank rest)

def endsWord (flow : Bool) (c : Char) (rest : List Char) : Bool :=
  if c == ':' then atWordEnd rest
  else isSpace c || c == '\n' || (flow && (isBracket c || c == ','))

def word (flow : Bool) : List Char → List Char × List Char
  | [] => ([], [])
  | c :: rest =>
    if endsWord flow c rest then ([], c :: rest)
    else
      let (text, rest) := word flow rest
      (c :: text, rest)

/-- What stands between two words: the text that it reads as, what follows, and the column there if
the gap has a line break. -/
structure Gap where
  text : List Char
  rest : List Char
  column : Option Nat

def blankLines (breaks : List Char) (column : Nat) : List Char → Gap
  | [] => ⟨breaks, [], some column⟩
  | c :: rest =>
    if c == ' ' then blankLines breaks (column + 1) rest
    else if isBreak c then blankLines (breaks ++ [c]) 0 rest
    else ⟨breaks, c :: rest, some column⟩

def gap (input : List Char) : Gap :=
  let spaces := input.takeWhile (· == ' ')
  match input.dropWhile (· == ' ') with
  | [] => ⟨spaces, [], none⟩
  | c :: rest =>
    if !isBreak c then ⟨spaces, c :: rest, none⟩
    else
      let lines := blankLines [] 0 rest
      if c != '\n' then { lines with text := c :: lines.text }
      else if lines.text.isEmpty then { lines with text := [' '] }
      else lines

/-- Whether a scalar ends in the gap: where nothing separates words, before a comment, at a document
marker, and in a block where a line starts left of the least column. -/
def Gap.ends (gap : Gap) (flow : Bool) (least : Nat) : Bool :=
  gap.text.isEmpty || gap.rest.head? == some '#' ||
    (gap.column == some 0 && atDocumentMarker gap.rest) || (!flow && gap.column.any (· < least))

structure Result where
  text : List Char
  rest : List Char
  /-- Holds if the scalar is followed by a line break. -/
  atLineStart : Bool

def words (flow : Bool) (least : Nat) : (fuel : Nat) → List Char → Result
  | 0, input => ⟨[], input, false⟩
  | fuel + 1, input =>
    let (text, rest) := word flow input
    if text.isEmpty then ⟨[], input, false⟩
    else
      let gap := gap rest
      let next := words flow least fuel gap.rest
      if gap.ends flow least || next.text.isEmpty then ⟨text, gap.rest, gap.column.isSome⟩
      else ⟨text ++ gap.text ++ next.text, next.rest, next.atLineStart⟩

def read (flow : Bool) (least : Nat) (input : List Char) : Result :=
  words flow least input.length input

end TemplateActions.Yaml.Plain
