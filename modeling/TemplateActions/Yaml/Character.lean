/-!
The characters of structured text. Line ends of all spellings are read as a line feed first, so that
breaks are line feeds and the two Unicode separators.
-/
namespace TemplateActions.Yaml

def isPrintable (c : Char) : Bool :=
  let n := c.toNat
  n == 0x09 || n == 0x0a || n == 0x0d || (0x20 ≤ n && n ≤ 0x7e) || n == 0x85 ||
    (0xa0 ≤ n && n ≤ 0xfffd) || 0x10000 ≤ n

def normalizeBreaks : List Char → List Char
  | [] => []
  | '\r' :: '\n' :: rest => '\n' :: normalizeBreaks rest
  | c :: rest => (if c == '\r' || c == '\x85' then '\n' else c) :: normalizeBreaks rest

def byteOrderMark : Char := '\ufeff'

def isBreak (c : Char) : Bool := c == '\n' || c == '\u2028' || c == '\u2029'

def isSpace (c : Char) : Bool := c == ' ' || c == '\t'

def isBlank (c : Char) : Bool := isSpace c || isBreak c

/-- Holds where an indicator ends: before white space, a line feed or the end of the text. -/
def atWordEnd : List Char → Bool
  | [] => true
  | c :: _ => isSpace c || c == '\n'

def atGap : List Char → Bool
  | [] => true
  | c :: _ => c == ' ' || isBreak c

def atMarker (mark : Char) : List Char → Bool
  | a :: b :: c :: rest => a == mark && b == mark && c == mark && atWordEnd rest
  | _ => false

def atDocumentMarker (input : List Char) : Bool := atMarker '-' input || atMarker '.' input

structure Position where
  line : Nat
  column : Nat
deriving DecidableEq

def Position.next (p : Position) (c : Char) : Position :=
  if isBreak c then ⟨p.line + 1, 0⟩
  else if c == byteOrderMark then p
  else ⟨p.line, p.column + 1⟩

def Position.over (p : Position) (text : List Char) : Position := text.foldl Position.next p

end TemplateActions.Yaml
