import TemplateActions.Number.Decimal
import TemplateActions.Yaml.Character

/-!
Block scalars: indented lines behind a header. A literal scalar keeps its line breaks; a folded one
joins lines that start with text. The header says what becomes of the breaks at the end.
-/
namespace TemplateActions.Yaml.Block

/-- What becomes of the breaks at the end: none stays, one stays, or all of them do. -/
inductive Chomping where
  | strip
  | clip
  | keep
deriving DecidableEq

structure Header where
  chomping : Chomping
  increment : Option Nat

def chomping? : List Char → Option (Chomping × List Char)
  | '+' :: rest => some (.keep, rest)
  | '-' :: rest => some (.strip, rest)
  | _ => none

def increment? : List Char → Option (Nat × List Char)
  | c :: rest => if '1' ≤ c && c ≤ '9' then some (Decimal.digit c, rest) else none
  | [] => none

def indicators (input : List Char) : Header × List Char :=
  match chomping? input with
  | some (chomping, rest) =>
    match increment? rest with
    | some (increment, rest) => (⟨chomping, some increment⟩, rest)
    | none => (⟨chomping, none⟩, rest)
  | none =>
    match increment? input with
    | none => (⟨.clip, none⟩, input)
    | some (increment, rest) =>
      match chomping? rest with
      | some (chomping, rest) => (⟨chomping, some increment⟩, rest)
      | none => (⟨.clip, some increment⟩, rest)

def endOfHeader? (input : List Char) : Option (List Char) :=
  let rest := input.dropWhile (· == ' ')
  let rest := if rest.head? == some '#' then rest.dropWhile (· != '\n') else rest
  match rest with
  | [] => some []
  | c :: rest => if isBreak c then some rest else none

def header? (input : List Char) : Option (Header × List Char) :=
  let (header, rest) := indicators input
  if atGap rest then (endOfHeader? rest).map fun rest => (header, rest) else none

structure Blank where
  breaks : List Char
  column : Nat
  rest : List Char

def blank (indent : Nat) (breaks : List Char) (column : Nat) : List Char → Blank
  | [] => ⟨breaks, column, []⟩
  | c :: rest =>
    if c == ' ' && column < indent then blank indent breaks (column + 1) rest
    else if isBreak c then blank indent (breaks ++ [c]) 0 rest
    else ⟨breaks, column, c :: rest⟩

def widest (seen column : Nat) : List Char → Nat
  | [] => seen
  | c :: rest =>
    if c == ' ' then widest (max seen (column + 1)) (column + 1) rest
    else if isBreak c then widest seen 0 rest
    else seen

def fold (breaks : List Char) : List Char := if breaks.isEmpty then [' '] else []

/-- Reads the lines at the given column. `start` is the text in front of the next line. -/
def lines (folded : Bool) (chomping : Chomping) (indent : Nat) (start : List Char) :
    (fuel : Nat) → Blank → List Char × List Char
  | 0, blank => (start, blank.rest)
  | fuel + 1, before =>
    let line := before.rest.takeWhile (· != '\n')
    let rest := before.rest.dropWhile (· != '\n')
    let text := start ++ before.breaks ++ line
    let lineBreak := rest.take 1
    let column := if rest.isEmpty then before.column + line.length else 0
    let next := blank indent [] column (rest.drop 1)
    if next.column != indent || next.rest.isEmpty ||
      (indent == 0 && atDocumentMarker next.rest) then
      let kept :=
        match chomping with
        | .strip => []
        | .clip => lineBreak
        | .keep => lineBreak ++ next.breaks
      (text ++ kept, next.rest)
    else
      let textual := !line.head?.any isSpace && !next.rest.head?.any isSpace
      let separator := if folded && textual then fold next.breaks else lineBreak
      lines folded chomping indent (text ++ separator) fuel next

/-- Reads a scalar behind its style indicator: the text and what follows it. `least` is the least
column of its lines. -/
def read? (folded : Bool) (least : Nat) (input : List Char) : Option (List Char × List Char) :=
  match header? input with
  | none => none
  | some (header, rest) =>
    let indent :=
      match header.increment with
      | some increment => max least 1 + increment - 1
      | none => max least (widest 0 0 rest)
    let before := blank indent [] 0 rest
    if before.column != indent || before.rest.isEmpty then
      some (if header.chomping = .keep then before.breaks else [], before.rest)
    else some (lines folded header.chomping indent [] before.rest.length before)

end TemplateActions.Yaml.Block
