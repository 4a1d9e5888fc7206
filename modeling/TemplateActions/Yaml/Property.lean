import TemplateActions.Number.Decimal
import TemplateActions.Text.Escape
import TemplateActions.Text.Utf8
import TemplateActions.Yaml.Token
import TemplateActions.Yaml.Character

/-!
The written forms of anchors, aliases, tags and directives.
-/
namespace TemplateActions.Yaml.Property

def isWordChar (c : Char) : Bool :=
  ('0' ≤ c && c ≤ '9') || ('A' ≤ c && c ≤ 'Z') || ('a' ≤ c && c ≤ 'z') || c == '-' || c == '_'

def isAnchorChar (c : Char) : Bool :=
  let n := c.toNat
  ((0x21 ≤ n && n ≤ 0x7e) || 0xa0 ≤ n) && c != byteOrderMark &&
    c != ',' && c != '[' && c != ']' && c != '\x7b' && c != '\x7d'

def name? (input : List Char) : Option (List Char × List Char) :=
  let rest := input.dropWhile isAnchorChar
  if (input.takeWhile isAnchorChar).isEmpty || rest.head? == some byteOrderMark then none
  else some (input.takeWhile isAnchorChar, rest)

def isUriChar (c : Char) : Bool := isWordChar c || ";/?:@&=+$,.!~*'()[]#".toList.contains c

/-- A part of a tag name, in which a percent sign and two digits give a byte. -/
def uriBytes : List Char → Option (List UInt8 × List Char)
  | [] => some ([], [])
  | '%' :: a :: b :: rest =>
    match Escape.hex? 0 2 [a, b], uriBytes rest with
    | some (code, _), some (bytes, rest) => some (code.toUInt8 :: bytes, rest)
    | _, _ => none
  | c :: rest =>
    if c == '%' then none
    else if isUriChar c then
      (uriBytes rest).map fun (bytes, rest) => (c.toNat.toUInt8 :: bytes, rest)
    else some ([], c :: rest)

def uri? (input : List Char) : Option (List Char × List Char) :=
  match uriBytes input with
  | some (bytes, rest) =>
    match Utf8.decode bytes with
    | .ok text => if text.isEmpty then none else some (text, rest)
    | .error _ => none
  | none => none

/-- A handle: a word between two exclamation marks, or such a mark alone before a space. -/
def handle? : List Char → Option (List Char × List Char)
  | '!' :: rest =>
    if rest.head? == some ' ' then some (['!'], rest)
    else
      match rest.dropWhile isWordChar with
      | '!' :: more => some ('!' :: rest.takeWhile isWordChar ++ ['!'], more)
      | _ => none
  | _ => none

def hasHandle (input : List Char) : Bool :=
  (input.takeWhile fun c => !(c == ' ' || isBreak c)).contains '!'

def tag? (input : List Char) : Option (TagName × List Char) :=
  let named : Option (TagName × List Char) :=
    match input with
    | '<' :: rest =>
      match uri? rest with
      | some (name, '>' :: rest) => some (⟨none, name⟩, rest)
      | _ => none
    | input =>
      if atWordEnd input then some (⟨none, ['!']⟩, input)
      else if hasHandle input then
        (handle? ('!' :: input)).bind fun (handle, rest) =>
          (uri? rest).map fun (suffix, rest) => (⟨some handle, suffix⟩, rest)
      else (uri? input).map fun (suffix, rest) => (⟨some ['!'], suffix⟩, rest)
  named.filter fun (_, rest) => atGap rest

def number? (input : List Char) : Option (Nat × List Char) :=
  let (digits, rest) := Decimal.span input
  if digits.isEmpty then none else some (Decimal.value digits, rest)

def skipSpaces (input : List Char) : List Char := input.dropWhile (· == ' ')

def version? (input : List Char) : Option (Directive × List Char) :=
  match number? (skipSpaces input) with
  | some (major, '.' :: rest) =>
    match number? rest with
    | some (minor, rest) => if atGap rest then some (.version major minor, rest) else none
    | none => none
  | _ => none

def tagDirective? (input : List Char) : Option (Directive × List Char) :=
  match handle? (skipSpaces input) with
  | some (handle, ' ' :: rest) =>
    match uri? (skipSpaces rest) with
    | some (start, rest) => if atGap rest then some (.tag handle start, rest) else none
    | none => none
  | _ => none

def directive? (input : List Char) : Option (Directive × List Char) :=
  let isNameChar := fun c => isWordChar c || c == ':' || c == '.'
  let name := input.takeWhile isNameChar
  let rest := input.dropWhile isNameChar
  if name.isEmpty || !atGap rest then none
  else
    let read :=
      if name == "YAML".toList then version? rest
      else if name == "TAG".toList then tagDirective? rest
      else some (.reserved, rest.dropWhile (· != '\n'))
    match read with
    | none => none
    | some (directive, rest) =>
      let rest := skipSpaces rest
      let rest := if rest.head? == some '#' then rest.dropWhile (· != '\n') else rest
      match rest with
      | [] => some (directive, [])
      | c :: rest => if isBreak c then some (directive, rest) else none

end TemplateActions.Yaml.Property
