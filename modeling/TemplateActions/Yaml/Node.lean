import TemplateActions.Yaml.Layout
import TemplateActions.Yaml.Schema

/-!
The nodes of a document, and how tokens make them. An alias stands for the node that its anchor
names. Where a node may be left out, an empty scalar stands in its place.
-/
namespace TemplateActions.Yaml

inductive Node where
  | scalar (tag : Tag) (text : List Char)
  | sequence (tag : Tag) (items : List Node)
  | mapping (tag : Tag) (entries : List (Node × Node))
  | unread (failure : Failure)

abbrev Handles := List (List Char × List Char)

namespace Node

def empty : Node := .scalar .null []

structure Source where
  tokens : List Token
  anchors : List (List Char × Node)

def Source.skip (s : Source) (tokens : List Token) : Source := { s with tokens }

structure Properties where
  anchor : Option (List Char)
  tag : Option TagName

def properties : List Token → Properties × List Token
  | .anchor name :: .tag tag :: rest => (⟨some name, some tag⟩, rest)
  | .tag tag :: .anchor name :: rest => (⟨some name, some tag⟩, rest)
  | .anchor name :: rest => (⟨some name, none⟩, rest)
  | .tag tag :: rest => (⟨none, some tag⟩, rest)
  | rest => (⟨none, none⟩, rest)

/-- What the tag of a node asks for: to be found out, or a certain tag. Without its handle being
known a tag is malformed. -/
def explicitTag? (handles : Handles) : Option TagName → Option (Option Tag)
  | none => some none
  | some name =>
    let start :=
      match name.handle with
      | none => some []
      | some handle => handles.lookup handle
    start.map fun start =>
      if start ++ name.suffix = ['!'] then none else some (.ofName (start ++ name.suffix))

/-- A scalar as its token and its tag say. A tag that is an exclamation mark lets a quoted scalar
be read like a plain one. -/
def ofScalar (tagged : Bool) (tag : Option Tag) (plain : Bool) (text : List Char) : Node :=
  match tag with
  | some tag => .scalar tag text
  | none => .scalar (if plain || tagged then Schema.tagOf text else .text) text

/-- Reads the content behind an anchor. Until its node is complete, an alias for it stands for a
node within itself. -/
def anchored (anchor : Option (List Char)) (s : Source)
    (content : Source → Option (Node × Source)) : Option (Node × Source) :=
  match anchor with
  | none => content s
  | some name =>
    let opened := { s with anchors := (name, .unread .selfContaining) :: s.anchors }
    (content opened).map fun (node, next) =>
      -- Anchors that were set within the node come later than its own and stay in front.
      let inner := next.anchors.take (next.anchors.length - opened.anchors.length)
      (node, { next with anchors := inner ++ (name, node) :: s.anchors })

/-- Where a node may stand: in a block, and there also as a sequence without an indentation of its
own. -/
structure Place where
  block : Bool
  indentless : Bool

def Place.flow : Place := ⟨false, false⟩

def Place.item : Place := ⟨true, false⟩

def Place.entry : Place := ⟨true, true⟩

mutual

def read (handles : Handles) : (fuel : Nat) → Place → Source → Option (Node × Source)
  | 0, _, _ => none
  | fuel + 1, place, s =>
    match s.tokens with
    | .alias name :: rest => (s.anchors.lookup name).map fun node => (node, s.skip rest)
    | tokens =>
      let (properties, rest) := properties tokens
      match explicitTag? handles properties.tag with
      | none => none
      | some tag =>
        anchored properties.anchor (s.skip rest) (content handles fuel place properties tag)

def content (handles : Handles) :
    (fuel : Nat) → Place → Properties → Option Tag → Source → Option (Node × Source)
  | 0, _, _, _, _ => none
  | fuel + 1, place, properties, tag, s =>
    match s.tokens with
    | .scalar plain text :: rest =>
      some (ofScalar properties.tag.isSome tag plain text, s.skip rest)
    | .flowSequenceStart :: rest =>
      (flowItems handles fuel (s.skip rest)).map fun (items, s) =>
        (.sequence (tag.getD .sequence) items, s)
    | .flowMappingStart :: rest =>
      (flowEntries handles fuel (s.skip rest)).map fun (entries, s) =>
        (.mapping (tag.getD .mapping) entries, s)
    | first :: rest =>
      if place.indentless && first = .blockEntry then
        (indentlessItems handles fuel s).map fun (items, s) =>
          (.sequence (tag.getD .sequence) items, s)
      else if place.block && first = .blockSequenceStart then
        (blockItems handles fuel (s.skip rest)).map fun (items, s) =>
          (.sequence (tag.getD .sequence) items, s)
      else if place.block && first = .blockMappingStart then
        (blockEntries handles fuel (s.skip rest)).map fun (entries, s) =>
          (.mapping (tag.getD .mapping) entries, s)
      else if properties.anchor.isSome || properties.tag.isSome then
        some (.scalar (tag.getD .null) [], s)
      else none
    | [] =>
      if properties.anchor.isSome || properties.tag.isSome then
        some (.scalar (tag.getD .null) [], s)
      else none

def slot (handles : Handles) : (fuel : Nat) → Place → List Token → Source → Option (Node × Source)
  | 0, _, _, _ => none
  | fuel + 1, place, ends, s =>
    if s.tokens.head?.any ends.contains then some (empty, s) else read handles fuel place s

def slotBehind (handles : Handles) :
    (fuel : Nat) → Token → Place → List Token → Source → Option (Node × Source)
  | 0, _, _, _, _ => none
  | fuel + 1, first, place, ends, s =>
    match s.tokens with
    | token :: rest =>
      if token = first then slot handles fuel place ends (s.skip rest) else some (empty, s)
    | [] => some (empty, s)

def blockItems (handles : Handles) : (fuel : Nat) → Source → Option (List Node × Source)
  | 0, _ => none
  | fuel + 1, s =>
    match s.tokens with
    | .blockEntry :: rest => do
      let (item, s) ← slot handles fuel .item [.blockEntry, .blockEnd] (s.skip rest)
      let (items, s) ← blockItems handles fuel s
      return (item :: items, s)
    | .blockEnd :: rest => some ([], s.skip rest)
    | _ => none

def indentlessItems (handles : Handles) : (fuel : Nat) → Source → Option (List Node × Source)
  | 0, _ => none
  | fuel + 1, s =>
    match s.tokens with
    | .blockEntry :: rest => do
      let (item, s) ← slot handles fuel .item [.blockEntry, .key, .value, .blockEnd] (s.skip rest)
      let (items, s) ← indentlessItems handles fuel s
      return (item :: items, s)
    | _ => some ([], s)

def blockEntries (handles : Handles) : (fuel : Nat) → Source → Option (List (Node × Node) × Source)
  | 0, _ => none
  | fuel + 1, s =>
    match s.tokens with
    | .blockEnd :: rest => some ([], s.skip rest)
    | .key :: _ | .value :: _ => do
      let ends : List Token := [.key, .value, .blockEnd]
      let (key, s) ← slotBehind handles fuel .key .entry ends s
      let (value, s) ← slotBehind handles fuel .value .entry ends s
      let (entries, s) ← blockEntries handles fuel s
      return ((key, value) :: entries, s)
    | _ => none

/-- The items of a sequence in brackets. An item may be a mapping of one entry. -/
def flowItems (handles : Handles) : (fuel : Nat) → Source → Option (List Node × Source)
  | 0, _ => none
  | fuel + 1, s =>
    match s.tokens with
    | .flowSequenceEnd :: rest => some ([], s.skip rest)
    | .key :: _ => do
      let (key, s) ← slotBehind handles fuel .key .flow [.value, .flowEntry, .flowSequenceEnd] s
      let (value, s) ← slotBehind handles fuel .value .flow [.flowEntry, .flowSequenceEnd] s
      let (items, s) ← moreItems handles fuel s
      return (.mapping .mapping [(key, value)] :: items, s)
    | _ => do
      let (item, s) ← read handles fuel .flow s
      let (items, s) ← moreItems handles fuel s
      return (item :: items, s)

def moreItems (handles : Handles) : (fuel : Nat) → Source → Option (List Node × Source)
  | 0, _ => none
  | fuel + 1, s =>
    match s.tokens with
    | .flowSequenceEnd :: rest => some ([], s.skip rest)
    | .flowEntry :: rest => flowItems handles fuel (s.skip rest)
    | _ => none

/-- The entries of a mapping in braces. A node without a key indicator is a key without a value. -/
def flowEntries (handles : Handles) : (fuel : Nat) → Source → Option (List (Node × Node) × Source)
  | 0, _ => none
  | fuel + 1, s =>
    match s.tokens with
    | .flowMappingEnd :: rest => some ([], s.skip rest)
    | .key :: _ | .value :: _ => do
      let (key, s) ← slotBehind handles fuel .key .flow [.value, .flowEntry, .flowMappingEnd] s
      let (value, s) ← slotBehind handles fuel .value .flow [.flowEntry, .flowMappingEnd] s
      let (entries, s) ← moreEntries handles fuel s
      return ((key, value) :: entries, s)
    | _ => do
      let (key, s) ← read handles fuel .flow s
      let (entries, s) ← moreEntries handles fuel s
      return ((key, empty) :: entries, s)

def moreEntries (handles : Handles) : (fuel : Nat) → Source → Option (List (Node × Node) × Source)
  | 0, _ => none
  | fuel + 1, s =>
    match s.tokens with
    | .flowMappingEnd :: rest => some ([], s.skip rest)
    | .flowEntry :: rest => flowEntries handles fuel (s.skip rest)
    | _ => none

end

def defaultHandles : Handles := [(['!'], ['!']), (['!', '!'], Tag.coreStart)]

structure Prologue where
  handles : Handles := []
  minor : Option Nat := none

/-- Reads directives. Neither a handle nor the version may be given twice, and the version must be a
first one. -/
def directives (p : Prologue) : List Token → Option (Prologue × List Token)
  | .directive (.version major minor) :: rest =>
    if p.minor.isSome || major != 1 then none else directives { p with minor := some minor } rest
  | .directive (.tag handle start) :: rest =>
    if (p.handles.lookup handle).isSome then none
    else directives { p with handles := p.handles ++ [(handle, start)] } rest
  | .directive .reserved :: rest => directives p rest
  | rest => some (p, rest)

def root (handles : Handles) (tokens : List Token) : Option (Node × Source) :=
  read handles (4 * tokens.length + 4) .item ⟨tokens, []⟩

def explicitRoot (tokens : List Token) : Option (Node × Source) :=
  match directives {} tokens with
  | none => none
  | some (p, rest) =>
    if p.minor.any (· != Directive.knownMinor) then some (.unread .otherVersion, ⟨[], []⟩)
    else
      match rest with
      | .documentStart :: rest =>
        match rest with
        | [] | .directive _ :: _ | .documentStart :: _ | .documentEnd :: _ =>
          some (empty, ⟨rest, []⟩)
        | rest => root (p.handles ++ defaultHandles) rest
      | _ => none

def ofTokens? (tokens : List Token) : Option (Option Node) :=
  let read :=
    match tokens with
    | .directive _ :: _ | .documentStart :: _ => explicitRoot tokens
    | tokens => root defaultHandles tokens
  if tokens.isEmpty then some none
  else
    match read with
    | some (node, s) =>
      if s.tokens = [] || s.tokens = [.documentEnd] then some (some node) else none
    | none => none

end Node
end TemplateActions.Yaml
