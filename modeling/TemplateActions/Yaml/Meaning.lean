import TemplateActions.Value.Comparison
import TemplateActions.Yaml.Node
import TemplateActions.Yaml.Scalar.Value

/-!
The values of nodes. Collections are filled level by level, so that of two failures the one nearer
to the root is reported, and of two on one level the first. The entries that a mapping merges from
other mappings come before its own and give way to them.
-/
namespace TemplateActions.Yaml

/-- A failure, and how many levels below the node it lies. -/
structure Fault where
  depth : Nat
  failure : Failure

abbrev Outcome (α : Type) := Except Fault α

namespace Outcome

def fail {α : Type} (failure : Failure) : Outcome α := .error ⟨0, failure⟩

def deeper {α : Type} : Outcome α → Outcome α
  | .ok a => .ok a
  | .error fault => .error { fault with depth := fault.depth + 1 }

def both {α β γ : Type} (f : α → β → γ) : Outcome α → Outcome β → Outcome γ
  | .ok a, .ok b => .ok (f a b)
  | .ok _, .error e => .error e
  | .error e, .ok _ => .error e
  | .error e, .error e' => .error (if e'.depth < e.depth then e' else e)

def all : List (Outcome Value) → Outcome (List Value)
  | [] => .ok []
  | first :: rest => both List.cons first (all rest)

end Outcome

structure Row where
  key : Outcome Value
  value : Outcome Value

abbrev Entries := List (Value × Value)

mutual

def isHashable : Value → Bool
  | .list _ | .set _ | .map _ => false
  | .tuple items => areHashable items
  | _ => true

def areHashable : List Value → Bool
  | [] => true
  | item :: rest => isHashable item && areHashable rest

end

/-- A sequence is a key in the form of a tuple; other collections are none. -/
def keyOf : Outcome Value → Outcome Value
  | .ok (.list items) => .ok (.tuple items)
  | .ok (.set _) | .ok (.map _) => .fail .malformed
  | .ok key => .ok key
  | .error fault => .fail fault.failure

/-- Sets the value of a key, which keeps its place if it has one. -/
def put (key value : Value) : Entries → Entries
  | [] => [(key, value)]
  | (k, v) :: rest => if key.same k then (k, value) :: rest else (k, v) :: put key value rest

/-- Adds entries to those before them. If they are distinct, no key may come twice. -/
def addRows (distinct : Bool) (before : Entries) : List Row → Outcome Entries
  | [] => .ok before
  | row :: rest =>
    match keyOf row.key, row.value with
    | .error fault, _ => .error fault
    | .ok _, .error ⟨0, failure⟩ => .fail failure
    | .ok key, value =>
      if !isHashable key then .fail .unhashableKey
      else if distinct && before.any (fun entry => key.same entry.1) then .fail .malformed
      else
        match value with
        | .ok value => addRows distinct (put key value before) rest
        | .error fault =>
          let later := addRows distinct (put key .null before) rest
          .both (fun _ entries => entries) (.error fault : Outcome Value) later

/-- What a node means: its value, its entries if it is a mapping, and the entries that it brings
into a mapping that merges it. -/
structure Meaning where
  value : Outcome Value
  rows : Option (List Row)
  merged : Option (List Row)

namespace Meaning

def failed (depth : Nat) : Outcome Value := .error ⟨depth, .malformed⟩

def ofScalar (tag : Tag) (text : List Char) : Outcome Value :=
  match Scalar.value? tag text with
  | some (.ok value) => .ok value
  | some (.error failure) => .fail failure
  | none =>
    match tag with
    | .merge | .value | .unknown => failed 0
    | _ => failed 1

def itemRows : List Meaning → Option (List (List Row))
  | [] => some []
  | item :: rest =>
    match item.rows, itemRows rest with
    | some rows, some more => some (rows :: more)
    | _, _ => none

def pair (row : Row) : Outcome Value :=
  .both (fun key value => .tuple [key, value]) row.key row.value

/-- Mappings of one entry each, as a list of pairs. -/
def pairs (items : List Meaning) : Outcome Value :=
  match itemRows items with
  | some rows =>
    if rows.all (·.length == 1) then
      (Outcome.all (rows.flatten.map pair)).map Value.list
    else failed 0
  | none => failed 0

def addPairs (before : Entries) : List Row → Outcome Entries
  | [] => .ok before
  | row :: rest =>
    match row.key, row.value with
    | .error fault, _ => .error fault
    | _, .error fault => .error fault
    | .ok key, .ok value =>
      if !isHashable key then .fail .unhashableKey
      else if before.any (fun entry => key.same entry.1) then .fail .repeatedKey
      else addPairs (before ++ [(key, value)]) rest

/-- Mappings of one entry each, as a mapping without repeated keys. -/
def orderedMapping (items : List Meaning) : Outcome Value :=
  match itemRows items with
  | some rows =>
    if rows.all (·.length == 1) then
      (addPairs [] rows.flatten).map Value.map
    else failed 0
  | none => failed 0

def ofSequence (tag : Tag) (items : List Meaning) : Meaning :=
  let value :=
    match tag with
    | .sequence => Outcome.deeper ((Outcome.all (items.map (·.value))).map Value.list)
    | .pairs => Outcome.deeper (pairs items)
    | .orderedMapping => Outcome.deeper (orderedMapping items)
    | .mapping | .set => failed 1
    | _ => failed 0
  ⟨value, none, (itemRows items).map fun rows => rows.reverse.flatten⟩

/-- Separates the merged entries from the own ones. Only one key may bring entries in. -/
def separate (merged own : List Row) : List (Tag × Row × Meaning) → Option (List Row × List Row)
  | [] => some (merged, own)
  | (tag, row, value) :: rest =>
    if tag = .merge then
      if !merged.isEmpty then none
      else
        match value.merged with
        | some rows => separate rows own rest
        | none => none
    else separate merged (own ++ [row]) rest

/-- `text` is the text of the mapping if it may stand for a scalar. -/
def ofMapping (tag : Tag) (text : Option (List Char))
    (entries : List (Tag × Row × Meaning)) : Meaning :=
  let parts := separate [] [] entries
  let read : Outcome Entries :=
    match parts with
    | some (merged, own) => addRows merged.isEmpty [] (merged ++ own)
    | none => .fail .malformed
  let value :=
    match tag with
    | .mapping => Outcome.deeper (read.map Value.map)
    | .set => Outcome.deeper (read.map fun entries => Value.set (entries.map (·.1)))
    | .sequence | .pairs | .orderedMapping => failed 1
    | tag =>
      match text with
      | some text => ofScalar tag text
      | none => failed 0
  let rows := parts.map fun (merged, own) => merged ++ own
  ⟨value, rows, rows⟩

/-- A node that is not read fails wherever its value or its entries are asked for. -/
def ofUnread (failure : Failure) : Meaning :=
  ⟨.fail failure, some [⟨.fail failure, .fail failure⟩], some [⟨.fail failure, .fail failure⟩]⟩

end Meaning

namespace Node

def tag : Node → Tag
  | .scalar tag _ | .sequence tag _ | .mapping tag _ => tag
  | .unread _ => .unknown

mutual

/-- The text of a scalar, or of the value under the key `=` of a mapping. -/
def text? : Node → Option (List Char)
  | .scalar _ text => some text
  | .sequence _ _ | .unread _ => none
  | .mapping _ entries => entriesText? entries

def entriesText? : List (Node × Node) → Option (List Char)
  | [] => none
  | (key, value) :: rest => if key.tag = .value then value.text? else entriesText? rest

end

mutual

def meaning : Node → Meaning
  | .scalar tag text => ⟨Meaning.ofScalar tag text, none, none⟩
  | .sequence tag items => Meaning.ofSequence tag (meanings items)
  | .mapping tag entries => Meaning.ofMapping tag (entriesText? entries) (entryMeanings entries)
  | .unread failure => .ofUnread failure

def meanings : List Node → List Meaning
  | [] => []
  | node :: rest => node.meaning :: meanings rest

/-- The entries with the tags of their keys. The key `=` is a text. -/
def entryMeanings : List (Node × Node) → List (Tag × Row × Meaning)
  | [] => []
  | (key, value) :: rest =>
    let read :=
      if key.tag = .value then Meaning.ofScalar .text (key.text?.getD []) else key.meaning.value
    (key.tag, ⟨read, value.meaning.value⟩, value.meaning) :: entryMeanings rest

end

end Node

/-- The value that a text describes; an empty text describes null. -/
def read (text : List Char) : Except Failure Value :=
  if !text.all isPrintable then .error .malformed
  else
    match tokens (normalizeBreaks text) with
    | .error failure => .error failure
    | .ok tokens =>
      match Node.ofTokens? tokens with
      | none => .error .malformed
      | some none => .ok .null
      | some (some node) =>
        match node.meaning.value with
        | .ok value => .ok value
        | .error fault => .error fault.failure

end TemplateActions.Yaml
