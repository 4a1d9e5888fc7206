import TemplateActions.Document.Defect
import TemplateActions.Node.Numbering
import TemplateActions.Value.Comparison

/-!
Tree documents. A node is a mapping whose `type` names the kind and whose other keys are fields of
that kind. Fields that hold lists or programs may be absent or null; an attribute's value may be
written as a plain text; the root is a program. The fields of a mapping are looked at in a fixed
order, whatever their order in the document, and the first defect ends the loading.
-/
namespace TemplateActions.Document

abbrev Entries := List (Value × Value)

abbrev Loaded (α : Type) := Except DocumentFailure α

def isField (slot : Field) : Value → Bool
  | .text key => key == slot.text
  | _ => false

def get? (slot : Field) (entries : Entries) : Option Value :=
  (entries.find? fun entry => isField slot entry.1).map (·.2)

def fail {α : Type} (path : Path) (defect : Defect) : Loaded α := .error (.defect path defect)

def kind (path : Path) (entries : Entries) : Loaded NodeKind :=
  let found := (get? .type entries).getD .null
  let named :=
    match found with
    | .text name => NodeKind.ofName? name
    | _ => none
  match named with
  | some kind => .ok kind
  | none =>
    if found.isWritable then fail (path.field .type) (.unknownType found)
    else .error .overlongInteger

def fieldsOf : NodeKind → List Field
  | .program => [.statements]
  | .element => [.tag, .attributes, .children, .helpers]
  | .attr => [.name, .value]
  | .block => [.path, .params, .program, .inverse]
  | .component => [.tag, .attributes, .program, .inverse]
  | .text => [.chars]
  | .mustache => [.path, .params, .escaped]

def extraKeys (kind : NodeKind) (entries : Entries) : List Value :=
  (entries.map (·.1)).filter fun key =>
    !(Field.type :: fieldsOf kind).any fun slot => isField slot key

def checkKeys (path : Path) (kind : NodeKind) (entries : Entries) : Loaded Unit :=
  let extra := extraKeys kind entries
  if extra.isEmpty then .ok ()
  else
    match Value.sorted? extra with
    | none => .error .incomparableKeys
    | some keys =>
      if (Value.list keys).isWritable then fail path (.unexpectedKeys keys)
      else .error .overlongInteger

/-- A text that has to be there, unless there is a default for it; null counts as missing. -/
def textField (path : Path) (slot : Field) (default : Option String) (entries : Entries) :
    Loaded String :=
  match get? slot entries, default with
  | some (.text s), _ => .ok s
  | none, some s => .ok s
  | none, none | some .null, _ => fail (path.field slot) .missing
  | some found, _ => fail (path.field slot) (.wrongShape .text found)

def textItems (path : Path) (slot : Field) (index : Nat) : List Value → Loaded (List String)
  | [] => .ok []
  | .text s :: rest =>
    match textItems path slot (index + 1) rest with
    | .ok texts => .ok (s :: texts)
    | .error e => .error e
  | found :: _ => fail (path.item slot index) (.wrongShape .text found)

def textsField (path : Path) (slot : Field) (entries : Entries) : Loaded (List String) :=
  match get? slot entries with
  | none | some .null => .ok []
  | some (.list items) => textItems path slot 0 items
  | some found => fail (path.field slot) (.wrongShape .list found)

def escapedField (path : Path) (entries : Entries) : Loaded Bool :=
  match get? .escaped entries with
  | none => .ok true
  | some (.bool b) => .ok b
  | some found => fail (path.field .escaped) (.wrongShape .bool found)

def expectKind (path : Path) (wanted : Option NodeKind) (node : Node) : Loaded Node :=
  match wanted, node.kind? with
  | some wanted, some found =>
    if wanted = found then .ok node else fail path (.wrongNode wanted found)
  | _, _ => .ok node

def expectAttributeValue (path : Path) (node : Node) : Loaded Node :=
  match node.kind? with
  | some .text | some .mustache | none => .ok node
  | some found => fail path (.attributeValue found)

mutual

def node (path : Path) : Value → Loaded Node
  | .map entries => do
    let kind ← kind path entries
    checkKeys path kind entries
    match kind with
    | .program =>
      let statements ← nodesField path .statements none entries
      return .program 0 statements
    | .element =>
      let tag ← textField path .tag none entries
      let attributes ← nodesField path .attributes (some .attr) entries
      let children ← nodesField path .children none entries
      let helpers ← nodesField path .helpers (some .mustache) entries
      return .element 0 tag attributes children helpers
    | .attr =>
      let value ← valueField path entries
      let name ← textField path .name none entries
      return .attr 0 name value
    | .block =>
      let target ← textField path .path none entries
      let params ← textsField path .params entries
      let body ← programField path .program entries
      let inverse ← programField path .inverse entries
      return .block 0 target params body inverse
    | .component =>
      let tag ← textField path .tag none entries
      let attributes ← nodesField path .attributes (some .attr) entries
      let body ← programField path .program entries
      let inverse ← programField path .inverse entries
      return .component 0 tag attributes body inverse
    | .text =>
      let chars ← textField path .chars (some "") entries
      return .text 0 chars
    | .mustache =>
      let escaped ← escapedField path entries
      let target ← textField path .path none entries
      let params ← textsField path .params entries
      return .mustache 0 target params escaped
  | found => fail path (.notMapping found)

def nodesField (path : Path) (slot : Field) (wanted : Option NodeKind) :
    Entries → Loaded (List Node)
  | [] => .ok []
  | (key, value) :: rest =>
    if isField slot key then
      match value with
      | .null => .ok []
      | .list items => nodeItems path slot wanted 0 items
      | found => fail (path.field slot) (.wrongShape .list found)
    else nodesField path slot wanted rest

def nodeItems (path : Path) (slot : Field) (wanted : Option NodeKind) (index : Nat) :
    List Value → Loaded (List Node)
  | [] => .ok []
  | item :: rest => do
    let node ← node (path.item slot index) item
    let node ← expectKind (path.item slot index) wanted node
    let nodes ← nodeItems path slot wanted (index + 1) rest
    return node :: nodes

def programField (path : Path) (slot : Field) : Entries → Loaded (Option Node)
  | [] => .ok none
  | (key, value) :: rest =>
    if isField slot key then
      match value with
      | .null => .ok none
      | value => do
        let node ← node (path.field slot) value
        let node ← expectKind (path.field slot) (some .program) node
        return some node
    else programField path slot rest

/-- The value of an attribute: a text, or a node that describes a text or an interpolation. -/
def valueField (path : Path) : Entries → Loaded Node
  | [] => .ok (.text 0 "")
  | (key, value) :: rest =>
    if isField .value key then
      match value with
      | .text s => .ok (.text 0 s)
      | value => do
        let node ← node (path.field .value) value
        expectAttributeValue (path.field .value) node
    else valueField path rest

end

/-- The tree that a document describes. Every node of it stands in one place only. -/
def tree (data : Value) : Loaded Node := do
  let root ← node Path.root data
  match root.kind? with
  | some .program => return root.numbered
  | some found => fail Path.root (.rootNode found)
  | none => return root.numbered

end TemplateActions.Document
