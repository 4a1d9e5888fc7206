import TemplateActions.Proofs.Document.Fields
import TemplateActions.Proofs.Node.Numbering

/-!
The grammar of tree documents, with the tree that a document describes. The rules say what the
fields of each kind of node take and what stands for them in the tree; a list or a program that is
absent or null is empty, and identity numbers are free.
-/
namespace TemplateActions.Document

/-- As many nodes as values, all of the wanted kind if one is wanted. -/
structure Matches (wanted : Option NodeKind) (values : List Value) (nodes : List Node) : Prop where
  length : values.length = nodes.length
  kinds : ∀ p ∈ values.zip nodes, ∀ kind ∈ wanted, p.2.kind? = some kind

inductive Describes : Value → Node → Prop where
  | program {entries : Entries} {ss : List Value} {id : Nat} {statements : List Node} :
      OfKind .program entries →
      items? .statements entries = some ss → Matches none ss statements →
      (∀ p ∈ ss.zip statements, Describes p.1 p.2) →
      Describes (.map entries) (.program id statements)
  | element {entries : Entries} {as cs hs : List Value} {id : Nat} {tag : String}
      {attributes children helpers : List Node} :
      OfKind .element entries → get? .tag entries = some (.text tag) →
      items? .attributes entries = some as → Matches (some .attr) as attributes →
      (∀ p ∈ as.zip attributes, Describes p.1 p.2) →
      items? .children entries = some cs → Matches none cs children →
      (∀ p ∈ cs.zip children, Describes p.1 p.2) →
      items? .helpers entries = some hs → Matches (some .mustache) hs helpers →
      (∀ p ∈ hs.zip helpers, Describes p.1 p.2) →
      Describes (.map entries) (.element id tag attributes children helpers)
  /-- An attribute without a value is empty; a value may be written as a plain text. -/
  | plainAttr {entries : Entries} {id textId : Nat} {name chars : String} :
      OfKind .attr entries → get? .name entries = some (.text name) →
      (get? .value entries).getD (.text "") = .text chars →
      Describes (.map entries) (.attr id name (.text textId chars))
  | attr {entries : Entries} {data : Value} {id : Nat} {name : String} {value : Node} :
      OfKind .attr entries → get? .name entries = some (.text name) →
      get? .value entries = some data → Describes data value →
      value.kind? = some .text ∨ value.kind? = some .mustache →
      Describes (.map entries) (.attr id name value)
  | block {entries : Entries} {id : Nat} {path : String} {params : List String}
      {body inverse : Option Node} :
      OfKind .block entries → get? .path entries = some (.text path) →
      items? .params entries = some (params.map .text) →
      Matches (some .program) (present? .program entries).toList body.toList →
      (∀ p ∈ (present? .program entries).toList.zip body.toList, Describes p.1 p.2) →
      Matches (some .program) (present? .inverse entries).toList inverse.toList →
      (∀ p ∈ (present? .inverse entries).toList.zip inverse.toList, Describes p.1 p.2) →
      Describes (.map entries) (.block id path params body inverse)
  | component {entries : Entries} {as : List Value} {id : Nat} {tag : String}
      {attributes : List Node} {body inverse : Option Node} :
      OfKind .component entries → get? .tag entries = some (.text tag) →
      items? .attributes entries = some as → Matches (some .attr) as attributes →
      (∀ p ∈ as.zip attributes, Describes p.1 p.2) →
      Matches (some .program) (present? .program entries).toList body.toList →
      (∀ p ∈ (present? .program entries).toList.zip body.toList, Describes p.1 p.2) →
      Matches (some .program) (present? .inverse entries).toList inverse.toList →
      (∀ p ∈ (present? .inverse entries).toList.zip inverse.toList, Describes p.1 p.2) →
      Describes (.map entries) (.component id tag attributes body inverse)
  | text {entries : Entries} {id : Nat} {chars : String} :
      OfKind .text entries → (get? .chars entries).getD (.text "") = .text chars →
      Describes (.map entries) (.text id chars)
  | mustache {entries : Entries} {id : Nat} {path : String} {params : List String}
      {escaped : Bool} :
      OfKind .mustache entries → get? .path entries = some (.text path) →
      items? .params entries = some (params.map .text) →
      (get? .escaped entries).getD (.bool true) = .bool escaped →
      Describes (.map entries) (.mustache id path params escaped)

theorem Describes.kind?_ne_none {data : Value} {node : Node} (h : Describes data node) :
    node.kind? ≠ none := by
  cases h <;> exact nofun

theorem Matches.numberAll {wanted : Option NodeKind} {values : List Value} {nodes : List Node}
    (h : Matches wanted values nodes) (n : Nat) :
    Matches wanted values (Node.numberAll n nodes).1 where
  length := by rw [h.length, Node.length_numberAll]
  kinds := by
    intro p member kind isWanted
    obtain ⟨q, before, m, rfl⟩ := Node.mem_zip_numberAll member
    rw [Node.kind?_numberFrom]
    exact h.kinds q before kind isWanted

theorem describes_numberAll {values : List Value} {nodes : List Node}
    (each : ∀ p ∈ values.zip nodes, ∀ n, Describes p.1 (p.2.numberFrom n).1) (n : Nat) :
    ∀ p ∈ values.zip (Node.numberAll n nodes).1, Describes p.1 p.2 := by
  intro p member
  obtain ⟨q, before, m, rfl⟩ := Node.mem_zip_numberAll member
  exact each q before m

theorem Matches.numberOption {wanted : Option NodeKind} {values : List Value} {body : Option Node}
    (h : Matches wanted values body.toList) (n : Nat) :
    Matches wanted values (Node.numberOption n body).1.toList := by
  rw [Node.toList_numberOption]
  exact h.numberAll n

theorem describes_numberOption {values : List Value} {body : Option Node}
    (each : ∀ p ∈ values.zip body.toList, ∀ n, Describes p.1 (p.2.numberFrom n).1) (n : Nat) :
    ∀ p ∈ values.zip (Node.numberOption n body).1.toList, Describes p.1 p.2 := by
  rw [Node.toList_numberOption]
  exact describes_numberAll each n

theorem Describes.numberFrom {data : Value} {node : Node} (h : Describes data node) (n : Nat) :
    Describes data (node.numberFrom n).1 := by
  induction h generalizing n with
  | program ofKind ss fits _ each =>
    exact .program ofKind ss (fits.numberAll _) (describes_numberAll each _)
  | element ofKind tag as attributes _ cs children _ hs helpers _ onAttributes onChildren
      onHelpers =>
    exact .element ofKind tag as (attributes.numberAll _) (describes_numberAll onAttributes _)
      cs (children.numberAll _) (describes_numberAll onChildren _)
      hs (helpers.numberAll _) (describes_numberAll onHelpers _)
  | plainAttr ofKind name value => exact .plainAttr ofKind name value
  | attr ofKind name value _ kind ih =>
    exact .attr ofKind name value (ih _) (by rwa [Node.kind?_numberFrom])
  | block ofKind path params body _ inverse _ onBody onInverse =>
    exact .block ofKind path params (body.numberOption _) (describes_numberOption onBody _)
      (inverse.numberOption _) (describes_numberOption onInverse _)
  | component ofKind tag as attributes _ body _ inverse _ onAttributes onBody onInverse =>
    exact .component ofKind tag as (attributes.numberAll _) (describes_numberAll onAttributes _)
      (body.numberOption _) (describes_numberOption onBody _)
      (inverse.numberOption _) (describes_numberOption onInverse _)
  | text ofKind chars => exact .text ofKind chars
  | mustache ofKind path params escaped => exact .mustache ofKind path params escaped

end TemplateActions.Document
