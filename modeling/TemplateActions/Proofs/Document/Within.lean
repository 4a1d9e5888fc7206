import TemplateActions.Proofs.Document.Reporting
import TemplateActions.Proofs.Document.Respelling
import TemplateActions.Proofs.Document.Typing

/-!
What holds of all mappings within a document. If the keys of each are texts, and no integer is too
long, every defect is reported, also in other spellings. If no mapping has a key twice, everything
in a document stands in the tree that it describes: another spelling makes another tree, or it is
the same.
-/
namespace TemplateActions

mutual

/-- Holds if a property holds for the entries of each mapping within a value. -/
def Value.EachMap (p : List (Value × Value) → Prop) : Value → Prop
  | .list items => Value.EachMapIn p items
  | .map entries => p entries ∧ Value.EachMapUnder p entries
  | _ => True

def Value.EachMapIn (p : List (Value × Value) → Prop) : List Value → Prop
  | [] => True
  | item :: rest => item.EachMap p ∧ Value.EachMapIn p rest

def Value.EachMapUnder (p : List (Value × Value) → Prop) : List (Value × Value) → Prop
  | [] => True
  | (_, value) :: rest => value.EachMap p ∧ Value.EachMapUnder p rest

end

namespace Value

variable {p q : List (Value × Value) → Prop}

theorem eachMapIn_iff {items : List Value} :
    EachMapIn p items ↔ ∀ item ∈ items, item.EachMap p := by
  induction items with
  | nil => exact iff_of_true trivial nofun
  | cons item rest ih => rw [EachMapIn, ih, List.forall_mem_cons]

theorem eachMapUnder_iff {entries : List (Value × Value)} :
    EachMapUnder p entries ↔ ∀ entry ∈ entries, entry.2.EachMap p := by
  induction entries with
  | nil => exact iff_of_true trivial nofun
  | cons entry rest ih => rw [EachMapUnder, ih, List.forall_mem_cons]

mutual

theorem EachMap.respell {r : Spelling}
    (transfer : ∀ entries, p entries → q (respellEntries r entries)) :
    ∀ {value : Value}, value.EachMap p → (value.respell r).EachMap q
  | .list _, h => EachMapIn.respell transfer h
  | .map entries, h => ⟨transfer entries h.1, EachMapUnder.respell transfer h.2⟩
  | .null, _ | .bool _, _ | .int _, _ | .float _, _ | .text _, _ | .bytes _, _ | .date _, _
  | .dateTime _, _ | .tuple _, _ | .set _, _ => trivial

theorem EachMapIn.respell {r : Spelling}
    (transfer : ∀ entries, p entries → q (respellEntries r entries)) :
    ∀ {items : List Value}, EachMapIn p items → EachMapIn q (respellAll r items)
  | [], _ => trivial
  | _ :: _, h => ⟨h.1.respell transfer, EachMapIn.respell transfer h.2⟩

theorem EachMapUnder.respell {r : Spelling}
    (transfer : ∀ entries, p entries → q (respellEntries r entries)) :
    ∀ {entries : List (Value × Value)}, EachMapUnder p entries →
      EachMapUnder q (respellEntries r entries)
  | [], _ => trivial
  | (_, _) :: _, h => ⟨h.1.respell transfer, EachMapUnder.respell transfer h.2⟩

end

end Value

namespace Document

open Value (EachMap respellEntries)

variable {p : Entries → Prop} {slot : Field} {entries : Entries} {value : Value}

theorem eachMap_get? (h : (Value.map entries).EachMap p) (found : get? slot entries = some value) :
    value.EachMap p := by
  obtain ⟨entry, isEntry, rfl⟩ := Option.map_eq_some_iff.mp found
  exact Value.eachMapUnder_iff.mp h.2 entry (List.mem_of_find?_eq_some isEntry)

theorem eachMap_item {items : List Value} (h : (Value.map entries).EachMap p)
    (found : items? slot entries = some items) : ∀ item ∈ items, item.EachMap p := by
  rw [items?] at found
  split at found <;> cases found
  case h_3 isList => exact Value.eachMapIn_iff.mp (eachMap_get? h isList)
  all_goals exact List.forall_mem_nil _

theorem Form.Enters.eachMap {form : Form} {path path' : Path}
    (enters : form.Enters path slot entries path' value) (h : (Value.map entries).EachMap p) :
    value.EachMap p := by
  cases enters with
  | item isList _ => exact eachMap_item h isList value (by simp)
  | program isPresent => exact eachMap_get? h (get?_of_present? isPresent)
  | value isValue _ => exact eachMap_get? h isValue

theorem Comes.eachMap {path last : Path} {found : Entries} (comes : Comes path value last found)
    (h : value.EachMap p) : p found := by
  induction comes with
  | here => exact h.1
  | field _ _ _ enters _ ih => exact ih (enters.eachMap h)

/-- Holds if the keys of a mapping are texts, and its type can be written. -/
structure IsPresentable (entries : Entries) : Prop where
  texts : ∀ entry ∈ entries, ∃ s, .text s = entry.1
  writable : ((get? .type entries).getD .null).isWritable

theorem IsPresentable.respell {r : Spelling} (keeps : r.KeepsWords) (h : IsPresentable entries) :
    IsPresentable (respellEntries r entries) where
  texts := by
    rw [respellEntries_eq_map]
    intro entry member
    obtain ⟨before, inside, rfl⟩ := List.mem_map.mp member
    obtain ⟨s, isText⟩ := h.texts before inside
    exact ⟨r.text s, by rw [← isText, Value.respell]⟩
  writable := by
    have writable := h.writable
    rw [get?_respell keeps]
    cases found : get? .type entries with
    | none => rfl
    | some value =>
      rw [found] at writable
      rwa [Option.map_some, Option.getD_some, Value.isWritable_respell]

theorem isReported_tree (h : value.EachMap IsPresentable) :
    isReported ((tree value).mapError .document) :=
  isReported_of_texts fun _ _ comes => ⟨(comes.eachMap h).texts, (comes.eachMap h).writable⟩

theorem respell_eq_of_respellAll {f : String → String} : ∀ {nodes : List Node},
    Node.respellAll f nodes = nodes → ∀ n ∈ nodes, n.respell f = n
  | [], _ => nofun
  | _ :: _, same => by
    obtain ⟨here, there⟩ := List.cons.inj same
    exact List.forall_mem_cons.mpr ⟨here, respell_eq_of_respellAll there⟩

theorem respellAll_toList {f : String → String} {branch : Option Node}
    (same : Node.respellOption f branch = branch) :
    Node.respellAll f branch.toList = branch.toList := by
  cases branch with
  | none => rfl
  | some n => exact congrArg Option.toList same

/-- Holds if no key of a mapping comes twice. -/
def HasDistinctKeys (entries : Entries) : Prop := (entries.map (·.1)).Nodup

theorem get?_of_mem (distinct : HasDistinctKeys entries) {entry : Value × Value}
    (member : entry ∈ entries) (key : entry.1 = .text slot.text) :
    get? slot entries = some entry.2 := by
  induction entries with
  | nil => nomatch member
  | cons first rest ih =>
    obtain ⟨k, v⟩ := first
    rw [HasDistinctKeys, List.map_cons, List.nodup_cons] at distinct
    rw [get?_cons]
    rcases List.mem_cons.mp member with rfl | member
    · rw [if_pos (isField_iff.mpr key)]
    · rw [if_neg, ih distinct.2 member]
      intro isField
      have same : entry.1 = k := key.trans (isField_iff.mp isField).symm
      exact distinct.1 (List.mem_map.mpr ⟨entry, member, same⟩)

theorem OfKind.value_cases {kind : NodeKind} (ofKind : OfKind kind entries)
    (distinct : HasDistinctKeys entries) {entry : Value × Value} (member : entry ∈ entries) :
    ∃ slot : Field, entry.1 = .text slot.text ∧
      (entry.2 = .text kind.name ∨ slot ∈ fieldsOf kind ∧ get? slot entries = some entry.2) := by
  obtain ⟨slot, isField, key⟩ := ofKind.keys entry member
  have found := get?_of_mem distinct member key
  refine ⟨slot, key, ?_⟩
  rcases List.mem_cons.mp isField with rfl | isField
  · exact .inl (Option.some.inj (found.symm.trans ofKind.type))
  · exact .inr ⟨isField, found⟩

/-- A property of values that holds for all that a described document is made of, if it holds for
the texts that a function keeps. -/
structure IsClosed (f : String → String) (P : Value → Prop) : Prop where
  null : P .null
  flag : ∀ b, P (.bool b)
  text : ∀ s, f s = s → P (.text s)
  list : ∀ items, (∀ item ∈ items, P item) → P (.list items)
  map : ∀ kind entries, OfKind kind entries → HasDistinctKeys entries →
    (∀ slot ∈ fieldsOf kind, ∀ value ∈ get? slot entries, P value) → P (.map entries)

section

variable {f : String → String} {P : Value → Prop} (closed : IsClosed f P)
include closed

theorem IsClosed.field {s : String} (found : get? slot entries = some (.text s)) (same : f s = s) :
    ∀ value ∈ get? slot entries, P value := by
  intro value isValue
  cases found.symm.trans isValue
  exact closed.text s same

theorem IsClosed.items {items : List Value} (found : items? slot entries = some items)
    (each : ∀ item ∈ items, P item) : ∀ value ∈ get? slot entries, P value := by
  intro value isValue
  rw [items?, isValue] at found
  cases value with
  | null => exact closed.null
  | list items =>
    cases found
    exact closed.list items each
  | _ => cases found

theorem IsClosed.texts {texts : List String} (same : texts.map f = texts) :
    ∀ item ∈ texts.map Value.text, P item := by
  intro item member
  obtain ⟨s, inside, rfl⟩ := List.mem_map.mp member
  have each : texts.map f = texts.map id := same.trans (List.map_id texts).symm
  exact closed.text s (List.map_inj_left.mp each s inside)

theorem IsClosed.branch (each : ∀ value ∈ (present? slot entries).toList, P value) :
    ∀ value ∈ get? slot entries, P value := by
  intro value isValue
  rw [present?, isValue] at each
  cases value with
  | null => exact closed.null
  | _ => exact each _ List.mem_cons_self

theorem IsClosed.getD {default : Value} {s : String}
    (isText : (get? slot entries).getD default = .text s)
    (same : f s = s) : ∀ value ∈ get? slot entries, P value := by
  intro value isValue
  rw [isValue, Option.getD_some] at isText
  rw [isText]
  exact closed.text s same

end

theorem Matches.within {f : String → String} {P : Value → Prop} {values : List Value}
    {nodes : List Node}
    {wanted : Option NodeKind} (fits : Matches wanted values nodes)
    (distinct : ∀ v ∈ values, v.EachMap HasDistinctKeys) (same : Node.respellAll f nodes = nodes)
    (ih : ∀ e ∈ values.zip nodes, e.1.EachMap HasDistinctKeys → e.2.respell f = e.2 → P e.1) :
    ∀ v ∈ values, P v := by
  refine fits.forall_values fun e member => ?_
  obtain ⟨inValues, inNodes⟩ := List.of_mem_zip member
  exact ih e member (distinct _ inValues) (respell_eq_of_respellAll same _ inNodes)

theorem eachMap_present (h : (Value.map entries).EachMap p) :
    ∀ value ∈ (present? slot entries).toList, value.EachMap p :=
  fun _ member => eachMap_get? h (get?_of_present? (Option.mem_toList.mp member))

/-- What is closed holds for a document, if the texts of the tree that it describes are kept. -/
theorem Describes.within {f : String → String} {P : Value → Prop} {data : Value} {n : Node}
    (described : Describes data n) (closed : IsClosed f P) (distinct : data.EachMap HasDistinctKeys)
    (same : n.respell f = n) : P data := by
  induction described with
  | program ofKind ss fits _ each =>
    simp only [Node.respell, Node.program.injEq] at same
    refine closed.map _ _ ofKind distinct.1 ?_
    simp only [fieldsOf, List.forall_mem_cons]
    exact ⟨closed.items ss (fits.within (eachMap_item distinct ss) same.2 each),
      List.forall_mem_nil _⟩
  | element ofKind tag as attributes _ cs children _ hs helpers _ onAttributes onChildren
      onHelpers =>
    simp only [Node.respell, Node.element.injEq] at same
    obtain ⟨-, sameTag, sameAttributes, sameChildren, sameHelpers⟩ := same
    refine closed.map _ _ ofKind distinct.1 ?_
    simp only [fieldsOf, List.forall_mem_cons]
    exact ⟨closed.field tag sameTag,
      closed.items as (attributes.within (eachMap_item distinct as) sameAttributes onAttributes),
      closed.items cs (children.within (eachMap_item distinct cs) sameChildren onChildren),
      closed.items hs (helpers.within (eachMap_item distinct hs) sameHelpers onHelpers),
        List.forall_mem_nil _⟩
  | plainAttr ofKind name value =>
    simp only [Node.respell, Node.attr.injEq, Node.text.injEq] at same
    refine closed.map _ _ ofKind distinct.1 ?_
    simp only [fieldsOf, List.forall_mem_cons]
    exact ⟨closed.field name same.2.1, closed.getD value same.2.2.2, List.forall_mem_nil _⟩
  | attr ofKind name value _ kind ih =>
    simp only [Node.respell, Node.attr.injEq] at same
    refine closed.map _ _ ofKind distinct.1 ?_
    simp only [fieldsOf, List.forall_mem_cons]
    refine ⟨closed.field name same.2.1, fun data isData => ?_, List.forall_mem_nil _⟩
    cases value.symm.trans isData
    exact ih (eachMap_get? distinct value) same.2.2
  | block ofKind path params body _ inverse _ onBody onInverse =>
    simp only [Node.respell, Node.block.injEq] at same
    obtain ⟨-, samePath, sameParams, sameBody, sameInverse⟩ := same
    refine closed.map _ _ ofKind distinct.1 ?_
    simp only [fieldsOf, List.forall_mem_cons]
    exact ⟨closed.field path samePath, closed.items params (closed.texts sameParams),
      closed.branch (body.within (eachMap_present distinct) (respellAll_toList sameBody) onBody),
      closed.branch (inverse.within (eachMap_present distinct)
        (respellAll_toList sameInverse) onInverse),
      List.forall_mem_nil _⟩
  | component ofKind tag as attributes _ body _ inverse _ onAttributes onBody onInverse =>
    simp only [Node.respell, Node.component.injEq] at same
    obtain ⟨-, sameTag, sameAttributes, sameBody, sameInverse⟩ := same
    refine closed.map _ _ ofKind distinct.1 ?_
    simp only [fieldsOf, List.forall_mem_cons]
    exact ⟨closed.field tag sameTag,
      closed.items as (attributes.within (eachMap_item distinct as) sameAttributes onAttributes),
      closed.branch (body.within (eachMap_present distinct) (respellAll_toList sameBody) onBody),
      closed.branch (inverse.within (eachMap_present distinct)
        (respellAll_toList sameInverse) onInverse),
      List.forall_mem_nil _⟩
  | text ofKind chars =>
    simp only [Node.respell, Node.text.injEq] at same
    refine closed.map _ _ ofKind distinct.1 ?_
    simp only [fieldsOf, List.forall_mem_cons]
    exact ⟨closed.getD chars same.2, List.forall_mem_nil _⟩
  | mustache ofKind path params escaped =>
    simp only [Node.respell, Node.mustache.injEq] at same
    refine closed.map _ _ ofKind distinct.1 ?_
    simp only [fieldsOf, List.forall_mem_cons]
    refine ⟨closed.field path same.2.1, closed.items params (closed.texts same.2.2.1),
      fun value isValue => ?_,
      List.forall_mem_nil _⟩
    rw [isValue, Option.getD_some] at escaped
    rw [escaped]
    exact closed.flag _

theorem Describes.eachMap_ofKind {data : Value} {n : Node} (described : Describes data n)
    (distinct : data.EachMap HasDistinctKeys) : data.EachMap fun entries =>
    ∃ kind, OfKind kind entries := by
  refine described.within (f := fun s => s) ⟨trivial, fun _ => trivial, fun _ _ => trivial,
    fun items each => ?_,
    fun kind entries ofKind distinct fields => ?_⟩ distinct n.respell_self
  · exact Value.eachMapIn_iff.mpr each
  · refine ⟨⟨kind, ofKind⟩, Value.eachMapUnder_iff.mpr fun entry member => ?_⟩
    obtain ⟨slot, -, isType | ⟨isField, found⟩⟩ := ofKind.value_cases distinct member
    · rw [isType]
      trivial
    · exact fields slot isField _ found

/-- If a spelling keeps the tree that a document describes, it keeps the document. -/
theorem Describes.respell_eq {data : Value} {n : Node} {r : Spelling} (described : Describes data n)
    (keeps : r.KeepsWords) (distinct : data.EachMap HasDistinctKeys) (same : n.respell r.text = n) :
    data.respell r = data := by
  refine described.within (f := r.text) (P := fun value => value.respell r = value)
    ⟨rfl, fun _ => rfl, fun _ same => congrArg Value.text same, fun items each => ?_,
      fun kind entries ofKind distinct fields => ?_⟩ distinct same
  · rw [Value.respell, respellAll_eq_map, List.map_congr_left each, List.map_id']
  · have each : ∀ entry ∈ entries, (entry.1.respell r, entry.2.respell r) = entry := by
      intro entry member
      obtain ⟨slot, key, value⟩ := ofKind.value_cases distinct member
      have sameKey : entry.1.respell r = entry.1 := by
        rw [key, Value.respell, (keeps _ (Field.isWord slot) _).mpr rfl]
      have sameValue : entry.2.respell r = entry.2 := by
        rcases value with isType | ⟨isField, found⟩
        · rw [isType, Value.respell, (keeps _ (NodeKind.isWord kind) _).mpr rfl]
        · exact fields slot isField _ found
      rw [sameKey, sameValue]
    rw [Value.respell, respellEntries_eq_map, List.map_congr_left each, List.map_id']

end Document
end TemplateActions
