import Mathlib.Algebra.Group.Int.Defs
import Mathlib.Data.List.Perm.Basic
import Mathlib.Data.String.Basic
import Mathlib.Logic.Relation
import TemplateActions.Proofs.Document.Leftmost
import TemplateActions.Proofs.Document.Within
import TemplateActions.Proofs.Number.Notation

/-!
Documents that say the same in other ways: with the keys of mappings in another order, with fields
written out that may be left out, or with the value of an attribute as a text or as a mapping. If
all keys are texts, loading them gives the same tree, or fails with the same defect at the same
path.
-/
namespace TemplateActions.Document

open Value (EachMap)

def Form.implied? : Form → Option Value
  | .text default => default.map .text
  | .texts | .nodes _ | .program => some .null
  | .flag => some (.bool true)
  | .value => some (.text "")

def textNode (chars : String) : Value :=
  .map [(.text Field.type.text, .text NodeKind.text.name), (.text Field.chars.text, .text chars)]

/-- One mapping of a document is written in another way. The mapping is the document itself, an
item of a list of nodes, or the value of a field that holds a node. -/
inductive Rewrites : Value → Value → Prop
  | order {entries entries' : Entries} :
      entries.Perm entries' → Rewrites (.map entries) (.map entries')
  | implied {entries : Entries} {kind : NodeKind} {slot : Field} {form : Form} {value : Value} :
      named? entries = some kind → (slot, form) ∈ forms kind → form.implied? = some value →
      get? slot entries = none → Rewrites (.map entries)
        (.map ((.text slot.text, value) :: entries))
  | plain {entries : Entries} {chars : String} :
      named? entries = some .attr → get? .value entries = some (.text chars) →
      Rewrites (.map entries) (.map (replaceField .value (textNode chars) entries))
  | item {entries : Entries} {kind : NodeKind} {slot : Field} {wanted : Option NodeKind}
      {before after : List Value} {value value' : Value} :
      named? entries = some kind → (slot, .nodes wanted) ∈ forms kind →
      get? slot entries = some (.list (before ++ value :: after)) → Rewrites value value' →
      Rewrites (.map entries) (.map (replaceField slot (.list (before ++ value' :: after)) entries))
  | program {entries : Entries} {kind : NodeKind} {slot : Field} {value value' : Value} :
      named? entries = some kind → (slot, .program) ∈ forms kind → get? slot entries = some value →
      Rewrites value value' → Rewrites (.map entries) (.map (replaceField slot value' entries))
  | value {entries : Entries} {value value' : Value} :
      named? entries = some .attr → get? .value entries = some value →
      Rewrites value value' → Rewrites (.map entries) (.map (replaceField .value value' entries))

/-- Holds if a document becomes another one by any number of rewritings, forwards and backwards. -/
def Equivalent : Value → Value → Prop := Relation.EqvGen Rewrites

/-- Holds if the keys of a mapping are texts and none comes twice. -/
structure HasTextKeys (entries : Entries) : Prop where
  texts : ∀ entry ∈ entries, ∃ s, .text s = entry.1
  distinct : HasDistinctKeys entries

variable {entries entries' : Entries} {kind : NodeKind} {slot other : Field} {form : Form}
  {value value' data data' : Value}

theorem get?_eq_none_iff : get? slot entries = none ↔ .text slot.text ∉ entries.map (·.1) := by
  induction entries with
  | nil => simp [get?]
  | cons entry rest ih =>
    obtain ⟨key, value⟩ := entry
    rw [get?_cons, List.map_cons, List.mem_cons, not_or, ← ih]
    by_cases same : isField slot key
    · simp [isField_iff.mp same, isField]
    · have different : .text slot.text ≠ key := fun eq => same (isField_iff.mpr eq.symm)
      simp [same, different]

theorem get?_perm (distinct : HasDistinctKeys entries) (perm : entries.Perm entries')
    (slot : Field) : get? slot entries = get? slot entries' := by
  have keys := perm.map (·.1)
  cases found : get? slot entries with
  | none =>
    rw [get?_eq_none_iff, keys.mem_iff, ← get?_eq_none_iff] at found
    exact found.symm
  | some value =>
    obtain ⟨entry, isEntry, rfl⟩ := Option.map_eq_some_iff.mp found
    have key := isField_iff.mp (List.find?_eq_some_iff_append.mp isEntry).1
    have member := perm.mem_iff.mp (List.mem_of_find?_eq_some isEntry)
    exact (get?_of_mem (keys.nodup distinct) member key).symm

theorem get?_implied_of_ne (different : other ≠ slot) :
    get? other ((.text slot.text, value) :: entries) = get? other entries := by
  rw [get?_cons, if_neg]
  intro isField
  exact different (Field.text_injective (Value.text.inj (isField_iff.mp isField))).symm

theorem get?_implied_self : get? slot ((.text slot.text, value) :: entries) = some value := by
  rw [get?_cons, if_pos (isField_iff.mpr rfl)]

theorem HasTextKeys.keys_iff :
    HasTextKeys entries ↔ (∀ key ∈ entries.map (·.1), ∃ s, .text s = key) ∧
      (entries.map (·.1)).Nodup := by
  rw [List.forall_mem_map]
  exact ⟨fun h => ⟨h.texts, h.distinct⟩, fun h => ⟨h.1, h.2⟩⟩

theorem hasTextKeys_of_texts {texts : List String} (keys : entries.map (·.1) = texts.map .text)
    (distinct : texts.Nodup) : HasTextKeys entries := by
  rw [HasTextKeys.keys_iff, keys, List.forall_mem_map]
  exact ⟨fun s _ => ⟨s, rfl⟩, distinct.map fun _ _ => Value.text.inj⟩

theorem hasTextKeys_replaceField :
    HasTextKeys (replaceField slot value entries) ↔ HasTextKeys entries := by
  rw [HasTextKeys.keys_iff, HasTextKeys.keys_iff, keys_replaceField]

theorem hasTextKeys_perm (perm : entries.Perm entries') :
    HasTextKeys entries ↔ HasTextKeys entries' := by
  have keys := perm.map (·.1)
  rw [HasTextKeys.keys_iff, HasTextKeys.keys_iff, keys.nodup_iff]
  simp only [keys.mem_iff]

theorem hasTextKeys_cons (absent : get? slot entries = none) :
    HasTextKeys ((.text slot.text, value) :: entries) ↔ HasTextKeys entries := by
  rw [HasTextKeys.keys_iff, HasTextKeys.keys_iff, List.map_cons, List.forall_mem_cons,
    List.nodup_cons,
    ← get?_eq_none_iff]
  simp [absent]

theorem Form.eachMap_implied {p : Entries → Prop} (implied : form.implied? = some value) :
    value.EachMap p := by
  cases form with
  | text default =>
    obtain ⟨s, -, rfl⟩ := Option.map_eq_some_iff.mp implied
    trivial
  | _ => cases implied; trivial

theorem eachMap_textNode (chars : String) : (textNode chars).EachMap HasTextKeys := by
  have keys : ["type", "chars"].Nodup := by decide
  exact ⟨hasTextKeys_of_texts rfl keys, trivial, trivial, trivial⟩

theorem eachMapUnder_replaceField {p : Entries → Prop} (found : get? slot entries = some value)
    (same : value.EachMap p ↔ value'.EachMap p) :
    Value.EachMapUnder p (replaceField slot value' entries) ↔ Value.EachMapUnder p entries := by
  induction entries with
  | nil => cases found
  | cons entry rest ih =>
    obtain ⟨key, held⟩ := entry
    rw [get?_cons] at found
    rw [replaceField]
    split
    case isTrue isField =>
      rw [if_pos isField] at found
      cases found
      rw [Value.EachMapUnder, Value.EachMapUnder, same]
    case isFalse isField =>
      rw [if_neg isField] at found
      rw [Value.EachMapUnder, Value.EachMapUnder, ih found]

theorem eachMap_replaceField (found : get? slot entries = some value)
    (same : value.EachMap HasTextKeys ↔ value'.EachMap HasTextKeys) :
    (Value.map entries).EachMap HasTextKeys ↔
      (Value.map (replaceField slot value' entries)).EachMap HasTextKeys := by
  rw [EachMap, EachMap, hasTextKeys_replaceField, eachMapUnder_replaceField found same]

theorem eachMap_list {p : Entries → Prop} {before after : List Value}
    (same : value.EachMap p ↔ value'.EachMap p) :
    (Value.list (before ++ value :: after)).EachMap p ↔
      (Value.list (before ++ value' :: after)).EachMap p := by
  rw [EachMap, EachMap, Value.eachMapIn_iff, Value.eachMapIn_iff]
  simp only [List.forall_mem_append, List.forall_mem_cons, same]

theorem Rewrites.eachMap_iff (h : Rewrites data data') :
    data.EachMap HasTextKeys ↔ data'.EachMap HasTextKeys := by
  induction h with
  | order perm =>
    rw [EachMap, EachMap, hasTextKeys_perm perm, Value.eachMapUnder_iff, Value.eachMapUnder_iff]
    simp only [perm.mem_iff]
  | implied _ _ implied absent =>
    rw [EachMap, EachMap, hasTextKeys_cons absent, Value.EachMapUnder]
    simp only [Form.eachMap_implied implied, true_and]
  | plain _ isText => exact eachMap_replaceField isText (iff_of_true trivial (eachMap_textNode _))
  | item _ _ isList _ ih => exact eachMap_replaceField isList (eachMap_list ih)
  | program _ _ isValue _ ih | value _ isValue _ ih => exact eachMap_replaceField isValue ih

theorem pairwise_orderedInsert {s : String} {texts : List String}
    (sorted : texts.Pairwise (· ≤ ·)) : (texts.orderedInsert (· < ·) s).Pairwise (· ≤ ·) := by
  induction texts with
  | nil => exact List.pairwise_singleton _ _
  | cons first rest ih =>
    rw [List.orderedInsert_cons]
    obtain ⟨least, sortedRest⟩ := List.pairwise_cons.mp sorted
    split
    case isTrue before =>
      refine .cons (fun other member => ?_) sorted
      rcases List.mem_cons.mp member with rfl | member
      · exact before.le
      · exact before.le.trans (least other member)
    case isFalse before =>
      refine .cons (fun other member => ?_) (ih sortedRest)
      rcases List.mem_cons.mp ((List.perm_orderedInsert _ _ _).mem_iff.mp member) with rfl | member
      · exact le_of_not_gt before
      · exact least other member

theorem insertionSort_perm {texts texts' : List String} (perm : texts.Perm texts') :
    texts.insertionSort (· < ·) = texts'.insertionSort (· < ·) := by
  have sorted (texts : List String) : (texts.insertionSort (· < ·)).Pairwise (· ≤ ·) := by
    induction texts with
    | nil => exact .nil
    | cons s rest ih => exact pairwise_orderedInsert ih
  refine List.Perm.eq_of_pairwise (fun _ _ _ _ => le_antisymm) (sorted texts) (sorted texts') ?_
  exact (List.perm_insertionSort _ _).trans (perm.trans (List.perm_insertionSort _ _).symm)

theorem checkKeys_perm (texts : ∀ entry ∈ entries, ∃ s, .text s = entry.1)
    (perm : entries.Perm entries') (path : Path) (kind : NodeKind) :
    checkKeys path kind entries = checkKeys path kind entries' := by
  have extra : (extraKeys kind entries).Perm (extraKeys kind entries') := (perm.map _).filter _
  obtain ⟨keys, isKeys⟩ := extraKeys_texts texts kind
  obtain ⟨keys', isKeys'⟩ := extraKeys_texts
      (fun e member => texts e (perm.mem_iff.mpr member)) kind
  have same : keys.Perm keys' := by
    rwa [isKeys, isKeys', List.map_perm_map_iff fun _ _ => Value.text.inj] at extra
  have sorted : Value.sorted? (extraKeys kind entries) = Value.sorted?
      (extraKeys kind entries') := by
    rw [isKeys, isKeys', sorted?_map_text, sorted?_map_text, insertionSort_perm same]
  have none : (extraKeys kind entries).isEmpty = (extraKeys kind entries').isEmpty := by
    rw [Bool.eq_iff_iff, List.isEmpty_iff, List.isEmpty_iff]
    exact ⟨fun nil => (nil ▸ extra).nil_eq.symm, fun nil => (nil ▸ extra).eq_nil⟩
  rw [checkKeys, checkKeys, sorted, none]

def Form.Agrees (slot : Field) (entries entries' : Entries) : Form → Prop
  | .text default =>
    ∀ path, textField path slot default entries = textField path slot default entries'
  | .texts => ∀ path, textsField path slot entries = textsField path slot entries'
  | .flag => ∀ path, escapedField path entries = escapedField path entries'
  | .nodes wanted =>
    ∀ path, nodesField path slot wanted entries = nodesField path slot wanted entries'
  | .program => ∀ path, programField path slot entries = programField path slot entries'
  | .value => ∀ path, valueField path entries = valueField path entries'

theorem node_map_congr (type : get? .type entries = get? .type entries')
    (keys : ∀ kind, named? entries = some kind → ∀ path,
      checkKeys path kind entries = checkKeys path kind entries')
    (fields : ∀ kind, named? entries = some kind → ∀ field ∈ forms kind,
      field.2.Agrees field.1 entries entries') (path : Path) :
    node path (.map entries) = node path (.map entries') := by
  have sameKind : Document.kind path entries = Document.kind path entries' := by
    rw [Document.kind, Document.kind, type]
  rw [node, node, ← sameKind]
  cases loaded : Document.kind path entries with
  | error e => rfl
  | ok kind =>
    have isKind := named?_eq_some_iff.mpr (kind_eq_ok_iff.mp loaded)
    have sameFields := fields kind isKind
    rw [ok_bind rfl, ok_bind rfl, keys kind isKind path]
    cases kind <;> simp only [forms, List.forall_mem_cons, Form.Agrees] at sameFields <;>
      simp only [sameFields]

theorem Form.agrees_of_get? (known : (slot, form) ∈ forms kind)
    (same : get? slot entries = get? slot entries') : form.Agrees slot entries entries' := by
  cases form with
  | text default => exact fun path => by rw [textField.eq_def, textField.eq_def, same]
  | texts => exact fun path => by rw [textsField, textsField, same]
  | flag =>
    obtain rfl := forms_flag known
    exact fun path => by rw [escapedField, escapedField, same]
  | nodes wanted => exact fun path => by rw [nodesField_eq, nodesField_eq, same]
  | program => exact fun path => by rw [programField_eq, programField_eq, present?, present?, same]
  | value =>
    obtain rfl := forms_value known
    exact fun path => by rw [valueField_eq, valueField_eq, same]

theorem Form.agrees_implied (known : (slot, form) ∈ forms kind)
    (implied : form.implied? = some value)
    (absent : get? slot entries = none) (present : get? slot entries' = some value) :
    form.Agrees slot entries entries' := by
  cases form with
  | text default =>
    obtain ⟨s, rfl, rfl⟩ := Option.map_eq_some_iff.mp implied
    exact fun path => by rw [textField.eq_def, textField.eq_def, absent, present]
  | texts =>
    cases implied
    exact fun path => by rw [textsField, textsField, absent, present]
  | flag =>
    cases implied
    obtain rfl := forms_flag known
    exact fun path => by rw [escapedField, escapedField, absent, present]
  | nodes wanted =>
    cases implied
    exact fun path => by rw [nodesField_eq, nodesField_eq, absent, present]
  | program =>
    cases implied
    exact fun path => by rw [programField_eq, programField_eq, present?, present?, absent, present]
  | value =>
    cases implied
    obtain rfl := forms_value known
    exact fun path => by rw [valueField_eq, valueField_eq, absent, present]

theorem node_congr_field (isKind : named? entries = some kind) (known : (slot, form) ∈ forms kind)
    (others : ∀ other ≠ slot, get? other entries = get? other entries')
    (keys : extraKeys kind entries = extraKeys kind entries')
    (agrees : form.Agrees slot entries entries') (path : Path) :
    node path (.map entries) = node path (.map entries') := by
  have distinct := List.nodup_cons.mp (forms_nodup kind)
  have noType : Field.type ≠ slot := by
    rintro rfl
    exact distinct.1 (List.mem_map_of_mem known)
  refine node_map_congr (others _ noType) (fun kind' isKind' path => ?_)
    (fun kind' isKind' field other => ?_) path <;> obtain rfl :=
      Option.some.inj (isKind.symm.trans isKind')
  · rw [checkKeys, checkKeys, keys]
  · by_cases same : field.1 = slot
    · obtain rfl : field = (slot, form) := List.inj_on_of_nodup_map distinct.2 other known same
      exact agrees
    · exact Form.agrees_of_get? other (others _ same)

theorem node_replaceField (isKind : named? entries = some kind) (known : (slot, form) ∈ forms kind)
    (agrees : form.Agrees slot entries (replaceField slot value entries)) (path : Path) :
    node path (.map entries) = node path (.map (replaceField slot value entries)) := by
  refine node_congr_field isKind known (fun other different => ?_) ?_ agrees path
  · exact (get?_replaceField_of_ne different value entries).symm
  · rw [extraKeys, extraKeys, keys_replaceField]

theorem extraKeys_implied (known : (slot, form) ∈ forms kind) (value : Value) (entries : Entries) :
    extraKeys kind ((.text slot.text, value) :: entries) = extraKeys kind entries := by
  have isField : slot ∈ fieldsOf kind := by
    have all : ∀ field ∈ forms kind, field.1 ∈ fieldsOf kind :=
      by cases kind <;> simp [forms, fieldsOf]
    exact all _ known
  rw [extraKeys, List.map_cons, List.filter_cons_of_neg, ← extraKeys]
  simp only [Bool.not_eq_true, Bool.not_eq_false', List.any_eq_true]
  exact ⟨slot, List.mem_cons_of_mem _ isField, isField_iff.mpr rfl⟩

theorem node_textNode (path : Path) (chars : String) :
    node path (textNode chars) = .ok (.text 0 chars) := by
  have described : Describes (textNode chars) (.text 0 chars) := by
    refine .text ⟨rfl, ?_⟩ rfl
    simp only [List.forall_mem_cons]
    exact ⟨⟨.type, by simp, rfl⟩, ⟨.chars, by simp [fieldsOf], rfl⟩, List.forall_mem_nil _⟩
  exact node_complete described path

theorem nodeItems_congr {before after : List Value}
    (same : ∀ path, node path value = node path value')
    (path : Path) (slot : Field) (wanted : Option NodeKind) (index : Nat) :
    nodeItems path slot wanted index (before ++ value :: after) =
      nodeItems path slot wanted index (before ++ value' :: after) := by
  induction before generalizing index with
  | nil => rw [List.nil_append, List.nil_append, nodeItems, nodeItems, same]
  | cons item rest ih => rw [List.cons_append, List.cons_append, nodeItems, nodeItems, ih]

theorem value_known : (.value, .value) ∈ forms .attr := List.mem_cons_self

theorem Rewrites.maps (h : Rewrites data data') :
    (∃ entries, data = .map entries) ∧ ∃ entries, data' = .map entries := by
  cases h <;> exact ⟨⟨_, rfl⟩, ⟨_, rfl⟩⟩

theorem Rewrites.node_eq (h : Rewrites data data') (texts : data.EachMap HasTextKeys)
    (path : Path) : node path data = node path data' := by
  induction h generalizing path with
  | order perm =>
    -- No key comes twice, so a look-up finds the same value in any order of the keys.
    obtain ⟨keys, -⟩ := texts
    have same := get?_perm keys.distinct perm
    exact node_map_congr (same _) (fun kind _ path => checkKeys_perm keys.texts perm path kind)
      (fun kind _ field known => Form.agrees_of_get? known (same _)) path
  | @implied entries kind slot form value isKind known implied absent =>
    refine node_congr_field isKind known (fun other different => ?_) ?_ ?_ path
    · exact (get?_implied_of_ne different).symm
    · exact (extraKeys_implied known value entries).symm
    · exact Form.agrees_implied known implied absent get?_implied_self
  | @plain entries chars isKind isText =>
    refine node_replaceField isKind value_known (fun path => ?_) path
    rw [valueField_eq, valueField_eq, get?_replaceField, isText]
    have inner := node_textNode (path.field .value) chars
    change _ = node (path.field .value) (textNode chars) >>= expectAttributeValue
      (path.field .value)
    rw [inner]
    rfl
  | item isKind known isList _ ih =>
    have inner := ih (eachMap_item texts (by rw [items?, isList]) _ (by simp))
    refine node_replaceField isKind known (fun path => ?_) path
    rw [nodesField_eq, nodesField_eq, get?_replaceField, isList]
    exact nodeItems_congr inner _ _ _ _
  | program isKind known isValue step ih =>
    have inner := ih (eachMap_get? texts isValue)
    refine node_replaceField isKind known (fun path => ?_) path
    obtain ⟨⟨_, rfl⟩, _, rfl⟩ := step.maps
    rw [programField_eq, programField_eq, present?, present?, get?_replaceField, isValue]
    dsimp only [Option.map_some]
    rw [inner]
  | value isKind isValue step ih =>
    have inner := ih (eachMap_get? texts isValue)
    refine node_replaceField isKind value_known (fun path => ?_) path
    obtain ⟨⟨_, rfl⟩, _, rfl⟩ := step.maps
    rw [valueField_eq, valueField_eq, get?_replaceField, isValue]
    dsimp only [Option.map_some]
    rw [inner]

theorem Equivalent.tree_eq (h : Equivalent data data') :
    (data.EachMap HasTextKeys ↔ data'.EachMap HasTextKeys) ∧
      (data.EachMap HasTextKeys → tree data = tree data') := by
  induction h with
  | rel data data' step =>
    exact ⟨step.eachMap_iff, fun texts => by rw [tree, tree, step.node_eq texts]⟩
  | refl => exact ⟨.rfl, fun _ => rfl⟩
  | symm _ _ _ ih => exact ⟨ih.1.symm, fun texts => (ih.2 (ih.1.mpr texts)).symm⟩
  | trans _ _ _ _ _ first second =>
    exact ⟨first.1.trans second.1, fun texts => (first.2 texts).trans (second.2 (first.1.mp texts))⟩

/-- Holds if the types of all mappings that the loading of a document comes to can be written. -/
def HasWritableTypes (data : Value) : Prop :=
  ∀ path entries, Comes Path.root data path entries → ((get? .type entries).getD .null).isWritable

theorem comesToUnreportable_iff (texts : data.EachMap HasTextKeys) :
    ¬ ComesToUnreportable data ↔ HasWritableTypes data := by
  constructor
  · intro reportable path entries comes
    by_contra unwritable
    rw [Bool.not_eq_true] at unwritable
    refine reportable ⟨path, entries, comes, .type ?_ unwritable⟩
    rw [named?]
    split
    case h_1 name isName =>
      rw [isName] at unwritable
      cases unwritable
    case h_2 => rfl
  · rintro writable ⟨path, entries, comes, wrong⟩
    exact not_unreportable_of_texts (comes.eachMap texts).texts (writable path entries comes) wrong

/-- Equivalent documents whose keys are texts give the same tree, or they fail with the same
defect at the same path; unless loading comes to a type that holds an integer too long to be
written. -/
theorem tree_of_equivalent (texts : data.EachMap HasTextKeys) (same : Equivalent data data') :
    tree data = tree data' ∧
      (((∃ root, tree data = .ok root ∧ tree data' = .ok root) ∨
          ∃ path d, tree data = .error (.defect path d) ∧ tree data' = .error (.defect path d)) ↔
        HasWritableTypes data) := by
  have equal := same.tree_eq.2 texts
  refine ⟨equal, ?_⟩
  rw [← comesToUnreportable_iff texts, ← isReported_tree_iff, ← equal]
  cases loaded : tree data with
  | ok root =>
    have kind := kind?_of_tree loaded
    refine iff_of_true (.inl ⟨root, rfl, rfl⟩) ?_
    cases root <;> cases kind
    rfl
  | error e => cases e <;> simp [isReported, Except.mapError, LoadFailure.report?]

def plainSample : Value :=
  .map [(.text "type", .text "program"), (.text "statements", .list
    [.map [(.text "type", .text "attr"), (.text "name", .text "id"), (.text "value", .text "x")]])]

def rewrittenSample : Value :=
  .map [(.text "statements", .list
    [.map [(.text "type", .text "attr"), (.text "name", .text "id"),
      (.text "value", textNode "x")]]),
    (.text "type", .text "program")]

theorem plainSample_equivalent : Equivalent plainSample rewrittenSample := by
  have inner : Rewrites
      (.map [(.text "type", .text "attr"), (.text "name", .text "id"), (.text "value", .text "x")])
      (.map [(.text "type", .text "attr"), (.text "name", .text "id"),
        (.text "value", textNode "x")]) :=
    .plain rfl rfl
  refine .trans _ _ _ (.rel _ _ (@Rewrites.item _ .program .statements none []
    [] _ _ rfl ?_ rfl inner)) ?_
  · exact List.mem_cons_self
  · exact .rel _ _ (.order (.swap _ _ _))

theorem plainSample_tree : plainSample.EachMap HasTextKeys ∧
    Equivalent plainSample rewrittenSample ∧
    tree plainSample = tree rewrittenSample ∧
    tree plainSample = .ok (.program 0 [.attr 1 "id" (.text 2 "x")]) := by
  have ofRoot : ["type", "statements"].Nodup := by decide
  have ofAttr : ["type", "name", "value"].Nodup := by decide
  have texts : plainSample.EachMap HasTextKeys :=
    ⟨hasTextKeys_of_texts rfl ofRoot, trivial,
      ⟨⟨hasTextKeys_of_texts rfl ofAttr, trivial, trivial, trivial, trivial⟩, trivial⟩, trivial⟩
  exact ⟨texts, plainSample_equivalent, (tree_of_equivalent texts plainSample_equivalent).1, rfl⟩

theorem tree_of_overlongType {n : Int} (long : 10 ^ Value.digitLimit ≤ n.natAbs) :
    tree (.map [(.text "type", .int n)]) = .error .overlongInteger := by
  have unwritable : (Value.int n).isWritable = false := by
    rw [← Bool.not_eq_true, Value.isWritable_int_iff]
    exact long.not_gt
  have wrongKind : kind Path.root [(.text "type", .int n)] = .error .overlongInteger := by
    rw [kind_eq]
    change (if (Value.int n).isWritable then _ else _) = _
    rw [unwritable]
    rfl
  rw [tree, node, wrongKind]
  rfl

def overlongType : Value := .map [(.text "type", .int ((16 ^ 36) ^ 100))]

/-- Loading it fails without a defect. -/
theorem overlongType_not_reported : overlongType.EachMap HasTextKeys ∧
    Equivalent overlongType overlongType ∧ tree overlongType = .error .overlongInteger := by
  have keys : ["type"].Nodup := by decide
  refine ⟨⟨hasTextKeys_of_texts rfl keys, trivial, trivial⟩, .refl _, tree_of_overlongType ?_⟩
  have limit : Value.digitLimit = 43 * 100 := rfl
  rw [limit, Nat.pow_mul, Int.natAbs_pow]
  exact Nat.pow_le_pow_left (by decide) 100

end TemplateActions.Document
