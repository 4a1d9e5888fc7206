import TemplateActions.Proofs.Document.Defects
import TemplateActions.Proofs.Path.Notation

/-!
The defect that is reported is the leftmost one. Its path points into the document: to a value, or
to a field that a mapping lacks. In each list that the path goes through, the items before are as
they should be, and the items behind do not matter: with others in their place the same defect is
reported.
-/
namespace TemplateActions.Document

variable {slot other : Field} {entries : Entries} {form : Form} {s : Step} {value new data : Value}
  {steps : List Step} {d : Defect}

/-- The entries with another value under the first key that is the field. -/
def replaceField (slot : Field) (new : Value) : Entries → Entries
  | [] => []
  | (key, value) :: rest =>
    if isField slot key then (key, new) :: rest else (key, value) :: replaceField slot new rest

def replaceStep (new : Value) : Step → Value → Value
  | .field slot, .map entries => .map (replaceField slot new entries)
  | .item slot index, .map entries =>
    match get? slot entries with
    | some (.list items) => .map (replaceField slot (.list (items.set index new)) entries)
    | _ => .map entries
  | _, value => value

/-- A value with another one where steps lead to; nothing if they lead nowhere. -/
def replace? (new : Value) : List Step → Value → Option Value
  | [], _ => some new
  | s :: steps, value => do
    let inner ← step? s value
    let inner ← replace? new steps inner
    return replaceStep inner s value

theorem get?_replaceField (slot : Field) (new : Value) (entries : Entries) :
    get? slot (replaceField slot new entries) = (get? slot entries).map fun _ => new := by
  induction entries with
  | nil => rfl
  | cons entry rest ih =>
    obtain ⟨key, value⟩ := entry
    rw [replaceField, get?_cons]
    cases same : isField slot key with
    | true => simp [get?_cons, same]
    | false => simpa [get?_cons, same] using ih

theorem items?_replaceField (held : get? slot entries = some value) (items : List Value) :
    items? slot (replaceField slot (.list items) entries) = some items := by
  rw [items?, get?_replaceField, held, Option.map_some]

theorem get?_replaceField_of_ne (different : other ≠ slot) (new : Value) (entries : Entries) :
    get? other (replaceField slot new entries) = get? other entries := by
  induction entries with
  | nil => rfl
  | cons entry rest ih =>
    obtain ⟨key, value⟩ := entry
    rw [replaceField, get?_cons]
    cases same : isField slot key with
    | true =>
      have elsewhere : isField other key = false := by
        rw [Bool.eq_false_iff, ne_eq, isField_iff, isField_iff.mp same]
        exact fun texts => different (Field.text_injective (Value.text.inj texts)).symm
      simp [get?_cons, elsewhere]
    | false => simp [get?_cons, ih]

theorem keys_replaceField (slot : Field) (new : Value) (entries : Entries) :
    (replaceField slot new entries).map (·.1) = entries.map (·.1) := by
  induction entries with
  | nil => rfl
  | cons entry rest ih =>
    obtain ⟨key, value⟩ := entry
    rw [replaceField]
    split
    · rfl
    · rw [List.map_cons, List.map_cons, ih]

theorem at?_cons (data : Value) (start : String) (s : Step) (steps : List Step) :
    at? data ⟨start, s :: steps⟩ = (step? s data).bind fun inner => at? inner ⟨start, steps⟩ := rfl

theorem forms_nodup (kind : NodeKind) : (.type :: (forms kind).map (·.1)).Nodup := by
  cases kind <;> decide

theorem OfKind.replaceField {kind : NodeKind} (h : OfKind kind entries) (different : .type ≠ slot)
    (new : Value) : OfKind kind (replaceField slot new entries) where
  type := (get?_replaceField_of_ne different new entries).trans h.type
  keys := by
    intro entry member
    have isKey : entry.1 ∈ entries.map (·.1) := by
      rw [← keys_replaceField slot new]
      exact List.mem_map_of_mem member
    obtain ⟨old, inside, same⟩ := List.mem_map.mp isKey
    rw [← same]
    exact h.keys old inside

theorem Form.Admits.of_get? {kind : NodeKind} {entries' : Entries}
    (known : (slot, form) ∈ forms kind) (same : get? slot entries' = get? slot entries)
    (admits : form.Admits slot entries) : form.Admits slot entries' := by
  cases form with
  | text | texts | nodes | program => simpa only [Admits, items?, present?, same] using admits
  | flag =>
    obtain rfl := forms_flag known
    simpa only [Admits, same] using admits
  | value =>
    obtain rfl := forms_value known
    simpa only [Admits, same] using admits

theorem Attempts.replaceField (attempts : Attempts entries slot form) (new : Value) :
    Attempts (replaceField slot new entries) slot form := by
  obtain ⟨kind, before, after, ofKind, split, admits⟩ := attempts
  have distinct := forms_nodup kind
  rw [split, List.map_append, List.map_cons, List.nodup_cons, List.nodup_append] at distinct
  refine ⟨kind, before, after, ofKind.replaceField ?_ new, split, ?_⟩
  · rintro rfl
    exact distinct.1 (by simp)
  · intro field member
    have known : field ∈ forms kind := by simp [split, member]
    have different : field.1 ≠ slot :=
      distinct.2.2.2 _ (List.mem_map_of_mem member) _ List.mem_cons_self
    exact (admits field member).of_get? known (get?_replaceField_of_ne different new entries)

theorem Form.Opens.replaceStep (opens : form.Opens slot entries s value) (within : Entries) :
    ∃ held, Document.replaceStep (.map within) s (.map entries) =
      .map (replaceField slot held entries) ∧
      form.Opens slot (replaceField slot held entries) s (.map within) := by
  cases opens with
  | @item _ before after _ isList isItems taken =>
    have held := get?_of_items? isItems (by simp)
    refine ⟨_, ?_, .item isList (items?_replaceField held (before ++ .map within :: after)) taken⟩
    simp [Document.replaceStep, held]
  | program isPresent =>
    refine ⟨.map within, rfl, .program ?_⟩
    rw [present?, get?_replaceField, get?_of_present? isPresent, Option.map_some]
  | value isValue _ =>
    refine ⟨.map within, rfl, .value ?_ (by simp)⟩
    rw [get?_replaceField, isValue, Option.map_some]

/-- Holds if a value may be an item of a list field, whatever the other items are. -/
def Acceptable : Field → Value → Prop
  | .statements, item | .children, item => Fits none item
  | .attributes, item => Fits (some .attr) item
  | .helpers, item => Fits (some .mustache) item
  | .params, item => ∃ s, item = .text s
  | _, _ => False

theorem acceptable_of_takesItem {kind : NodeKind} (known : (slot, form) ∈ forms kind)
    (taken : form.TakesItem value) : Acceptable slot value := by
  have all : ∀ field ∈ forms kind, field.2.TakesItem value → Acceptable field.1 value := by
    cases kind <;> simp [forms, Form.TakesItem, Acceptable]
  exact all _ known taken

theorem Attempts.known (attempts : Attempts entries slot form) :
    ∃ kind, (slot, form) ∈ forms kind := by
  obtain ⟨kind, before, after, -, split, -⟩ := attempts
  exact ⟨kind, by simp [split]⟩

theorem Form.Opens.truncate {found : Field} {index : Nat} (attempts : Attempts entries slot form)
    (opens : form.Opens slot entries (.item found index) value) :
    found = slot ∧ ∃ items, get? slot entries = some (.list items) ∧ index < items.length ∧
      (∀ item ∈ items.take index, Acceptable slot item) ∧
      ∀ others, form.Opens slot
        (replaceField slot (.list (items.take (index + 1) ++ others)) entries) (.item slot index)
        value := by
  cases opens with
  | @item _ before after _ isList isItems taken =>
    have held := get?_of_items? isItems (by simp)
    obtain ⟨kind, known⟩ := attempts.known
    refine ⟨rfl, _, held, by simp, ?_, ?_⟩
    · rw [List.take_left']
      · exact fun item member => acceptable_of_takesItem known (taken item member)
      · rfl
    · intro others
      rw [List.take_length_add_append, List.take_succ_cons, List.take_zero, List.append_assoc]
      exact .item isList (items?_replaceField held (before ++ value :: others)) taken

/-- Holds if a path leads to a value, or its last step to a field that a mapping lacks. -/
def PointsInto (data : Value) (path : Path) : Prop :=
  (∃ value, at? data path = some value) ∨
    ∃ front slot entries, path = front.field slot ∧ at? data front = some (.map entries) ∧
      get? slot entries = none

theorem Form.Opens.step? (opens : form.Opens slot entries s value) :
    Document.step? s (.map entries) = some value := by
  cases opens with
  | item _ isItems _ =>
    rw [step?_item isItems]
    simp
  | program isPresent => exact get?_of_present? isPresent
  | value isValue _ => exact isValue

theorem Form.Opens.at?_step {document : Value} {top : Path}
    (opens : form.Opens slot entries s value)
    (start : at? document top = some (.map entries)) : at? document (top.step s) = some value := by
  rw [Document.at?_step, start]
  exact opens.step?

theorem pointsInto_field {top : Path} (start : at? data top = some (.map entries)) (slot : Field) :
    PointsInto data (top.field slot) := by
  cases held : get? slot entries with
  | none => exact .inr ⟨top, slot, entries, rfl, start, held⟩
  | some value =>
    refine .inl ⟨value, (at?_step data top (.field slot)).trans ?_⟩
    rw [start]
    exact held

theorem Fails.pointsInto {document : Value} {top : Path} (fails : Fails data steps d)
    (start : at? document top = some data) : PointsInto document (top.below steps) := by
  induction fails generalizing top with
  | notMapping | keys =>
    rw [Path.below_nil]
    exact .inl ⟨_, start⟩
  | type | field => exact pointsInto_field start _
  | value _ opens _ => exact .inl ⟨_, opens.at?_step start⟩
  | within _ opens _ _ ih =>
    rw [Path.below_cons]
    exact ih (opens.at?_step start)

theorem Fails.exists_item {found : Field} {index : Nat}
    (fails : Fails data (.item found index :: steps) d) :
    ∃ entries slot form value, data = .map entries ∧ Attempts entries slot form ∧
      form.Opens slot entries (.item found index) value ∧
      ∀ entries', Attempts entries' slot form → form.Opens slot entries' (.item found index) value →
        Fails (.map entries') (.item found index :: steps) d := by
  cases fails with
  | value attempts opens rejects =>
    refine ⟨_, _, _, _, rfl, attempts, opens, ?_⟩
    exact fun _ attempts opens => .value attempts opens rejects
  | within attempts opens other fails =>
    refine ⟨_, _, _, _, rfl, attempts, opens, ?_⟩
    exact fun _ attempts opens => .within attempts opens other fails

theorem Fails.exists_within (fails : Fails data (s :: steps) d) (more : steps ≠ []) :
    ∃ entries slot form value, data = .map entries ∧ Attempts entries slot form ∧
      form.Opens slot entries s value ∧ form ≠ .texts ∧ Fails value steps d := by
  cases fails with
  | type | field | value => exact absurd rfl more
  | within attempts opens other fails => exact ⟨_, _, _, _, rfl, attempts, opens, other, fails⟩

theorem Fails.exists_map (fails : Fails data (s :: steps) d) : ∃ entries, data = .map entries := by
  cases fails <;> exact ⟨_, rfl⟩

/-- In a list that leads to a defect the items before are acceptable, and with other items behind
the defect is the same. -/
theorem Fails.of_item {front back : List Step} {index : Nat}
    (fails : Fails data (front ++ .item slot index :: back) d) (start : String) :
    ∃ items, at? data ⟨start, front ++ [.field slot]⟩ = some (.list items) ∧ index < items.length ∧
      (∀ item ∈ items.take index, Acceptable slot item) ∧
      ∀ others, ∃ data',
        replace? (.list (items.take (index + 1) ++ others)) (front ++ [.field slot]) data =
          some data' ∧
        Fails data' (front ++ .item slot index :: back) d := by
  induction front generalizing data with
  | nil =>
    obtain ⟨entries, slot', form, value, rfl, attempts, opens, same⟩ := fails.exists_item
    obtain ⟨rfl, items, held, inside, accepted, opens⟩ := opens.truncate attempts
    refine ⟨items, ?_, inside, accepted, fun others => ?_⟩
    · rw [List.nil_append, at?_cons, step?, held]
      rfl
    · refine ⟨_, ?_, same _ (attempts.replaceField _) (opens others)⟩
      rw [List.nil_append, replace?, step?, held]
      rfl
  | cons s front ih =>
    obtain ⟨entries, slot', form, value, rfl, attempts, opens, other, fails⟩ :=
      fails.exists_within (by simp)
    obtain ⟨items, found, inside, accepted, same⟩ := ih fails
    refine ⟨items, ?_, inside, accepted, fun others => ?_⟩
    · rw [List.cons_append, at?_cons, opens.step?]
      exact found
    · obtain ⟨value', replaced, fails⟩ := same others
      -- What replaces the value has a defect within it, so it is a mapping too.
      obtain ⟨within, rfl⟩ : ∃ within, value' = .map within := by
        cases front <;> exact fails.exists_map
      obtain ⟨held, isReplaced, opens'⟩ := opens.replaceStep within
      refine ⟨_, ?_, .within (attempts.replaceField held) opens' other fails⟩
      rw [List.cons_append, replace?, opens.step?, Option.bind_eq_bind, Option.bind_some, replaced,
        ← isReplaced]
      rfl

theorem tree_eq_defect_iff {path : Path} : tree data = .error (.defect path d) ↔
    (∃ steps, Fails data steps d ∧ path = Path.root.below steps) ∨
      ∃ n found, Describes data n ∧ n.kind? = some found ∧ found ≠ .program ∧
        d = .rootNode found ∧ path = Path.root := by
  rw [tree, node_bind_eq_error_iff, node_eq_defect_iff]
  refine or_congr_right (exists_congr fun n => ?_)
  rw [exists_and_left]
  refine and_congr_right fun described => ?_
  rw [Node.kind?_unnumbered]
  cases n.kind? with
  | none => simp [pure, Except.pure]
  | some found => cases found <;> simp [fail_eq_defect_iff, pure, Except.pure]

/-- A defect that is reported for a document is the leftmost one. -/
theorem tree_defect_leftmost {path : Path} (failed : tree data = .error (.defect path d)) :
    path.start = "$" ∧ PointsInto data path ∧
      ∀ front slot index back, path.steps = front ++ .item slot index :: back →
        ∃ items, at? data ⟨"$", front ++ [.field slot]⟩ = some (.list items) ∧
          index < items.length ∧
          (∀ item ∈ items.take index, Acceptable slot item) ∧
          ∀ others, ∃ data',
            replace? (.list (items.take (index + 1) ++ others)) (front ++ [.field slot]) data =
              some data' ∧
            tree data' = .error (.defect path d) := by
  rcases tree_eq_defect_iff.mp failed with ⟨steps, fails, rfl⟩ | ⟨_, _, _, _, _, _, rfl⟩
  · refine ⟨rfl, fails.pointsInto rfl, ?_⟩
    rintro front slot index back split
    obtain rfl : steps = front ++ .item slot index :: back := split
    obtain ⟨items, found, inside, accepted, same⟩ := fails.of_item "$"
    refine ⟨items, found, inside, accepted, fun others => ?_⟩
    obtain ⟨data', replaced, fails⟩ := same others
    exact ⟨data', replaced, tree_eq_defect_iff.mpr (.inl ⟨_, fails, rfl⟩)⟩
  · refine ⟨rfl, .inl ⟨data, rfl⟩, ?_⟩
    intro front slot index back split
    exact absurd split.symm (by simp [Path.root])

/-- A document with four defects: the second statement has a helper that is no mapping, behind a
child without a path and one of an unknown type, and the third statement is no mapping. -/
def manyDefects : Value :=
  .map [(.text "type", .text "program"), (.text "statements", .list [
    .map [(.text "type", .text "text")],
    .map [(.text "type", .text "element"), (.text "tag", .text "p"),
      (.text "helpers", .list [.null]),
      (.text "children", .list [
        .map [(.text "type", .text "mustache")],
        .map [(.text "type", .text "slot")]])],
    .int 7])]

theorem manyDefects_leftmost :
    tree manyDefects = .error (.defect
      ⟨"$", [.item .statements 1, .item .children 0, .field .path]⟩ .missing) ∧
      ∃ items, at? manyDefects ⟨"$", [.field .statements]⟩ = some (.list items) ∧ 1 < items.length ∧
        (∀ item ∈ items.take 1, Acceptable .statements item) ∧
        ∀ others, ∃ data',
          replace? (.list (items.take 2 ++ others)) [.field .statements] manyDefects = some data' ∧
          tree data' = .error (.defect
            ⟨"$", [.item .statements 1, .item .children 0, .field .path]⟩ .missing) :=
  ⟨rfl, (tree_defect_leftmost rfl).2.2 [] .statements 1 [.item .children 0, .field .path] rfl⟩

end TemplateActions.Document
