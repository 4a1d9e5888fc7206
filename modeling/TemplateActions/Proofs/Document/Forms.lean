import TemplateActions.Proofs.Document.Loading

/-!
The forms of fields, and how the loading of a mapping fails. The fields of a mapping are looked at
in the order of the forms of its kind; the loading fails with the first field that does not hold
what its form admits, and in a list with the first item that does not fit.
-/
namespace TemplateActions.Document

inductive Form where
  | text (default : Option String)
  | texts
  | flag
  | nodes (wanted : Option NodeKind)
  | program
  | value

def forms : NodeKind → List (Field × Form)
  | .program => [(.statements, .nodes none)]
  | .element =>
    [(.tag, .text none), (.attributes, .nodes (some .attr)), (.children, .nodes none),
      (.helpers, .nodes (some .mustache))]
  | .attr => [(.value, .value), (.name, .text none)]
  | .block =>
    [(.path, .text none), (.params, .texts), (.program, .program), (.inverse, .program)]
  | .component =>
    [(.tag, .text none), (.attributes, .nodes (some .attr)), (.program, .program),
      (.inverse, .program)]
  | .text => [(.chars, .text (some ""))]
  | .mustache => [(.escaped, .flag), (.path, .text none), (.params, .texts)]

/-- Holds if a value describes a node, of the wanted kind if one is wanted. -/
def Fits (wanted : Option NodeKind) (value : Value) : Prop :=
  ∃ n, Describes value n ∧ ∀ kind ∈ wanted, n.kind? = some kind

namespace Form

def Admits (slot : Field) (entries : Entries) : Form → Prop
  | .text default => ∃ s, (get? slot entries).or (default.map .text) = some (.text s)
  | .texts => ∃ texts : List String, items? slot entries = some (texts.map .text)
  | .flag => ∃ b, (get? .escaped entries).getD (.bool true) = .bool b
  | .nodes wanted => ∃ items, items? slot entries = some items ∧ ∀ item ∈ items, Fits wanted item
  | .program => ∀ value ∈ present? slot entries, Fits (some .program) value
  | .value => ∀ value ∈ get? .value entries,
    (∃ s, value = .text s) ∨ Fits (some .text) value ∨ Fits (some .mustache) value

def load (path : Path) (slot : Field) (entries : Entries) : Form → Loaded Unit
  | .text default => discard (textField path slot default entries)
  | .texts => discard (textsField path slot entries)
  | .flag => discard (escapedField path entries)
  | .nodes wanted => discard (nodesField path slot wanted entries)
  | .program => discard (programField path slot entries)
  | .value => discard (valueField path entries)

end Form

section Failing

variable {α β : Type} {e : DocumentFailure}

theorem discard_bind (x : Loaded α) (f : α → Loaded β) :
    discard (x >>= f) = x >>= fun a => discard (f a) := by
  cases x <;> rfl

theorem discard_seq (x : Loaded α) (y : Loaded β) :
    (discard x >>= fun _ => y) = x >>= fun _ => y := by
  cases x <;> rfl

theorem discard_eq_bind (x : Loaded α) : discard x = x >>= fun _ => .ok () := by
  cases x <;> rfl

theorem discard_eq_ok_iff {x : Loaded α} : discard x = .ok () ↔ ∃ a, x = .ok a := by
  cases x <;> simp [discard, Functor.mapConst, Except.map]

theorem discard_eq_error_iff {x : Loaded α} : discard x = .error e ↔ x = .error e := by
  cases x <;> simp [discard, Functor.mapConst, Except.map]

theorem bind_eq_error_iff {x : Loaded α} {f : α → Loaded β} :
    (x >>= f) = .error e ↔ x = .error e ∨ ∃ a, x = .ok a ∧ f a = .error e := by
  cases x <;> simp [bind, Except.bind]

theorem forM_eq_ok_iff {items : List α} {f : α → Loaded Unit} :
    forM items f = .ok () ↔ ∀ item ∈ items, f item = .ok () := by
  induction items with
  | nil => exact iff_of_true rfl nofun
  | cons item rest ih =>
    rw [List.forM_cons, bind_eq_ok_iff, List.forall_mem_cons, ← ih]
    constructor
    · rintro ⟨⟨⟩, here, later⟩
      exact ⟨here, later⟩
    · rintro ⟨here, later⟩
      exact ⟨(), here, later⟩

theorem forM_eq_error_iff {items : List α} {f : α → Loaded Unit} :
    forM items f = .error e ↔ ∃ before item after, items = before ++ item :: after ∧
      (∀ b ∈ before, f b = .ok ()) ∧ f item = .error e := by
  induction items with
  | nil =>
    refine iff_of_false nofun ?_
    rintro ⟨before, item, after, split, -⟩
    exact List.cons_ne_nil _ _ (List.append_eq_nil_iff.mp split.symm).2
  | cons item rest ih =>
    rw [List.forM_cons, bind_eq_error_iff]
    constructor
    · rintro (here | ⟨⟨⟩, passed, later⟩)
      · exact ⟨[], item, rest, rfl, nofun, here⟩
      · obtain ⟨before, found, after, rfl, passed', failed⟩ := ih.mp later
        exact ⟨item :: before, found, after, rfl, List.forall_mem_cons.mpr
          ⟨passed, passed'⟩, failed⟩
    · rintro ⟨before, found, after, split, passed, failed⟩
      cases before with
      | nil =>
        cases split
        exact .inl failed
      | cons first before =>
        cases split
        rw [List.forall_mem_cons] at passed
        exact .inr ⟨(), passed.1, ih.mpr ⟨before, found, after, rfl, passed.2, failed⟩⟩

theorem forM_zipIdx_eq_error_iff {items : List α} {f : α → Nat → Loaded Unit} {good : α → Prop}
    (passes : ∀ item index, f item index = .ok () ↔ good item) :
    forM items.zipIdx (fun entry => f entry.1 entry.2) = .error e ↔
      ∃ before item after, items = before ++ item :: after ∧ (∀ b ∈ before, good b) ∧
        f item before.length = .error e := by
  rw [forM_eq_error_iff]
  simp only [passes]
  constructor
  · rintro ⟨before, item, after, split, fits, failed⟩
    obtain ⟨first, rest, rfl, rfl, isRest⟩ := List.zipIdx_eq_append_iff.mp split
    obtain ⟨found, last, rfl, rfl, -⟩ := List.zipIdx_eq_cons_iff.mp isRest.symm
    rw [← List.forall_mem_map, List.zipIdx_map_fst] at fits
    exact ⟨first, found, last, rfl, fits, by rwa [Nat.zero_add] at failed⟩
  · rintro ⟨before, item, after, rfl, fits, failed⟩
    refine ⟨before.zipIdx, (item, before.length), after.zipIdx (before.length + 1), ?_, ?_, failed⟩
    · rw [List.zipIdx_append, List.zipIdx_cons, Nat.zero_add]
    · rwa [← List.forall_mem_map, List.zipIdx_map_fst]

end Failing

theorem discard_node (path : Path) (entries : Entries) :
    discard (node path (.map entries)) = (do
      let kind ← kind path entries
      checkKeys path kind entries
      forM (forms kind) fun field => field.2.load path field.1 entries) := by
  rw [node, discard_bind]
  refine congrArg (_ >>= ·) (funext fun kind => ?_)
  rw [discard_bind]
  refine congrArg (_ >>= ·) (funext fun _ => ?_)
  cases kind <;>
    simp only [forms, List.forM_cons, List.forM_nil, Form.load, discard_seq, discard_bind] <;> rfl

def nodeAs (path : Path) (wanted : Option NodeKind) (value : Value) : Loaded Node :=
  node path value >>= expectKind path wanted

variable {path : Path} {slot : Field} {entries : Entries} {wanted : Option NodeKind}
  {value : Value} {items : List Value} {index : Nat} {e : DocumentFailure}

theorem nodeAs_ok_iff : (∃ n, nodeAs path wanted value = .ok n) ↔ Fits wanted value := by
  constructor
  · rintro ⟨n', h⟩
    obtain ⟨n, loaded, expected⟩ := bind_eq_ok_iff.mp h
    have described := node_sound value path n loaded
    exact ⟨n, described, (of_expectKind_eq_ok expected described.kind?_ne_none).2⟩
  · rintro ⟨n, described, kinds⟩
    refine ⟨_, (ok_bind (node_complete described path)).trans (expectKind_eq_ok ?_)⟩
    rwa [Node.kind?_unnumbered]

def valueNode (path : Path) (value : Value) : Loaded Node :=
  node path value >>= expectAttributeValue path

theorem valueNode_ok_iff :
    (∃ n, valueNode path value = .ok n) ↔ Fits (some .text) value ∨
      Fits (some .mustache) value := by
  constructor
  · rintro ⟨n', h⟩
    obtain ⟨n, loaded, expected⟩ := bind_eq_ok_iff.mp h
    have described := node_sound value path n loaded
    rcases (of_expectAttributeValue_eq_ok expected described.kind?_ne_none).2 with kind | kind
    · exact .inl ⟨n, described, by simpa using kind⟩
    · exact .inr ⟨n, described, by simpa using kind⟩
  · rintro (⟨n, described, kinds⟩ | ⟨n, described, kinds⟩) <;>
      refine ⟨n.unnumbered, (ok_bind (node_complete described path)).trans ?_⟩ <;>
      rw [expectAttributeValue, Node.kind?_unnumbered, kinds _ rfl]

theorem discard_nodeItems (path : Path) (slot : Field) (wanted : Option NodeKind) (index : Nat)
    (items : List Value) :
    discard (nodeItems path slot wanted index items) =
      forM (items.zipIdx index) fun item =>
        discard (nodeAs (path.item slot item.2) wanted item.1) := by
  induction items generalizing index with
  | nil =>
    rw [nodeItems]
    rfl
  | cons item rest ih =>
    rw [List.zipIdx_cons, List.forM_cons, ← ih, nodeItems, nodeAs]
    simp only [discard_bind, discard_seq, bind_assoc, discard_eq_bind (nodeItems ..)]
    rfl

theorem nodeItems_ok_iff :
    (∃ nodes, nodeItems path slot wanted index items = .ok nodes) ↔
      ∀ item ∈ items, Fits wanted item := by
  rw [← discard_eq_ok_iff, discard_nodeItems, forM_eq_ok_iff]
  simp only [discard_eq_ok_iff, nodeAs_ok_iff]
  rw [← List.forall_mem_map, List.zipIdx_map_fst]

theorem nodeItems_eq_error_iff :
    nodeItems path slot wanted 0 items = .error e ↔
      ∃ before item after, items = before ++ item :: after ∧ (∀ b ∈ before, Fits wanted b) ∧
        nodeAs (path.item slot before.length) wanted item = .error e := by
  rw [← discard_eq_error_iff, discard_nodeItems, forM_zipIdx_eq_error_iff
    (f := fun item index => discard (nodeAs (path.item slot index) wanted item))
    (fun _ _ => discard_eq_ok_iff.trans nodeAs_ok_iff)]
  simp only [discard_eq_error_iff]

namespace Form

theorem load_program (path : Path) (slot : Field) (entries : Entries) :
    Form.program.load path slot entries =
      match present? slot entries with
      | none => .ok ()
      | some value => discard (nodeAs (path.field slot) (some .program) value) := by
  rw [load, programField_eq]
  cases present? slot entries with
  | none => rfl
  | some value =>
    simp only [nodeAs, discard_bind, discard_eq_bind (expectKind ..)]
    rfl

theorem load_value (path : Path) (slot : Field) (entries : Entries) :
    Form.value.load path slot entries =
      match get? .value entries with
      | none | some (.text _) => .ok ()
      | some value => discard (valueNode (path.field .value) value) := by
  rw [load, valueField_eq]
  cases get? .value entries with
  | none => rfl
  | some value => cases value <;> rfl

theorem load_eq_ok_iff {form : Form} : form.load path slot entries = .ok () ↔
    form.Admits slot entries := by
  cases form with
  | text default =>
    rw [load, discard_eq_ok_iff, Admits]
    refine exists_congr fun s => ?_
    cases default with
    | none => rw [textField_eq_ok_iff, Option.map_none, Option.or_none]
    | some default =>
      rw [textField_default_eq_ok_iff, Option.map_some]
      cases get? slot entries <;> simp
  | texts =>
    rw [load, discard_eq_ok_iff, Admits]
    exact exists_congr fun _ => textsField_eq_ok_iff
  | flag =>
    rw [load, discard_eq_ok_iff, Admits]
    exact exists_congr fun _ => escapedField_eq_ok_iff
  | nodes wanted =>
    rw [load, discard_eq_ok_iff, Admits]
    simp only [nodesField_eq_ok_iff]
    rw [exists_comm]
    refine exists_congr fun items => ?_
    rw [exists_and_left, nodeItems_ok_iff]
  | program =>
    rw [load_program, Admits]
    cases present? slot entries with
    | none => exact iff_of_true rfl nofun
    | some value =>
      dsimp only
      rw [discard_eq_ok_iff, nodeAs_ok_iff]
      simp
  | value =>
    rw [load_value, Admits]
    split
    case h_1 absent => exact iff_of_true rfl (by simp [absent])
    case h_2 s isText => exact iff_of_true rfl (by simp [isText])
    case h_3 value other isValue =>
      rw [discard_eq_ok_iff, valueNode_ok_iff, isValue]
      have notText : ¬ ∃ s, value = .text s := by
        rintro ⟨s, rfl⟩
        exact other s rfl
      simp [notText]

end Form

theorem node_map_eq_error_iff :
    node path (.map entries) = .error e ↔
      kind path entries = .error e ∨
        ∃ kind, named? entries = some kind ∧
          (checkKeys path kind entries = .error e ∨
            OfKind kind entries ∧ ∃ before slot form after,
              forms kind = before ++ (slot, form) :: after ∧
                (∀ field ∈ before, field.2.Admits field.1 entries) ∧
                form.load path slot entries = .error e) := by
  rw [← discard_eq_error_iff, discard_node, bind_eq_error_iff]
  refine or_congr_right (exists_congr fun kind => ?_)
  rw [kind_eq_ok_iff, ← named?_eq_some_iff, bind_eq_error_iff, forM_eq_error_iff]
  refine and_congr_right fun isKind => or_congr_right ?_
  simp only [Form.load_eq_ok_iff]
  constructor
  · rintro ⟨⟨⟩, passed, before, ⟨slot, form⟩, after, split, admits, failed⟩
    have keys := extraKeys_eq_nil_iff.mp (checkKeys_eq_ok_iff.mp passed)
    exact ⟨⟨named?_eq_some_iff.mp isKind, keys⟩, before, slot, form, after, split, admits, failed⟩
  · rintro ⟨ofKind, before, slot, form, after, split, admits, failed⟩
    exact ⟨(), ofKind.checkKeys_eq_ok, before, (slot, form), after, split, admits, failed⟩

end TemplateActions.Document
