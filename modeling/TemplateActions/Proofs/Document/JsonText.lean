import TemplateActions.Proofs.Document.Within
import TemplateActions.Proofs.Json.Reading
import TemplateActions.Proofs.Yaml.Folding

/-!
Documents as JSON text. A document is loaded from its JSON text, with any indent, as it is loaded
from the data itself, provided that its texts survive: characters that cannot be printed make the
text malformed, and line ends other than the line feed are folded. A document that is refused is
refused as text, too.
-/
namespace TemplateActions

namespace Json

/-- Holds for texts that are read back as they are: they can be printed, and their lines are not
folded. -/
structure Survives (s : String) : Prop where
  printable : IsPrintable s
  kept : Yaml.Quoted.IsKept s.toList

theorem reread_eq_self_iff {s : String} (readable : IsReadable s) :
    reread s = s ↔ Yaml.Quoted.IsKept s.toList := by
  rw [← Yaml.Quoted.reread?_eq_self_iff, reread?_eq_some readable, Option.some_inj,
    String.toList_inj]

theorem survives_iff {s : String} : Survives s ↔ IsPrintable s ∧ IsReadable s ∧ reread s = s := by
  constructor
  · intro h
    have readable : IsReadable s := by
      rw [IsReadable, Yaml.Quoted.reread?_eq_self_iff.mpr h.kept]
      rfl
    exact ⟨h.printable, readable, (reread_eq_self_iff readable).mpr h.kept⟩
  · rintro ⟨printable, readable, same⟩
    exact ⟨printable, (reread_eq_self_iff readable).mp same⟩

theorem keepsWords (number : Binary64 → Binary64) : (⟨reread, number⟩ : Spelling).KeepsWords := by
  intro word letters s
  change reread s = word ↔ s = word
  constructor
  · rintro rfl
    by_cases readable : IsReadable s
    · exact String.toList_inj.mp (Yaml.Quoted.eq_of_reread? (reread?_eq_some readable) letters)
    · rw [IsReadable, Option.not_isSome_iff_eq_none] at readable
      rw [reread, readable, Option.getD_none, String.ofList_toList]
  · rintro rfl
    have kept := Yaml.Quoted.reread?_eq_self_iff.mpr (Yaml.Quoted.isKept_word letters)
    rw [reread, kept, Option.getD_some, String.ofList_toList]

mutual

theorem respell_eq_iff (f : String → String) : ∀ value : Json,
    value.toValue.respell ⟨f, fun x => x⟩ = value.toValue ↔ ∀ s ∈ value.texts, f s = s
  | .null | .bool _ | .int _ | .float _ => iff_of_true rfl nofun
  | .text s => by simp [toValue, Value.respell, texts]
  | .array items => by
    rw [toValue, Value.respell, Value.list.injEq, texts, respellAll_eq_iff f items]
  | .object members => by
    rw [toValue, Value.respell, Value.map.injEq, texts, respellEntries_eq_iff f members]

theorem respellAll_eq_iff (f : String → String) : ∀ items : List Json,
    Value.respellAll ⟨f, fun x => x⟩ (toValues items) = toValues items ↔
    ∀ s ∈ itemsTexts items, f s = s
  | [] => iff_of_true rfl nofun
  | item :: rest => by
    rw [toValues, Value.respellAll, List.cons.injEq, itemsTexts, List.forall_mem_append,
      respell_eq_iff f item, respellAll_eq_iff f rest]

theorem respellEntries_eq_iff (f : String → String) : ∀ members : List (String × Json),
    Value.respellEntries ⟨f, fun x => x⟩ (toEntries members) = toEntries members ↔
      ∀ s ∈ membersTexts members, f s = s
  | [] => iff_of_true rfl nofun
  | (name, value) :: rest => by
    rw [toEntries, Value.respellEntries, List.cons.injEq, Prod.mk.injEq, membersTexts,
      List.cons_append,
      List.forall_mem_cons, List.forall_mem_append, respell_eq_iff f value,
        respellEntries_eq_iff f rest,
      and_assoc]
    simp [Value.respell]

end

theorem toEntries_eq_map (members : List (String × Json)) :
    toEntries members = members.map fun m => (.text m.1, m.2.toValue) := by
  induction members with
  | nil => rfl
  | cons member rest ih => rw [toEntries, ih, List.map_cons]

theorem nodup_toEntries {members : List (String × Json)} (distinct : (members.map (·.1)).Nodup) :
    Document.HasDistinctKeys (toEntries members) := by
  have keys : (toEntries members).map (·.1) = (members.map (·.1)).map Value.text := by
    rw [toEntries_eq_map, List.map_map, List.map_map]
    rfl
  rw [Document.HasDistinctKeys, keys]
  exact distinct.map fun _ _ => Value.text.inj

mutual

theorem eachMap_hasDistinctKeys : ∀ value : Json, value.HasDistinctNames (fun s => s) →
    value.toValue.EachMap Document.HasDistinctKeys
  | .null, _ | .bool _, _ | .int _, _ | .float _, _ | .text _, _ => trivial
  | .array items, distinct => eachMapIn_hasDistinctKeys items distinct
  | .object members, distinct =>
    ⟨nodup_toEntries distinct.1, eachMapUnder_hasDistinctKeys members distinct.2⟩

theorem eachMapIn_hasDistinctKeys : ∀ items : List Json, ItemsHaveDistinctNames (fun s => s) items →
    Value.EachMapIn Document.HasDistinctKeys (toValues items)
  | [], _ => trivial
  | item :: rest, distinct =>
    ⟨eachMap_hasDistinctKeys item distinct.1, eachMapIn_hasDistinctKeys rest distinct.2⟩

theorem eachMapUnder_hasDistinctKeys : ∀ members : List (String × Json),
    MembersHaveDistinctNames (fun s => s) members →
      Value.EachMapUnder Document.HasDistinctKeys (toEntries members)
  | [], _ => trivial
  | (_, value) :: rest, distinct =>
    ⟨eachMap_hasDistinctKeys value distinct.1, eachMapUnder_hasDistinctKeys rest distinct.2⟩

end

theorem mem_membersTexts {members : List (String × Json)} {m : String × Json}
    (member : m ∈ members) : m.1 ∈ membersTexts members := by
  induction members with
  | nil => nomatch member
  | cons first rest ih =>
    rw [membersTexts, List.cons_append]
    rcases List.mem_cons.mp member with rfl | member
    · exact List.mem_cons_self
    · exact List.mem_cons_of_mem _ (List.mem_append_right _ (ih member))

mutual

theorem hasDistinctNames_of_same {f : String → String} : ∀ value :
    Json, (∀ s ∈ value.texts, f s = s) →
    value.HasDistinctNames (fun s => s) → value.HasDistinctNames f
  | .null, _, _ | .bool _, _, _ | .int _, _, _ | .float _, _, _ | .text _, _, _ => trivial
  | .array items, same, distinct => itemsHaveDistinctNames_of_same items same distinct
  | .object members, same, distinct => by
    refine ⟨?_, membersHaveDistinctNames_of_same members same distinct.2⟩
    rw [List.map_congr_left fun m member => same m.1 (mem_membersTexts member)]
    exact distinct.1

theorem itemsHaveDistinctNames_of_same {f : String → String} : ∀ items : List Json,
    (∀ s ∈ itemsTexts items, f s = s) → ItemsHaveDistinctNames (fun s => s) items →
      ItemsHaveDistinctNames f items
  | [], _, _ => trivial
  | item :: rest, same, distinct => by
    rw [itemsTexts, List.forall_mem_append] at same
    exact ⟨hasDistinctNames_of_same item same.1 distinct.1,
      itemsHaveDistinctNames_of_same rest same.2 distinct.2⟩

theorem membersHaveDistinctNames_of_same {f : String → String} : ∀ members : List (String × Json),
    (∀ s ∈ membersTexts members, f s = s) → MembersHaveDistinctNames (fun s => s) members →
      MembersHaveDistinctNames f members
  | [], _, _ => trivial
  | (_, value) :: rest, same, distinct => by
    rw [membersTexts, List.cons_append, List.forall_mem_cons, List.forall_mem_append] at same
    exact ⟨hasDistinctNames_of_same value same.2.1 distinct.1,
      membersHaveDistinctNames_of_same rest same.2.2 distinct.2⟩

end

mutual

theorem names_of_ofKind : ∀ value : Json,
    value.toValue.EachMap (fun entries => ∃ kind, Document.OfKind kind entries) →
      ∀ name ∈ value.names, ∃ slot : Field, name = slot.text
  | .null, _ | .bool _, _ | .int _, _ | .float _, _ | .text _, _ => nofun
  | .array items, h => itemsNames_of_ofKind items h
  | .object members, ⟨⟨_, ofKind⟩, under⟩ => by
    refine membersNames_of_ofKind members under fun m member => ?_
    obtain ⟨slot, -, key⟩ := ofKind.keys (.text m.1, m.2.toValue)
      (by rw [toEntries_eq_map]; exact List.mem_map_of_mem member)
    exact ⟨slot, Value.text.inj key⟩

theorem itemsNames_of_ofKind : ∀ items : List Json,
    Value.EachMapIn (fun entries => ∃ kind, Document.OfKind kind entries) (toValues items) →
      ∀ name ∈ itemsNames items, ∃ slot : Field, name = slot.text
  | [], _ => nofun
  | item :: rest, h => by
    rw [itemsNames, List.forall_mem_append]
    exact ⟨names_of_ofKind item h.1, itemsNames_of_ofKind rest h.2⟩

theorem membersNames_of_ofKind : ∀ members : List (String × Json),
    Value.EachMapUnder (fun entries => ∃ kind, Document.OfKind kind entries) (toEntries members) →
    (∀ m ∈ members, ∃ slot : Field, m.1 = slot.text) →
      ∀ name ∈ membersNames members, ∃ slot : Field, name = slot.text
  | [], _, _ => nofun
  | (name, value) :: rest, h, own => by
    rw [membersNames, List.cons_append, List.forall_mem_cons, List.forall_mem_append]
    rw [List.forall_mem_cons] at own
    exact ⟨own.1, names_of_ofKind value h.1, membersNames_of_ofKind rest h.2 own.2⟩

end

theorem isWritable_of_mem {entries : List (Value × Value)}
    (writable : Value.entriesAreWritable entries) : ∀ entry ∈ entries, entry.2.isWritable := by
  induction entries with
  | nil => nofun
  | cons entry rest ih =>
    rw [Value.entriesAreWritable, Bool.and_eq_true, Bool.and_eq_true] at writable
    exact List.forall_mem_cons.mpr ⟨writable.1.2, ih writable.2⟩

theorem isPresentable_toEntries {members : List (String × Json)}
    (writable : Value.entriesAreWritable (toEntries members)) :
    Document.IsPresentable (toEntries members) where
  texts := by
    rw [toEntries_eq_map]
    intro entry member
    obtain ⟨m, -, rfl⟩ := List.mem_map.mp member
    exact ⟨m.1, rfl⟩
  writable := by
    cases found : Document.get? .type (toEntries members) with
    | none => rfl
    | some value =>
      obtain ⟨entry, isEntry, rfl⟩ := Option.map_eq_some_iff.mp found
      exact isWritable_of_mem writable entry (List.mem_of_find?_eq_some isEntry)

mutual

theorem eachMap_isPresentable : ∀ value : Json, value.toValue.isWritable →
    value.toValue.EachMap Document.IsPresentable
  | .null, _ | .bool _, _ | .int _, _ | .float _, _ | .text _, _ => trivial
  | .array items, writable => eachMapIn_isPresentable items writable
  | .object members, writable =>
    ⟨isPresentable_toEntries writable, eachMapUnder_isPresentable members writable⟩

theorem eachMapIn_isPresentable : ∀ items : List Json, Value.areWritable (toValues items) →
    Value.EachMapIn Document.IsPresentable (toValues items)
  | [], _ => trivial
  | item :: rest, writable => by
    rw [toValues, Value.areWritable, Bool.and_eq_true] at writable
    exact ⟨eachMap_isPresentable item writable.1, eachMapIn_isPresentable rest writable.2⟩

theorem eachMapUnder_isPresentable : ∀ members : List (String × Json),
    Value.entriesAreWritable (toEntries members) →
      Value.EachMapUnder Document.IsPresentable (toEntries members)
  | [], _ => trivial
  | (_, value) :: rest, writable => by
    rw [toEntries, Value.entriesAreWritable, Bool.and_eq_true, Bool.and_eq_true] at writable
    exact ⟨eachMap_isPresentable value writable.1.2, eachMapUnder_isPresentable rest writable.2⟩

end

theorem isSimpleName_field (slot : Field) : isSimpleName slot.text := by
  cases slot <;> decide

end Json

namespace Document

open Json (Survives)

section

variable {d : Json} {root : Node}

/-- A document that is loaded can be read from its text if its texts survive. -/
theorem canBeRead_of_tree (loaded : tree d.toValue = .ok root)
    (distinct : d.HasDistinctNames fun s => s)
    (survive : ∀ s ∈ d.texts, Survives s) : d.CanBeRead where
  printable s member := (survive s member).printable
  readable s member := (Json.survives_iff.mp (survive s member)).2.1
  simple name member := by
    have kinds := (describes_of_tree loaded).eachMap_ofKind (d.eachMap_hasDistinctKeys distinct)
    obtain ⟨slot, rfl⟩ := d.names_of_ofKind kinds name member
    exact Json.isSimpleName_field slot
  distinct := d.hasDistinctNames_of_same
    (fun s member => (Json.survives_iff.mp (survive s member)).2.2) distinct

/-- The tree of a document is that of its rereading, in the rereading of its texts. -/
theorem tree_rereading (loaded : tree d.toValue = .ok root) :
    tree (d.toValue.respell Json.rereading) = .ok (root.respell Json.reread) :=
  (follows_tree (Json.keepsWords Yaml.refloat) d.toValue).eq_ok loaded

theorem same_of_respell (loaded : tree d.toValue = .ok root)
    (distinct : d.HasDistinctNames fun s => s)
    (same : root.respell Json.reread = root) : ∀ s ∈ d.texts, Json.reread s = s :=
  (d.respell_eq_iff Json.reread).mp <|
    (describes_of_tree loaded).respell_eq (Json.keepsWords _)
      (d.eachMap_hasDistinctKeys distinct) same

theorem respell_of_same (loaded : tree d.toValue = .ok root)
    (same : ∀ s ∈ d.texts, Json.reread s = s) : root.respell Json.reread = root := by
  have again := (follows_tree (Json.keepsWords fun x => x) d.toValue).eq_ok loaded
  rw [(d.respell_eq_iff Json.reread).mpr same, loaded] at again
  exact (Except.ok.inj again).symm

theorem ofText_of_read {source : String} {text : List Char} {value : Value}
    (isRead : Yaml.read text = .ok value) :
    (ofText source text).1 = (tree value).mapError .document := by
  rw [ofText, isRead]
  dsimp only
  cases tree value <;> rfl

theorem ofText_of_malformed {source : String} {text : List Char}
    (malformed : Yaml.read text = .error .malformed) :
    (ofText source text).1 = .error (.source source .malformed) := by
  rw [ofText, malformed]

theorem toList_of_write {indent : Option Int} {text : String}
    (written : d.write indent = .ok text) : text.toList = Json.chars indent 0 d := by
  rw [(Json.write_eq_ok_iff.mp written).2, Json.render, String.toList_ofList]

theorem ofText_of_tree {indent : Option Int} (source : String) (finite : d.IsFinite)
    (writable : d.toValue.isWritable) (distinct : d.HasDistinctNames fun s => s)
    (loaded : tree d.toValue = .ok root) :
    (ofText source (Json.chars indent 0 d)).1 = .ok root ↔ ∀ s ∈ d.texts, Survives s := by
  have again := tree_rereading loaded
  constructor
  · intro same
    rcases d.read_chars_cases indent finite writable with malformed | ⟨isRead, each⟩
    · rw [ofText_of_malformed malformed] at same
      cases same
    · rw [ofText_of_read isRead, again] at same
      have kept := same_of_respell loaded distinct (Except.ok.inj same)
      exact fun s member => Json.survives_iff.mpr ⟨(each s member).1, (each s member).2,
        kept s member⟩
  · intro survive
    have isRead := d.read_chars_eq_ok indent finite writable
      (canBeRead_of_tree loaded distinct survive)
    have same := respell_of_same loaded fun s member =>
      (Json.survives_iff.mp (survive s member)).2.2
    rw [ofText_of_read isRead, again, same]
    rfl

theorem ofText_of_error {indent : Option Int} (source : String) (finite : d.IsFinite)
    (writable : d.toValue.isWritable) {e : DocumentFailure} (refused : tree d.toValue = .error e) :
    ∃ failure, (ofText source (Json.chars indent 0 d)).1 = .error failure ∧
      failure.report?.isSome := by
  rcases d.read_chars_cases indent finite writable with malformed | ⟨isRead, -⟩
  · exact ⟨_, ofText_of_malformed malformed, rfl⟩
  · have keeps := Json.keepsWords Yaml.refloat
    obtain ⟨e', refused'⟩ := (follows_tree keeps d.toValue).eq_error refused
    have reported := isReported_tree
      ((d.eachMap_isPresentable writable).respell (r := Json.rereading) fun _ => .respell keeps)
    rw [ofText_of_read isRead]
    change tree (d.toValue.respell Json.rereading) = _ at refused'
    rw [refused'] at reported ⊢
    exact ⟨_, rfl, reported⟩

/-- A document is loaded from its JSON text, with every indent, as it is from the data itself
exactly if its texts survive. A document that is refused is refused as text, and that is reported.
-/
theorem ofText_of_write {indent : Option Int} {text : String} (source : String)
    (finite : d.IsFinite)
    (distinct : d.HasDistinctNames fun s => s) (written : d.write indent = .ok text) :
    (∀ root, tree d.toValue = .ok root →
        ((ofText source text.toList).1 = .ok root ↔ ∀ s ∈ d.texts, Survives s)) ∧
      (∀ e, tree d.toValue = .error e →
        ∃ failure, (ofText source text.toList).1 = .error failure ∧ failure.report?.isSome) := by
  have writable : d.toValue.isWritable := (Json.write_eq_ok_iff.mp written).1.writable
  rw [toList_of_write written]
  exact ⟨fun root loaded => ofText_of_tree source finite writable distinct loaded,
    fun e refused => ofText_of_error source finite writable refused⟩

end

def sampleProgram (chars : String) : Json :=
  .object [("type", .text "program"),
    ("statements", .array [.object [("type", .text "text"), ("chars", .text chars)]])]

/-- A word survives. -/
theorem sampleProgram_loaded :
    (ofText "<string>" ((sampleProgram "word").render (some 2)).toList).1 =
      .ok (.program 0 [.text 1 "word"]) := by
  have finite : (sampleProgram "word").IsFinite :=
    ⟨trivial, ⟨⟨trivial, trivial, trivial⟩, trivial⟩, trivial⟩
  have distinct : (sampleProgram "word").HasDistinctNames fun s => s :=
    ⟨by decide, trivial, ⟨⟨by decide, trivial, trivial, trivial⟩, trivial⟩, trivial⟩
  have written : (sampleProgram "word").write (some 2) =
      .ok ((sampleProgram "word").render (some 2)) :=
    rfl
  refine ((ofText_of_write "<string>" finite distinct written).1 _ rfl).mpr fun s member => ?_
  have words : ∀ s ∈ (sampleProgram "word").texts, s.toList.all Char.isAlpha ∧
      s.toList.all fun c => Yaml.isPrintable c := by decide
  obtain ⟨letters, printable⟩ := words s member
  exact ⟨fun c inside _ => List.all_eq_true.mp printable c inside, Yaml.Quoted.isKept_word letters⟩

/-- The delete character is written plainly, but the text with it cannot be read. -/
theorem sampleProgram_delete_malformed :
    tree (sampleProgram "\x7f").toValue = .ok (.program 0 [.text 1 "\x7f"]) ∧
      (ofText "<string>" ((sampleProgram "\x7f").render none).toList).1 =
        .error (.source "<string>" .malformed) := by
  constructor <;> rfl

end Document
end TemplateActions
