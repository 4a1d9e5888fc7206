import TemplateActions.Proofs.Yaml.Documents
import TemplateActions.Proofs.Yaml.Failures

/-!
How well-formed nodes fail to have a value: by a scalar whose text does not fit its tag, or by a
key of a mapping that cannot be looked up or comes again where it must not.
-/
namespace TemplateActions.Yaml

namespace Outcome

def FailsBy {α : Type} (reasons : Failure → Prop) (x : Outcome α) : Prop :=
  ∀ fault, x = .error fault → reasons fault.failure

variable {α β γ : Type} {reasons : Failure → Prop}

theorem FailsBy.of_ok (a : α) : FailsBy reasons (.ok a : Outcome α) := nofun

theorem FailsBy.of_error {fault : Fault} (reason : reasons fault.failure) :
    FailsBy reasons (.error fault : Outcome α) := by
  rintro _ ⟨⟩
  exact reason

theorem FailsBy.both {f : α → β → γ} {x : Outcome α} {y : Outcome β} (first : FailsBy reasons x)
    (second : FailsBy reasons y) : FailsBy reasons (both f x y) := by
  cases x with
  | ok a =>
    cases y with
    | ok b => exact .of_ok _
    | error fault => exact .of_error (second fault rfl)
  | error fault =>
    cases y with
    | ok b => exact .of_error (first fault rfl)
    | error fault' =>
      refine .of_error ?_
      split
      · exact second fault' rfl
      · exact first fault rfl

theorem FailsBy.map {f : α → β} {x : Outcome α} (fails : FailsBy reasons x) :
    FailsBy reasons (x.map f) := by
  cases x with
  | ok a => exact .of_ok _
  | error fault => exact .of_error (fails fault rfl)

theorem FailsBy.deeper {x : Outcome α} (fails : FailsBy reasons x) :
    FailsBy reasons (deeper x) := by
  cases x with
  | ok a => exact .of_ok a
  | error fault => exact .of_error (fails fault rfl)

theorem FailsBy.all {results : List (Outcome Value)} (each : ∀ x ∈ results, FailsBy reasons x) :
    FailsBy reasons (all results) := by
  induction results with
  | nil => exact .of_ok []
  | cons x rest ih =>
    obtain ⟨first, others⟩ := List.forall_mem_cons.mp each
    exact first.both (ih others)

end Outcome

open Yaml.Outcome (FailsBy)

namespace Node

/-- Holds for a node and all that stands within it. -/
inductive Within (inner : Node) : Node → Prop
  | refl : Within inner inner
  | item {tag : Tag} {items : List Node} {item : Node} :
      item ∈ items → Within inner item → Within inner (.sequence tag items)
  | key {tag : Tag} {entries : List (Node × Node)} {key value : Node} :
      (key, value) ∈ entries → Within inner key → Within inner (.mapping tag entries)
  | value {tag : Tag} {entries : List (Node × Node)} {key value : Node} :
      (key, value) ∈ entries → Within inner value → Within inner (.mapping tag entries)

/-- What a node is read as where it is a key. -/
def reading (key : Node) : Outcome Value :=
  if key.tag = .value then Meaning.ofScalar .text (key.text?.getD []) else key.meaning.value

/-- Holds if a mapping within the node has a key that cannot be looked up as it stands. -/
def HasCollectionKey (node : Node) : Prop :=
  ∃ tag entries key value read, Within (.mapping tag entries) node ∧ (key, value) ∈ entries ∧
    key.reading = .ok read ∧ isHashable read = false

/-- Holds for a node that has no value of its own, and for the failure. -/
inductive Misfit : Node → Failure → Prop
  | scalar {tag : Tag} {text : List Char} {failure : Failure} :
      Scalar.value? tag text = some (.error failure) → Misfit (.scalar tag text) failure
  | standIn {tag : Tag} {entries : List (Node × Node)} {text : List Char} {failure : Failure} :
      entriesText? entries = some text → Scalar.value? tag text = some (.error failure) →
      Misfit (.mapping tag entries) failure
  | key {tag : Tag} {entries : List (Node × Node)} {key value : Node} {read : Value} :
      (key, value) ∈ entries → keyOf key.reading = .ok read → isHashable read = false →
      Misfit (.mapping tag entries) .unhashableKey
  | orderedKey {items : List Node} :
      HasCollectionKey (.sequence .orderedMapping items) →
      Misfit (.sequence .orderedMapping items) .unhashableKey
  | repeated {items : List Node} {rows : List (List Row)} {before later : List Row}
      {row earlier : Row}
      {key key' : Value} :
      Meaning.itemRows (meanings items) = some rows → rows.flatten = before ++ row :: later →
      earlier ∈ before → earlier.key = .ok key' → row.key = .ok key → key.same key' →
      Misfit (.sequence .orderedMapping items) .repeatedKey
  | unread {failure : Failure} : Misfit (.unread failure) failure

/-- Holds for the failures of a node: it is malformed, or a node within it has no value. -/
def FailsBy (node : Node) (failure : Failure) : Prop :=
  failure = .malformed ∨ ∃ inner, Within inner node ∧ Misfit inner failure

variable {node inner outer : Node} {failure : Failure}

theorem Within.trans (within : Within inner node) (within' : Within node outer) :
    Within inner outer := by
  induction within' with
  | refl => exact within
  | item member _ ih => exact .item member ih
  | key member _ ih => exact .key member ih
  | value member _ ih => exact .value member ih

theorem FailsBy.mono (fails : FailsBy node failure) (within : Within node outer) :
    FailsBy outer failure := by
  rcases fails with malformed | ⟨inner, within', misfit⟩
  · exact .inl malformed
  · exact .inr ⟨inner, within'.trans within, misfit⟩

theorem Misfit.failsBy (misfit : Misfit node failure) : FailsBy node failure :=
  .inr ⟨node, .refl, misfit⟩

theorem HasCollectionKey.mono (has : HasCollectionKey node) (within : Within node outer) :
    HasCollectionKey outer := by
  obtain ⟨tag, entries, key, value, read, within', rest⟩ := has
  exact ⟨tag, entries, key, value, read, within'.trans within, rest⟩

end Node

/-- Holds for an entry that the node accounts for. -/
structure Row.Stems (node : Node) (row : Row) : Prop where
  key : FailsBy node.FailsBy row.key
  value : FailsBy node.FailsBy row.value
  hashable : ∀ read, keyOf row.key = .ok read → isHashable read = false →
    node.FailsBy .unhashableKey
  collection : ∀ read, row.key = .ok read → isHashable read = false → node.HasCollectionKey

structure Meaning.Stems (node : Node) (meaning : Meaning) : Prop where
  value : FailsBy node.FailsBy meaning.value
  rows : ∀ rows, meaning.rows = some rows → ∀ row ∈ rows, row.Stems node
  merged : ∀ rows, meaning.merged = some rows → ∀ row ∈ rows, row.Stems node

variable {node outer : Node}

theorem Outcome.FailsBy.within {α : Type} {x : Outcome α} (fails : FailsBy node.FailsBy x)
    (within : Node.Within node outer) : FailsBy outer.FailsBy x :=
  fun fault failed => (fails fault failed).mono within

theorem Row.Stems.mono {row : Row} (stems : row.Stems node) (within : Node.Within node outer) :
    row.Stems outer :=
  ⟨stems.key.within within, stems.value.within within,
    fun read isKey unhashable => (stems.hashable read isKey unhashable).mono within,
    fun read isKey unhashable => (stems.collection read isKey unhashable).mono within⟩

theorem failsBy_keyOf {x : Outcome Value} (fails : FailsBy node.FailsBy x) :
    FailsBy node.FailsBy (keyOf x) := by
  rw [keyOf.eq_def]
  split
  · exact .of_ok _
  · exact .of_error (.inl rfl)
  · exact .of_error (.inl rfl)
  · exact .of_ok _
  · rename_i fault
    exact .of_error (fails fault rfl)

theorem failsBy_addRows {distinct : Bool} {before : Entries} {rows : List Row}
    (each : ∀ row ∈ rows, row.Stems node) :
    FailsBy node.FailsBy (addRows distinct before rows) := by
  induction rows generalizing before with
  | nil => exact .of_ok before
  | cons row rest ih =>
    obtain ⟨first, others⟩ := List.forall_mem_cons.mp each
    have isKey := failsBy_keyOf first.key
    rw [addRows]
    split
    · rename_i failed
      exact .of_error (isKey _ failed)
    · rename_i failed
      exact .of_error (first.value _ failed)
    · rename_i key value read given
      split
      · rename_i unhashable
        rw [Bool.not_eq_true'] at unhashable
        exact .of_error (first.hashable _ read unhashable)
      · split
        · exact .of_error (.inl rfl)
        · split
          · exact ih others
          · rename_i fault _
            exact .both (.of_error (first.value _ ‹_›)) (ih others)

namespace Meaning

theorem failsBy_ofScalar {tag : Tag} {text : List Char}
    (misfit : ∀ failure, Scalar.value? tag text = some (.error failure) → node.Misfit failure) :
    FailsBy node.FailsBy (ofScalar tag text) := by
  unfold ofScalar
  split
  · exact .of_ok _
  · rename_i failure failed
    exact .of_error (misfit failure failed).failsBy
  · split <;> exact .of_error (.inl rfl)

theorem exists_item_of_mem_itemRows {items : List Meaning} {rows : List (List Row)}
    (isRows : itemRows items = some rows) {part : List Row} (member : part ∈ rows) :
    ∃ item ∈ items, item.rows = some part := by
  induction items generalizing rows with
  | nil =>
    cases isRows
    nomatch member
  | cons item rest ih =>
    rw [itemRows] at isRows
    split at isRows <;> cases isRows
    rename_i own more _
    rcases List.mem_cons.mp member with rfl | member
    · exact ⟨item, List.mem_cons_self, ‹_›⟩
    · obtain ⟨item', inside, same⟩ := ih ‹_› member
      exact ⟨item', List.mem_cons_of_mem _ inside, same⟩

theorem stems_itemRows {items : List Meaning} (each : ∀ item ∈ items, item.Stems node)
    {rows : List (List Row)}
    (isRows : itemRows items = some rows) : ∀ row ∈ rows.flatten, row.Stems node := by
  intro row member
  obtain ⟨part, isPart, inside⟩ := List.mem_flatten.mp member
  obtain ⟨item, isItem, same⟩ := exists_item_of_mem_itemRows isRows isPart
  exact (each item isItem).rows part same row inside

theorem failsBy_pairs {items : List Meaning} (each : ∀ item ∈ items, item.Stems node) :
    FailsBy node.FailsBy (pairs items) := by
  rw [pairs]
  split
  · rename_i rows isRows
    split
    · refine .map (.all fun x member => ?_)
      obtain ⟨row, inside, rfl⟩ := List.mem_map.mp member
      have stems := stems_itemRows each isRows row inside
      exact .both stems.key stems.value
    · exact .of_error (.inl rfl)
  · exact .of_error (.inl rfl)

/-- The keys before those that are added come from rows before theirs. -/
theorem failsBy_addPairs {items : List Node} {rows : List (List Row)} {done rest : List Row}
    {before : Entries}
    (isRows : itemRows (Node.meanings items) = some rows) (split : rows.flatten = done ++ rest)
    (each : ∀ row ∈ rest, row.Stems (.sequence .orderedMapping items))
    (known : ∀ entry ∈ before, ∃ row ∈ done, row.key = .ok entry.1) :
    FailsBy (Node.sequence .orderedMapping items).FailsBy (addPairs before rest) := by
  induction rest generalizing done before with
  | nil => exact .of_ok before
  | cons row rest ih =>
    obtain ⟨first, others⟩ := List.forall_mem_cons.mp each
    rw [addPairs]
    split
    · exact .of_error (first.key _ ‹_›)
    · exact .of_error (first.value _ ‹_›)
    · rename_i key value isKey isValue
      split
      · rename_i unhashable
        rw [Bool.not_eq_true'] at unhashable
        exact .of_error (Node.Misfit.orderedKey (first.collection key isKey unhashable)).failsBy
      · split
        · rename_i seen
          obtain ⟨entry, member, same⟩ := List.any_eq_true.mp seen
          obtain ⟨earlier, inside, isEarlier⟩ := known entry member
          exact .of_error (Node.Misfit.repeated isRows split inside isEarlier isKey same).failsBy
        · refine ih (split.trans (List.append_cons ..)) others fun entry member => ?_
          rcases List.mem_append.mp member with member | member
          · obtain ⟨row', inside, same⟩ := known entry member
            exact ⟨row', List.mem_append_left _ inside, same⟩
          · cases List.mem_singleton.mp member
            exact ⟨row, List.mem_append_right _ List.mem_cons_self, isKey⟩

theorem stems_ofSequence {tag : Tag} {items : List Node}
    (each : ∀ item ∈ Node.meanings items, item.Stems (.sequence tag items)) :
    (ofSequence tag (Node.meanings items)).Stems (.sequence tag items) := by
  refine ⟨?_, nofun, ?_⟩
  · unfold ofSequence
    dsimp only
    split
    · refine .deeper (.map (.all fun x member => ?_))
      obtain ⟨item, inside, rfl⟩ := List.mem_map.mp member
      exact (each item inside).value
    · exact .deeper (failsBy_pairs each)
    · refine .deeper ?_
      rw [orderedMapping]
      split
      · rename_i rows isRows
        split
        · exact .map (failsBy_addPairs isRows (List.nil_append _).symm
            (stems_itemRows each isRows) nofun)
        · exact .of_error (.inl rfl)
      · exact .of_error (.inl rfl)
    all_goals exact .of_error (.inl rfl)
  · intro merged isMerged row member
    obtain ⟨rows, isRows, same⟩ := Option.map_eq_some_iff.mp isMerged
    subst same
    obtain ⟨part, isPart, inside⟩ := List.mem_flatten.mp member
    exact stems_itemRows each isRows row
      (List.mem_flatten.mpr ⟨part, List.mem_reverse.mp isPart, inside⟩)

theorem stems_separate {entries : List (Tag × Row × Meaning)}
    (each : ∀ entry ∈ entries, entry.2.1.Stems node ∧ entry.2.2.Stems node)
    {merged own merged' own' : List Row}
    (before : ∀ row ∈ merged ++ own, row.Stems node)
    (parts : separate merged own entries = some (merged', own')) :
    ∀ row ∈ merged' ++ own', row.Stems node := by
  induction entries generalizing merged own with
  | nil =>
    cases parts
    exact before
  | cons entry rest ih =>
    obtain ⟨first, others⟩ := List.forall_mem_cons.mp each
    obtain ⟨tag, row, value⟩ := entry
    obtain ⟨own, merged⟩ := List.forall_mem_append.mp before
    rw [separate] at parts
    split at parts
    · split at parts
      · nomatch parts
      · split at parts
        · rename_i rows isMerged
          exact ih others (List.forall_mem_append.mpr ⟨first.2.merged rows isMerged, ‹_›⟩) parts
        · nomatch parts
    · refine ih others ?_ parts
      rw [← List.append_assoc]
      exact List.forall_mem_append.mpr ⟨before, List.forall_mem_singleton.mpr first.1⟩

theorem failsBy_separated {parts : Option (List Row × List Row)}
    (each : ∀ merged own, parts = some (merged, own) → ∀ row ∈ merged ++ own, row.Stems node) :
    FailsBy node.FailsBy
      (match parts with
      | some (merged, own) => addRows merged.isEmpty [] (merged ++ own)
      | none => .fail .malformed) := by
  split
  · exact failsBy_addRows (each _ _ rfl)
  · exact .of_error (.inl rfl)

theorem stems_ofMapping {tag : Tag} {entries : List (Node × Node)}
    (each : ∀ entry ∈ Node.entryMeanings entries,
      entry.2.1.Stems (.mapping tag entries) ∧ entry.2.2.Stems (.mapping tag entries)) :
    (ofMapping tag (Node.entriesText? entries) (Node.entryMeanings entries)).Stems
      (.mapping tag entries) := by
  have parts (merged own : List Row)
      (isParts : separate [] [] (Node.entryMeanings entries) = some (merged, own)) :
      ∀ row ∈ merged ++ own, row.Stems (.mapping tag entries) :=
    stems_separate each (fun _ member => absurd member List.not_mem_nil) isParts
  have rows : ∀ rows, (separate [] [] (Node.entryMeanings entries)).map
      (fun parts => parts.1 ++ parts.2) =
      some rows → ∀ row ∈ rows, row.Stems (.mapping tag entries) := by
    intro rows isRows
    obtain ⟨⟨merged, own⟩, isParts, rfl⟩ := Option.map_eq_some_iff.mp isRows
    exact parts merged own isParts
  refine ⟨?_, rows, rows⟩
  unfold ofMapping
  extract_lets parts' read value rows'
  have fails : FailsBy (Node.mapping tag entries).FailsBy read := failsBy_separated parts
  change FailsBy _ value
  unfold value
  split
  · exact .deeper (.map fails)
  · exact .deeper (.map fails)
  · exact .of_error (.inl rfl)
  · exact .of_error (.inl rfl)
  · exact .of_error (.inl rfl)
  · split
    · rename_i isText
      exact failsBy_ofScalar fun failure failed => .standIn isText failed
    · exact .of_error (.inl rfl)

theorem stems_ofUnread (failure : Failure) : (ofUnread failure).Stems (.unread failure) := by
  have fails : FailsBy (Node.unread failure).FailsBy (.fail failure : Outcome Value) :=
    .of_error Node.Misfit.unread.failsBy
  have row : Row.Stems (.unread failure) ⟨.fail failure, .fail failure⟩ :=
    ⟨fails, fails, nofun, nofun⟩
  refine ⟨fails, ?_, ?_⟩
  all_goals
    rintro _ ⟨⟩
    exact List.forall_mem_singleton.mpr row

end Meaning

namespace Node

theorem failsBy_reading {key : Node} (stems : key.meaning.Stems key) :
    Outcome.FailsBy key.FailsBy key.reading := by
  rw [reading]
  split
  · exact Meaning.failsBy_ofScalar nofun
  · exact stems.value

theorem stems_row {tag : Tag} {entries : List (Node × Node)}
    {key value : Node} (member : (key, value) ∈ entries)
    (isKey : key.meaning.Stems key) (isValue : value.meaning.Stems value) :
    Row.Stems (.mapping tag entries) ⟨key.reading, value.meaning.value⟩ :=
  ⟨(failsBy_reading isKey).within (.key member .refl), isValue.value.within (.value member .refl),
    fun _ read unhashable => (Misfit.key member read unhashable).failsBy,
    fun _ read unhashable => ⟨tag, entries, key, value, _, .refl, member, read, unhashable⟩⟩

end Node

theorem Meaning.Stems.mono {meaning : Meaning} (stems : meaning.Stems node)
    (within : Node.Within node outer) : meaning.Stems outer :=
  ⟨stems.value.within within, fun rows isRows row member =>
    (stems.rows rows isRows row member).mono within,
    fun rows isRows row member => (stems.merged rows isRows row member).mono within⟩

mutual

theorem Node.stems_meaning : ∀ node : Node, node.meaning.Stems node
  | .scalar _ _ => ⟨Meaning.failsBy_ofScalar fun _ failed => .scalar failed, nofun, nofun⟩
  | .sequence _ items =>
    Meaning.stems_ofSequence fun meaning member =>
      have ⟨_, inside, stems⟩ := stems_meanings items meaning member
      stems.mono (.item inside .refl)
  | .mapping _ entries =>
    Meaning.stems_ofMapping fun entry member =>
      have ⟨_, _, inside, isRow, isValue, stems, stems'⟩ := stems_entryMeanings entries entry member
      ⟨isRow ▸ stems_row inside stems stems', isValue ▸ stems'.mono (.value inside .refl)⟩
  | .unread failure => Meaning.stems_ofUnread failure

theorem Node.stems_meanings : ∀ items : List Node, ∀ meaning ∈ meanings items,
    ∃ item ∈ items, meaning.Stems item
  | [], _, member => nomatch member
  | item :: rest, meaning, member => by
    rcases List.mem_cons.mp member with rfl | member
    · exact ⟨item, List.mem_cons_self, stems_meaning item⟩
    · obtain ⟨item', inside, stems⟩ := stems_meanings rest meaning member
      exact ⟨item', List.mem_cons_of_mem _ inside, stems⟩

theorem Node.stems_entryMeanings : ∀ entries : List (Node × Node), ∀ entry ∈ entryMeanings entries,
    ∃ key value, (key, value) ∈ entries ∧ entry.2.1 = ⟨key.reading, value.meaning.value⟩ ∧
      entry.2.2 = value.meaning ∧ key.meaning.Stems key ∧ value.meaning.Stems value
  | [], _, member => nomatch member
  | (key, value) :: rest, entry, member => by
    rcases List.mem_cons.mp member with rfl | member
    · exact ⟨key, value, List.mem_cons_self, rfl, rfl, stems_meaning key, stems_meaning value⟩
    · obtain ⟨key', value', inside, others⟩ := stems_entryMeanings rest entry member
      exact ⟨key', value', List.mem_cons_of_mem _ inside, others⟩

end

/-- Holds for the failures other than that the text is malformed: an escape for a number beyond
the last code point, and nodes that have no value. -/
def StopsAt (text : List Char) (failure : Failure) : Prop :=
  (∃ number, failure = .codePoint number ∧ EscapesTo (normalizeBreaks text) number) ∨
    ∃ node inner, Denotes text node ∧ Node.Within inner node ∧ inner.Misfit failure

variable {text : List Char} {failure : Failure}

theorem read_failure (failed : read text = .error failure) :
    failure = .malformed ∨ StopsAt text failure := by
  rcases read_cases text with malformed | ⟨failure', stopped, same⟩ | isNull | ⟨node, denotes⟩
  · exact .inl (Except.error.inj (failed.symm.trans malformed))
  · cases failed.symm.trans same
    exact (tokens_failure stopped).imp_right .inl
  · nomatch failed.symm.trans isNull
  · rw [denotes.read_eq] at failed
    split at failed
    · nomatch failed
    · rename_i fault stopped
      cases failed
      rcases node.stems_meaning.value fault stopped with malformed | ⟨inner, within, misfit⟩
      · exact .inl malformed
      · exact .inr (.inr ⟨node, inner, denotes, within, misfit⟩)

/-- A scalar that does not fit its tag is enough to stop the reading of a mapping that holds it. -/
theorem read_misfit {name word : List Char} {tag : Tag}
    (denotes : Denotes text (.mapping .mapping [(.scalar .text name, .scalar tag word)]))
    (misfit : Scalar.value? tag word = some (.error failure)) : read text = .error failure := by
  have stopped : (Node.mapping .mapping [(.scalar .text name, .scalar tag word)]).meaning.value =
      .error ⟨1, failure⟩ := by
    have isValue : Meaning.ofScalar tag word = .fail failure := by
      unfold Meaning.ofScalar
      rw [misfit]
    simp only [Node.meaning, Node.entryMeanings, isValue]
    rfl
  rw [denotes.read_eq, stopped]

end TemplateActions.Yaml
