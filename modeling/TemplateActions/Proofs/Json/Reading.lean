import TemplateActions.Proofs.Document.Respelling
import TemplateActions.Proofs.Json.Characters
import TemplateActions.Proofs.Json.Nodes
import TemplateActions.Proofs.Yaml.Keys
import TemplateActions.Proofs.Yaml.Numbers

/-!
What is read for JSON text: the value itself, with its texts and floating-point numbers as they
are read back. The text is malformed if a character of it cannot be printed, a text in it cannot
be read, a name is no simple key, or two names of one object are read alike.
-/
namespace TemplateActions.Json

open Yaml (Meaning Row Entries addRows put put_eq_append keyOf isHashable)

def rereading : Spelling := ⟨reread, Yaml.refloat⟩

mutual

/-- Holds if no two members of one object have names that a function makes the same. -/
def HasDistinctNames (f : String → String) : Json → Prop
  | .array items => ItemsHaveDistinctNames f items
  | .object members => (members.map fun m => f m.1).Nodup ∧ MembersHaveDistinctNames f members
  | _ => True

def ItemsHaveDistinctNames (f : String → String) : List Json → Prop
  | [] => True
  | item :: rest => HasDistinctNames f item ∧ ItemsHaveDistinctNames f rest

def MembersHaveDistinctNames (f : String → String) : List (String × Json) → Prop
  | [] => True
  | (_, value) :: rest => HasDistinctNames f value ∧ MembersHaveDistinctNames f rest

end

mutual

def IsFinite : Json → Prop
  | .float x => x.isFinite
  | .array items => AreFinite items
  | .object members => MembersAreFinite members
  | _ => True

def AreFinite : List Json → Prop
  | [] => True
  | item :: rest => IsFinite item ∧ AreFinite rest

def MembersAreFinite : List (String × Json) → Prop
  | [] => True
  | (_, value) :: rest => IsFinite value ∧ MembersAreFinite rest

end

/-- Reading gives a certain result or finds malformed text, and gives the result under a
condition. -/
structure Yields {α : Type} (condition : Prop) (x : Yaml.Outcome α) (a : α) : Prop where
  ok : condition → x = .ok a
  result : ∀ b, x = .ok b → b = a
  failure : ∀ fault, x = .error fault → fault.failure = .malformed

section

variable {α β γ : Type} {p q : Prop} {x : Yaml.Outcome α} {y : Yaml.Outcome β} {a : α} {b : β}

theorem Yields.of_ok : Yields p (.ok a : Yaml.Outcome α) a :=
  ⟨fun _ => rfl, fun _ same => (Except.ok.inj same).symm, nofun⟩

theorem Yields.both (f : α → β → γ) (h : Yields p x a) (h' : Yields q y b) :
    Yields (p ∧ q) (Yaml.Outcome.both f x y) (f a b) where
  ok := by
    rintro ⟨hp, hq⟩
    rw [h.ok hp, h'.ok hq]
    rfl
  result := by
    intro c same
    cases x <;> cases y <;> cases same
    rw [h.result _ rfl, h'.result _ rfl]
  failure := by
    intro fault same
    cases x with
    | ok _ =>
      cases y with
      | ok _ => cases same
      | error e =>
        cases same
        exact h'.failure _ rfl
    | error e =>
      cases y with
      | ok _ =>
        cases same
        exact h.failure _ rfl
      | error e' =>
        cases same
        split
        · exact h'.failure _ rfl
        · exact h.failure _ rfl

theorem Yields.map (f : α → β) (h : Yields p x a) : Yields p (x.map f : Yaml.Outcome β) (f a) where
  ok hp := by
    rw [h.ok hp]
    rfl
  result := by
    intro c same
    cases x <;> cases same
    rw [h.result _ rfl]
  failure := by
    intro fault same
    cases x <;> cases same
    exact h.failure _ rfl

theorem Yields.deeper (h : Yields p x a) : Yields p x.deeper a where
  ok hp := by
    rw [h.ok hp]
    rfl
  result := by
    intro c same
    cases x <;> cases same
    rw [h.result _ rfl]
  failure := by
    intro fault same
    cases x with
    | ok _ => cases same
    | error e =>
      cases same
      exact h.failure e rfl

theorem Yields.mono (h : Yields p x a) (stronger : q → p) : Yields q x a :=
  ⟨fun hq => h.ok (stronger hq), h.result, h.failure⟩

end

def memberRow (m : String × Json) : Row := ⟨.ok (.text (reread m.1)), m.2.node.meaning.value⟩

theorem value_textNode (s : String) : (textNode s).meaning.value = .ok (.text (reread s)) := by
  change (Except.ok (Value.text (String.ofList (reread s).toList)) : Yaml.Outcome Value) = _
  rw [String.ofList_toList]

theorem separate_memberNodes (members : List (String × Json)) (own : List Row) :
    Meaning.separate [] own (Yaml.Node.entryMeanings (memberNodes members)) =
      some ([], own ++ members.map memberRow) := by
  induction members generalizing own with
  | nil => simp [memberNodes, Yaml.Node.entryMeanings, Meaning.separate]
  | cons member rest ih =>
    obtain ⟨name, value⟩ := member
    have notMerge : (textNode name).tag ≠ .merge ∧ (textNode name).tag ≠ .value := by
      exact ⟨nofun, nofun⟩
    rw [memberNodes, Yaml.Node.entryMeanings, Meaning.separate, if_neg notMerge.1, ih,
      if_neg notMerge.2,
      value_textNode, List.append_assoc]
    rfl

structure Admits (before : Entries) (members : List (String × Json)) : Prop where
  distinct : (members.map fun m => reread m.1).Nodup
  within : MembersHaveDistinctNames reread members
  new : ∀ m ∈ members, ∀ entry ∈ before, entry.1 ≠ .text (reread m.1)

section

variable {before : Entries} {name : String} {value : Json} {rest : List (String × Json)}

theorem addRows_error {depth : Nat} {failure : Yaml.Failure}
    (isValue : value.node.meaning.value = .error ⟨depth, failure⟩) :
    addRows true before (((name, value) :: rest).map memberRow) =
      if depth = 0 then .fail failure
      else if before.any (fun entry => (Value.text (reread name)).same entry.1) then
        .fail .malformed
      else
        .both (fun _ entries => entries) (.error ⟨depth, failure⟩ : Yaml.Outcome Value)
          (addRows true (put (.text (reread name)) .null before) (rest.map memberRow)) := by
  rw [List.map_cons, memberRow, addRows, isValue]
  cases depth with
  | zero => rfl
  | succ depth => rfl

/-- Behind a value that cannot be read nothing saves the mapping. -/
theorem addRows_failed {depth : Nat}
    (isValue : value.node.meaning.value = .error ⟨depth, .malformed⟩)
    (later : ∀ fault,
      addRows true (put (.text (reread name)) .null before) (rest.map memberRow) = .error fault →
        fault.failure = .malformed) :
    ∃ fault, addRows true before (((name, value) :: rest).map memberRow) = .error fault ∧
      fault.failure = .malformed := by
  rw [addRows_error isValue]
  split
  · exact ⟨_, rfl, rfl⟩
  split
  · exact ⟨_, rfl, rfl⟩
  · generalize addRows _ _ _ = x at later
    cases x with
    | ok _ => exact ⟨_, rfl, rfl⟩
    | error e =>
      refine ⟨_, rfl, ?_⟩
      split
      · exact later e rfl
      · rfl

theorem addRows_ok {v : Value} (isValue : value.node.meaning.value = .ok v) :
    addRows true before (((name, value) :: rest).map memberRow) =
      if before.any (fun entry => (Value.text (reread name)).same entry.1) then .fail .malformed
      else addRows true (put (.text (reread name)) v before) (rest.map memberRow) := by
  rw [List.map_cons, memberRow, addRows, isValue]
  rfl

end

theorem Admits.push {before : Entries} {name : String} {value : Json}
    {rest : List (String × Json)} {v : Value}
    (h : Admits before ((name, value) :: rest)) :
    Admits (before ++ [(.text (reread name), v)]) rest := by
  obtain ⟨distinct, within, new⟩ := h
  rw [List.map_cons, List.nodup_cons] at distinct
  refine ⟨distinct.2, within.2, fun m member entry inside same => ?_⟩
  rcases List.mem_append.mp inside with inside | inside
  · exact new m (List.mem_cons_of_mem _ member) entry inside same
  · rw [List.mem_singleton.mp inside, Value.text.injEq] at same
    exact distinct.1 (List.mem_map.mpr ⟨m, member, same.symm⟩)

theorem yields_addRows (members : List (String × Json)) (before : Entries)
    (each : ∀ m ∈ members, Yields (HasDistinctNames reread m.2) m.2.node.meaning.value
      (m.2.toValue.respell rereading)) :
    Yields (Admits before members) (addRows true before (members.map memberRow))
      (before ++ Value.respellEntries rereading (toEntries members)) := by
  induction members generalizing before with
  | nil =>
    rw [toEntries, Value.respellEntries, List.append_nil]
    exact .of_ok
  | cons member rest ih =>
    obtain ⟨name, value⟩ := member
    obtain ⟨here, there⟩ := List.forall_mem_cons.mp each
    dsimp only at here
    cases isValue : value.node.meaning.value with
    | error fault =>
      obtain ⟨depth, failure⟩ := fault
      have malformed := here.failure _ isValue
      dsimp only at malformed
      subst malformed
      obtain ⟨fault, failed, malformed⟩ :=
        addRows_failed isValue (ih (put (.text (reread name)) .null before) there).failure
      rw [failed]
      refine ⟨fun admits => ?_, nofun, fun other same => Except.error.inj same ▸ malformed⟩
      cases isValue.symm.trans (here.ok admits.within.1)
    | ok v =>
      cases here.result v isValue
      rw [addRows_ok isValue]
      cases new : before.any (fun entry => (Value.text (reread name)).same entry.1) with
      | true =>
        refine ⟨fun admits => ?_, nofun, fun fault same => ?_⟩
        · obtain ⟨entry, member, same⟩ := List.any_eq_true.mp new
          exact absurd (Value.same_text_iff.mp same) (admits.new _ List.mem_cons_self entry member)
        · cases same
          rfl
      | false =>
        rw [if_neg nofun, put_eq_append new]
        have later := ih (before ++ [(.text (reread name), value.toValue.respell rereading)]) there
        rw [List.append_assoc] at later
        exact later.mono Admits.push

theorem yields_wordNode {p : Prop} {word : List Char} {value : Value}
    (isValue : Yaml.Scalar.value? (Yaml.Schema.tagOf word) word = some (.ok value)) :
    Yields p (wordNode word).meaning.value value := by
  have meant : (wordNode word).meaning.value = .ok value := by
    change Meaning.ofScalar _ _ = _
    simp only [Meaning.ofScalar, isValue]
  rw [meant]
  exact .of_ok

mutual

theorem yields_node : ∀ value : Json, value.IsFinite → value.toValue.isWritable →
    Yields (HasDistinctNames reread value) value.node.meaning.value
    (value.toValue.respell rereading)
  | .null, _, _ => yields_wordNode rfl
  | .bool b, _, _ => yields_wordNode (by cases b <;> rfl)
  | .int n, _, writable => yields_wordNode (Yaml.value?_intChars writable)
  | .float x, finite, _ => yields_wordNode (Yaml.value?_float finite)
  | .text s, _, _ => by
    rw [node, value_textNode]
    exact .of_ok
  | .array items, finite, writable =>
    ((yields_itemNodes items finite writable).map Value.list).deeper
  | .object members, finite, writable => by
    have added := yields_addRows members [] (yields_memberNodes members finite writable)
    have isObject : (node (.object members)).meaning.value =
        Yaml.Outcome.deeper ((addRows true [] (members.map memberRow)).map Value.map) := by
      rw [node, Yaml.Node.meaning, Meaning.ofMapping, separate_memberNodes]
      rfl
    rw [isObject]
    refine ((added.map Value.map).deeper).mono fun names => ?_
    exact ⟨names.1, names.2, fun _ _ _ => nofun⟩

theorem yields_itemNodes : ∀ items : List Json, AreFinite items →
    Value.areWritable (toValues items) →
    Yields (ItemsHaveDistinctNames reread items)
      (Yaml.Outcome.all ((Yaml.Node.meanings (itemNodes items)).map (·.value)))
      (Value.respellAll rereading (toValues items))
  | [], _, _ => .of_ok
  | item :: rest, finite, writable => by
    rw [toValues, Value.areWritable, Bool.and_eq_true] at writable
    exact (yields_node item finite.1 writable.1).both List.cons
      (yields_itemNodes rest finite.2 writable.2)

theorem yields_memberNodes : ∀ members : List (String × Json), MembersAreFinite members →
    Value.entriesAreWritable (toEntries members) →
    ∀ m ∈ members, Yields (HasDistinctNames reread m.2) m.2.node.meaning.value
      (m.2.toValue.respell rereading)
  | [], _, _ => nofun
  | (name, value) :: rest, finite, writable => by
    rw [toEntries, Value.entriesAreWritable, Bool.and_eq_true, Bool.and_eq_true] at writable
    exact List.forall_mem_cons.mpr ⟨yields_node value finite.1 writable.1.2,
      yields_memberNodes rest finite.2 writable.2⟩

end

/-- Holds if a value can be read from its text: its texts can be read, they name members if they are
short enough and stand on one line, and they still tell the members of an object apart. -/
structure CanBeRead (value : Json) : Prop where
  printable : ∀ s ∈ value.texts, IsPrintable s
  readable : ∀ s ∈ value.texts, IsReadable s
  simple : ∀ name ∈ value.names, isSimpleName name
  distinct : value.HasDistinctNames reread

section

variable (indent : Option Int) {value : Json}

theorem read_chars (printable : ∀ s ∈ value.texts, IsPrintable s)
    (readable : ∀ s ∈ value.texts, IsReadable s)
    (simple : ∀ name ∈ value.names, isSimpleName name) : Yaml.read (chars indent 0 value) =
      match value.node.meaning.value with
      | .ok value => .ok value
      | .error fault => .error fault.failure := by
  rw [Yaml.read, (all_isPrintable_iff indent value).mpr printable, normalizeBreaks_chars,
    tokens_eq_ok indent readable]
  dsimp only
  rw [ofTokens?_tokens, List.all_eq_true.mpr simple]
  rfl

theorem read_chars_of_not_printable {s : String} (member : s ∈ value.texts)
    (unprintable : ¬ IsPrintable s) : Yaml.read (chars indent 0 value) = .error .malformed := by
  have some : (chars indent 0 value).all Yaml.isPrintable = false :=
    Bool.eq_false_iff.mpr fun all => unprintable
      ((all_isPrintable_iff indent value).mp all s member)
  rw [Yaml.read, some]
  rfl

theorem read_chars_of_not_readable (printable : ∀ s ∈ value.texts, IsPrintable s) {s : String}
    (member : s ∈ value.texts) (unreadable : ¬ IsReadable s) :
    Yaml.read (chars indent 0 value) = .error .malformed := by
  rw [Yaml.read, (all_isPrintable_iff indent value).mpr printable, normalizeBreaks_chars,
    tokens_eq_error indent member unreadable]
  rfl

theorem read_chars_of_not_simple (printable : ∀ s ∈ value.texts, IsPrintable s)
    (readable : ∀ s ∈ value.texts, IsReadable s) {name : String} (member : name ∈ value.names)
    (complex : ¬ isSimpleName name) : Yaml.read (chars indent 0 value) = .error .malformed := by
  have some : value.names.all isSimpleName = false :=
    Bool.eq_false_iff.mpr fun all => complex (List.all_eq_true.mp all name member)
  rw [Yaml.read, (all_isPrintable_iff indent value).mpr printable, normalizeBreaks_chars,
    tokens_eq_ok indent readable]
  dsimp only
  rw [ofTokens?_tokens, some]
  rfl

/-- Text that is written for a value is read as the value, but for its texts and numbers, if it can
be read. -/
theorem read_chars_eq_ok (finite : value.IsFinite) (writable : value.toValue.isWritable)
    (readable : value.CanBeRead) :
    Yaml.read (chars indent 0 value) = .ok (value.toValue.respell rereading) := by
  rw [read_chars indent readable.printable readable.readable readable.simple,
    (yields_node value finite writable).ok readable.distinct]

theorem read_chars_cases (finite : value.IsFinite) (writable : value.toValue.isWritable) :
    Yaml.read (chars indent 0 value) = .error .malformed ∨
      Yaml.read (chars indent 0 value) = .ok (value.toValue.respell rereading) ∧
        ∀ s ∈ value.texts, IsPrintable s ∧ IsReadable s := by
  by_cases printable : ∀ s ∈ value.texts, IsPrintable s
  case neg =>
    obtain ⟨s, member, unprintable⟩ := by simpa using printable
    exact .inl (read_chars_of_not_printable indent member unprintable)
  by_cases readable : ∀ s ∈ value.texts, IsReadable s
  case neg =>
    obtain ⟨s, member, unreadable⟩ := by simpa using readable
    exact .inl (read_chars_of_not_readable indent printable member unreadable)
  by_cases simple : ∀ name ∈ value.names, isSimpleName name
  case neg =>
    obtain ⟨name, member, complex⟩ := by simpa using simple
    exact .inl (read_chars_of_not_simple indent printable readable member (by simpa using complex))
  have yields := yields_node value finite writable
  rw [read_chars indent printable readable simple]
  cases meant : value.node.meaning.value with
  | ok v =>
    refine .inr ⟨congrArg _ (yields.result v meant), fun s member => ?_⟩
    exact ⟨printable s member, readable s member⟩
  | error fault => exact .inl (congrArg _ (yields.failure fault meant))

end

end TemplateActions.Json
