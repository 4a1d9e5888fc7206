import Mathlib.Data.List.Nodup
import TemplateActions.Proofs.Yaml.Documents

/-!
The keys of mappings that are read. A key that comes again takes over the place of the first one
or makes the mapping malformed, so that no text is the key of two entries. Keys that are no texts
need not be distinct: not-a-number differs from itself.
-/
namespace TemplateActions

namespace Value

def name? : Value → Option String
  | .text s => some s
  | _ => none

/-- The texts among the keys of a mapping. -/
def names (entries : List (Value × Value)) : List String := entries.filterMap fun entry =>
    entry.1.name?

theorem name?_eq_some_iff {key : Value} {s : String} : key.name? = some s ↔ key = .text s := by
  cases key <;> simp [name?]

theorem mem_names_iff {entries : List (Value × Value)} {s : String} :
    s ∈ names entries ↔ ∃ value, (.text s, value) ∈ entries := by
  simp only [names, List.mem_filterMap, name?_eq_some_iff]
  constructor
  · rintro ⟨⟨_, value⟩, member, rfl⟩
    exact ⟨value, member⟩
  · rintro ⟨value, member⟩
    exact ⟨_, member, rfl⟩

theorem names_nil : names [] = [] := rfl

theorem names_append (entries more : List (Value × Value)) :
    names (entries ++ more) = names entries ++ names more := List.filterMap_append

theorem names_cons (entry : Value × Value) (rest : List (Value × Value)) :
    names (entry :: rest) = entry.1.name?.toList ++ names rest := by
  rw [names, List.filterMap_cons]
  cases entry.1.name? <;> rfl

theorem same_text_iff {s : String} {key : Value} : (Value.text s).same key ↔ key = .text s := by
  cases key with
  | text s' => simpa [Value.same] using eq_comm
  | _ => simp [Value.same]

end Value

namespace Yaml

open Value (names)

variable {key value : Value} {before entries : Entries}

theorem Outcome.both_eq_ok {α β γ : Type} {f : α → β → γ} {x : Outcome α} {y : Outcome β} {c : γ}
    (h : both f x y = .ok c) : ∃ a b, x = .ok a ∧ y = .ok b ∧ f a b = c := by
  cases x <;> cases y <;> cases h
  exact ⟨_, _, rfl, rfl, rfl⟩

theorem put_eq_append (new : before.any (fun entry => key.same entry.1) = false) :
    put key value before = before ++ [(key, value)] := by
  induction before with
  | nil => rfl
  | cons entry rest ih =>
    rw [List.any_cons, Bool.or_eq_false_iff] at new
    obtain ⟨k, v⟩ := entry
    rw [put, new.1, if_neg nofun, ih new.2, List.cons_append]

theorem names_put (key value : Value) (before : Entries) :
    names (put key value before) = names before ∨
      (∀ s, key = .text s → s ∉ names before) ∧
        names (put key value before) = names before ++ key.name?.toList := by
  induction before with
  | nil =>
    refine .inr ⟨fun _ _ => List.not_mem_nil, ?_⟩
    rw [put, Value.names_cons, Value.names_nil, List.append_nil, List.nil_append]
  | cons entry rest ih =>
    obtain ⟨k, v⟩ := entry
    rw [put]
    cases same : key.same k with
    | true => exact .inl rfl
    | false =>
      rw [if_neg Bool.false_ne_true]
      simp only [Value.names_cons]
      rcases ih with kept | ⟨new, added⟩
      · exact .inl (by rw [kept])
      · refine .inr ⟨fun s isText => ?_, by rw [added, List.append_assoc]⟩
        subst isText
        have other : k.name? ≠ some s := fun named =>
          Bool.false_ne_true (same.symm.trans
            (Value.same_text_iff.mpr (Value.name?_eq_some_iff.mp named)))
        rw [List.mem_append, Option.mem_toList]
        exact fun member => member.elim other (new s rfl)

theorem nodup_concat_name {taken : List String} (distinct : taken.Nodup)
    (new : ∀ s, key = .text s → s ∉ taken) : (taken ++ key.name?.toList).Nodup := by
  cases named : key.name? with
  | none => simpa using distinct
  | some s =>
    have fresh := new s (Value.name?_eq_some_iff.mp named)
    exact List.nodup_append.mpr ⟨distinct, List.nodup_singleton s, by
      rintro _ taken _ member rfl
      rw [List.mem_singleton.mp member] at taken
      exact fresh taken⟩

theorem nodup_names_put (distinct : (names before).Nodup) :
    (names (put key value before)).Nodup := by
  rcases names_put key value before with kept | ⟨new, added⟩
  · rwa [kept]
  · rw [added]
    exact nodup_concat_name distinct new

theorem nodup_names_addRows {distinct : Bool} {rows : List Row} (start : (names before).Nodup)
    (added : addRows distinct before rows = .ok entries) : (names entries).Nodup := by
  induction rows generalizing before with
  | nil =>
    cases added
    exact start
  | cons row rest ih =>
    rw [addRows] at added
    split at added
    · nomatch added
    · nomatch added
    · split at added
      · nomatch added
      · split at added
        · nomatch added
        · split at added
          · exact ih (nodup_names_put start) added
          · obtain ⟨_, _, failed, -⟩ := Outcome.both_eq_ok added
            nomatch failed

theorem nodup_names_addPairs {rows : List Row} (start : (names before).Nodup)
    (added : Meaning.addPairs before rows = .ok entries) : (names entries).Nodup := by
  induction rows generalizing before with
  | nil =>
    cases added
    exact start
  | cons row rest ih =>
    rw [Meaning.addPairs] at added
    split at added
    · nomatch added
    · nomatch added
    · rename_i key value _ _
      split at added
      · nomatch added
      · split at added
        · nomatch added
        · rename_i unseen
          refine ih ?_ added
          rw [Value.names_append, Value.names_cons, Value.names_nil, List.append_nil]
          refine nodup_concat_name start fun s isText member => unseen ?_
          subst isText
          obtain ⟨value, member⟩ := Value.mem_names_iff.mp member
          exact List.any_eq_true.mpr ⟨_, member, Value.same_text_iff.mpr rfl⟩

theorem nodup_names_nil : (names []).Nodup := List.nodup_nil

theorem Outcome.deeper_map_eq_ok {α β : Type} {f : α → β} {x : Outcome α} {b : β}
    (h : deeper (x.map f) = .ok b) : ∃ a, x = .ok a ∧ f a = b := by
  cases x with
  | error _ => cases h
  | ok a =>
    cases h
    exact ⟨a, rfl, rfl⟩

theorem Scalar.int_eq_ok {text : List Char} (read : Scalar.int text = .ok value) :
    ∃ n, value = .int n := by
  simp only [Scalar.int] at read
  split at read
  · cases read
  · split at read <;> cases read
    exact ⟨_, rfl⟩

theorem Scalar.float_eq_ok {text : List Char} (read : Scalar.float text = .ok value) :
    ∃ x, value = .float x := by
  simp only [Scalar.float] at read
  split at read
  · cases read
  · split at read <;> cases read
    exact ⟨_, rfl⟩

theorem Scalar.bool_eq_ok {text : List Char} (read : Scalar.bool text = .ok value) :
    ∃ b, value = .bool b := by
  simp only [Scalar.bool] at read
  split at read
  · exact ⟨true, (Except.ok.inj read).symm⟩
  split at read
  · exact ⟨false, (Except.ok.inj read).symm⟩
  · cases read

theorem Timestamp.dateTime_eq_ok {date : Date} {time : TimeOfDay}
    (read : dateTime date time = .ok value) : ∃ t, value = .dateTime t := by
  unfold dateTime at read
  extract_lets _ _ _ _ at read
  split at read
  · cases read
  split at read
  · exact ⟨_, (Except.ok.inj read).symm⟩
  · split at read <;> cases read
    exact ⟨_, rfl⟩

theorem Scalar.timestamp_eq_ok {text : List Char} (read : Scalar.timestamp text = .ok value) :
    (∃ d, value = .date d) ∨ ∃ t, value = .dateTime t := by
  rw [Scalar.timestamp] at read
  split at read
  · rw [Timestamp.Parts.value] at read
    split at read
    · exact .inr (Timestamp.dateTime_eq_ok read)
    · split at read <;> cases read
      exact .inl ⟨_, rfl⟩
  · cases read

theorem Scalar.binary_eq_ok {text : List Char} (read : Scalar.binary text = .ok value) :
    ∃ bytes, value = .bytes bytes := by
  rw [Scalar.binary] at read
  split at read
  · split at read <;> cases read
    exact ⟨_, rfl⟩
  · cases read

theorem Scalar.value?_ne_map {tag : Tag} {text : List Char} :
    Scalar.value? tag text ≠ some (.ok (.map entries)) := by
  intro read
  cases tag <;> simp only [Scalar.value?, Option.some.injEq, reduceCtorEq, Except.ok.injEq] at read
  case bool => nomatch Scalar.bool_eq_ok read
  case int => nomatch Scalar.int_eq_ok read
  case float => nomatch Scalar.float_eq_ok read
  case timestamp => rcases Scalar.timestamp_eq_ok read with ⟨_, same⟩ | ⟨_, same⟩ <;> cases same
  case binary => nomatch Scalar.binary_eq_ok read

theorem Meaning.ofScalar_ne_map {tag : Tag} {text : List Char} :
    ofScalar tag text ≠ .ok (.map entries) := by
  intro read
  simp only [ofScalar] at read
  split at read
  · rename_i value isValue
    rw [Except.ok.inj read] at isValue
    exact Scalar.value?_ne_map isValue
  · cases read
  · split at read <;> cases read

theorem Meaning.nodup_names_ofSequence {tag : Tag} {items : List Meaning}
    (read : (ofSequence tag items).value = .ok (.map entries)) : (names entries).Nodup := by
  simp only [ofSequence] at read
  split at read
  · obtain ⟨_, -, isList⟩ := Outcome.deeper_map_eq_ok read
    cases isList
  · rw [pairs] at read
    split at read
    · split at read
      · obtain ⟨_, -, isList⟩ := Outcome.deeper_map_eq_ok read
        cases isList
      · cases read
    · cases read
  · rw [orderedMapping] at read
    split at read
    · split at read
      · obtain ⟨_, added, isMap⟩ := Outcome.deeper_map_eq_ok read
        cases isMap
        exact nodup_names_addPairs nodup_names_nil added
      · cases read
    · cases read
  all_goals cases read

theorem Meaning.nodup_names_ofMapping {tag : Tag} {text : Option (List Char)}
    {members : List (Tag × Row × Meaning)}
    (read : (ofMapping tag text members).value = .ok (.map entries)) : (names entries).Nodup := by
  simp only [ofMapping] at read
  split at read
  · obtain ⟨_, added, isMap⟩ := Outcome.deeper_map_eq_ok read
    cases isMap
    split at added
    · exact nodup_names_addRows nodup_names_nil added
    · cases added
  · obtain ⟨_, -, isSet⟩ := Outcome.deeper_map_eq_ok read
    cases isSet
  iterate 3 cases read
  · split at read
    · exact absurd read ofScalar_ne_map
    · cases read

/-- No text is the key of two entries of a mapping that is read. -/
theorem nodup_names_of_read {text : List Char} (isMap : read text = .ok (.map entries)) :
    (names entries).Nodup := by
  rcases read_cases text with malformed | ⟨failure, -, failed⟩ | isNull | ⟨node, denotes⟩
  · nomatch malformed.symm.trans isMap
  · nomatch failed.symm.trans isMap
  · nomatch isNull.symm.trans isMap
  · rw [denotes.read_eq] at isMap
    split at isMap
    · rename_i meant
      rw [Except.ok.inj isMap] at meant
      cases node with
      | scalar tag text => exact absurd meant Meaning.ofScalar_ne_map
      | sequence tag items => exact Meaning.nodup_names_ofSequence meant
      | mapping tag members => exact Meaning.nodup_names_ofMapping meant
      | unread failure => nomatch meant
    · nomatch isMap

end Yaml
end TemplateActions
