import TemplateActions.Proofs.Config.Contents
import TemplateActions.Proofs.Yaml.Keys

/-!
Validation setting by setting. A mapping is accepted exactly if each of its entries is accepted
alone, and what it sets is what they set. Otherwise the problems are those that its entries have
alone: first those of the settings in the order of their declaration, then those of all other keys
in the order of the mapping.
-/
namespace TemplateActions

theorem ConfigLevel.ofName?_eq_some_iff {name : String} {level : ConfigLevel} :
    ofName? name = some level ↔ name = level.name := by
  constructor
  · intro found
    have named := List.find?_some found
    exact (eq_of_beq named).symm
  · rintro rfl
    cases level <;> rfl

theorem ConfigLevel.name_injective : Function.Injective name := by
  intro level level' same
  exact Option.some.inj ((ofName?_eq_some_iff.mpr rfl).symm.trans (ofName?_eq_some_iff.mpr same))

namespace Config

inductive Setting where
  | level
  | pretty
  | indent
deriving DecidableEq

namespace Setting

def all : List Setting := [.level, .pretty, .indent]

def key : Setting → String
  | .level => levelKey
  | .pretty => prettyKey
  | .indent => indentKey

def Same : Setting → Config → Config → Prop
  | .level, c, c' => c.level = c'.level
  | .pretty, c, c' => c.pretty = c'.pretty
  | .indent, c, c' => c.indent = c'.indent

/-- The configuration has what the value stands for there. -/
def Gives : Setting → Value → Config → Prop
  | .level, value, c => value = .text c.level.name
  | .pretty, value, c => checkPretty value = .ok c.pretty
  | .indent, value, c => intOf value = .ok (c.indent : Int)

def problems : Setting → Entries → List Problem
  | .level, entries => problemOf levelKey (setting levelKey checkLevel ({} : Config).level entries)
  | .pretty, entries =>
    problemOf prettyKey (setting prettyKey checkPretty ({} : Config).pretty entries)
  | .indent, entries =>
    problemOf indentKey (setting indentKey checkIndent ({} : Config).indent entries)

end Setting

def isSetting (key : Value) : Bool := Setting.all.any fun slot => isKey slot.key key

/-- Holds if the mapping alone makes a configuration. -/
def accepts (entries : Entries) : Bool := (ofValue (.map entries)).isOk

/-- Holds if the setting is given a value that is not accepted alone. -/
def Setting.isRefused (slot : Setting) (entries : Entries) : Bool :=
  entries.any fun entry => isKey slot.key entry.1 && !accepts [entry]

/-- The problems of a mapping, of which there are none if it is accepted. -/
def problemsIn (entries : Entries) : List Problem :=
  Setting.all.flatMap (·.problems entries) ++ entries.filterMap fun entry => keyProblem? entry.1

theorem isKey_iff {name : String} {key : Value} : isKey name key ↔ key = .text name := by
  cases key <;> simp [isKey]

theorem Setting.mem_all (slot : Setting) : slot ∈ Setting.all := by
  cases slot <;> decide

theorem isSetting_iff {key : Value} : isSetting key ↔ ∃ slot : Setting, key = .text slot.key := by
  rw [isSetting, List.any_eq_true]
  constructor
  · rintro ⟨slot, -, named⟩
    exact ⟨slot, isKey_iff.mp named⟩
  · rintro ⟨slot, named⟩
    exact ⟨slot, slot.mem_all, isKey_iff.mpr named⟩

theorem keyProblem?_eq (key : Value) :
    keyProblem? key =
      if isSetting key then none
      else some ⟨key, match key with | .text _ => .unknownKey | _ => .keyType⟩ := by
  cases key
  case text name =>
    have listed : [levelKey, prettyKey, indentKey].contains name = isSetting (.text name) := by
      simp only [List.contains_cons, List.contains_nil, isSetting, Setting.all, List.any_cons,
        List.any_nil, isKey, Setting.key]
    rw [keyProblem?, listed]
  all_goals rfl

section

variable {entries rest : Entries} {name : String} {value : Value} {slot : Setting}

theorem get?_cons (entry : Value × Value) :
    get? name (entry :: rest) = if isKey name entry.1 then some entry.2 else get? name rest := by
  rw [get?, List.find?_cons]
  cases isKey name entry.1 <;> rfl

theorem mem_of_get? (found : get? name entries = some value) : (.text name, value) ∈ entries := by
  obtain ⟨entry, isEntry, rfl⟩ := Option.map_eq_some_iff.mp found
  have named := List.find?_some isEntry
  rw [← isKey_iff.mp named]
  exact List.mem_of_find?_eq_some isEntry

theorem get?_eq_some_iff (distinct : (Value.names entries).Nodup) :
    get? name entries = some value ↔ (.text name, value) ∈ entries := by
  refine ⟨mem_of_get?, fun member => ?_⟩
  induction entries with
  | nil => nomatch member
  | cons entry rest ih =>
    rw [Value.names_cons, List.nodup_append] at distinct
    obtain ⟨-, distinct, new⟩ := distinct
    rw [get?_cons]
    rcases List.mem_cons.mp member with rfl | member
    · rw [if_pos (isKey_iff.mpr rfl)]
    · have unnamed : isKey name entry.1 = false := by
        refine Bool.eq_false_iff.mpr fun named => ?_
        have first : name ∈ entry.1.name?.toList :=
          Option.mem_toList.mpr (Value.name?_eq_some_iff.mpr (isKey_iff.mp named))
        exact new name first name (Value.mem_names_iff.mpr ⟨value, member⟩) rfl
      rw [unnamed, if_neg Bool.false_ne_true, ih distinct member]

theorem get?_eq_none_iff : get? name entries = none ↔ ∀ value, (.text name, value) ∉ entries := by
  rw [get?, Option.map_eq_none_iff, List.find?_eq_none]
  constructor
  · intro unnamed value member
    exact unnamed _ member (isKey_iff.mpr rfl)
  · rintro missing ⟨key, value⟩ member named
    cases isKey_iff.mp named
    exact missing value member

theorem problemOf_setting {α : Type} (check : Value → Checked α) (default : α) :
    problemOf name (setting name check default entries) =
      match get? name entries with
      | some value => problemOf name (check value)
      | none => [] := by
  rw [setting]
  cases get? name entries <;> rfl

/-- The problem of a setting is the one that its entry has alone. -/
theorem Setting.problems_eq (slot : Setting) (entries : Entries) :
    slot.problems entries =
      match get? slot.key entries with
      | some value => slot.problems [(.text slot.key, value)]
      | none => [] := by
  cases slot <;> simp only [Setting.problems, Setting.key, problemOf_setting] <;>
    cases get? _ entries <;> rfl

theorem problemOf_eq_nil_or {α : Type} (checked : Checked α) :
    problemOf name checked = [] ∨ ∃ kind, problemOf name checked = [⟨.text name, kind⟩] := by
  cases checked with
  | ok _ => exact .inl rfl
  | error kind => exact .inr ⟨kind, rfl⟩

theorem problemOf_eq_nil_iff {α : Type} {checked : Checked α} :
    problemOf name checked = [] ↔ ∃ a, checked = .ok a := by
  cases checked <;> simp [problemOf]

theorem Setting.problems_eq_nil_or (slot : Setting) (entries : Entries) :
    slot.problems entries = [] ∨ ∃ kind, slot.problems entries = [⟨.text slot.key, kind⟩] := by
  cases slot <;> exact problemOf_eq_nil_or _

theorem Setting.key_injective : Function.Injective Setting.key := by
  intro slot slot' same
  cases slot <;> cases slot' <;> first | rfl | exact absurd same (by decide)

theorem Setting.problems_other {slot' : Setting} (other : slot' ≠ slot) (value : Value) :
    slot'.problems [(.text slot.key, value)] = [] := by
  have unnamed : isKey slot'.key (.text slot.key) = false :=
    Bool.eq_false_iff.mpr fun named =>
      other (Setting.key_injective (Value.text.inj (isKey_iff.mp named)).symm)
  rw [slot'.problems_eq, get?_cons, unnamed]
  rfl

theorem validate_cases (entries : Entries) :
    (problemsIn entries = [] ∧ ∃ config, validate entries = .ok config ∧
        setting levelKey checkLevel ({} : Config).level entries = .ok config.level ∧
        setting prettyKey checkPretty ({} : Config).pretty entries = .ok config.pretty ∧
        setting indentKey checkIndent ({} : Config).indent entries = .ok config.indent) ∨
      (problemsIn entries ≠ [] ∧ validate entries = .error (problemsIn entries)) := by
  have listed : problemsIn entries =
      problemOf levelKey (setting levelKey checkLevel ({} : Config).level entries) ++
        problemOf prettyKey (setting prettyKey checkPretty ({} : Config).pretty entries) ++
        problemOf indentKey (setting indentKey checkIndent ({} : Config).indent entries) ++
        entries.filterMap fun entry => keyProblem? entry.1 := by
    simp only [problemsIn, Setting.all, List.flatMap_cons, List.flatMap_nil, List.append_nil,
      Setting.problems, List.append_assoc]
  unfold validate
  extract_lets level pretty indent problems
  rw [show problems = problemsIn entries from listed.symm]
  change problemsIn entries = problemOf levelKey level ++ problemOf prettyKey pretty ++
    problemOf indentKey indent ++ _ at listed
  by_cases none : problemsIn entries = []
  · have parts := none
    rw [listed] at parts
    simp only [List.append_eq_nil_iff, problemOf_eq_nil_iff] at parts
    obtain ⟨⟨⟨⟨l, isLevel⟩, p, isPretty⟩, n, isIndent⟩, -⟩ := parts
    refine .inl ⟨none, ⟨l, p, n⟩, ?_, isLevel, isPretty, isIndent⟩
    simp only [isLevel, isPretty, isIndent, none]
  · refine .inr ⟨none, ?_⟩
    split
    · rename_i unproblematic
      exact absurd unproblematic none
    · rfl

theorem ofValue_map (entries : Entries) :
    ofValue (.map entries) =
      match validate entries with
      | .ok config => .ok config
      | .error problems => .error (.invalid problems) := by
  rw [ofValue, Value.isEmpty]
  cases entries <;> rfl

theorem accepts_iff : accepts entries ↔ problemsIn entries = [] := by
  rw [accepts, ofValue_map]
  rcases validate_cases entries with ⟨none, config, made, -⟩ | ⟨some, failed⟩
  · simp only [made, none, Except.isOk, Except.toBool]
  · simp only [failed, some, Except.isOk, Except.toBool, Bool.false_eq_true]

theorem eq_of_ofValue_error {cause : ConfigDefect}
    (failed : ofValue (.map entries) = .error cause) : cause = .invalid (problemsIn entries) := by
  rw [ofValue_map] at failed
  rcases validate_cases entries with ⟨-, config, made, -⟩ | ⟨-, refused⟩
  · rw [made] at failed
    nomatch failed
  · rw [refused] at failed
    exact (Except.error.inj failed).symm

theorem checkLevel_eq_ok {level : ConfigLevel} (checked : checkLevel value = .ok level) :
    value = .text level.name := by
  cases value with
  | text name =>
    rw [checkLevel] at checked
    split at checked <;> cases checked
    rename_i found
    rw [ConfigLevel.ofName?_eq_some_iff.mp found]
  | _ => nomatch checked

theorem checkIndent_eq_ok {n : Nat} (checked : checkIndent value = .ok n) :
    intOf value = .ok (n : Int) := by
  rw [checkIndent] at checked
  split at checked <;> cases checked
  assumption

theorem of_setting_eq_ok {α : Type} {check : Value → Checked α} {default a : α}
    (isSetting : setting name check default entries = .ok a) :
    (∀ value, get? name entries = some value → check value = .ok a) ∧
      (get? name entries = none → a = default) := by
  rw [setting] at isSetting
  cases found : get? name entries with
  | some value =>
    rw [found] at isSetting
    exact ⟨fun _ same => Option.some.inj same ▸ isSetting, nofun⟩
  | none =>
    rw [found] at isSetting
    exact ⟨nofun, fun _ => (Except.ok.inj isSetting).symm⟩

theorem gives_or_same {config : Config} (made : ofValue (.map entries) = .ok config)
    (slot : Setting) : (∀ value, get? slot.key entries = some value → slot.Gives value config) ∧
      (get? slot.key entries = none → slot.Same config {}) := by
  rw [ofValue_map] at made
  rcases validate_cases entries with ⟨-, config', valid, isLevel, isPretty, isIndent⟩ | ⟨-, failed⟩
  · rw [valid] at made
    cases made
    cases slot with
    | level =>
      have ⟨given, missing⟩ := of_setting_eq_ok isLevel
      exact ⟨fun value found => checkLevel_eq_ok (given value found), missing⟩
    | pretty => exact of_setting_eq_ok isPretty
    | indent =>
      have ⟨given, missing⟩ := of_setting_eq_ok isIndent
      exact ⟨fun value found => checkIndent_eq_ok (given value found), missing⟩
  · rw [failed] at made
    nomatch made

theorem Setting.Gives.same {config config' : Config} (gives : slot.Gives value config)
    (gives' : slot.Gives value config') : slot.Same config config' := by
  cases slot with
  | level => exact ConfigLevel.name_injective (Value.text.inj (gives.symm.trans gives'))
  | pretty => exact Except.ok.inj (gives.symm.trans gives')
  | indent => exact Int.ofNat.inj (Except.ok.inj (gives.symm.trans gives'))

theorem problemsIn_setting (slot : Setting) (value : Value) :
    problemsIn [(.text slot.key, value)] = slot.problems [(.text slot.key, value)] := by
  have named : keyProblem? (.text slot.key) = none := by
    rw [keyProblem?_eq, if_pos (isSetting_iff.mpr ⟨slot, rfl⟩)]
  rw [problemsIn, List.filterMap_cons, named, List.filterMap_nil, List.append_nil]
  have listed (slot' : Setting) : slot'.problems [(.text slot.key, value)] =
      if slot' = slot then slot.problems [(.text slot.key, value)] else [] := by
    split
    · subst slot'
      rfl
    · exact Setting.problems_other ‹_› value
  simp only [Setting.all, List.flatMap_cons, List.flatMap_nil]
  rw [listed .level, listed .pretty, listed .indent]
  cases slot <;> simp

theorem problemsIn_other {key : Value} (unnamed : isSetting key = false) (value : Value) :
    ∃ kind, keyProblem? key = some ⟨key, kind⟩ ∧ problemsIn [(key, value)] = [⟨key, kind⟩] := by
  have isProblem := keyProblem?_eq key
  rw [unnamed, if_neg Bool.false_ne_true] at isProblem
  refine ⟨_, isProblem, ?_⟩
  have missing (slot : Setting) : slot.problems [(key, value)] = [] := by
    have other : isKey slot.key key = false := Bool.eq_false_iff.mpr fun named =>
      Bool.false_ne_true (unnamed.symm.trans (isSetting_iff.mpr ⟨slot, isKey_iff.mp named⟩))
    rw [slot.problems_eq, get?_cons, other]
    rfl
  rw [problemsIn, List.filterMap_cons, isProblem]
  simp only [Setting.all, List.flatMap_cons, List.flatMap_nil, missing, List.nil_append,
    List.filterMap_nil]

theorem accepts_setting_iff :
    accepts [(.text slot.key, value)] ↔ slot.problems [(.text slot.key, value)] = [] := by
  rw [accepts_iff, problemsIn_setting]

theorem accepts_iff_forall (distinct : (Value.names entries).Nodup) :
    accepts entries ↔
      ∀ entry ∈ entries, (∃ slot : Setting, entry.1 = .text slot.key) ∧ accepts [entry] := by
  rw [accepts_iff, problemsIn, List.append_eq_nil_iff, List.flatMap_eq_nil_iff,
    List.filterMap_eq_nil_iff]
  constructor
  · rintro ⟨unproblematic, named⟩ ⟨key, value⟩ member
    have isNamed := named _ member
    rw [keyProblem?_eq] at isNamed
    split at isNamed
    · obtain ⟨slot, rfl⟩ := isSetting_iff.mp ‹_›
      refine ⟨⟨slot, rfl⟩, accepts_setting_iff.mpr ?_⟩
      have none := unproblematic slot slot.mem_all
      rwa [slot.problems_eq, (get?_eq_some_iff distinct).mpr member] at none
    · nomatch isNamed
  · intro accepted
    constructor
    · intro slot _
      rw [slot.problems_eq]
      split
      · rename_i value found
        exact accepts_setting_iff.mp (accepted _ (mem_of_get? found)).2
      · rfl
    · intro entry member
      rw [keyProblem?_eq, if_pos (isSetting_iff.mpr (accepted entry member).1)]

theorem Setting.isRefused_iff (distinct : (Value.names entries).Nodup) :
    slot.isRefused entries ↔ slot.problems entries ≠ [] := by
  rw [Setting.isRefused, List.any_eq_true]
  constructor
  · rintro ⟨⟨key, value⟩, member, refused⟩
    rw [Bool.and_eq_true, Bool.not_eq_true'] at refused
    cases isKey_iff.mp refused.1
    rw [slot.problems_eq, (get?_eq_some_iff distinct).mpr member]
    exact fun none => Bool.false_ne_true (refused.2.symm.trans (accepts_setting_iff.mpr none))
  · intro some
    rw [slot.problems_eq] at some
    split at some
    · rename_i value found
      refine ⟨_, mem_of_get? found, ?_⟩
      rw [Bool.and_eq_true, Bool.not_eq_true', Bool.eq_false_iff]
      exact ⟨isKey_iff.mpr rfl, fun accepted => some (accepts_setting_iff.mp accepted)⟩
    · exact absurd rfl some

theorem Setting.keys_problems (distinct : (Value.names entries).Nodup) (slots : List Setting) :
    (slots.flatMap (·.problems entries)).map (·.key) =
      (slots.filter (·.isRefused entries)).map fun slot => .text slot.key := by
  induction slots with
  | nil => rfl
  | cons slot rest ih =>
    rw [List.flatMap_cons, List.map_append, ih, List.filter_cons]
    rcases slot.problems_eq_nil_or entries with none | ⟨kind, some⟩
    · rw [none, if_neg fun refused => (Setting.isRefused_iff distinct).mp refused none]
      rfl
    · have refused : slot.isRefused entries :=
        (Setting.isRefused_iff distinct).mpr (some ▸ List.cons_ne_nil _ _)
      rw [some, if_pos refused]
      rfl

theorem keys_keyProblems (entries : Entries) :
    (entries.filterMap fun entry => keyProblem? entry.1).map (·.key) =
      (entries.map (·.1)).filter fun key => !isSetting key := by
  induction entries with
  | nil => rfl
  | cons entry rest ih =>
    rw [List.filterMap_cons, List.map_cons, List.filter_cons, keyProblem?_eq, ← ih]
    cases isSetting entry.1 <;> rfl

theorem exists_entry_of_mem_problemsIn {problem : Problem} (member : problem ∈ problemsIn entries) :
    ∃ value, (problem.key, value) ∈ entries ∧ problemsIn [(problem.key, value)] = [problem] := by
  rcases List.mem_append.mp member with member | member
  · obtain ⟨slot, -, member⟩ := List.mem_flatMap.mp member
    rw [slot.problems_eq] at member
    split at member
    · rename_i value found
      rcases slot.problems_eq_nil_or [(.text slot.key, value)] with none | ⟨kind, some⟩
      · rw [none] at member
        nomatch member
      · rw [some] at member
        cases List.mem_singleton.mp member
        exact ⟨value, mem_of_get? found, (problemsIn_setting slot value).trans some⟩
    · nomatch member
  · obtain ⟨⟨key, value⟩, inside, isProblem⟩ := List.mem_filterMap.mp member
    have unnamed : isSetting key = false := by
      rw [keyProblem?_eq] at isProblem
      split at isProblem
      · nomatch isProblem
      · exact Bool.eq_false_iff.mpr ‹_›
    obtain ⟨kind, same, alone⟩ := problemsIn_other unnamed value
    cases same.symm.trans isProblem
    exact ⟨value, inside, alone⟩

theorem ofValue_map_error {problem : Problem} {more : List Problem}
    (refused : problemsIn entries = problem :: more) :
    ofValue (.map entries) = .error (.invalid (problem :: more)) := by
  rw [ofValue_map]
  rcases validate_cases entries with ⟨none, -⟩ | ⟨-, failed⟩
  · nomatch refused.symm.trans none
  · rw [failed, refused]

theorem sets_of_ofValue {config : Config} (distinct : (Value.names entries).Nodup)
    (made : ofValue (.map entries) = .ok config) (slot : Setting) :
    (∀ value, (.text slot.key, value) ∈ entries → slot.Gives value config) ∧
      ((∀ value, (.text slot.key, value) ∉ entries) → slot.Same config {}) := by
  obtain ⟨gives, default⟩ := gives_or_same made slot
  exact ⟨fun value member => gives value ((get?_eq_some_iff distinct).mpr member),
    fun missing => default (get?_eq_none_iff.mpr missing)⟩

theorem Setting.Same.symm {config config' : Config} (same : slot.Same config config') :
    slot.Same config' config := by
  cases slot <;> exact Eq.symm same

theorem Setting.Same.trans {config config' config'' : Config} (same : slot.Same config config')
    (same' : slot.Same config' config'') : slot.Same config config'' := by
  cases slot <;> exact Eq.trans same same'

/-- What a setting is depends on nothing but its own entry. -/
theorem Setting.same_of_entry {entries' : Entries} {config config' : Config}
    (distinct : (Value.names entries).Nodup) (distinct' : (Value.names entries').Nodup)
    (made : ofValue (.map entries) = .ok config) (made' : ofValue (.map entries') = .ok config')
    (agree : ∀ value, (.text slot.key, value) ∈ entries ↔ (.text slot.key, value) ∈ entries') :
    slot.Same config config' := by
  obtain ⟨gives, default⟩ := sets_of_ofValue distinct made slot
  obtain ⟨gives', default'⟩ := sets_of_ofValue distinct' made' slot
  by_cases given : ∃ value, (.text slot.key, value) ∈ entries
  · obtain ⟨value, member⟩ := given
    exact (gives value member).same (gives' value ((agree value).mp member))
  · have missing (value : Value) : (.text slot.key, value) ∉ entries :=
      fun member => given ⟨value, member⟩
    have missing' (value : Value) : (.text slot.key, value) ∉ entries' := fun member =>
      missing value ((agree value).mpr member)
    exact (default missing).trans (default' missing').symm

theorem level_name_mem (level : ConfigLevel) :
    level.name ∈ ["DEBUG", "INFO", "WARNING", "ERROR"] := by
  cases level <;> decide

theorem Holds.distinct {directory : Directory} {root : FileName} {named : Option FileName}
    (holds : Holds directory root named (.map entries)) : (Value.names entries).Nodup := by
  obtain ⟨_, _, -, -, isMap⟩ := holds
  exact Yaml.nodup_names_of_read isMap

/-- Validation of a mapping that a configuration file holds. It succeeds exactly if all keys are
those of settings and each entry is accepted alone. Each setting then has what its value stands
for, or its default if it has no entry, whatever else the mapping holds and wherever its entry
stands. Otherwise there is one problem for each setting with a value that is refused, in the order
of their declaration, behind them one for each other key in the order of the mapping, and each of
them is the one that its entry has alone. -/
theorem load_fieldwise {directory : Directory} {root : FileName} {named : Option FileName}
    (holds : Holds directory root named (.map entries)) :
    ((∃ config, (load directory root named).1 = .ok config) ↔
        ∀ entry ∈ entries, (∃ slot : Setting, entry.1 = .text slot.key) ∧ accepts [entry]) ∧
      (∀ config, (load directory root named).1 = .ok config →
        (∀ slot : Setting, (∀ value, (.text slot.key, value) ∈ entries → slot.Gives value config) ∧
          ((∀ value, (.text slot.key, value) ∉ entries) → slot.Same config {})) ∧
        config.level.name ∈ ["DEBUG", "INFO", "WARNING", "ERROR"] ∧ 0 ≤ (config.indent : Int) ∧
        ∀ directory' root' named' entries' config', Holds directory' root' named' (.map entries') →
          (load directory' root' named').1 = .ok config' →
          ∀ slot : Setting, (∀ value, (.text slot.key, value) ∈ entries ↔
            (.text slot.key, value) ∈ entries') →
            slot.Same config config') ∧
      ∀ failure, (load directory root named).1 = .error failure →
        ∃ problems, failure = .defect (fileFor directory root named) (.invalid problems) ∧
          problems.map (·.key) =
            (Setting.all.filter (·.isRefused entries)).map (fun slot => .text slot.key) ++
              (entries.map (·.1)).filter (fun key => !isSetting key) ∧
          ∀ problem ∈ problems, ∃ value, (problem.key, value) ∈ entries ∧
            ofValue (.map [(problem.key, value)]) = .error (.invalid [problem]) := by
  have distinct := holds.distinct
  refine ⟨?_, fun config made => ?_, fun failure failed => ?_⟩
  · rw [← accepts_iff_forall distinct, accepts]
    simp only [holds.load_eq_ok_iff]
    cases ofValue (.map entries) <;> simp [Except.isOk, Except.toBool]
  · rw [holds.load_eq_ok_iff] at made
    refine ⟨sets_of_ofValue distinct made, level_name_mem _, Int.natCast_nonneg _, ?_⟩
    intro directory' root' named' entries' config' holds' made' slot agree
    exact Setting.same_of_entry distinct holds'.distinct made (holds'.load_eq_ok_iff.mp made') agree
  · obtain ⟨cause, refused, rfl⟩ := holds.load_eq_error_iff.mp failed
    refine ⟨problemsIn entries, ?_, ?_, fun problem member => ?_⟩
    · rw [eq_of_ofValue_error refused]
    · rw [problemsIn, List.map_append, Setting.keys_problems distinct, keys_keyProblems]
    · obtain ⟨value, inside, alone⟩ := exists_entry_of_mem_problemsIn member
      exact ⟨value, inside, ofValue_map_error alone⟩

end

def manyProblems : String := "indent: -1\n1: a\nlog_level: LOUD\n"

def manyEntries : Entries :=
  [(.text "indent", .int (-1)), (.int 1, .text "a"), (.text "log_level", .text "LOUD")]

theorem manyProblems_hold : Holds (holding manyProblems) (.ofText "/work") none
    (.map manyEntries) := by
  have denotes : Yaml.Denotes manyProblems.toList (.mapping .mapping
      [(.scalar .text "indent".toList, .scalar .int "-1".toList),
        (.scalar .int ['1'], .scalar .text ['a']),
        (.scalar .text "log_level".toList, .scalar .text "LOUD".toList)]) := by
    refine ⟨by decide +kernel, [.blockMappingStart, .key, .scalar true "indent".toList, .value,
      .scalar true "-1".toList, .key, .scalar true ['1'], .value, .scalar true ['a'], .key,
      .scalar true "log_level".toList, .value, .scalar true "LOUD".toList, .blockEnd],
        by decide +kernel, rfl⟩
  refine ⟨_, manyProblems.toList, ⟨by decide +kernel, by decide +kernel, rfl⟩,
    by decide +kernel, ?_⟩
  exact denotes.read_eq

theorem manyProblems_fieldwise :
    Holds (holding manyProblems) (.ofText "/work") none (.map manyEntries) ∧
      ∃ file problems, (load (holding manyProblems) (.ofText "/work") none).1 =
          .error (.defect file (.invalid problems)) ∧
        problems.map (·.key) = [.text "log_level", .text "indent", .int 1] := by
  obtain ⟨succeeds, -, fails⟩ := load_fieldwise manyProblems_hold
  refine ⟨manyProblems_hold, ?_⟩
  cases loaded : (load (holding manyProblems) (.ofText "/work") none).1 with
  | ok config =>
    have accepted := (succeeds.mp ⟨config, loaded⟩ _ List.mem_cons_self).2
    nomatch accepted
  | error failure =>
    obtain ⟨problems, rfl, keys, -⟩ := fails failure loaded
    exact ⟨_, problems, rfl, keys⟩

end Config
end TemplateActions
