import Mathlib.Data.List.Induction
import TemplateActions.Proofs.Yaml.Plain
import TemplateActions.Proofs.Yaml.Quoted
import TemplateActions.Proofs.Yaml.Remainders

/-!
How tokens of JSON text are read. Reading goes from one state to the next; what comes out depends
on the kinds of the open collections, on the tokens so far and on the text that is visible behind
white space. Positions matter only for keys: a key is one only if its text stays on one line and
is not too long.
-/
namespace TemplateActions.Yaml

namespace Layout

/-- Reading from a state comes to a result, given a unit of fuel for each character. -/
def Reads (s : Layout) (result : Except Failure (List Token)) : Prop :=
  ∀ fuel, s.rest.length < fuel → run fuel s = result

/-- No block collection is open, and no key has to follow. -/
structure Calm (s : Layout) : Prop where
  columns : s.columns = []
  keys : ∀ level ∈ s.level :: s.outer, ∀ key ∈ level.key, key.required = false

def contexts (s : Layout) : List Context := (s.level :: s.outer).map Level.context

def visible (flow : Bool) (text : List Char) : List Char := (skip flow false text).2

def isFlow : List Context → Bool
  | [] => false
  | context :: _ => context != .block

/-- A state in which those collections are open, with those tokens, the latest first, and that text
behind white space. If a key is expected it may start there. -/
structure At (contexts : List Context) (tokens : List Token) (text : List Char) (key : Bool)
    (s : Layout) : Prop where
  contexts : s.contexts = contexts
  tokens : s.tokens = tokens
  text : visible s.inFlow s.rest = text
  key : key = true → s.keyAllowed = true
  calm : s.Calm

/-- From every such state reading comes to that result. -/
def Comes (contexts : List Context) (tokens : List Token) (text : List Char) (key : Bool)
    (result : Except Failure (List Token)) : Prop :=
  ∀ s, At contexts tokens text key s → s.Reads result

theorem visible_mark {c : Char} (flow : Bool) (isMark : c = ',' ∨ c = ']' ∨ c = '\x7d')
    (rest : List Char) : visible flow (c :: rest) = c :: rest := by
  rcases isMark with rfl | rfl | rfl <;> simp [visible, skip, isBreak]

end Layout

theorem Behind.visible_eq {flow : Bool} {tail text : List Char} (h : Behind flow tail text) :
    Layout.visible flow text = text := by
  cases h with
  | ends => rfl
  | mark _ isMark => exact Layout.visible_mark _ isMark _

theorem Behind.length_le {flow : Bool} {tail text : List Char} (h : Behind flow tail text) :
    text.length ≤ tail.length := by
  cases h with
  | ends => exact Nat.le_refl _
  | mark => simp

namespace Layout

def prepared (s : Layout) : Layout :=
  { s.skipBlank with
    level := s.skipBlank.expireLevel s.skipBlank.level
    outer := s.skipBlank.outer.map s.skipBlank.expireLevel }

theorem inFlow_eq (s : Layout) : s.inFlow = isFlow s.contexts := rfl

@[simp] theorem skipBlank_level (s : Layout) : s.skipBlank.level = s.level := rfl

theorem expireKeys_of_calm {s : Layout} (calm : s.Calm) :
    s.expireKeys = .ok { s with
      level := s.expireLevel s.level
      outer := s.outer.map s.expireLevel } := by
  rw [expireKeys, if_neg]
  simp only [List.any_eq_true, isOverdue, Option.any_eq_true, Bool.and_eq_true, not_exists, not_and]
  intro level member key isKey required
  exact absurd (required.symm.trans (calm.keys level member key isKey)) (by decide)

theorem Calm.without_columns {s : Layout} (calm : s.Calm) : { s with columns := [] } = s := by
  rw [← calm.columns]

theorem closeBlocks_of_calm {s : Layout} (calm : s.Calm) : s.closeBlocks = s := by
  rw [closeBlocks, calm.columns]
  split
  · rfl
  · exact calm.without_columns

theorem closeAllBlocks_of_calm {s : Layout} (calm : s.Calm) : s.closeAllBlocks = s := by
  rw [closeAllBlocks, calm.columns]
  split
  · rfl
  · exact calm.without_columns

theorem Calm.skipBlank {s : Layout} (calm : s.Calm) : s.skipBlank.Calm :=
  ⟨calm.columns, calm.keys⟩

theorem mem_filter_key {s : Layout} {level : Level} {key : KeyCandidate}
    (member : key ∈ (s.expireLevel level).key) : key ∈ level.key := by
  rw [expireLevel] at member
  exact (Option.mem_filter_iff.mp member).1

theorem Calm.prepared {s : Layout} (calm : s.Calm) : s.prepared.Calm where
  columns := calm.columns
  keys := by
    intro level member key isKey
    rw [Layout.prepared, List.mem_cons, List.mem_map] at member
    rcases member with rfl | ⟨before, member, rfl⟩
    · exact calm.keys _ List.mem_cons_self key (mem_filter_key isKey)
    · exact calm.keys _ (List.mem_cons_of_mem _ member) key (mem_filter_key isKey)

theorem run_succ {s : Layout} (calm : s.Calm) (fuel : Nat) :
    run (fuel + 1) s =
      match s.prepared.rest with
      | [] => s.prepared.finish
      | c :: rest =>
        match s.prepared.token s.holdsTokens c rest with
        | .error e => .error e
        | .ok next => run fuel next := by
  rw [run, expireKeys_of_calm calm.skipBlank]
  dsimp only
  rw [← prepared, closeBlocks_of_calm calm.prepared]
  rfl

section

variable {contexts : List Context} {tokens : List Token} {text rest : List Char} {key : Bool}
  {result : Except Failure (List Token)} {s : Layout}

theorem At.prepared (h : At contexts tokens text key s) :
    s.prepared.rest = text ∧ s.prepared.tokens = tokens ∧ s.prepared.contexts = contexts ∧
      (key = true → s.prepared.keyAllowed = true) ∧ s.prepared.Calm := by
  refine ⟨h.text, h.tokens, ?_, fun isKey => ?_, h.calm.prepared⟩
  · rw [← h.contexts, Layout.prepared, Layout.contexts, Layout.contexts, List.map_cons,
      List.map_cons,
      List.map_map]
    rfl
  · rw [Layout.prepared, Layout.skipBlank]
    simp [moveTo, h.key isKey]

/-- Reading goes on behind a token that takes at least one character. -/
theorem reads_token {next : Layout} {c : Char} (h : At contexts tokens (c :: rest) key s)
    (step : s.prepared.token s.holdsTokens c rest = .ok next)
    (shorter : next.rest.length ≤ rest.length)
    (later : next.Reads result) : s.Reads result := by
  intro fuel enough
  obtain ⟨isText, -⟩ := h.prepared
  have taken : rest.length < s.rest.length := by
    have := (skip_suffix s.inFlow false s.rest).length_le
    have same := h.text
    rw [visible] at same
    rw [same, List.length_cons] at this
    omega
  obtain _ | fuel := fuel
  · omega
  · rw [run_succ h.calm, isText]
    dsimp only
    rw [step]
    exact later fuel (by omega)

theorem reads_failure {c : Char} {failure : Failure} (h : At contexts tokens (c :: rest) key s)
    (step : s.prepared.token s.holdsTokens c rest = .error failure) : s.Reads (.error failure) := by
  intro fuel enough
  obtain ⟨isText, -⟩ := h.prepared
  obtain _ | fuel := fuel
  · omega
  · rw [run_succ h.calm, isText]
    dsimp only
    rw [step]

def saved (s : Layout) : Layout :=
  if s.keyAllowed then
    { s with level := { s.level with key := some ⟨s.tokens.length, s.position, false⟩ } }
  else s

theorem dropKey_of_calm (calm : s.Calm) : s.dropKey = .ok s.forgetKey := by
  rw [dropKey, if_neg]
  rw [Option.any_eq_true]
  rintro ⟨key, isKey, required⟩
  exact absurd (required.symm.trans (calm.keys _ List.mem_cons_self key isKey)) (by decide)

theorem saveKey_of_calm (calm : s.Calm) : s.saveKey = .ok s.saved := by
  rw [saveKey, saved, dropKey_of_calm calm]
  have columns : s.forgetKey.columns = [] := calm.columns
  split
  · simp only [columns, List.head?_nil]
    simp [forgetKey, calm.columns]
  · rfl

theorem saved_of_allowed (s : Layout) (allowed : s.keyAllowed = true) :
    s.saved =
      { s with level := { s.level with key := some ⟨s.tokens.length, s.position, false⟩ } } :=
  if_pos allowed

theorem saved_tokens (s : Layout) : s.saved.tokens = s.tokens := by
  rw [saved]
  split <;> rfl

theorem saved_contexts (s : Layout) : s.saved.contexts = s.contexts := by
  rw [saved]
  split <;> rfl

theorem Calm.saved (calm : s.Calm) : s.saved.Calm := by
  rw [Layout.saved]
  split
  · refine ⟨calm.columns, List.forall_mem_cons.mpr ⟨?_, ?_⟩⟩
    · rintro _ ⟨⟩
      rfl
    · exact fun level member => calm.keys level (List.mem_cons_of_mem _ member)
  · exact calm

theorem Calm.forgetKey (calm : s.Calm) : s.forgetKey.Calm := by
  refine ⟨calm.columns, List.forall_mem_cons.mpr ⟨nofun, ?_⟩⟩
  exact fun level member => calm.keys level (List.mem_cons_of_mem _ member)

def opened (s : Layout) (context : Context) (token : Token) (rest : List Char) : Layout :=
  { s.saved.emitTo token rest with
    level := ⟨context, none⟩, outer := s.saved.level :: s.saved.outer, keyAllowed := true }

theorem openFlow_of_calm (calm : s.Calm) (context : Context) (token : Token) (rest : List Char) :
    s.openFlow context token rest = .ok (s.opened context token rest) := by
  rw [openFlow, saveKey_of_calm calm, opened]

theorem comes_open {c : Char} {context : Context} {token : Token} (inside : context ≠ .block)
    (isOpen : ∀ (s : Layout) (held : Bool), s.token held c rest = s.openFlow context token rest)
    (later : Comes (context :: contexts) (token :: tokens) (visible true rest) true result) :
    Comes contexts tokens (c :: rest) key result := by
  intro s h
  obtain ⟨-, isTokens, isContexts, -, calm⟩ := h.prepared
  have step := (isOpen s.prepared s.holdsTokens).trans (openFlow_of_calm calm context token rest)
  refine reads_token h step (Nat.le_refl _) (later _ ?_)
  have inFlow : (s.prepared.opened context token rest).inFlow = true := by
    simp [opened, inFlow_eq, isFlow, Layout.contexts, inside]
  refine ⟨?_, ?_, ?_, fun _ => rfl, ⟨calm.saved.columns, ?_⟩⟩
  · exact congrArg (context :: ·) ((saved_contexts _).trans isContexts)
  · exact congrArg (token :: ·) ((saved_tokens _).trans isTokens)
  · rw [inFlow]
    rfl
  · exact List.forall_mem_cons.mpr ⟨nofun, calm.saved.keys⟩

theorem comes_close {c : Char} {context : Context} {token : Token} (nested : contexts ≠ [])
    (isClose : ∀ (s : Layout) (held : Bool), s.token held c rest = s.closeFlow token rest)
    (later : Comes contexts (token :: tokens) (visible (isFlow contexts) rest) false result) :
    Comes (context :: contexts) tokens (c :: rest) key result := by
  intro s h
  obtain ⟨-, isTokens, isContexts, -, calm⟩ := h.prepared
  rw [Layout.contexts, List.map_cons, List.cons.injEq] at isContexts
  obtain ⟨level, outer, isOuter⟩ : ∃ level outer, s.prepared.outer = level :: outer := by
    refine List.exists_cons_of_ne_nil fun none => nested ?_
    rw [← isContexts.2, none, List.map_nil]
  have step := isClose s.prepared s.holdsTokens
  rw [closeFlow, isOuter] at step
  refine reads_token h step (Nat.le_refl _) (later _ ?_)
  rw [isOuter] at isContexts
  refine ⟨isContexts.2, congrArg (token :: ·) isTokens, ?_, nofun, ⟨calm.columns, ?_⟩⟩
  · exact congrArg (fun contexts => visible (isFlow contexts) rest) isContexts.2
  · intro level' member
    exact calm.keys level' (List.mem_cons_of_mem _ (isOuter ▸ member))

theorem comes_entry (flow : isFlow contexts = true)
    (later : Comes contexts (.flowEntry :: tokens) (visible true rest) true result) :
    Comes contexts tokens (',' :: rest) key result := by
  intro s h
  obtain ⟨-, isTokens, isContexts, -, calm⟩ := h.prepared
  have isEntry : s.prepared.token s.holdsTokens ',' rest = s.prepared.flowEntry rest := by
    simp [token, atMarker_cons_of_ne]
  rw [flowEntry, dropKey_of_calm calm] at isEntry
  refine reads_token h isEntry (Nat.le_refl _) (later _ ?_)
  refine ⟨isContexts, congrArg (_ :: ·) isTokens, ?_, fun _ => rfl, ?_⟩
  · refine (congrArg (fun contexts => visible (isFlow contexts) rest) isContexts).trans ?_
    rw [flow]
  · exact ⟨calm.forgetKey.columns, calm.forgetKey.keys⟩

def filled (s : Layout) (token : Token) (rest : List Char) : Layout :=
  { s.saved.emitTo token rest with keyAllowed := false }

theorem content_of_calm (calm : s.Calm) (token : Token) (rest : List Char) :
    s.content (some (token, rest)) = .ok (s.filled token rest) := by
  simp only [content, saveKey_of_calm calm, filled]

theorem at_filled (calm : s.Calm) (isContexts : s.contexts = contexts)
    (isTokens : s.tokens = tokens)
    (token : Token) (rest : List Char) (lineStart : Bool) :
    At contexts (token :: tokens) (visible (isFlow contexts) rest) false
      { s.filled token rest with keyAllowed := lineStart } := by
  have isContexts' : s.saved.contexts = contexts := (saved_contexts s).trans isContexts
  refine ⟨isContexts', congrArg (token :: ·) ((saved_tokens s).trans isTokens), ?_, nofun,
    ⟨calm.saved.columns, calm.saved.keys⟩⟩
  exact congrArg (fun contexts => visible (isFlow contexts) rest) isContexts'

theorem token_quoted (s : Layout) (held : Bool) (rest : List Char) :
    s.token held '"' rest = s.quoted '"' rest := by
  simp [token, atMarker_cons_of_ne]

theorem reads_string {string tail : List Char}
    (h : At contexts tokens ('"' :: Quoted.written string tail) key s)
    (later : ∀ read ∈ Quoted.reread? .none string,
      (s.prepared.filled (.scalar false read) tail).Reads result)
    (malformed : Quoted.reread? .none string = none → result = .error .malformed) :
    s.Reads result := by
  obtain ⟨-, -, -, -, calm⟩ := h.prepared
  have step := token_quoted s.prepared s.holdsTokens (Quoted.written string tail)
  rw [quoted, Quoted.read_written] at step
  cases isRead : Quoted.reread? .none string with
  | none =>
    rw [isRead] at step
    rw [malformed isRead]
    exact reads_failure h step
  | some read =>
    rw [isRead] at step
    dsimp only at step
    rw [content_of_calm calm] at step
    refine reads_token h step ?_ (later read isRead)
    rw [Quoted.written_append, List.length_append]
    exact Nat.le_add_left _ _

theorem comes_string (string tail : List Char)
    (later : ∀ read ∈ Quoted.reread? .none string,
      Comes contexts (.scalar false read :: tokens) (visible (isFlow contexts) tail) false result)
    (malformed : Quoted.reread? .none string = none → result = .error .malformed) :
    Comes contexts tokens ('"' :: Quoted.written string tail) key result := by
  intro s h
  obtain ⟨-, isTokens, isContexts, -, calm⟩ := h.prepared
  refine reads_string h (fun read isRead => later read isRead _ ?_) malformed
  exact at_filled calm isContexts isTokens _ tail false

inductive StartsWord : List Char → Prop
  | plain {c : Char} {rest : List Char} : c.isAlphanum = true → StartsWord (c :: rest)
  | signed {c : Char} {rest : List Char} : c.isAlphanum = true → StartsWord ('-' :: c :: rest)

theorem ne_of_isAlphanum {c d : Char} (h : c.isAlphanum = true) (other : d.isAlphanum = false) :
    c ≠ d := by
  rintro rfl
  exact Bool.false_ne_true (other.symm.trans h)

theorem token_plain (s : Layout) (held : Bool) {c : Char} (starts : StartsWord (c :: rest)) :
    s.token held c rest = s.plain := by
  generalize isText : c :: rest = text at starts
  cases starts with
  | plain alphanumeric =>
    cases isText
    have other : ∀ d ∈ ['%', '-', '.', '[', '\x7b', ']', '\x7d', ',', '?', ':', '*', '&', '!',
      '|', '>', '\'',
        '"', '#', '@', '`', ' ', '\t', '\n', '\u2028', '\u2029'], c ≠ d := by
      have others : ∀ d ∈ ['%', '-', '.', '[', '\x7b', ']', '\x7d', ',', '?', ':', '*', '&',
          '!', '|', '>',
          '\'', '"', '#', '@', '`', ' ', '\t', '\n', '\u2028', '\u2029'], d.isAlphanum = false :=
        List.all_iff_forall_prop.mp (by decide)
      exact fun d member => ne_of_isAlphanum alphanumeric (others d member)
    simp only [List.forall_mem_cons, List.not_mem_nil, false_implies, implies_true,
      and_true] at other
    simp [token, atMarker_cons_of_ne, other, Plain.starts, Plain.isIndicator,
      Plain.isBracket, isBlank,
      isSpace, isBreak]
  | @signed d more alphanumeric =>
    cases isText
    have other : ∀ e ∈ ['-', ' ', '\t', '\n', '\u2028', '\u2029'], d ≠ e := by
      have others : ∀ e ∈ ['-', ' ', '\t', '\n', '\u2028', '\u2029'], e.isAlphanum = false :=
        List.all_iff_forall_prop.mp (by decide)
      exact fun e member => ne_of_isAlphanum alphanumeric (others e member)
    simp only [List.forall_mem_cons, List.not_mem_nil, false_implies, implies_true,
      and_true] at other
    have unmarked : atMarker '-' ('-' :: d :: more) = false := by
      refine Bool.eq_false_iff.mpr fun marked => ?_
      obtain ⟨_, same, -⟩ := atMarker_iff.mp marked
      exact other.1 (List.cons.inj (List.cons.inj same).2).1
    simp [token, unmarked, atMarker_cons_of_ne, other, atWordEnd, Plain.starts,
      Plain.startsBlank, isBlank,
      isSpace, isBreak]

theorem StartsWord.append {word : List Char} (h : StartsWord word) (tail : List Char) :
    StartsWord (word ++ tail) := by
  cases h with
  | plain alphanumeric => exact .plain alphanumeric
  | signed alphanumeric => exact .signed alphanumeric

theorem comes_word {word tail text : List Char} (isWord : ∀ c ∈ word, Json.isWordChar c)
    (starts : StartsWord word) (behind : Behind (isFlow contexts) tail text)
    (later : Comes contexts (.scalar true word :: tokens) text false result) :
    Comes contexts tokens (word ++ tail) key result := by
  intro s h
  obtain ⟨isText, isTokens, isContexts, -, calm⟩ := h.prepared
  obtain ⟨c, word, rfl⟩ : ∃ c more, word = c :: more := by
    cases starts <;> exact ⟨_, _, rfl⟩
  have inFlow : s.prepared.inFlow = isFlow contexts := congrArg isFlow isContexts
  obtain ⟨lineStart, isRead⟩ := Plain.read_eq isWord (List.cons_ne_nil _ _) (inFlow ▸ behind)
    s.prepared.leastColumn
  have step := token_plain s.prepared s.holdsTokens (starts.append tail)
  rw [plain, isText, isRead, content_of_calm calm] at step
  have there := at_filled calm isContexts isTokens (.scalar true (c :: word)) text lineStart
  rw [behind.visible_eq] at there
  refine reads_token h step ?_ (later _ there)
  exact Nat.le_trans behind.length_le (List.length_append ▸ Nat.le_add_left _ _)

/-- Holds for the text of a key, quotes included, that may be followed by its colon: it stands on
one line and has not too many columns. -/
def isSimple (text : List Char) : Bool :=
  (Position.over ⟨0, 0⟩ text).line == 0 && (Position.over ⟨0, 0⟩ text).column ≤ keyLimit

theorem over_concat (p : Position) (text : List Char) (c : Char) :
    p.over (text ++ [c]) = (p.over text).next c := by
  simp [Position.over]

theorem over_eq (p : Position) (text : List Char) :
    ((Position.over ⟨0, 0⟩ text).line = 0 ∧
        p.over text = ⟨p.line, p.column + (Position.over ⟨0, 0⟩ text).column⟩) ∨
      ((Position.over ⟨0, 0⟩ text).line ≠ 0 ∧ p.line < (p.over text).line) := by
  induction text using List.reverseRecOn with
  | nil => exact .inl ⟨rfl, rfl⟩
  | append_singleton text c ih =>
    rw [over_concat, over_concat, Position.next, Position.next]
    by_cases broken : isBreak c
    · rw [if_pos broken, if_pos broken]
      refine .inr ⟨Nat.succ_ne_zero _, Nat.lt_succ_of_le ?_⟩
      rcases ih with ⟨-, same⟩ | ⟨-, later⟩
      · exact Nat.le_of_eq (congrArg Position.line same).symm
      · exact Nat.le_of_lt later
    · rw [if_neg broken, if_neg broken]
      by_cases mark : c == byteOrderMark
      · rwa [if_pos mark, if_pos mark]
      · rw [if_neg mark, if_neg mark]
        refine ih.imp (fun ⟨first, same⟩ => ⟨first, ?_⟩) id
        rw [same, Nat.add_assoc]

theorem isFresh_eq {start : Position} {text : List Char} (ends : s.position = start.over text)
    (count : Nat) (required : Bool) : s.isFresh ⟨count, start, required⟩ = isSimple text := by
  rw [isFresh, isSimple, ends]
  dsimp only
  rcases over_eq start text with ⟨sameLine, same⟩ | ⟨otherLine, later⟩
  · simp [same, sameLine]
  · have other : (start.line == (start.over text).line) = false := by
      rw [beq_eq_false_iff_ne]
      omega
    simp [other, otherLine]

def behindKey (text read : List Char) (tokens : List Token) : List Token :=
  .value :: .scalar false read :: if isSimple text then .key :: tokens else tokens

theorem insertAfter_tokens {last : Token} (isTokens : s.tokens = last :: tokens) (token : Token) :
    (s.insertAfter tokens.length token).tokens = last :: token :: tokens := by
  simp [insertAfter, isTokens]

theorem value_of_key {candidate : KeyCandidate} (flow : s.inFlow = true)
    (isKey : s.level.key = some candidate) (rest : List Char) :
    s.value rest = .ok { (s.forgetKey.insertAfter candidate.tokens .key).emitTo .value rest with
      keyAllowed := false } := by
  rw [value, isKey]
  dsimp only
  rw [if_neg (by simp [flow])]

theorem value_of_none (flow : s.inFlow = true) (isKey : s.level.key = none) (rest : List Char) :
    s.value rest = .ok { s.emitTo .value rest with keyAllowed := false } := by
  rw [value, isKey]
  dsimp only
  rw [openMapping, if_pos flow]
  simp only [flow, Bool.not_true]

/-- A colon makes a key of the string in front of it, if that is simple. -/
theorem reads_colon {read : List Char} {start : Position}
    (h : At (.flowMapping :: contexts) (.scalar false read :: tokens) (':' :: ' ' :: rest) key s)
    (raw : s.rest = ':' :: ' ' :: rest)
    (candidate : s.level.key = some ⟨tokens.length, start, false⟩)
    (ends : s.position = start.over text)
    (later : Comes (.flowMapping :: contexts) (behindKey text read tokens) (visible true rest) false
      result) :
    s.Reads result := by
  obtain ⟨isText, isTokens, isContexts, -, calm⟩ := h.prepared
  have isContext : s.prepared.level.context = .flowMapping := (List.cons.inj isContexts).1
  have unmoved : s.skipBlank.position = s.position := by
    simp [skipBlank, moveTo, raw, skip, isBreak, Position.over]
  have isKey : s.prepared.level.key =
      if isSimple text then some ⟨tokens.length, start, false⟩ else none := by
    rw [Layout.prepared]
    simp only [expireLevel, skipBlank_level, candidate, Option.filter_some]
    rw [isFresh_eq (unmoved.trans ends)]
  have inFlow : s.prepared.inFlow = true := by
    rw [inFlow_eq, isContexts]
    rfl
  have isValue :
      s.prepared.token s.holdsTokens ':' (' ' :: rest) = s.prepared.value (' ' :: rest) := by
    simp [token, atMarker_cons_of_ne, Layout.isValue, isContext, atWordEnd, isSpace]
  have skipped : visible true rest = visible true (' ' :: rest) := by
    simp [visible, skip]
  rw [skipped] at later
  cases simple : isSimple text with
  | true =>
    rw [simple, if_pos rfl] at isKey
    refine reads_token h (isValue.trans (value_of_key inFlow isKey _)) (Nat.le_refl _) (later _ ?_)
    refine ⟨isContexts, ?_, ?_, fun key => absurd key Bool.false_ne_true,
      ⟨calm.columns, calm.forgetKey.keys⟩⟩
    · rw [behindKey, simple, if_pos rfl]
      exact congrArg (Token.value :: ·) (insertAfter_tokens isTokens .key)
    · exact congrArg (fun contexts => visible (isFlow contexts) (' ' :: rest)) isContexts
  | false =>
    rw [simple, if_neg Bool.false_ne_true] at isKey
    refine reads_token h (isValue.trans (value_of_none inFlow isKey _)) (Nat.le_refl _) (later _ ?_)
    refine ⟨isContexts, ?_, ?_, fun key => absurd key Bool.false_ne_true,
      ⟨calm.columns, calm.keys⟩⟩
    · rw [behindKey, simple]
      exact congrArg (Token.value :: ·) isTokens
    · exact congrArg (fun contexts => visible (isFlow contexts) (' ' :: rest)) isContexts

theorem comes_key (name rest : List Char)
    (later : ∀ read ∈ Quoted.reread? .none name,
      Comes (.flowMapping :: contexts) (behindKey ('"' :: Quoted.written name []) read tokens)
        (visible true rest) false result)
    (malformed : Quoted.reread? .none name = none → result = .error .malformed) :
    Comes (.flowMapping :: contexts) tokens ('"' :: Quoted.written name (':' :: ' ' :: rest)) true
      result := by
  intro s h
  obtain ⟨isText, isTokens, isContexts, allowed, calm⟩ := h.prepared
  refine reads_string h (fun read isRead => ?_) malformed
  have there := at_filled calm isContexts isTokens (.scalar false read) (':' :: ' ' :: rest) false
  have colon : visible true (':' :: ' ' :: rest) = ':' :: ' ' :: rest := by
    simp [visible, skip, isBreak]
  have isSaved := s.prepared.saved_of_allowed (allowed rfl)
  have candidate : (s.prepared.filled (.scalar false read) (':' :: ' ' :: rest)).level.key =
      some ⟨tokens.length, s.prepared.position, false⟩ := by
    rw [← isTokens]
    simp only [filled, emitTo, emit, moveTo, isSaved]
  have ends : (s.prepared.filled (.scalar false read) (':' :: ' ' :: rest)).position =
      s.prepared.position.over ('"' :: Quoted.written name []) := by
    simp only [filled, emitTo, emit, moveTo, isSaved, isText]
    rw [Quoted.written_append name (':' :: ' ' :: rest), ← List.cons_append, List.length_append,
      Nat.add_sub_cancel, List.take_left]
  exact reads_colon (colon ▸ there) rfl candidate ends (later read isRead)

theorem comes_end : Comes [.block] tokens [] key (.ok tokens.reverse) := by
  intro s h fuel enough
  obtain ⟨isText, isTokens, isContexts, -, calm⟩ := h.prepared
  obtain _ | fuel := fuel
  · omega
  · rw [run_succ h.calm, isText]
    dsimp only
    rw [finish, closeAllBlocks_of_calm calm, dropKey_of_calm calm]
    exact congrArg (fun tokens => Except.ok tokens.reverse) isTokens

end

end Layout

end TemplateActions.Yaml
