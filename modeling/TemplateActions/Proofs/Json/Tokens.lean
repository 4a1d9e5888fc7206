import TemplateActions.Proofs.Yaml.Scanning

/-!
The tokens of JSON text. Brackets, commas and scalars give the tokens that one expects, with every
indent; a string that cannot be read makes the whole text malformed, and a name that is no simple
key lacks the token of a key.
-/
namespace TemplateActions.Json

open Yaml (Token Behind feed)
open Yaml.Layout (Comes isFlow StartsWord behindKey visible)

def IsReadable (s : String) : Prop := (Yaml.Quoted.reread? .none s.toList).isSome

def reread (s : String) : String :=
  String.ofList ((Yaml.Quoted.reread? .none s.toList).getD s.toList)

theorem reread?_eq_some {s : String} (readable : IsReadable s) :
    Yaml.Quoted.reread? .none s.toList = some (reread s).toList := by
  obtain ⟨read, isRead⟩ := Option.isSome_iff_exists.mp readable
  rw [reread, isRead, Option.getD_some, String.toList_ofList]

mutual

/-- All texts of a value, the names of members among them. -/
def texts : Json → List String
  | .text s => [s]
  | .array items => itemsTexts items
  | .object members => membersTexts members
  | _ => []

def itemsTexts : List Json → List String
  | [] => []
  | item :: rest => texts item ++ itemsTexts rest

def membersTexts : List (String × Json) → List String
  | [] => []
  | (name, value) :: rest => name :: texts value ++ membersTexts rest

end

def quoted (s : String) : List Char := '"' :: Yaml.Quoted.written s.toList []

def isSimpleName (name : String) : Bool := Yaml.Layout.isSimple (quoted name)

def nameTokens (name : String) : List Token :=
  (if isSimpleName name then [.key] else []) ++ [.scalar false (reread name).toList, .value]

mutual

def tokens : Json → List Token
  | .null => [.scalar true "null".toList]
  | .bool b => [.scalar true (if b then "true" else "false").toList]
  | .int n => [.scalar true (Decimal.intChars n)]
  | .float x => [.scalar true (DecimalStyle.document.chars x)]
  | .text s => [.scalar false (reread s).toList]
  | .array [] => [.flowSequenceStart, .flowSequenceEnd]
  | .array (item :: rest) => .flowSequenceStart :: tokens item ++ itemsTokens rest
  | .object [] => [.flowMappingStart, .flowMappingEnd]
  | .object ((name, value) :: rest) =>
    .flowMappingStart :: nameTokens name ++ tokens value ++ membersTokens rest

def itemsTokens : List Json → List Token
  | [] => [.flowSequenceEnd]
  | item :: rest => .flowEntry :: tokens item ++ itemsTokens rest

def membersTokens : List (String × Json) → List Token
  | [] => [.flowMappingEnd]
  | (name, value) :: rest => .flowEntry :: nameTokens name ++ tokens value ++ membersTokens rest

end

theorem isAlphanum_of_isDigit {c : Char} (digit : Decimal.isDigit c) : c.isAlphanum = true := by
  have : c.isDigit = true := by
    simpa [Decimal.isDigit, Char.isDigit, Char.le_def, UInt32.le_iff_toNat_le] using digit
  simp [Char.isAlphanum, this]

theorem startsWord_numeral {negative : Prop} [Decidable negative] {digits : List Char}
    (numeral : Decimal.IsNumeral digits) (rest : List Char) :
    StartsWord ((if negative then ['-'] else []) ++ (digits ++ rest)) := by
  obtain ⟨c, digits, rfl⟩ := List.exists_cons_of_ne_nil numeral.nonempty
  have first := isAlphanum_of_isDigit (numeral.digits c List.mem_cons_self)
  split
  · exact .signed first
  · exact .plain first

theorem startsWord_float (x : Binary64) : StartsWord (DecimalStyle.document.chars x) := by
  cases x with
  | finite negative significand exponent =>
    obtain ⟨whole, fraction, power, floating, written⟩ :=
      DecimalStyle.document.exists_isFloating_chars negative significand exponent
    rw [written, List.append_assoc]
    exact startsWord_numeral floating.isNumeral _
  | infinity negative =>
    cases negative
    · exact .plain rfl
    · exact .signed rfl
  | nan => exact .plain rfl

theorem startsWord_bool (b : Bool) : StartsWord (if b then "true" else "false").toList := by
  cases b <;> exact .plain rfl

theorem startsWord_int (n : Int) : StartsWord (Decimal.intChars n) := by
  rw [Decimal.intChars_eq, ← List.append_nil (Decimal.natChars _)]
  exact startsWord_numeral (Decimal.isNumeral_natChars _) []

def opens (c : Char) : Bool := c.isAlphanum || c == '-' || c == '"' || c == '[' || c == '\x7b'

theorem ne_of_opens {c d : Char} (h : opens c) (other : opens d = false) : c ≠ d := by
  rintro rfl
  exact Bool.false_ne_true (other.symm.trans h)

theorem visible_of_opens {c : Char} (h : opens c) (flow : Bool) (rest : List Char) :
    visible flow (c :: rest) = c :: rest := by
  have other : ∀ d ∈ [' ', '\t', '#', '\n', '\u2028', '\u2029'], c ≠ d := by
    have none : ∀ d ∈ [' ', '\t', '#', '\n', '\u2028', '\u2029'], opens d = false :=
      List.all_iff_forall_prop.mp (by decide)
    exact fun d member => ne_of_opens h (none d member)
  simp only [List.forall_mem_cons, List.not_mem_nil, false_implies, implies_true, and_true] at other
  simp [visible, Yaml.Layout.skip, Yaml.isBreak, other]

theorem opens_of_startsWord {word : List Char} (h : StartsWord word) :
    ∃ c rest, word = c :: rest ∧ opens c := by
  cases h with
  | plain alphanumeric => exact ⟨_, _, rfl, by simp [opens, alphanumeric]⟩
  | signed _ => exact ⟨_, _, rfl, rfl⟩

theorem exists_chars_eq_cons (indent : Option Int) (depth : Nat) (value : Json) :
    ∃ c rest, chars indent depth value = c :: rest ∧ opens c := by
  cases value with
  | null => exact ⟨_, _, rfl, rfl⟩
  | bool b => exact opens_of_startsWord (startsWord_bool b)
  | int n => exact opens_of_startsWord (startsWord_int n)
  | float x => exact opens_of_startsWord (startsWord_float x)
  | text s => exact ⟨_, _, rfl, rfl⟩
  | array items => cases items <;> exact ⟨_, _, rfl, rfl⟩
  | object members =>
    obtain _ | ⟨⟨name, value⟩, rest⟩ := members <;> exact ⟨_, _, rfl, rfl⟩

theorem visible_chars (indent : Option Int) (depth : Nat) (value : Json) (flow : Bool)
    (tail : List Char) : visible flow ((chars indent depth value).map feed ++ tail) =
      (chars indent depth value).map feed ++ tail := by
  obtain ⟨c, rest, isText, start⟩ := exists_chars_eq_cons indent depth value
  rw [isText, List.map_cons, Yaml.feed_eq (ne_of_opens start rfl), List.cons_append,
    visible_of_opens start]

theorem visible_stringChars (s : String) (flow : Bool) (tail : List Char) :
    visible flow ((stringChars s).map feed ++ tail) = (stringChars s).map feed ++ tail :=
  visible_chars none 0 (.text s) flow tail

theorem visible_blanks (flow : Bool) (n : Nat) (text : List Char) :
    visible flow (List.replicate n ' ' ++ text) = visible flow text := by
  induction n with
  | zero => rfl
  | succ n ih => simpa [visible, List.replicate_succ, Yaml.Layout.skip] using ih

theorem visible_lineBreak (flow : Bool) (indent : Option Int) (depth : Nat) (text : List Char) :
    visible flow (lineBreak indent depth ++ text) = visible flow text := by
  cases indent with
  | none => rfl
  | some width =>
    rw [← visible_blanks flow (width * depth).toNat text, lineBreak, Indent.blanks]
    simp [visible, Yaml.Layout.skip, Yaml.isBreak]

theorem visible_behind {flow : Bool} {tail text : List Char} (h : Behind flow tail text) :
    visible flow tail = text := by
  cases h with
  | ends => rfl
  | mark _ isMark => rw [visible_lineBreak, Yaml.Layout.visible_mark flow isMark]

theorem visible_separator (indent : Option Int) (depth : Nat) (text : List Char) :
    ∃ gap, separator indent depth = ',' :: gap ∧ visible true (gap ++ text) =
      visible true text := by
  cases indent with
  | none => exact ⟨[' '], rfl, visible_blanks true 1 text⟩
  | some width => exact ⟨_, rfl, visible_lineBreak true (some width) depth text⟩

theorem map_feed_lineBreak (indent : Option Int) (depth : Nat) :
    (lineBreak indent depth).map feed = lineBreak indent depth := by
  refine Yaml.map_feed_eq fun member => ?_
  cases indent with
  | none => nomatch member
  | some width =>
    rcases List.mem_cons.mp member with same | member
    · exact absurd same (by decide)
    · exact absurd (List.eq_of_mem_replicate member) (by decide)

theorem map_feed_separator (indent : Option Int) (depth : Nat) :
    (separator indent depth).map feed = separator indent depth := by
  cases indent with
  | none => rfl
  | some width =>
    rw [separator, List.map_cons, map_feed_lineBreak, Yaml.feed_eq (by decide)]

theorem map_feed_word {word : List Char} (isWord : ∀ c ∈ word, isWordChar c) :
    word.map feed = word :=
  Yaml.map_feed_eq fun member => absurd (isWord _ member) (by decide)

theorem map_feed_stringChars (s : String) (tail : List Char) :
    (stringChars s).map feed ++ tail = '"' :: Yaml.Quoted.written s.toList tail := by
  simp [stringChars, Yaml.Quoted.written, feed]

section

variable {contexts : List Yaml.Context} {before : List Token} {tail text : List Char} {key : Bool}
  {result : Except Yaml.Failure (List Token)} {indent : Option Int} {depth : Nat}

/-- Reading comes to the same result behind tokens if some texts can be read, and fails otherwise.
-/
structure Continues (contexts : List Yaml.Context) (tokens : List Token) (text : List Char)
    (texts : List String) (result : Except Yaml.Failure (List Token)) : Prop where
  later : (∀ s ∈ texts, IsReadable s) → Comes contexts tokens text false result
  malformed : ∀ s ∈ texts, ¬ IsReadable s → result = .error .malformed

theorem Continues.first {contexts' : List Yaml.Context} {tokens before : List Token}
    {text text' : List Char}
    {texts more : List String} (h : Continues contexts tokens text (texts ++ more) result)
    (step : Continues contexts tokens text more result →
      Comes contexts' before text' false result) :
    Continues contexts' before text' texts result where
  later readable := step
    ⟨fun others => h.later (List.forall_mem_append.mpr ⟨readable, others⟩),
      fun s member => h.malformed s (List.mem_append_right _ member)⟩
  malformed s member := h.malformed s (List.mem_append_left _ member)

theorem comes_text (s : String)
    (h : Continues contexts (.scalar false (reread s).toList :: before)
      (visible (isFlow contexts) tail)
      [s] result) :
    Comes contexts before ((stringChars s).map feed ++ tail) key result := by
  rw [map_feed_stringChars]
  refine Yaml.Layout.comes_string _ _ (fun read isRead => ?_) fun unread => ?_
  · have readable : IsReadable s := Option.isSome_iff_exists.mpr ⟨read, isRead⟩
    cases (reread?_eq_some readable).symm.trans isRead
    exact h.later (List.forall_mem_singleton.mpr readable)
  · refine h.malformed s List.mem_cons_self ?_
    rw [IsReadable, unread]
    exact Bool.false_ne_true

theorem behindKey_eq (name : String) (tokens : List Token) :
    behindKey (quoted name) (reread name).toList tokens = (nameTokens name).reverse ++ tokens := by
  rw [behindKey, nameTokens, isSimpleName]
  split <;> rfl

theorem comes_name (name : String)
    (h : Continues (.flowMapping :: contexts) ((nameTokens name).reverse ++ before)
      (visible true tail)
      [name] result) :
    Comes (.flowMapping :: contexts) before
      ((stringChars name).map feed ++ ':' :: ' ' :: tail) true result := by
  rw [map_feed_stringChars]
  refine Yaml.Layout.comes_key _ _ (fun read isRead => ?_) fun unread => ?_
  · have readable : IsReadable name := Option.isSome_iff_exists.mpr ⟨read, isRead⟩
    cases (reread?_eq_some readable).symm.trans isRead
    have later := h.later (List.forall_mem_singleton.mpr readable)
    rwa [← behindKey_eq] at later
  · refine h.malformed name List.mem_cons_self ?_
    rw [IsReadable, unread]
    exact Bool.false_ne_true

theorem behind_mark {c : Char} (isMark : c = ',' ∨ c = ']' ∨ c = '\x7d') (rest : List Char) :
    Behind true (lineBreak indent depth ++ c :: rest)
      (visible true (lineBreak indent depth ++ c :: rest)) := by
  rw [visible_lineBreak, Yaml.Layout.visible_mark true isMark]
  exact .mark rfl isMark

theorem behind_separator (rest : List Char) :
    Behind true (separator indent depth ++ rest)
      (visible true (separator indent depth ++ rest)) := by
  obtain ⟨gap, isSeparator, -⟩ := visible_separator indent depth rest
  rw [isSeparator]
  have marked : Behind true (lineBreak none 0 ++ ',' :: (gap ++ rest)) _ := behind_mark (.inl rfl) _
  exact marked

theorem comes_separator (flow : isFlow contexts = true) (rest : List Char)
    (h : Comes contexts (.flowEntry :: before) (visible true rest) true result) :
    Comes contexts before (visible true (separator indent depth ++ rest)) key result := by
  obtain ⟨gap, isSeparator, unseen⟩ := visible_separator indent depth rest
  rw [isSeparator, List.cons_append, Yaml.Layout.visible_mark true (.inl rfl)]
  rw [← unseen] at h
  exact Yaml.Layout.comes_entry flow h

theorem comes_openSequence {text : List Char}
    (h : Comes (.flowSequence :: contexts) (.flowSequenceStart :: before)
      (visible true text) true result) : Comes contexts before ('[' :: text) key result := by
  have inside : Yaml.Context.flowSequence ≠ .block := by decide
  refine Yaml.Layout.comes_open inside (fun s held => ?_) h
  simp [Yaml.Layout.token, Yaml.atMarker_cons_of_ne]

theorem comes_openMapping {text : List Char}
    (h : Comes (.flowMapping :: contexts) (.flowMappingStart :: before)
      (visible true text) true result) : Comes contexts before ('\x7b' :: text) key result := by
  have inside : Yaml.Context.flowMapping ≠ .block := by decide
  refine Yaml.Layout.comes_open inside (fun s held => ?_) h
  simp [Yaml.Layout.token, Yaml.atMarker_cons_of_ne]

theorem comes_closeSequence (nested : contexts ≠ [])
    (h : Comes contexts (.flowSequenceEnd :: before)
      (visible (isFlow contexts) tail) false result) :
    Comes (.flowSequence :: contexts) before (']' :: tail) key result := by
  refine Yaml.Layout.comes_close nested (fun s held => ?_) h
  simp [Yaml.Layout.token, Yaml.atMarker_cons_of_ne]

theorem comes_closeMapping (nested : contexts ≠ [])
    (h : Comes contexts (.flowMappingEnd :: before) (visible (isFlow contexts) tail) false result) :
    Comes (.flowMapping :: contexts) before ('\x7d' :: tail) key result := by
  refine Yaml.Layout.comes_close nested (fun s held => ?_) h
  simp [Yaml.Layout.token, Yaml.atMarker_cons_of_ne]

def itemsTail (indent : Option Int) (depth : Nat) (items : List Json) (tail : List Char) :
    List Char :=
  (itemsChars indent (depth + 1) items).map feed ++ (lineBreak indent depth ++ ']' :: tail)

def membersTail (indent : Option Int) (depth : Nat) (members : List (String × Json))
    (tail : List Char) : List Char :=
  (membersChars indent (depth + 1) members).map feed ++ (lineBreak indent depth ++ '\x7d' :: tail)

theorem chars_array_nil (tail : List Char) :
    (chars indent depth (.array [])).map feed ++ tail = '[' :: ']' :: tail := rfl

theorem chars_object_nil (tail : List Char) :
    (chars indent depth (.object [])).map feed ++ tail = '\x7b' :: '\x7d' :: tail := rfl

theorem itemsTail_nil (tail : List Char) :
    itemsTail indent depth [] tail = lineBreak indent depth ++ ']' :: tail := rfl

theorem membersTail_nil (tail : List Char) :
    membersTail indent depth [] tail = lineBreak indent depth ++ '\x7d' :: tail := rfl

theorem itemsTail_cons (item : Json) (rest : List Json) (tail : List Char) :
    itemsTail indent depth (item :: rest) tail = separator indent (depth + 1) ++
      ((chars indent (depth + 1) item).map feed ++ itemsTail indent depth rest tail) := by
  simp only [itemsTail, itemsChars, List.map_append, map_feed_separator, List.append_assoc]

theorem chars_array_cons (item : Json) (rest : List Json) (tail : List Char) :
    (chars indent depth (.array (item :: rest))).map feed ++ tail = '[' ::
      (lineBreak indent (depth + 1) ++
        ((chars indent (depth + 1) item).map feed ++ itemsTail indent depth rest tail)) := by
  simp [chars, itemsTail, map_feed_lineBreak, feed]

theorem behind_itemsTail (items : List Json) (tail : List Char) :
    Behind true (itemsTail indent depth items tail)
      (visible true (itemsTail indent depth items tail)) := by
  cases items with
  | nil => exact behind_mark (.inr (.inl rfl)) tail
  | cons item rest =>
    rw [itemsTail_cons]
    exact behind_separator _

theorem membersTail_cons (name : String) (value : Json) (rest : List (String × Json))
    (tail : List Char) :
    membersTail indent depth ((name, value) :: rest) tail = separator indent (depth + 1) ++
      ((stringChars name).map feed ++ ':' :: ' ' ::
        ((chars indent (depth + 1) value).map feed ++ membersTail indent depth rest tail)) := by
  simp [membersTail, membersChars, map_feed_separator, feed]

theorem chars_object_cons (name : String) (value : Json) (rest : List (String × Json))
    (tail : List Char) :
    (chars indent depth (.object ((name, value) :: rest))).map feed ++ tail = '\x7b' ::
      (lineBreak indent (depth + 1) ++ ((stringChars name).map feed ++ ':' :: ' ' ::
        ((chars indent (depth + 1) value).map feed ++ membersTail indent depth rest tail))) := by
  simp [chars, membersTail, map_feed_lineBreak, feed]

theorem behind_membersTail (members : List (String × Json)) (tail : List Char) :
    Behind true (membersTail indent depth members tail)
      (visible true (membersTail indent depth members tail)) := by
  cases members with
  | nil => exact behind_mark (.inr (.inr rfl)) tail
  | cons member rest =>
    obtain ⟨name, value⟩ := member
    rw [membersTail_cons]
    exact behind_separator _

end

section

variable {indent : Option Int} {result : Except Yaml.Failure (List Token)}

mutual

theorem comes_chars : ∀ (value : Json) (depth : Nat) {contexts : List Yaml.Context}
    {before : List Token}
    {tail text : List Char} {key : Bool}, contexts ≠ [] → Behind (isFlow contexts) tail text →
      Continues contexts ((tokens value).reverse ++ before) text (texts value) result →
      Comes contexts before ((chars indent depth value).map feed ++ tail) key result
  | .null, _, _, _, _, _, _, _, behind, h => by
    rw [chars, map_feed_word fun _ => isWordChar_of_mem_null]
    exact Yaml.Layout.comes_word (fun _ => isWordChar_of_mem_null) (.plain rfl) behind
      (h.later nofun)
  | .bool b, _, _, _, _, _, _, _, behind, h => by
    rw [chars, map_feed_word fun _ => isWordChar_of_mem_bool]
    exact Yaml.Layout.comes_word (fun _ => isWordChar_of_mem_bool) (startsWord_bool b) behind
      (h.later nofun)
  | .int n, _, _, _, _, _, _, _, behind, h => by
    rw [chars, map_feed_word fun _ => isWordChar_of_mem_intChars]
    exact Yaml.Layout.comes_word (fun _ => isWordChar_of_mem_intChars) (startsWord_int n) behind
      (h.later nofun)
  | .float x, _, _, _, _, _, _, _, behind, h => by
    rw [chars, map_feed_word fun _ => isWordChar_of_mem_float]
    exact Yaml.Layout.comes_word (fun _ => isWordChar_of_mem_float) (startsWord_float x) behind
      (h.later nofun)
  | .text s, _, _, _, _, _, _, _, behind, h => by
    refine comes_text s ?_
    rwa [visible_behind behind]
  | .array [], _, _, _, _, _, _, nested, behind, h => by
    rw [chars_array_nil]
    refine comes_openSequence ?_
    rw [Yaml.Layout.visible_mark true (.inr (.inl rfl))]
    refine comes_closeSequence nested ?_
    rw [visible_behind behind]
    exact h.later nofun
  | .array (item :: rest), depth, _, _, _, _, _, nested, behind, h => by
    rw [chars_array_cons]
    refine comes_openSequence ?_
    rw [visible_lineBreak, visible_chars]
    refine comes_chars item _ (List.cons_ne_nil _ _) (behind_itemsTail rest _) (h.first fun h => ?_)
    refine comes_itemsTail rest depth nested behind ?_
    simpa [tokens] using h
  | .object [], _, _, _, _, _, _, nested, behind, h => by
    rw [chars_object_nil]
    refine comes_openMapping ?_
    rw [Yaml.Layout.visible_mark true (.inr (.inr rfl))]
    refine comes_closeMapping nested ?_
    rw [visible_behind behind]
    exact h.later nofun
  | .object ((name, value) :: rest), depth, _, _, _, _, _, nested, behind, h => by
    rw [chars_object_cons]
    refine comes_openMapping ?_
    rw [visible_lineBreak, visible_stringChars]
    rw [texts, membersTexts, List.cons_append, ← List.singleton_append] at h
    refine comes_name name (h.first fun h => ?_)
    rw [visible_chars]
    refine comes_chars value _ (List.cons_ne_nil _ _) (behind_membersTail rest _)
      (h.first fun h => ?_)
    refine comes_membersTail rest depth nested behind ?_
    simpa [tokens] using h

theorem comes_itemsTail : ∀ (items : List Json) (depth : Nat) {contexts : List Yaml.Context}
    {before : List Token} {tail text : List Char}, contexts ≠ [] → Behind
    (isFlow contexts) tail text →
      Continues contexts ((itemsTokens items).reverse ++ before) text (itemsTexts items) result →
      Comes (.flowSequence :: contexts) before (visible true (itemsTail indent depth items tail))
        false result
  | [], _, _, _, tail, _, nested, behind, h => by
    rw [itemsTail_nil, visible_lineBreak, Yaml.Layout.visible_mark true (.inr (.inl rfl))]
    refine comes_closeSequence nested ?_
    rw [visible_behind behind]
    exact h.later nofun
  | item :: rest, depth, _, _, _, _, nested, behind, h => by
    rw [itemsTail_cons]
    refine comes_separator rfl _ ?_
    rw [visible_chars]
    refine comes_chars item _ (List.cons_ne_nil _ _) (behind_itemsTail rest _) (h.first fun h => ?_)
    refine comes_itemsTail rest depth nested behind ?_
    simpa [itemsTokens] using h

theorem comes_membersTail : ∀ (members : List (String × Json)) (depth : Nat)
    {contexts : List Yaml.Context}
    {before : List Token} {tail text : List Char}, contexts ≠ [] → Behind
    (isFlow contexts) tail text →
      Continues contexts ((membersTokens members).reverse ++ before) text
        (membersTexts members) result →
      Comes (.flowMapping :: contexts) before
        (visible true (membersTail indent depth members tail)) false
        result
  | [], _, _, _, tail, _, nested, behind, h => by
    rw [membersTail_nil, visible_lineBreak, Yaml.Layout.visible_mark true (.inr (.inr rfl))]
    refine comes_closeMapping nested ?_
    rw [visible_behind behind]
    exact h.later nofun
  | (name, value) :: rest, depth, _, _, _, _, nested, behind, h => by
    rw [membersTail_cons]
    refine comes_separator rfl _ ?_
    rw [visible_stringChars]
    rw [membersTexts, List.cons_append, ← List.singleton_append] at h
    refine comes_name name (h.first fun h => ?_)
    rw [visible_chars]
    refine comes_chars value _ (List.cons_ne_nil _ _) (behind_membersTail rest _)
      (h.first fun h => ?_)
    refine comes_membersTail rest depth nested behind ?_
    simpa [membersTokens] using h

end

theorem tokens_eq (indent : Option Int) (value : Json)
    (h : Continues [.block] value.tokens.reverse [] value.texts result) :
    Yaml.tokens ((chars indent 0 value).map feed) = result := by
  obtain ⟨c, rest, isText, start⟩ := exists_chars_eq_cons indent 0 value
  have unmarked : (((chars indent 0 value).map feed).head? == some Yaml.byteOrderMark) = false := by
    rw [isText, List.map_cons, Yaml.feed_eq (ne_of_opens start rfl), List.head?_cons]
    exact beq_eq_false_iff_ne.mpr fun same => ne_of_opens start rfl (Option.some.inj same)
  have visible := visible_chars indent 0 value false []
  rw [List.append_nil] at visible
  have comes : Comes [.block] [] ((chars indent 0 value).map feed ++ []) true result :=
    comes_chars value 0 (List.cons_ne_nil _ _) .ends (by rwa [List.append_nil])
  rw [List.append_nil] at comes
  rw [Yaml.tokens, unmarked]
  refine comes (.start _) ⟨rfl, rfl, visible, fun _ => rfl, rfl, ?_⟩ _ (Nat.lt_succ_self _)
  simp [Yaml.Layout.start]

theorem tokens_eq_ok (indent : Option Int) {value : Json}
    (readable : ∀ s ∈ value.texts, IsReadable s) :
    Yaml.tokens ((chars indent 0 value).map feed) = .ok value.tokens := by
  refine tokens_eq indent value ⟨fun _ => ?_, fun s member unreadable => ?_⟩
  · rw [← List.reverse_reverse value.tokens, List.reverse_reverse value.tokens.reverse]
    exact Yaml.Layout.comes_end
  · exact absurd (readable s member) unreadable

theorem tokens_eq_error (indent : Option Int) {value : Json} {s : String} (member : s ∈ value.texts)
    (unreadable : ¬ IsReadable s) :
    Yaml.tokens ((chars indent 0 value).map feed) = .error .malformed :=
  tokens_eq indent value ⟨fun readable => absurd (readable s member) unreadable, fun _ _ _ => rfl⟩

end

end TemplateActions.Json
