import Mathlib.Data.List.DropRight
import TemplateActions.Json.Reader
import TemplateActions.Proofs.Json.Grammar

/-!
The reader of JSON text takes in all texts of the grammar, and gives what they stand for. No text
stands for two values, therefore.
-/
namespace TemplateActions.Json

variable {text rest : List Char}

theorem not_isHigh_toNat (c : Char) : ¬ IsHigh c.toNat := by
  have valid : c.toNat < 0xd800 ∨ 0xdfff < c.toNat ∧ c.toNat < 0x110000 := c.valid
  rw [IsHigh]
  omega

theorem joinSurrogates_cons {code : Nat} (single : ¬ IsHigh code) (more : List Nat) :
    Escape.joinSurrogates (code :: more) = Char.ofNat code :: Escape.joinSurrogates more := by
  cases more with
  | nil => rfl
  | cons next more =>
    rw [IsHigh] at single
    rw [Escape.joinSurrogates, if_neg]
    simp only [Bool.and_eq_true, decide_eq_true_iff]
    exact fun pair => single ⟨pair.1.1.1, pair.1.1.2⟩

theorem joinSurrogates_pair {high low : Nat} (isHigh : IsHigh high) (isLow : IsLow low)
    (more : List Nat) : Escape.joinSurrogates (high :: low :: more) =
      Char.ofNat (0x10000 + (high - 0xd800) * 0x400 + (low - 0xdc00)) ::
        Escape.joinSurrogates more := by
  rw [Escape.joinSurrogates, if_pos]
  simp only [Bool.and_eq_true, decide_eq_true_iff]
  exact ⟨⟨isHigh, isLow.1⟩, isLow.2⟩

section

variable {codes : List Nat} {behind : List Char} (read : codes? rest = some (codes, behind))
include read

theorem codes?_code {code : Nat} (isCode : IsCode text code) :
    codes? (text ++ rest) = some (code :: codes, behind) := by
  cases isCode with
  | mk first second third fourth => simp [codes?, first, second, third, fourth, read]

theorem codes?_letter {letter c : Char} (listed : (letter, c) ∈ ('/', '/') :: escapeLetters) :
    codes? ('\\' :: letter :: rest) = some (c.toNat :: codes, behind) := by
  simp only [escapeLetters, List.mem_cons, Prod.mk.injEq, List.not_mem_nil, or_false] at listed
  rcases listed with ⟨rfl, rfl⟩ | ⟨rfl, rfl⟩ | ⟨rfl, rfl⟩ | ⟨rfl, rfl⟩ | ⟨rfl, rfl⟩ | ⟨rfl, rfl⟩
    | ⟨rfl, rfl⟩ | ⟨rfl, rfl⟩
  all_goals simp [codes?, escaped?, read]

theorem codes?_plain {c : Char} (unquoted : c ≠ '"') (unescaped : c ≠ '\\')
    (bound : 0x20 ≤ c.toNat) : codes? (c :: rest) = some (c.toNat :: codes, behind) := by
  rw [codes?, if_neg (Nat.not_lt.mpr bound), read]
  · rfl
  · exact unquoted
  · exact fun _ _ _ _ _ escape _ => unescaped escape
  · exact fun _ _ escape _ => unescaped escape

theorem codes?_character {c : Char} (isCharacter : IsCharacter text c) :
    ∃ more, codes? (text ++ rest) = some (more ++ codes, behind) ∧
      Escape.joinSurrogates (more ++ codes) = c :: Escape.joinSurrogates codes := by
  have joined (c : Char) : Escape.joinSurrogates (c.toNat :: codes) =
      c :: Escape.joinSurrogates codes := by
    rw [joinSurrogates_cons (not_isHigh_toNat c), Char.ofNat_toNat]
  cases isCharacter with
  | plain unquoted unescaped bound =>
    exact ⟨[c.toNat], codes?_plain read unquoted unescaped bound, joined c⟩
  | letter listed => exact ⟨[c.toNat], codes?_letter read listed, joined c⟩
  | @code _ code isCode single _ =>
    exact ⟨[code], codes?_code read isCode, joinSurrogates_cons single codes⟩
  | @pair _ _ high low isCode isCode' isHigh isLow =>
    refine ⟨[high, low], ?_, joinSurrogates_pair isHigh isLow codes⟩
    rw [List.append_assoc]
    exact codes?_code (codes?_code read isCode') isCode

end

theorem codes?_content {content chars : List Char} (isContent : IsContent content chars)
    (rest : List Char) :
    ∃ codes, codes? (content ++ '"' :: rest) = some (codes, rest) ∧
      Escape.joinSurrogates codes = chars := by
  induction isContent with
  | nil => exact ⟨[], rfl, rfl⟩
  | cons isCharacter _ ih =>
    obtain ⟨codes, read, joined⟩ := ih
    obtain ⟨more, readMore, joinedMore⟩ := codes?_character read isCharacter
    rw [List.append_assoc]
    exact ⟨more ++ codes, readMore, joinedMore.trans (by rw [joined])⟩

theorem string?_of_isString {s : String} (isString : IsString text s) (rest : List Char) :
    ∃ behind, text ++ rest = '"' :: behind ∧ string? behind = some (s, rest) := by
  cases isString with
  | mk isContent =>
    obtain ⟨codes, read, joined⟩ := codes?_content isContent rest
    simp only [List.cons_append, List.append_assoc, List.nil_append]
    refine ⟨_, rfl, ?_⟩
    simp only [string?, read, Option.map_some, joined, String.ofList_toList]

def Ends (rest : List Char) : Prop :=
  ∀ c ∈ rest.head?, Decimal.isDigit c = false ∧ c ≠ '.' ∧ c ≠ 'e' ∧ c ≠ 'E'

theorem exponent?_of_isExponent {exponent : List Char} {power : Option Int}
    (isExponent : IsExponent exponent power)
    (ends : Ends rest) : exponent? (exponent ++ rest) = power.map fun p => (p, rest) := by
  have stops : ∀ c ∈ rest.head?, Decimal.isDigit c = false := fun c first => (ends c first).1
  cases isExponent with
  | absent =>
    cases rest with
    | nil => rfl
    | cons c rest =>
      obtain ⟨-, -, lower, upper⟩ := ends c rfl
      simp [exponent?, lower, upper]
  | @unsigned e digits marked numeral =>
    obtain ⟨d, more, rfl⟩ := List.exists_cons_of_ne_nil numeral.nonempty
    have isDigit := numeral.digits d List.mem_cons_self
    have plus : d ≠ '+' := by
      rintro rfl
      nomatch isDigit
    have minus : d ≠ '-' := by
      rintro rfl
      nomatch isDigit
    have read := Decimal.span_digits numeral.digits stops
    rw [List.cons_append] at read
    simp [exponent?, marked, plus, minus, read]
  | positive marked numeral =>
    simp [exponent?, marked, Decimal.span_digits numeral.digits stops, numeral.nonempty]
  | negative marked numeral =>
    simp [exponent?, marked, Decimal.span_digits numeral.digits stops, numeral.nonempty]

theorem fraction?_of_isFraction {fraction : List Char} {digits : Option (List Char)}
    (isFraction : IsFraction fraction digits) (stops : ∀ c ∈ rest.head?, Decimal.isDigit c = false)
    (pointless : ∀ c ∈ rest.head?, c ≠ '.') :
    fraction? (fraction ++ rest) = digits.map fun d => (d, rest) := by
  cases isFraction with
  | absent =>
    cases rest with
    | nil => rfl
    | cons c rest => simp [fraction?, pointless c rfl]
  | written numeral => simp [fraction?, Decimal.span_digits numeral.digits stops, numeral.nonempty]

theorem exponent_stops {exponent : List Char} {power : Option Int}
    (isExponent : IsExponent exponent power)
    (ends : Ends rest) : ∀ c ∈ (exponent ++ rest).head?, Decimal.isDigit c = false ∧ c ≠ '.' := by
  have mark {e : Char} (marked : e = 'e' ∨ e = 'E') : Decimal.isDigit e = false ∧ e ≠ '.' := by
    rcases marked with rfl | rfl <;> decide
  cases isExponent with
  | absent => exact fun c first => ⟨(ends c first).1, (ends c first).2.1⟩
  | unsigned marked _ | positive marked _ | negative marked _ =>
    rintro c ⟨⟩
    exact mark marked

theorem fraction_stops {fraction : List Char} {digits : Option (List Char)}
    (isFraction : IsFraction fraction digits)
    (stops : ∀ c ∈ rest.head?, Decimal.isDigit c = false) :
    ∀ c ∈ (fraction ++ rest).head?, Decimal.isDigit c = false := by
  cases isFraction with
  | absent => exact stops
  | written _ =>
    rintro c ⟨⟩
    rfl

theorem number?_of_parts {negative : Bool} {whole fraction exponent : List Char}
    {digits : Option (List Char)}
    {power : Option Int} (isWhole : IsWhole whole) (isFraction : IsFraction fraction digits)
    (isExponent : IsExponent exponent power) (ends : Ends rest) :
    number? negative (whole ++ (fraction ++ (exponent ++ rest))) =
      some (numberOf negative whole digits power, rest) := by
  have behind := exponent_stops isExponent ends
  have stops : ∀ c ∈ (exponent ++ rest).head?, Decimal.isDigit c = false :=
    fun c first => (behind c first).1
  have readWhole := Decimal.span_digits isWhole.digits (fraction_stops isFraction stops)
  have readFraction := fraction?_of_isFraction isFraction stops fun c first => (behind c first).2
  have readExponent := exponent?_of_isExponent isExponent ends
  have isWritten : (whole.isEmpty || (whole.head? == some '0' && whole.length != 1)) = false := by
    have leading := isWhole.leading
    simp only [Bool.or_eq_false_iff, List.isEmpty_eq_false_iff, Bool.and_eq_false_imp, beq_iff_eq,
      bne_eq_false_iff_eq]
    exact ⟨isWhole.nonempty, fun zero => by rw [leading zero]; rfl⟩
  have afterFraction : (digits.map fun d => (d, exponent ++ rest)).getD
      ([], fraction ++ (exponent ++ rest)) =
      (digits.getD [], exponent ++ rest) := by
    cases isFraction <;> rfl
  have afterExponent : (power.map fun p => (p, rest)).getD (0, exponent ++ rest) =
      (power.getD 0, rest) := by
    cases isExponent <;> rfl
  simp only [number?, readWhole, isWritten, readFraction, afterFraction, readExponent,
    afterExponent]
  cases digits <;> cases power <;> rfl

inductive StartsNumber : List Char → Prop
  | plain {c : Char} {rest : List Char} : Decimal.isDigit c → StartsNumber (c :: rest)
  | signed {c : Char} {rest : List Char} : Decimal.isDigit c → StartsNumber ('-' :: c :: rest)

theorem word?_eq_none (starts : StartsNumber text) : word? text = none := by
  have other {c d : Char} (digit : Decimal.isDigit c)
      (letter : Decimal.isDigit d = false) : d ≠ c := by
    rintro rfl
    exact absurd (digit.symm.trans letter) (by decide)
  cases starts with
  | plain digit => simp [word?, other digit, Decimal.isDigit]
  | signed digit => simp [word?, other digit, Decimal.isDigit]

theorem skipBlank_append {before : List Char} (space : IsSpacing before) (rest : List Char) :
    skipBlank (before ++ rest) = skipBlank rest :=
  List.dropWhile_append_of_pos space

theorem skipBlank_cons {c : Char} (visible : isBlank c = false) (rest : List Char) :
    skipBlank (c :: rest) = c :: rest :=
  List.dropWhile_cons_of_neg (Bool.eq_false_iff.mp visible)

theorem skipBlank_skipBlank (input : List Char) : skipBlank (skipBlank input) = skipBlank input :=
  List.dropWhile_idempotent isBlank input

theorem value?_skipBlank (fuel : Nat) (input : List Char) :
    value? fuel (skipBlank input) = value? fuel input := by
  cases fuel with
  | zero => rfl
  | succ fuel => rw [value?, value?, skipBlank_skipBlank]

theorem items?_skipBlank (fuel : Nat) (input : List Char) :
    items? fuel (skipBlank input) = items? fuel input := by
  cases fuel with
  | zero => rfl
  | succ fuel => rw [items?, items?, value?_skipBlank]

theorem members?_skipBlank (fuel : Nat) (input : List Char) :
    members? fuel (skipBlank input) = members? fuel input := by
  cases fuel with
  | zero => rfl
  | succ fuel => rw [members?, members?, skipBlank_skipBlank]

/-- Holds if what is read before the text ends there, and no white space is left. -/
structure Closes (rest : List Char) : Prop where
  ends : Ends rest
  skipped : skipBlank rest = rest

theorem closes_nil : Closes [] := ⟨nofun, rfl⟩

theorem closes_mark (mark : Char) (isMark : mark ∈ [',', ']', '\x7d']) (rest : List Char) :
    Closes (mark :: rest) := by
  have each : ∀ mark ∈ [',', ']', '\x7d'],
      (Decimal.isDigit mark = false ∧ mark ≠ '.' ∧ mark ≠ 'e' ∧ mark ≠ 'E') ∧
        isBlank mark = false :=
    List.all_iff_forall_prop.mp (by decide)
  obtain ⟨ends, visible⟩ := each mark isMark
  refine ⟨?_, skipBlank_cons visible rest⟩
  rintro c ⟨⟩
  exact ends

theorem Ends.behind {space : List Char} (isSpacing : IsSpacing space) (ends : Ends rest) :
    Ends (space ++ rest) := by
  cases space with
  | nil => exact ends
  | cons c space =>
    rintro d ⟨⟩
    have blank := isSpacing c List.mem_cons_self
    simp only [isBlank, Bool.or_eq_true, beq_iff_eq] at blank
    rcases blank with ((rfl | rfl) | rfl) | rfl <;> decide

/-- Holds for values that are read from all of their texts. -/
def IsRead (value : Json) : Prop :=
  ∀ (fuel : Nat) (before text rest : List Char), IsValue text value → text.length ≤ fuel →
    IsSpacing before →
    Ends rest → value? fuel (before ++ (text ++ rest)) = some (value, rest)

variable {value : Json}

theorem startsNumber_of_isNumber (isNumber : IsNumber text value) (rest : List Char) :
    StartsNumber (text ++ rest) := by
  cases isNumber with
  | @mk negative whole _ _ _ _ isWhole =>
    obtain ⟨d, more, rfl⟩ := List.exists_cons_of_ne_nil isWhole.nonempty
    have digit := isWhole.digits d List.mem_cons_self
    cases negative with
    | false => exact .plain digit
    | true => exact .signed digit

theorem exists_start (isValue : IsValue text value) :
    ∃ c more, text = c :: more ∧ isBlank c = false ∧ c ≠ ']' := by
  cases isValue with
  | null => exact ⟨_, _, rfl, by decide⟩
  | @bool b => cases b <;> exact ⟨_, _, rfl, by decide⟩
  | number isNumber =>
    have starts := startsNumber_of_isNumber isNumber []
    rw [List.append_nil] at starts
    cases starts with
    | @plain c _ digit =>
      refine ⟨_, _, rfl, not_isBlank_of_isWordChar (isWordChar_of_isDigit digit), ?_⟩
      rintro rfl
      nomatch digit
    | signed _ => exact ⟨_, _, rfl, by decide⟩
  | text isString =>
    cases isString
    exact ⟨_, _, rfl, by decide⟩
  | emptyArray | array | emptyObject | object => exact ⟨_, _, rfl, by decide⟩

theorem value?_append {before : List Char} (space : IsSpacing before) (fuel : Nat)
    (input : List Char) : value? fuel (before ++ input) = value? fuel input := by
  rw [← value?_skipBlank, skipBlank_append space, value?_skipBlank]

theorem value?_of_isNumber (isNumber : IsNumber text value) (ends : Ends rest) (fuel : Nat) :
    value? (fuel + 1) (text ++ rest) = some (value, rest) := by
  have unread := word?_eq_none (startsNumber_of_isNumber isNumber rest)
  have ne {c d : Char} (digit : Decimal.isDigit c) (other : Decimal.isDigit d = false) : c ≠ d := by
    rintro rfl
    exact absurd (digit.symm.trans other) (by decide)
  cases isNumber with
  | @mk negative whole fraction exponent digits power isWhole isFraction isExponent =>
    have read := @number?_of_parts rest negative _ _ _ _ _ isWhole isFraction isExponent ends
    obtain ⟨d, more, rfl⟩ := List.exists_cons_of_ne_nil isWhole.nonempty
    have digit := isWhole.digits d List.mem_cons_self
    cases negative with
    | true =>
      simp only [if_true, List.cons_append, List.nil_append, List.append_assoc] at unread read ⊢
      rw [value?, skipBlank_cons rfl]
      simp [unread, read]
    | false =>
      have visible := not_isBlank_of_isWordChar (isWordChar_of_isDigit digit)
      simp only [Bool.false_eq_true, if_false, List.cons_append, List.nil_append,
        List.append_assoc] at unread read ⊢
      rw [value?, skipBlank_cons visible]
      simp [ne digit, Decimal.isDigit, unread, read]

theorem value?_of_isElement (isRead : IsRead value) (isElement : IsElement text value) (fuel : Nat)
    (enough : text.length ≤ fuel) (closes : Closes rest) :
    ∃ behind, value? fuel (text ++ rest) = some (value, behind) ∧ skipBlank behind = rest := by
  cases isElement with
  | @mk before text behind _ space isValue space' =>
    have short : text.length ≤ fuel := by
      simp only [List.length_append] at enough
      omega
    have read := isRead fuel before text (behind ++ rest) isValue short space
      (closes.ends.behind space')
    rw [List.append_assoc, List.append_assoc]
    exact ⟨behind ++ rest, read, by rw [skipBlank_append space', closes.skipped]⟩

theorem items?_of_areItems {items : List Json} (areRead : ∀ item ∈ items, IsRead item)
    (areItems : AreItems text items)
    (fuel : Nat) (enough : text.length < fuel) (rest : List Char) :
    items? fuel (text ++ ']' :: rest) = some (items, rest) := by
  induction items generalizing text fuel with
  | nil => nomatch areItems
  | cons item items ih =>
    obtain ⟨first, others⟩ := List.forall_mem_cons.mp areRead
    obtain ⟨fuel, rfl⟩ := Nat.exists_eq_succ_of_ne_zero (Nat.ne_of_gt (Nat.zero_lt_of_lt enough))
    cases areItems with
    | last isElement =>
      obtain ⟨behind, read, skipped⟩ := value?_of_isElement first isElement fuel (by omega)
        (closes_mark ']' (by decide) rest)
      simp only [items?, read, skipped]
    | @cons text more _ _ isElement areMore =>
      -- The comma stands for the unit of fuel that the step to the other items takes.
      rw [List.length_append, List.length_cons] at enough
      obtain ⟨behind, read, skipped⟩ := value?_of_isElement first isElement fuel (by omega)
        (closes_mark ',' (by decide) (more ++ ']' :: rest))
      have readMore := ih others areMore fuel (by omega)
      rw [List.append_assoc, List.cons_append]
      simp only [items?, read, skipped, readMore, Option.map_some]

theorem exists_steps {member : String × Json} (isMember : IsMember text member) (rest : List Char) :
    ∃ quoted colon element, skipBlank (text ++ rest) = '"' :: quoted ∧
      string? quoted = some (member.1, colon) ∧
      skipBlank colon = ':' :: (element ++ rest) ∧
      IsElement element member.2 ∧ element.length ≤ text.length := by
  cases isMember with
  | @mk before name space element s value isSpacing isString isSpacing' isElement =>
    obtain ⟨quoted, opened, readName⟩ :=
      string?_of_isString isString (space ++ ':' :: (element ++ rest))
    refine ⟨quoted, _, element, ?_, readName, ?_, isElement, ?_⟩
    · simp only [List.append_assoc, List.cons_append]
      rw [skipBlank_append isSpacing, opened, skipBlank_cons rfl]
    · rw [skipBlank_append isSpacing', skipBlank_cons rfl]
    · simp only [List.length_append, List.length_cons]
      omega

theorem members?_of_areMembers {members : List (String × Json)}
    (areRead : ∀ member ∈ members, IsRead member.2)
    (areMembers : AreMembers text members) (fuel : Nat) (enough : text.length < fuel)
    (rest : List Char) : members? fuel (text ++ '\x7d' :: rest) = some (members, rest) := by
  induction members generalizing text fuel with
  | nil => nomatch areMembers
  | cons member members ih =>
    obtain ⟨first, others⟩ := List.forall_mem_cons.mp areRead
    obtain ⟨fuel, rfl⟩ := Nat.exists_eq_succ_of_ne_zero (Nat.ne_of_gt (Nat.zero_lt_of_lt enough))
    cases areMembers with
    | last isMember =>
      obtain ⟨quoted, colon, element, opened, readName, skipped, isElement, short⟩ :=
        exists_steps isMember ('\x7d' :: rest)
      obtain ⟨behind, read, skipped'⟩ := value?_of_isElement first isElement fuel (by omega)
        (closes_mark '\x7d' (by decide) rest)
      simp only [members?, opened, readName, skipped, read, skipped']
    | @cons text more _ _ isMember areMore =>
      rw [List.length_append, List.length_cons] at enough
      obtain ⟨quoted, colon, element, opened, readName, skipped, isElement, short⟩ :=
        exists_steps isMember (',' :: (more ++ '\x7d' :: rest))
      obtain ⟨behind, read, skipped'⟩ := value?_of_isElement first isElement fuel (by omega)
        (closes_mark ',' (by decide) (more ++ '\x7d' :: rest))
      have readMore := ih others areMore fuel (by omega)
      rw [List.append_assoc, List.cons_append]
      simp only [members?, opened, readName, skipped, read, skipped', readMore, Option.map_some]

theorem skipBlank_element (isElement : IsElement text value) (rest : List Char) :
    ∃ c more, skipBlank (text ++ rest) = c :: more ∧ c ≠ ']' := by
  cases isElement with
  | @mk before _ behind _ isSpacing isValue _ =>
    obtain ⟨c, more, rfl, visible, opens⟩ := exists_start isValue
    refine ⟨c, more ++ (behind ++ rest), ?_, opens⟩
    simp only [List.append_assoc, List.cons_append]
    rw [skipBlank_append isSpacing, skipBlank_cons visible]

theorem skipBlank_items {items : List Json} (areItems : AreItems text items) (rest : List Char) :
    ∃ c more, skipBlank (text ++ rest) = c :: more ∧ c ≠ ']' := by
  cases areItems with
  | last isElement => exact skipBlank_element isElement rest
  | @cons text more _ _ isElement _ =>
    rw [List.append_assoc]
    exact skipBlank_element isElement (',' :: more ++ rest)

theorem skipBlank_members {members : List (String × Json)} (areMembers : AreMembers text members)
    (rest : List Char) : ∃ quoted, skipBlank (text ++ rest) = '"' :: quoted := by
  cases areMembers with
  | last isMember =>
    obtain ⟨quoted, -, -, opened, -⟩ := exists_steps isMember rest
    exact ⟨quoted, opened⟩
  | @cons text more _ _ isMember _ =>
    obtain ⟨quoted, -, -, opened, -⟩ := exists_steps isMember (',' :: more ++ rest)
    rw [List.append_assoc]
    exact ⟨quoted, opened⟩

theorem value?_of_areItems {items : List Json} (areRead : ∀ item ∈ items, IsRead item)
    (areItems : AreItems text items) (fuel : Nat) (enough : text.length < fuel) (rest : List Char) :
    value? (fuel + 1) ('[' :: (text ++ ']' :: rest)) = some (.array items, rest) := by
  obtain ⟨c, more, opened, opens⟩ := skipBlank_items areItems (']' :: rest)
  have read := items?_of_areItems areRead areItems fuel enough rest
  rw [← items?_skipBlank, opened] at read
  rw [value?, skipBlank_cons rfl]
  simp [opened, opens, read]

theorem value?_of_areMembers {members : List (String × Json)}
    (areRead : ∀ member ∈ members, IsRead member.2)
    (areMembers : AreMembers text members) (fuel : Nat) (enough : text.length < fuel)
    (rest : List Char) :
    value? (fuel + 1) ('\x7b' :: (text ++ '\x7d' :: rest)) = some (.object members, rest) := by
  obtain ⟨quoted, opened⟩ := skipBlank_members areMembers ('\x7d' :: rest)
  have read := members?_of_areMembers areRead areMembers fuel enough rest
  rw [← members?_skipBlank, opened] at read
  rw [value?, skipBlank_cons rfl]
  simp [opened, read]

theorem isRead_of_parts (areRead : ∀ items, value = .array items → ∀ item ∈ items, IsRead item)
    (membersAreRead : ∀ members, value = .object members → ∀ member ∈ members, IsRead member.2) :
    IsRead value := by
  intro fuel before text rest isValue enough isSpacing ends
  obtain ⟨c, more, rfl, visible, -⟩ := exists_start isValue
  obtain ⟨fuel, rfl⟩ := Nat.exists_eq_succ_of_ne_zero (n := fuel)
      (by rw [List.length_cons] at enough; omega)
  rw [value?_append isSpacing]
  -- That the text is not empty was only needed for the first unit of fuel.
  generalize c :: more = text at isValue enough
  cases isValue with
  | null => rfl
  | @bool b => cases b <;> rfl
  | number isNumber => exact value?_of_isNumber isNumber ends fuel
  | text isString =>
    obtain ⟨quoted, opened, read⟩ := string?_of_isString isString rest
    rw [opened, value?, skipBlank_cons rfl]
    simp only [read, Option.map_some]
  | emptyArray isSpacing =>
    simp only [List.cons_append, List.append_assoc, List.nil_append]
    rw [value?, skipBlank_cons rfl]
    simp only [skipBlank_append isSpacing, skipBlank_cons (c := ']') rfl]
  | @array text items areItems =>
    simp only [List.cons_append, List.length_cons, List.length_append, List.length_nil] at enough
    simp only [List.cons_append, List.append_assoc, List.nil_append]
    exact value?_of_areItems (areRead items rfl) areItems fuel (by omega) rest
  | emptyObject isSpacing =>
    simp only [List.cons_append, List.append_assoc, List.nil_append]
    rw [value?, skipBlank_cons rfl]
    simp only [skipBlank_append isSpacing, skipBlank_cons (c := '\x7d') rfl]
  | @object text members areMembers =>
    simp only [List.cons_append, List.length_cons, List.length_append, List.length_nil] at enough
    simp only [List.cons_append, List.append_assoc, List.nil_append]
    exact value?_of_areMembers (membersAreRead members rfl) areMembers fuel (by omega) rest

mutual

theorem isRead : ∀ value, IsRead value
  | .null | .bool _ | .int _ | .float _ | .text _ => isRead_of_parts nofun nofun
  | .array items => isRead_of_parts (by rintro _ ⟨⟩; exact areRead items) nofun
  | .object members => isRead_of_parts nofun (by rintro _ ⟨⟩; exact membersAreRead members)

theorem areRead : ∀ items : List Json, ∀ item ∈ items, IsRead item
  | [] => nofun
  | item :: rest => List.forall_mem_cons.mpr ⟨isRead item, areRead rest⟩

theorem membersAreRead : ∀ members : List (String × Json), ∀ member ∈ members, IsRead member.2
  | [] => nofun
  | (_, value) :: rest => List.forall_mem_cons.mpr ⟨isRead value, membersAreRead rest⟩

end

theorem parse?_of_isElement {source : String} (isElement : IsElement source.toList value) :
    parse? source = some value := by
  obtain ⟨behind, read, skipped⟩ := value?_of_isElement (isRead value) isElement
      (source.toList.length + 1)
    (Nat.le_succ _) closes_nil
  rw [List.append_nil] at read
  simp only [parse?, read, skipped, List.isEmpty_nil, if_true]

/-- No text stands for two values. -/
theorem IsElement.unique {value' : Json} (isElement : IsElement text value)
    (isElement' : IsElement text value') : value = value' := by
  rw [← String.toList_ofList (l := text)] at isElement isElement'
  exact Option.some.inj ((parse?_of_isElement isElement).symm.trans
    (parse?_of_isElement isElement'))

end TemplateActions.Json
