import TemplateActions.Proofs.Json.Spacing
import TemplateActions.Proofs.Text.Quoted

/-!
The grammar of JSON text: white space, strings, numbers and values, each with what it stands for.
The texts of values without floating-point numbers follow it with every indent.
-/
namespace TemplateActions.Json

def IsSpacing (text : List Char) : Prop := ∀ c ∈ text, isBlank c

/-- Half of a pair of code units that stands for one character. -/
def IsHigh (code : Nat) : Prop := 0xd800 ≤ code ∧ code < 0xdc00

def IsLow (code : Nat) : Prop := 0xdc00 ≤ code ∧ code < 0xe000

inductive IsCode : List Char → Nat → Prop
  | mk {a b c d : Char} {k l m n : Nat} :
      Escape.hexDigit? a = some k → Escape.hexDigit? b = some l → Escape.hexDigit? c = some m →
      Escape.hexDigit? d = some n → IsCode ['\\', 'u', a, b, c, d]
        (((k * 16 + l) * 16 + m) * 16 + n)

inductive IsCharacter : List Char → Char → Prop
  | plain {c : Char} : c ≠ '"' → c ≠ '\\' → 0x20 ≤ c.toNat → IsCharacter [c] c
  | letter {letter c : Char} : (letter, c) ∈ ('/', '/') :: escapeLetters →
      IsCharacter ['\\', letter] c
  | code {text : List Char} {code : Nat} :
      IsCode text code → ¬ IsHigh code → ¬ IsLow code → IsCharacter text (Char.ofNat code)
  | pair {text text' : List Char} {high low : Nat} :
      IsCode text high → IsCode text' low → IsHigh high → IsLow low →
      IsCharacter (text ++ text') (Char.ofNat (0x10000 + (high - 0xd800) * 0x400 + (low - 0xdc00)))

inductive IsContent : List Char → List Char → Prop
  | nil : IsContent [] []
  | cons {text more chars : List Char} {c : Char} :
      IsCharacter text c → IsContent more chars → IsContent (text ++ more) (c :: chars)

inductive IsString : List Char → String → Prop
  | mk {content : List Char} {s : String} : IsContent content s.toList →
      IsString ('"' :: content ++ ['"']) s

/-- Digits without leading zeros. -/
structure IsWhole (text : List Char) : Prop extends Decimal.IsNumeral text where
  leading : text.head? = some '0' → text = ['0']

/-- A fraction, if there is one, and its digits. -/
inductive IsFraction : List Char → Option (List Char) → Prop
  | absent : IsFraction [] none
  | written {digits : List Char} : Decimal.IsNumeral digits →
      IsFraction ('.' :: digits) (some digits)

inductive IsExponent : List Char → Option Int → Prop
  | absent : IsExponent [] none
  | unsigned {e : Char} {digits : List Char} :
      e = 'e' ∨ e = 'E' → Decimal.IsNumeral digits →
        IsExponent (e :: digits) (some (Decimal.value digits))
  | positive {e : Char} {digits : List Char} :
      e = 'e' ∨ e = 'E' → Decimal.IsNumeral digits →
        IsExponent (e :: '+' :: digits) (some (Decimal.value digits))
  | negative {e : Char} {digits : List Char} :
      e = 'e' ∨ e = 'E' → Decimal.IsNumeral digits →
        IsExponent (e :: '-' :: digits) (some (-Decimal.value digits))

/-- The number with those parts. Only one without a fraction and an exponent is an integer. -/
def numberOf (negative : Bool) (whole : List Char) : Option (List Char) → Option Int → Json
  | none, none => .int (if negative then -Decimal.value whole else Decimal.value whole)
  | fraction, exponent =>
    .float (.ofDecimal negative (Decimal.value (whole ++ fraction.getD []))
      (exponent.getD 0 - (fraction.getD []).length))

inductive IsNumber : List Char → Json → Prop
  | mk {negative : Bool} {whole fraction exponent : List Char} {digits : Option (List Char)}
      {power : Option Int} :
      IsWhole whole → IsFraction fraction digits → IsExponent exponent power →
      IsNumber ((if negative then ['-'] else []) ++ whole ++ fraction ++ exponent)
        (numberOf negative whole digits power)

mutual

inductive IsValue : List Char → Json → Prop
  | null : IsValue "null".toList .null
  | bool {b : Bool} : IsValue (if b then "true" else "false").toList (.bool b)
  | number {text : List Char} {value : Json} : IsNumber text value → IsValue text value
  | text {text : List Char} {s : String} : IsString text s → IsValue text (.text s)
  | emptyArray {space : List Char} : IsSpacing space → IsValue ('[' :: space ++ [']']) (.array [])
  | array {text : List Char} {items : List Json} :
      AreItems text items → IsValue ('[' :: text ++ [']']) (.array items)
  | emptyObject {space : List Char} :
      IsSpacing space → IsValue ('\x7b' :: space ++ ['\x7d']) (.object [])
  | object {text : List Char} {members : List (String × Json)} :
      AreMembers text members → IsValue ('\x7b' :: text ++ ['\x7d']) (.object members)

/-- A value with white space around it. -/
inductive IsElement : List Char → Json → Prop
  | mk {before text behind : List Char} {value : Json} :
      IsSpacing before → IsValue text value → IsSpacing behind →
        IsElement (before ++ text ++ behind) value

inductive AreItems : List Char → List Json → Prop
  | last {text : List Char} {item : Json} : IsElement text item → AreItems text [item]
  | cons {text more : List Char} {item : Json} {items : List Json} :
      IsElement text item → AreItems more items → AreItems (text ++ ',' :: more) (item :: items)

inductive IsMember : List Char → String × Json → Prop
  | mk {before name behind text : List Char} {s : String} {value : Json} :
      IsSpacing before → IsString name s → IsSpacing behind → IsElement text value →
      IsMember (before ++ name ++ behind ++ ':' :: text) (s, value)

inductive AreMembers : List Char → List (String × Json) → Prop
  | last {text : List Char} {member : String × Json} : IsMember text member →
      AreMembers text [member]
  | cons {text more : List Char} {member : String × Json} {members : List (String × Json)} :
      IsMember text member → AreMembers more members →
        AreMembers (text ++ ',' :: more) (member :: members)

end

mutual

/-- Holds for values without floating-point numbers. -/
def IsExact : Json → Prop
  | .float _ => False
  | .array items => AreExact items
  | .object members => MembersAreExact members
  | _ => True

def AreExact : List Json → Prop
  | [] => True
  | item :: rest => IsExact item ∧ AreExact rest

def MembersAreExact : List (String × Json) → Prop
  | [] => True
  | (_, value) :: rest => IsExact value ∧ MembersAreExact rest

end

theorem areExact_iff {items : List Json} : AreExact items ↔ ∀ item ∈ items, IsExact item := by
  induction items with
  | nil => exact iff_of_true trivial nofun
  | cons item rest ih => rw [AreExact, ih, List.forall_mem_cons]

theorem isCode_control {c : Char} (bound : c.toNat < 0x20) :
    IsCode ['\\', 'u', '0', '0', Nat.digitChar (c.toNat / 16), Nat.digitChar (c.toNat % 16)]
      c.toNat := by
  have zero : Escape.hexDigit? '0' = some 0 := rfl
  have high := Quoted.hexDigit?_digitChar (show c.toNat / 16 < 16 by omega)
  have low := Quoted.hexDigit?_digitChar (show c.toNat % 16 < 16 by omega)
  have code := IsCode.mk zero zero high low
  have same : ((0 * 16 + 0) * 16 + c.toNat / 16) * 16 + c.toNat % 16 = c.toNat := by omega
  rwa [same] at code

theorem isCharacter_escapeChar (c : Char) : IsCharacter (escapeChar c) c := by
  have form := isEscape_escapeChar c
  generalize escapeChar c = text at form
  cases form with
  | letter listed => exact .letter (List.mem_cons_of_mem _ listed)
  | code bound =>
    have plain : ¬ IsHigh c.toNat ∧ ¬ IsLow c.toNat := by
      rw [IsHigh, IsLow]
      omega
    have character := IsCharacter.code (isCode_control bound) plain.1 plain.2
    rwa [Char.ofNat_toNat] at character
  | plain unquoted unescaped bound => exact .plain unquoted unescaped bound

theorem isString_stringChars (s : String) : IsString (stringChars s) s := by
  have content : ∀ text : List Char, IsContent (text.flatMap escapeChar) text := by
    intro text
    induction text with
    | nil => exact .nil
    | cons c text ih => exact .cons (isCharacter_escapeChar c) ih
  exact .mk (content s.toList)

theorem head?_natChars {n : Nat} (positive : 0 < n) : (Decimal.natChars n).head? ≠ some '0' := by
  induction n using Nat.strongRecOn with
  | ind n ih =>
    rw [Decimal.natChars]
    by_cases small : n < 10
    · rw [Nat.toDigits_of_lt_base small]
      have digits : ∀ d < 10, 0 < d → [Nat.digitChar d].head? ≠ some '0' := by decide
      exact digits n small positive
    · have tens : (Nat.toDigits 10 (n / 10)).head? ≠ some '0' := ih (n / 10) (by omega) (by omega)
      rw [Nat.toDigits_of_base_le (by decide) (by omega)]
      cases digits : Nat.toDigits 10 (n / 10) with
      | nil => exact absurd digits Nat.toDigits_ne_nil
      | cons c rest =>
        rw [digits] at tens
        exact tens

theorem isWhole_natChars (n : Nat) : IsWhole (Decimal.natChars n) := by
  refine ⟨Decimal.isNumeral_natChars n, fun leading => ?_⟩
  rcases Nat.eq_zero_or_pos n with rfl | positive
  · rfl
  · exact absurd leading (head?_natChars positive)

theorem value_natChars (n : Nat) : Decimal.value (Decimal.natChars n) = n :=
  Nat.ofDigitChars_ten_toDigits

theorem isNumber_intChars (n : Int) : IsNumber (Decimal.intChars n) (.int n) := by
  have written (negative : Bool) := @IsNumber.mk negative _ _ _ _ _
      (isWhole_natChars n.natAbs) .absent .absent
  simp only [numberOf, value_natChars, List.append_nil] at written
  rw [Decimal.intChars_eq]
  by_cases negative : n < 0
  · have same : -(n.natAbs : Int) = n := by omega
    have numbered := written true
    rw [if_pos rfl, if_pos rfl, same] at numbered
    rwa [if_pos negative]
  · have same : (n.natAbs : Int) = n := by omega
    have numbered := written false
    rw [if_neg Bool.false_ne_true, if_neg Bool.false_ne_true, same] at numbered
    rwa [if_neg negative]

theorem isSpacing_nil : IsSpacing [] := nofun

theorem isSpacing_lineBreak (indent : Option Int) (depth : Nat) :
    IsSpacing (lineBreak indent depth) := by
  cases indent with
  | none => exact isSpacing_nil
  | some width =>
    refine List.forall_mem_cons.mpr ⟨rfl, fun c member => ?_⟩
    rw [List.eq_of_mem_replicate member]
    rfl

theorem exists_separator (indent : Option Int) (depth : Nat) :
    ∃ space, IsSpacing space ∧ separator indent depth = ',' :: space := by
  cases indent with
  | none => exact ⟨[' '], List.forall_mem_singleton.mpr rfl, rfl⟩
  | some width => exact ⟨_, isSpacing_lineBreak (some width) depth, rfl⟩

theorem isMember_chars {before text behind : List Char} {value : Json}
    (spaceBefore : IsSpacing before)
    (name : String) (isValue : IsValue text value) (spaceBehind : IsSpacing behind) :
    IsMember (before ++ stringChars name ++ ':' :: ' ' :: text ++ behind) (name, value) := by
  have space : IsSpacing [' '] := List.forall_mem_singleton.mpr rfl
  have member := IsMember.mk spaceBefore (isString_stringChars name) isSpacing_nil
    (.mk space isValue spaceBehind)
  simpa only [List.cons_append, List.append_assoc, List.append_nil, List.nil_append] using member

mutual

theorem isValue_chars (indent : Option Int) : ∀ (value : Json) (depth : Nat), IsExact value →
    IsValue (chars indent depth value) value
  | .null, _, _ => .null
  | .bool _, _, _ => .bool
  | .int n, _, _ => .number (isNumber_intChars n)
  | .float _, _, exact => absurd exact id
  | .text s, _, _ => .text (isString_stringChars s)
  | .array [], _, _ => .emptyArray isSpacing_nil
  | .array (item :: rest), depth, exact => by
    have first := isValue_chars indent item (depth + 1) exact.1
    have items := areItems_itemsChars indent rest (depth + 1) exact.2
      (isSpacing_lineBreak indent (depth + 1)) first
      (isSpacing_lineBreak indent depth)
    have array := IsValue.array items
    simpa only [chars, List.cons_append, List.append_assoc] using array
  | .object [], _, _ => .emptyObject isSpacing_nil
  | .object ((name, value) :: rest), depth, exact => by
    have first := isValue_chars indent value (depth + 1) exact.1
    have members := areMembers_membersChars indent rest (depth + 1) exact.2
      (isSpacing_lineBreak indent (depth + 1))
      name first (isSpacing_lineBreak indent depth)
    have object := IsValue.object members
    simpa only [chars, List.cons_append, List.append_assoc] using object

theorem areItems_itemsChars (indent : Option Int) :
    ∀ (items : List Json) (depth : Nat), AreExact items →
    ∀ {before text behind : List Char} {item : Json}, IsSpacing before → IsValue text item →
    IsSpacing behind →
      AreItems (before ++ text ++ itemsChars indent depth items ++ behind) (item :: items)
  | [], _, _, _, _, _, _, spaceBefore, isItem, spaceBehind => by
    rw [itemsChars, List.append_nil]
    exact .last (.mk spaceBefore isItem spaceBehind)
  | next :: rest, depth, exact, _, _, _, _, spaceBefore, isItem, spaceBehind => by
    obtain ⟨space, isSpace, same⟩ := exists_separator indent depth
    have element := IsElement.mk spaceBefore isItem isSpacing_nil
    have more := areItems_itemsChars indent rest depth exact.2 isSpace
      (isValue_chars indent next depth exact.1)
      spaceBehind
    have items := AreItems.cons element more
    rw [itemsChars, same]
    simpa only [List.cons_append, List.append_assoc, List.append_nil, List.nil_append] using items

theorem areMembers_membersChars (indent : Option Int) :
    ∀ (members : List (String × Json)) (depth : Nat),
    MembersAreExact members → ∀ {before text behind : List Char} {value : Json}, IsSpacing before →
      ∀ name : String, IsValue text value → IsSpacing behind →
        AreMembers (before ++ stringChars name ++ ':' :: ' ' :: text ++
          membersChars indent depth members ++ behind)
          ((name, value) :: members)
  | [], _, _, _, _, _, _, spaceBefore, name, isValue, spaceBehind => by
    rw [membersChars, List.append_nil]
    exact .last (isMember_chars spaceBefore name isValue spaceBehind)
  | (next, value) :: rest, depth, exact, _, _, _, _, spaceBefore, name, isValue, spaceBehind => by
    obtain ⟨space, isSpace, same⟩ := exists_separator indent depth
    have member := isMember_chars spaceBefore name isValue isSpacing_nil
    have more := areMembers_membersChars indent rest depth exact.2 isSpace next
      (isValue_chars indent value depth exact.1) spaceBehind
    have members := AreMembers.cons member more
    rw [membersChars, same]
    simpa only [List.cons_append, List.append_assoc, List.append_nil, List.nil_append] using members

end

/-- A value that is written is what its text stands for. -/
theorem isElement_render (indent : Option Int) {value : Json} (exact : IsExact value) :
    IsElement (value.render indent).toList value := by
  have element := IsElement.mk isSpacing_nil (isValue_chars indent value 0 exact) isSpacing_nil
  rwa [List.nil_append, List.append_nil, ← String.toList_ofList
    (l := chars indent 0 value)] at element

end TemplateActions.Json
