import TemplateActions.Proofs.Json.Tokens
import TemplateActions.Yaml.Character

/-!
The characters of JSON text. They are line feeds, printable ASCII characters, and characters of the
texts in the value: those stand for themselves, unless they are control characters, quotes or
backslashes.
-/
namespace TemplateActions.Json

def isAscii (c : Char) : Bool := c == '\n' || (0x20 ≤ c.toNat && c.toNat ≤ 0x7e)

def Stands (texts : List String) (c : Char) : Prop :=
  isAscii c ∨ 0x20 ≤ c.toNat ∧ ∃ s ∈ texts, c ∈ s.toList

theorem Stands.mono {texts more : List String} {c : Char} (within : texts ⊆ more)
    (h : Stands texts c) : Stands more c := by
  rcases h with own | ⟨bound, s, member, inside⟩
  · exact .inl own
  · exact .inr ⟨bound, s, within member, inside⟩

theorem isAscii_of_isWordChar {c : Char} (h : isWordChar c) : isAscii c := by
  change ((decide (c.val ≥ 'A'.val ∧ c.val ≤ 'Z'.val) ||
      decide (c.val ≥ 'a'.val) && decide (c.val ≤ 'z'.val)) ||
    decide (c.val ≥ '0'.val) && decide (c.val ≤ '9'.val) || c == '.' || c == '+' ||
      c == '-') = true at h
  simp only [Bool.or_eq_true, Bool.and_eq_true, decide_eq_true_eq, beq_iff_eq,
    UInt32.le_iff_toNat_le,
    ge_iff_le] at h
  have bounds : 0x20 ≤ c.toNat ∧ c.toNat ≤ 0x7e := by
    rcases h with ((((⟨least, most⟩ | ⟨least, most⟩) | ⟨least, most⟩) | rfl) | rfl) | rfl
    · exact ⟨Nat.le_trans (by decide) least, Nat.le_trans most (by decide)⟩
    · exact ⟨Nat.le_trans (by decide) least, Nat.le_trans most (by decide)⟩
    · exact ⟨Nat.le_trans (by decide) least, Nat.le_trans most (by decide)⟩
    all_goals decide
  simp [isAscii, bounds]

theorem stands_word {texts : List String} {word : List Char} (isWord : ∀ c ∈ word, isWordChar c) :
    ∀ c ∈ word, Stands texts c :=
  fun c member => .inl (isAscii_of_isWordChar (isWord c member))

theorem stands_escapeChar {texts : List String} {s : String} (member : s ∈ texts) {c : Char}
    (inside : c ∈ s.toList) : ∀ d ∈ escapeChar c, Stands texts d := by
  have form := isEscape_escapeChar c
  generalize escapeChar c = text at form
  cases form with
  | letter listed =>
    have each : ∀ p ∈ escapeLetters, isAscii p.1 := List.all_iff_forall_prop.mp (by decide)
    simpa [Stands, isAscii] using Or.inl (each _ listed)
  | code bound =>
    obtain ⟨high, low⟩ := digitChars_of_all (p := fun d => isAscii d) (by decide) bound
    simp only [List.forall_mem_cons, List.not_mem_nil, false_implies, implies_true, and_true]
    exact ⟨.inl rfl, .inl rfl, .inl rfl, .inl rfl, .inl high, .inl low⟩
  | plain _ _ bound => exact List.forall_mem_singleton.mpr (.inr ⟨bound, s, member, inside⟩)

theorem stands_stringChars {texts : List String} {s : String} (member : s ∈ texts) :
    ∀ c ∈ stringChars s, Stands texts c := by
  simp only [stringChars, List.cons_append, List.forall_mem_cons, List.forall_mem_append,
    List.not_mem_nil, false_implies, implies_true, and_true]
  refine ⟨.inl rfl, fun d inside => ?_, .inl rfl⟩
  obtain ⟨c, inText, inside⟩ := List.mem_flatMap.mp inside
  exact stands_escapeChar member inText d inside

theorem stands_lineBreak {texts : List String} (indent : Option Int) (depth : Nat) :
    ∀ c ∈ lineBreak indent depth, Stands texts c := by
  cases indent with
  | none => nofun
  | some width =>
    refine List.forall_mem_cons.mpr ⟨.inl rfl, fun c member => ?_⟩
    rw [List.eq_of_mem_replicate member]
    exact .inl rfl

theorem stands_separator {texts : List String} (indent : Option Int) (depth : Nat) :
    ∀ c ∈ separator indent depth, Stands texts c := by
  cases indent with
  | none => exact List.forall_mem_cons.mpr ⟨.inl rfl, List.forall_mem_singleton.mpr (.inl rfl)⟩
  | some width => exact List.forall_mem_cons.mpr ⟨.inl rfl, stands_lineBreak (some width) depth⟩

section

variable (indent : Option Int)

mutual

theorem stands_chars : ∀ (value : Json) (depth : Nat),
    ∀ c ∈ chars indent depth value, Stands (texts value) c
  | .null, _ => stands_word fun _ => isWordChar_of_mem_null
  | .bool _, _ => stands_word fun _ => isWordChar_of_mem_bool
  | .int _, _ => stands_word fun _ => isWordChar_of_mem_intChars
  | .float _, _ => stands_word fun _ => isWordChar_of_mem_float
  | .text _, _ => stands_stringChars List.mem_cons_self
  | .array [], _ => List.forall_mem_cons.mpr ⟨.inl rfl, List.forall_mem_singleton.mpr (.inl rfl)⟩
  | .array (item :: rest), depth => by
    simp only [chars, List.cons_append, List.forall_mem_cons, List.forall_mem_append,
      List.not_mem_nil,
      false_implies, implies_true, and_true, and_assoc]
    refine ⟨.inl rfl, stands_lineBreak indent _, fun c member => ?_, fun c member => ?_,
      stands_lineBreak indent _, .inl rfl⟩
    · exact (stands_chars item _ c member).mono (List.subset_append_left _ _)
    · exact (stands_itemsChars rest _ c member).mono (List.subset_append_right _ _)
  | .object [], _ => List.forall_mem_cons.mpr ⟨.inl rfl, List.forall_mem_singleton.mpr (.inl rfl)⟩
  | .object ((name, value) :: rest), depth => by
    simp only [chars, List.cons_append, List.forall_mem_cons, List.forall_mem_append,
      List.not_mem_nil,
      false_implies, implies_true, and_true, and_assoc]
    refine ⟨.inl rfl, stands_lineBreak indent _, stands_stringChars List.mem_cons_self,
      .inl rfl, .inl rfl,
      fun c member => ?_, fun c member => ?_, stands_lineBreak indent _, .inl rfl⟩
    · refine (stands_chars value _ c member).mono fun s inside => ?_
      exact List.mem_cons_of_mem _ (List.mem_append_left _ inside)
    · refine (stands_membersChars rest _ c member).mono fun s inside => ?_
      exact List.mem_cons_of_mem _ (List.mem_append_right _ inside)

theorem stands_itemsChars : ∀ (items : List Json) (depth : Nat),
    ∀ c ∈ itemsChars indent depth items, Stands (itemsTexts items) c
  | [], _ => nofun
  | item :: rest, depth => by
    simp only [itemsChars, List.forall_mem_append, and_assoc]
    refine ⟨stands_separator indent _, fun c member => ?_, fun c member => ?_⟩
    · exact (stands_chars item _ c member).mono (List.subset_append_left _ _)
    · exact (stands_itemsChars rest _ c member).mono (List.subset_append_right _ _)

theorem stands_membersChars : ∀ (members : List (String × Json)) (depth : Nat),
    ∀ c ∈ membersChars indent depth members, Stands (membersTexts members) c
  | [], _ => nofun
  | (name, value) :: rest, depth => by
    simp only [membersChars, List.forall_mem_cons, List.forall_mem_append, and_assoc]
    refine ⟨stands_separator indent _, stands_stringChars List.mem_cons_self, .inl rfl, .inl rfl,
      fun c member => ?_, fun c member => ?_⟩
    · refine (stands_chars value _ c member).mono fun s inside => ?_
      exact List.mem_cons_of_mem _ (List.mem_append_left _ inside)
    · refine (stands_membersChars rest _ c member).mono fun s inside => ?_
      exact List.mem_cons_of_mem _ (List.mem_append_right _ inside)

end

theorem mem_escapeChar {c : Char} (bound : 0x20 ≤ c.toNat) : c ∈ escapeChar c := by
  have form := isEscape_escapeChar c
  generalize escapeChar c = text at form
  cases form with
  | letter listed =>
    have each : ∀ p ∈ escapeLetters, 0x20 ≤ p.2.toNat → p.1 = p.2 :=
      List.all_iff_forall_prop.mp (by decide)
    exact List.mem_cons_of_mem _ (List.mem_singleton.mpr (each _ listed bound).symm)
  | code control => exact absurd bound (Nat.not_le.mpr control)
  | plain => exact List.mem_cons_self

mutual

theorem stringChars_subset : ∀ (value : Json) (depth : Nat), ∀ s ∈ texts value,
    stringChars s ⊆ chars indent depth value
  | .null, _ | .bool _, _ | .int _, _ | .float _, _ => nofun
  | .text s, _ => fun s member => by
    rw [List.mem_singleton.mp member]
    exact List.Subset.refl _
  | .array [], _ => nofun
  | .array (item :: rest), depth => fun s member => by
    rw [texts, itemsTexts] at member
    rcases List.mem_append.mp member with member | member
    · intro c inside
      simp [chars, stringChars_subset item _ s member inside]
    · intro c inside
      simp [chars, stringChars_subset_items rest _ s member inside]
  | .object [], _ => nofun
  | .object ((name, value) :: rest), depth => fun s member => by
    rw [texts, membersTexts, List.cons_append] at member
    rcases List.mem_cons.mp member with rfl | member
    · intro c inside
      simp [chars, inside]
    rcases List.mem_append.mp member with member | member
    · intro c inside
      simp [chars, stringChars_subset value _ s member inside]
    · intro c inside
      simp [chars, stringChars_subset_members rest _ s member inside]

theorem stringChars_subset_items : ∀ (items : List Json) (depth : Nat), ∀ s ∈ itemsTexts items,
    stringChars s ⊆ itemsChars indent depth items
  | [], _ => nofun
  | item :: rest, depth => fun s member => by
    rcases List.mem_append.mp member with member | member
    · intro c inside
      simp [itemsChars, stringChars_subset item _ s member inside]
    · intro c inside
      simp [itemsChars, stringChars_subset_items rest _ s member inside]

theorem stringChars_subset_members : ∀ (members : List (String × Json)) (depth : Nat),
    ∀ s ∈ membersTexts members, stringChars s ⊆ membersChars indent depth members
  | [], _ => nofun
  | (name, value) :: rest, depth => fun s member => by
    rw [membersTexts, List.cons_append] at member
    rcases List.mem_cons.mp member with rfl | member
    · intro c inside
      simp [membersChars, inside]
    rcases List.mem_append.mp member with member | member
    · intro c inside
      simp [membersChars, stringChars_subset value _ s member inside]
    · intro c inside
      simp [membersChars, stringChars_subset_members rest _ s member inside]

end

end

/-- Holds for texts whose characters can be printed, apart from the control characters that are
escaped. -/
def IsPrintable (s : String) : Prop := ∀ c ∈ s.toList, 0x20 ≤ c.toNat → Yaml.isPrintable c

theorem isPrintable_of_isAscii {c : Char} (h : isAscii c) : Yaml.isPrintable c := by
  simp only [isAscii, Bool.or_eq_true, Bool.and_eq_true, beq_iff_eq, decide_eq_true_eq] at h
  rcases h with rfl | bounds
  · rfl
  · simp [Yaml.isPrintable, bounds]

theorem all_isPrintable_iff (indent : Option Int) (value : Json) :
    (chars indent 0 value).all Yaml.isPrintable ↔ ∀ s ∈ value.texts, IsPrintable s := by
  rw [List.all_eq_true]
  constructor
  · intro printable s member c inside bound
    refine printable c (stringChars_subset indent value 0 s member ?_)
    have escaped : c ∈ s.toList.flatMap escapeChar :=
      List.mem_flatMap.mpr ⟨c, inside, mem_escapeChar bound⟩
    simp [stringChars, escaped]
  · intro printable c member
    rcases stands_chars indent value 0 c member with own | ⟨bound, s, isText, inside⟩
    · exact isPrintable_of_isAscii own
    · exact printable s isText c inside bound

theorem normalizeBreaks_chars (indent : Option Int) (value : Json) :
    Yaml.normalizeBreaks (chars indent 0 value) = (chars indent 0 value).map Yaml.feed := by
  refine Yaml.normalizeBreaks_eq fun member => ?_
  rcases stands_chars indent value 0 _ member with own | ⟨bound, -⟩
  · exact absurd own (by decide)
  · exact absurd bound (by decide)

end TemplateActions.Json
