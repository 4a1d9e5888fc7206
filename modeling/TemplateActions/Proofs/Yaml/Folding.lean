import TemplateActions.Proofs.Yaml.Quoted

/-!
Which strings are read back as they are. They hold no next-line character, which reads as a line
feed or a space, and no blank beside one of the two Unicode separators, which end lines; and no
document marker stands behind a separator. Words of letters are always read back, and nothing else
is read as a word.
-/
namespace TemplateActions.Yaml.Quoted

/-- Holds for strings that are read back as they are. -/
structure IsKept (text : List Char) : Prop where
  unfed : '\x85' ∉ text
  unspaced : ∀ c ∈ ['\u2028', '\u2029'], ¬ [' ', c] <:+: text ∧ ¬ [c, ' '] <:+: text
  unmarked : ∀ c ∈ ['\u2028', '\u2029'], ∀ mark ∈ ['-', '.'], ¬ [c, mark, mark, mark, ' '] <:+: text

def Follows (c : Char) (rest : List Char) : Prop :=
  (c = ' ' → ∀ d ∈ rest.head?, folds d = false) ∧
    (folds c → rest.head? ≠ some ' ' ∧ marks '-' rest = false ∧ marks '.' rest = false)

theorem isKept_nil : IsKept [] := by
  refine ⟨nofun, fun c _ => ?_, fun c _ mark _ => ?_⟩ <;> simp

theorem folds_iff {c : Char} : folds c ↔ c = '\x85' ∨ c ∈ ['\u2028', '\u2029'] := by
  simp [folds, or_assoc]

theorem marks_iff_of_unfed {mark : Char} {text : List Char} (unfed : '\x85' ∉ text) :
    marks mark text ↔ [mark, mark, mark, ' '] <+: text := by
  rw [marks_iff]
  constructor
  · rintro ⟨rest, rfl, ends⟩
    obtain ⟨d, more, rfl⟩ : ∃ d more, rest = d :: more := by
      cases rest with
      | nil => nomatch ends
      | cons d more => exact ⟨d, more, rfl⟩
    have special : (d == ' ' || d == '\x85') = true := ends
    have blank : d = ' ' := by
      rcases Bool.or_eq_true_iff.mp special with same | same
      · exact beq_iff_eq.mp same
      · rw [beq_iff_eq.mp same] at unfed
        exact absurd (by simp) unfed
    exact ⟨more, by simp [blank]⟩
  · rintro ⟨more, rfl⟩
    exact ⟨' ' :: more, rfl, rfl⟩

theorem IsKept.tail {c : Char} {rest : List Char} (h : IsKept (c :: rest)) : IsKept rest where
  unfed member := h.unfed (List.mem_cons_of_mem _ member)
  unspaced d member :=
    ⟨fun inside => (h.unspaced d member).1 (List.infix_cons inside),
      fun inside => (h.unspaced d member).2 (List.infix_cons inside)⟩
  unmarked d member mark isMark inside := h.unmarked d member mark isMark (List.infix_cons inside)

theorem IsKept.follows {c : Char} {rest : List Char} (h : IsKept (c :: rest)) : Follows c rest := by
  constructor
  · rintro rfl d isFirst
    obtain ⟨more, rfl⟩ := List.head?_eq_some_iff.mp isFirst
    refine Bool.eq_false_iff.mpr fun folded => ?_
    rcases folds_iff.mp folded with rfl | member
    · exact h.unfed (by simp)
    · exact (h.unspaced d member).1 ⟨[], more, rfl⟩
  · intro folded
    have member := (folds_iff.mp folded).resolve_left fun same => h.unfed (by simp [same])
    have unmarked : ∀ mark ∈ ['-', '.'], marks mark rest = false := by
      intro mark isMark
      refine Bool.eq_false_iff.mpr fun marked => h.unmarked c member mark isMark ?_
      obtain ⟨more, rfl⟩ := (marks_iff_of_unfed h.tail.unfed).mp marked
      exact ⟨[], more, rfl⟩
    refine ⟨fun isFirst => ?_, unmarked _ (by decide), unmarked _ (by decide)⟩
    obtain ⟨more, rfl⟩ := List.head?_eq_some_iff.mp isFirst
    exact (h.unspaced c member).2 ⟨[], more, rfl⟩

theorem isKept_cons {c : Char} {rest : List Char} (other : c ≠ '\x85') (follows : Follows c rest)
    (kept : IsKept rest) : IsKept (c :: rest) where
  unfed member := (List.mem_cons.mp member).elim (fun same => other same.symm) kept.unfed
  unspaced d member := by
    have folded := folds_iff.mpr (.inr member)
    constructor <;> intro inside
    · rcases List.infix_cons_iff.mp inside with start | later
      · obtain ⟨rfl, more, rfl⟩ := List.cons_prefix_cons.mp start
        exact Bool.false_ne_true ((follows.1 rfl d rfl).symm.trans folded)
      · exact (kept.unspaced d member).1 later
    · rcases List.infix_cons_iff.mp inside with start | later
      · obtain ⟨rfl, more, rfl⟩ := List.cons_prefix_cons.mp start
        exact (follows.2 folded).1 rfl
      · exact (kept.unspaced d member).2 later
  unmarked d member mark isMark inside := by
    have folded := folds_iff.mpr (.inr member)
    rcases List.infix_cons_iff.mp inside with start | later
    · obtain ⟨rfl, marker⟩ := List.cons_prefix_cons.mp start
      have marked := (marks_iff_of_unfed kept.unfed).mpr marker
      obtain ⟨-, dashes, dots⟩ := follows.2 folded
      rcases List.mem_cons.mp isMark with rfl | isMark
      · exact Bool.false_ne_true (dashes.symm.trans marked)
      · cases List.mem_singleton.mp isMark
        exact Bool.false_ne_true (dots.symm.trans marked)
    · exact kept.unmarked d member mark isMark later

theorem isKept_cons_iff {c : Char} {rest : List Char} (other : c ≠ '\x85') :
    IsKept (c :: rest) ↔ Follows c rest ∧ IsKept rest :=
  ⟨fun h => ⟨h.follows, h.tail⟩, fun h => isKept_cons other h.1 h.2⟩

theorem text_lineBreak (c : Char) (pending : Pending) :
    (∃ before, before.Sublist pending.text ∧ (pending.lineBreak c).text = before ++ [c]) ∨
      (pending.lineBreak c).text = [' '] := by
  cases pending with
  | blanks blanks =>
    by_cases feeds : c = '\n'
    · exact .inr (by simp [Pending.lineBreak, Pending.text, feeds])
    · exact .inl ⟨[], List.nil_sublist _, by simp [Pending.lineBreak, Pending.text]⟩
  | lines first more =>
    left
    cases first with
    | none => exact ⟨more, List.Sublist.refl _, rfl⟩
    | some d =>
      by_cases feeds : d = '\n'
      · subst feeds
        refine ⟨more, ?_, by simp [Pending.lineBreak, Pending.text]⟩
        cases more with
        | nil => exact List.nil_sublist _
        | cons e more => exact List.Sublist.refl _
      · exact ⟨d :: more, by simp [Pending.text], by simp [Pending.lineBreak, Pending.text]⟩

theorem length_lineBreak (c : Char) (pending : Pending) :
    (pending.lineBreak c).text.length ≤ pending.text.length + 1 := by
  rcases text_lineBreak c pending with ⟨before, within, same⟩ | same
  · rw [same, List.length_append]
    exact Nat.succ_le_succ within.length_le
  · rw [same]
    exact Nat.le_add_left _ _

theorem length_space (c : Char) (pending : Pending) :
    (pending.space c).text.length ≤ pending.text.length + 1 := by
  cases pending <;> simp [Pending.space, Pending.text]

inductive Rereads : Pending → List Char → List Char → Prop
  | ends {pending : Pending} : Rereads pending [] pending.text
  | blank {pending : Pending} {rest read : List Char} :
      Rereads (pending.space ' ') rest read → Rereads pending (' ' :: rest) read
  | fold {pending : Pending} {c : Char} {rest read : List Char} :
      folds c → Rereads (pending.lineBreak (feed c)) rest read → Rereads pending (c :: rest) read
  | plain {pending : Pending} {c : Char} {rest read : List Char} :
      c ≠ ' ' → folds c = false → Rereads .none rest read →
        Rereads pending (c :: rest) (pending.text ++ c :: read)

theorem rereads_of_eq {pending : Pending} {text read : List Char}
    (isRead : reread? pending text = some read) : Rereads pending text read := by
  induction text generalizing pending read with
  | nil =>
    cases isRead
    exact .ends
  | cons c rest ih =>
    rw [reread?] at isRead
    split at isRead
    case isTrue blank =>
      subst blank
      exact .blank (ih isRead)
    case isFalse visible =>
      split at isRead
      case isTrue folded =>
        split at isRead
        · cases isRead
        · exact .fold folded (ih isRead)
      case isFalse unfolded =>
        obtain ⟨more, isMore, rfl⟩ := Option.map_eq_some_iff.mp isRead
        exact .plain visible (Bool.eq_false_iff.mpr unfolded) (ih isMore)

section

variable {pending : Pending} {text read : List Char}

theorem Rereads.length_le (h : Rereads pending text read) :
    read.length ≤ pending.text.length + text.length := by
  induction h with
  | ends => exact Nat.le_refl _
  | @blank pending rest read _ ih =>
    have := length_space ' ' pending
    rw [List.length_cons]
    omega
  | @fold pending c rest read _ _ ih =>
    have := length_lineBreak (feed c) pending
    rw [List.length_cons]
    omega
  | plain _ _ _ ih =>
    simp only [Pending.none, Pending.text, List.length_nil, Nat.zero_add] at ih
    rw [List.length_append, List.length_cons, List.length_cons]
    omega

theorem feed_ne (c : Char) : feed c ≠ '\x85' := by
  rw [feed]
  split
  · decide
  · assumption

theorem Rereads.unfed (h : Rereads pending text read) (unfed : '\x85' ∉ pending.text) :
    '\x85' ∉ read := by
  induction h with
  | ends => exact unfed
  | @blank pending _ _ _ ih =>
    refine ih ?_
    cases pending with
    | blanks blanks => simpa [Pending.space, Pending.text] using unfed
    | lines first more => exact unfed
  | @fold pending c _ _ _ _ ih =>
    refine ih fun member => ?_
    rcases text_lineBreak (feed c) pending with ⟨before, within, same⟩ | same
    · rw [same] at member
      rcases List.mem_append.mp member with member | member
      · exact unfed (within.subset member)
      · exact feed_ne c (List.mem_singleton.mp member).symm
    · rw [same] at member
      exact absurd (List.mem_singleton.mp member) (by decide)
  | plain _ unfolded _ ih =>
    intro member
    rcases List.mem_append.mp member with member | member
    · exact unfed member
    rcases List.mem_cons.mp member with rfl | member
    · exact absurd unfolded (by decide)
    · exact ih List.not_mem_nil member

end

def KeptBefore (text : List Char) : Pending → Prop
  | .blanks blanks => blanks = [] ∨ ∀ c ∈ text.head?, folds c = false
  | .lines first _ => (∃ c ≠ '\n', first = some c) ∧ text.head? ≠ some ' '

theorem lines_text {c : Char} (other : c ≠ '\n') (more : List Char) :
    (Pending.lines (some c) more).text = c :: more := by
  simp [Pending.text]

/-- Holds for pending white space whose first break, if any, is kept. -/
def IsKeptBreak : Pending → Prop
  | .blanks _ => True
  | .lines first _ => ∃ c ≠ '\n', first = some c

theorem isKeptBreak_none : IsKeptBreak .none := trivial

/-- Holds for strings that are read back behind pending white space exactly if nothing of both is
dropped. -/
def RereadsKept (text : List Char) : Prop :=
  ∀ {pending : Pending}, IsKeptBreak pending →
    (reread? pending text = some (pending.text ++ text) ↔ KeptBefore text pending ∧ IsKept text)

section

variable {pending : Pending} {c : Char} {rest : List Char}

theorem rereads_blank (ih : RereadsKept rest) :
    reread? pending (' ' :: rest) = some (pending.text ++ ' ' :: rest) ↔
      KeptBefore (' ' :: rest) pending ∧ Follows ' ' rest ∧ IsKept rest := by
  cases pending with
  | blanks blanks =>
    have here : reread? (.blanks (blanks ++ [' '])) rest = _ ↔ _ := ih trivial
    rw [Pending.text, List.append_assoc, List.singleton_append] at here
    rw [reread?, if_pos rfl, Pending.space, Pending.text, here]
    simp [KeptBefore, Follows, folds]
  | lines first more =>
    -- The blank behind a break is dropped, so what is read is too short.
    refine iff_of_false (fun same => ?_) fun kept => kept.1.2 rfl
    rw [reread?, if_pos rfl] at same
    have unspaced : (Pending.lines first more).space ' ' = .lines first more := rfl
    have short := (rereads_of_eq same).length_le
    rw [unspaced, List.length_append, List.length_cons] at short
    omega

theorem rereads_fold (ih : RereadsKept rest) (proper : IsKeptBreak pending) (blank : c ≠ ' ')
    (folded : folds c) (other : c ≠ '\x85') :
    reread? pending (c :: rest) = some (pending.text ++ c :: rest) ↔
      KeptBefore (c :: rest) pending ∧ Follows c rest ∧ IsKept rest := by
  rw [reread?, if_neg blank, if_pos folded, feed_eq other]
  have feed : c ≠ '\n' := by
    rintro rfl
    exact absurd folded (by decide)
  by_cases marked : (marks '-' rest || marks '.' rest) = true
  · rw [if_pos marked]
    refine iff_of_false (Option.some_ne_none _).symm fun kept => ?_
    obtain ⟨-, dashes, dots⟩ := kept.2.1.2 folded
    rw [dashes, dots] at marked
    cases marked
  rw [if_neg marked]
  have unmarked : marks '-' rest = false ∧ marks '.' rest = false := by simpa using marked
  cases pending with
  | blanks blanks =>
    cases blanks with
    | nil =>
      have here : reread? (.lines (some c) []) rest = _ ↔ _ := ih ⟨c, feed, rfl⟩
      rw [lines_text feed] at here
      rw [Pending.lineBreak]
      refine here.trans ?_
      simp [KeptBefore, Follows, blank, folded, unmarked, feed]
    | cons d blanks =>
      -- The blanks in front of the break are dropped.
      refine iff_of_false (fun same => ?_) fun kept => ?_
      · have short := (rereads_of_eq same).length_le
        rw [Pending.lineBreak, lines_text feed] at short
        simp only [Pending.text, List.length_append, List.length_cons, List.length_nil] at short
        omega
      · simp [KeptBefore, folded] at kept
  | lines first more =>
    obtain ⟨d, other, rfl⟩ := proper
    have here : reread? (.lines (some d) (more ++ [c])) rest = _ ↔ _ := ih ⟨d, other, rfl⟩
    rw [lines_text other, List.cons_append, List.append_assoc] at here
    rw [Pending.lineBreak, lines_text other]
    refine here.trans ?_
    simp [KeptBefore, Follows, blank, folded, unmarked, other]

theorem rereads_plain (ih : RereadsKept rest) (proper : IsKeptBreak pending) (blank : c ≠ ' ')
    (unfolded : folds c = false) :
    reread? pending (c :: rest) = some (pending.text ++ c :: rest) ↔
      KeptBefore (c :: rest) pending ∧ Follows c rest ∧ IsKept rest := by
  have here : reread? .none rest = some rest ↔ IsKept rest :=
    (ih isKeptBreak_none).trans (and_iff_right (.inl rfl))
  have kept : KeptBefore (c :: rest) pending ∧ Follows c rest := by
    refine ⟨?_, fun same => absurd same blank, fun folded => absurd (unfolded.symm.trans folded)
      (by decide)⟩
    cases pending with
    | blanks blanks => exact .inr fun d same => Option.some.inj same ▸ unfolded
    | lines first more => exact ⟨proper, fun same => blank (Option.some.inj same)⟩
  rw [reread?, if_neg blank, unfolded, ← and_assoc, and_iff_right kept, ← here]
  cases reread? .none rest <;> simp

end

theorem rereadsKept {text : List Char} (unfed : '\x85' ∉ text) : RereadsKept text := by
  induction text with
  | nil =>
    intro pending proper
    rw [reread?, List.append_nil]
    refine iff_of_true rfl ⟨?_, isKept_nil⟩
    cases pending with
    | blanks blanks => exact .inr (by simp)
    | lines first more => exact ⟨proper, by simp⟩
  | cons c rest ih =>
    intro pending proper
    rw [List.mem_cons, not_or] at unfed
    have other : c ≠ '\x85' := fun same => unfed.1 same.symm
    rw [isKept_cons_iff other]
    by_cases blank : c = ' '
    · subst blank
      exact rereads_blank (ih unfed.2)
    cases folded : folds c with
    | true => exact rereads_fold (ih unfed.2) proper blank folded other
    | false => exact rereads_plain (ih unfed.2) proper blank folded

/-- A string is read back as it is exactly if it is kept. -/
theorem reread?_eq_self_iff {text : List Char} :
    reread? .none text = some text ↔ IsKept text := by
  by_cases fed : '\x85' ∈ text
  · refine iff_of_false (fun same => ?_) fun kept => kept.unfed fed
    exact (rereads_of_eq same).unfed List.not_mem_nil fed
  · exact (rereadsKept fed isKeptBreak_none).trans (and_iff_right (.inl rfl))

theorem isAlpha_feed {c : Char} (folded : folds c) : (feed c).isAlpha = false := by
  rcases folds_iff.mp folded with rfl | member
  · rfl
  · rcases List.mem_cons.mp member with rfl | member
    · rfl
    · rw [List.mem_singleton.mp member]
      rfl

def IsMarked (pending : Pending) : Prop := ∃ c ∈ pending.text, c.isAlpha = false

theorem isMarked_space {pending : Pending} (h : pending = .none ∨ IsMarked pending) :
    IsMarked (pending.space ' ') := by
  cases pending with
  | blanks blanks => exact ⟨' ', by simp [Pending.space, Pending.text], rfl⟩
  | lines first more => exact h.resolve_left nofun

theorem isMarked_lineBreak {c : Char} (other : c.isAlpha = false) (pending : Pending) :
    IsMarked (pending.lineBreak c) := by
  rcases text_lineBreak c pending with ⟨before, -, same⟩ | same
  · exact ⟨c, by simp [same], other⟩
  · exact ⟨' ', by simp [same], rfl⟩

theorem Rereads.exists_mem {pending : Pending} {text read : List Char}
    (h : Rereads pending text read)
    (marked : IsMarked pending) : ∃ c ∈ read, c.isAlpha = false := by
  induction h with
  | ends => exact marked
  | blank _ ih => exact ih (isMarked_space (.inr marked))
  | fold folded _ ih => exact ih (isMarked_lineBreak (isAlpha_feed folded) _)
  | plain _ _ _ _ =>
    obtain ⟨d, member, other⟩ := marked
    exact ⟨d, List.mem_append_left _ member, other⟩

theorem eq_of_reread? {text read : List Char} (isRead : reread? .none text = some read)
    (word : read.all Char.isAlpha) : text = read := by
  have letters {read : List Char} (word : read.all Char.isAlpha) :
      ¬ ∃ c ∈ read, c.isAlpha = false := by
    rintro ⟨c, member, other⟩
    exact Bool.false_ne_true (other.symm.trans (List.all_eq_true.mp word c member))
  have h := rereads_of_eq isRead
  clear isRead
  generalize isNone : Pending.none = pending at h
  induction h with
  | ends =>
    subst isNone
    rfl
  | blank later _ =>
    exact absurd (later.exists_mem (isMarked_space (.inl isNone.symm))) (letters word)
  | fold folded later _ =>
    exact absurd (later.exists_mem (isMarked_lineBreak (isAlpha_feed folded) _)) (letters word)
  | plain _ _ later ih =>
    subst isNone
    rw [Pending.none, Pending.text, List.nil_append, List.all_cons, Bool.and_eq_true] at word
    exact congrArg (_ :: ·) (ih word.2 rfl)

theorem isKept_word {text : List Char} (word : text.all Char.isAlpha) : IsKept text := by
  have letters : ∀ c ∈ text, c.isAlpha := List.all_eq_true.mp word
  have noBlank : ' ' ∉ text := fun member => absurd (letters _ member) (by decide)
  refine ⟨fun member => absurd (letters _ member) (by decide),
    fun c _ => ⟨fun inside => ?_, fun inside => ?_⟩, fun c _ mark _ inside => ?_⟩ <;>
  exact noBlank (inside.subset (by simp))

end TemplateActions.Yaml.Quoted
