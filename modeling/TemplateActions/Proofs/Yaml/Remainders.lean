import Mathlib.Data.List.Infix
import TemplateActions.Yaml.Layout

/-!
What a reader of tokens leaves over is an end of the text that it is given.
-/
namespace TemplateActions.Yaml

open List (dropWhile_suffix suffix_cons suffix_rfl drop_suffix tail_suffix)

variable {input rest : List Char}

theorem suffix_cons_of {c : Char} (h : rest <:+ input) : rest <:+ c :: input :=
  h.trans (suffix_cons _ _)

namespace Property

theorem name?_suffix {name : List Char} (read : name? input = some (name, rest)) :
    rest <:+ input := by
  rw [name?] at read
  split at read <;> cases read
  exact dropWhile_suffix _

theorem uriBytes_suffix {bytes : List UInt8} (read : uriBytes input = some (bytes, rest)) :
    rest <:+ input := by
  fun_induction uriBytes input generalizing bytes rest with
  | case1 =>
    cases read
    exact suffix_rfl
  | case2 _ _ _ _ _ _ _ more _ ih =>
    cases read
    exact suffix_cons_of (suffix_cons_of (suffix_cons_of (ih more)))
  | case3 | case4 => nomatch read
  | case5 _ _ _ _ _ ih =>
    obtain ⟨⟨_, _⟩, more, same⟩ := Option.map_eq_some_iff.mp read
    cases same
    exact suffix_cons_of (ih more)
  | case6 =>
    cases read
    exact suffix_rfl

theorem uri?_suffix {name : List Char} (read : uri? input = some (name, rest)) :
    rest <:+ input := by
  rw [uri?] at read
  split at read
  · rename_i more
    split at read
    · split at read <;> cases read
      exact uriBytes_suffix more
    · nomatch read
  · nomatch read

/-- A handle starts with a mark of its own. -/
theorem handle?_suffix {name : List Char} (read : handle? input = some (name, rest)) :
    rest <:+ input.tail := by
  rw [handle?.eq_def] at read
  split at read
  · rename_i more
    split at read
    · cases read
      exact suffix_rfl
    · have behind : more.dropWhile isWordChar <:+ more := dropWhile_suffix _
      split at read <;> cases read
      rename_i ends
      rw [ends] at behind
      exact (suffix_cons _ _).trans behind
  · nomatch read

theorem tag?_suffix {name : TagName} (read : tag? input = some (name, rest)) : rest <:+ input := by
  rw [tag?.eq_def] at read
  obtain ⟨read, -⟩ := Option.filter_eq_some_iff.mp read
  split at read
  · split at read <;> cases read
    rename_i named
    exact suffix_cons_of ((suffix_cons _ _).trans (uri?_suffix named))
  · split at read
    · cases read
      exact suffix_rfl
    split at read
    · obtain ⟨⟨handle, behind⟩, isHandle, read⟩ := Option.bind_eq_some_iff.mp read
      obtain ⟨⟨suffix, _⟩, named, same⟩ := Option.map_eq_some_iff.mp read
      cases same
      exact (uri?_suffix named).trans (handle?_suffix isHandle)
    · obtain ⟨⟨suffix, _⟩, named, same⟩ := Option.map_eq_some_iff.mp read
      cases same
      exact uri?_suffix named

theorem number?_suffix {n : Nat} (read : number? input = some (n, rest)) : rest <:+ input := by
  rw [number?, Decimal.span] at read
  dsimp only at read
  split at read <;> cases read
  exact dropWhile_suffix _

theorem version?_suffix {directive : Directive} (read : version? input = some (directive, rest)) :
    rest <:+ input := by
  rw [version?] at read
  split at read
  · rename_i major
    split at read
    · rename_i minor
      split at read <;> cases read
      exact (number?_suffix minor).trans ((suffix_cons _ _).trans
        ((number?_suffix major).trans (dropWhile_suffix _)))
    · nomatch read
  · nomatch read

theorem tagDirective?_suffix {directive : Directive}
    (read : tagDirective? input = some (directive, rest)) : rest <:+ input := by
  rw [tagDirective?] at read
  split at read
  · rename_i handle
    split at read
    · rename_i start
      split at read <;> cases read
      exact (uri?_suffix start).trans ((dropWhile_suffix _).trans ((suffix_cons _ _).trans
        ((handle?_suffix handle).trans ((tail_suffix _).trans (dropWhile_suffix _)))))
    · nomatch read
  · nomatch read

theorem skipComment_suffix (mark : Char → Bool) (input : List Char) :
    (if input.head? == some '#' then input.dropWhile mark else input) <:+ input := by
  split
  · exact dropWhile_suffix _
  · exact suffix_rfl

theorem directive?_suffix {directive : Directive}
    (read : directive? input = some (directive, rest)) : rest <:+ input := by
  simp only [directive?] at read
  split at read
  · nomatch read
  · split at read
    · nomatch read
    · rename_i body isBody
      have named : body <:+ input := by
        refine List.IsSuffix.trans ?_ (dropWhile_suffix fun c => isWordChar c ||
          c == ':' || c == '.')
        split at isBody
        · exact version?_suffix isBody
        · split at isBody
          · exact tagDirective?_suffix isBody
          · cases isBody
            exact dropWhile_suffix _
      have behind := (skipComment_suffix (· != '\n') (skipSpaces body)).trans
          ((dropWhile_suffix _).trans named)
      split at read
      · cases read
        exact List.nil_suffix
      · rename_i ends
        split at read <;> cases read
        rw [ends] at behind
        exact (suffix_cons _ _).trans behind

end Property

namespace Block

theorem chomping?_suffix {chomping : Chomping} (read : chomping? input = some (chomping, rest)) :
    rest <:+ input := by
  rw [chomping?.eq_def] at read
  split at read <;> cases read <;> exact suffix_cons _ _

theorem increment?_suffix {n : Nat} (read : increment? input = some (n, rest)) :
    rest <:+ input := by
  rw [increment?.eq_def] at read
  split at read
  · split at read <;> cases read
    exact suffix_cons _ _
  · nomatch read

theorem indicators_suffix (input : List Char) : (indicators input).2 <:+ input := by
  rw [indicators]
  split
  · rename_i chomped
    split
    · rename_i increased
      exact (increment?_suffix increased).trans (chomping?_suffix chomped)
    · exact chomping?_suffix chomped
  · split
    · exact suffix_rfl
    · rename_i increased
      split
      · rename_i chomped
        exact (chomping?_suffix chomped).trans (increment?_suffix increased)
      · exact increment?_suffix increased

theorem endOfHeader?_suffix (read : endOfHeader? input = some rest) : rest <:+ input := by
  have behind := (Property.skipComment_suffix (· != '\n') (input.dropWhile (· == ' '))).trans
    (dropWhile_suffix _)
  simp only [endOfHeader?] at read
  split at read
  · cases read
    exact List.nil_suffix
  · rename_i ends
    split at read <;> cases read
    rw [ends] at behind
    exact (suffix_cons _ _).trans behind

theorem header?_suffix {header : Header} (read : header? input = some (header, rest)) :
    rest <:+ input := by
  rw [header?] at read
  split at read
  rename_i header' more isIndicated
  have behind := indicators_suffix input
  rw [isIndicated] at behind
  split at read
  · obtain ⟨_, ends, same⟩ := Option.map_eq_some_iff.mp read
    cases same
    exact (endOfHeader?_suffix ends).trans behind
  · nomatch read

theorem blank_suffix (indent : Nat) (breaks : List Char) (column : Nat) (input : List Char) :
    (blank indent breaks column input).rest <:+ input := by
  fun_induction blank indent breaks column input with
  | case1 => exact suffix_rfl
  | case2 _ _ _ _ _ ih | case3 _ _ _ _ _ _ ih => exact suffix_cons_of ih
  | case4 => exact suffix_rfl

theorem lines_suffix (folded : Bool) (chomping : Chomping) (indent : Nat) (start : List Char)
    (fuel : Nat)
    (before : Blank) : (lines folded chomping indent start fuel before).2 <:+ before.rest := by
  induction fuel generalizing start before with
  | zero => exact suffix_rfl
  | succ fuel ih =>
    unfold lines
    extract_lets line rest text lineBreak column next kept textual separator
    have behind : next.rest <:+ before.rest :=
      (blank_suffix _ _ _ _).trans ((drop_suffix _ _).trans (dropWhile_suffix _))
    split
    · exact behind
    · exact (ih _ next).trans behind

theorem read?_suffix {folded : Bool} {least : Nat} {text : List Char}
    (read : read? folded least input = some (text, rest)) : rest <:+ input := by
  rw [read?] at read
  split at read
  · nomatch read
  · rename_i header more isHeader
    extract_lets indent before at read
    have behind : before.rest <:+ input := (blank_suffix _ _ _ _).trans (header?_suffix isHeader)
    split at read
    · cases read
      exact behind
    · have same := congrArg Prod.snd (Option.some.inj read)
      dsimp only at same
      rw [← same]
      exact (lines_suffix ..).trans behind

end Block

namespace Plain

theorem word_suffix (flow : Bool) (input : List Char) : (word flow input).2 <:+ input := by
  induction input with
  | nil => exact suffix_rfl
  | cons c rest ih =>
    rw [word]
    split
    · exact suffix_rfl
    · exact suffix_cons_of ih

theorem blankLines_suffix (breaks : List Char) (column : Nat) (input : List Char) :
    (blankLines breaks column input).rest <:+ input := by
  fun_induction blankLines breaks column input with
  | case1 => exact suffix_rfl
  | case2 _ _ _ _ _ ih | case3 _ _ _ _ _ _ ih => exact suffix_cons_of ih
  | case4 => exact suffix_rfl

theorem gap_suffix (input : List Char) : (gap input).rest <:+ input := by
  have behind : input.dropWhile (· == ' ') <:+ input := dropWhile_suffix _
  rw [gap]
  split
  · exact List.nil_suffix
  · rename_i c more ends
    rw [ends] at behind
    have lines := (blankLines_suffix [] 0 more).trans ((suffix_cons _ _).trans behind)
    split
    · exact behind
    · split
      · exact lines
      · dsimp only
        split <;> exact lines

theorem words_suffix (flow : Bool) (least fuel : Nat) (input : List Char) :
    (words flow least fuel input).rest <:+ input := by
  induction fuel generalizing input with
  | zero => exact suffix_rfl
  | succ fuel ih =>
    have behind := (gap_suffix _).trans (word_suffix flow input)
    rw [words]
    dsimp only
    split
    · exact suffix_rfl
    · split
      · exact behind
      · exact (ih _).trans behind

end Plain

theorem Layout.behind_suffix (rest : List Char) (directive : Directive) :
    behind rest directive <:+ rest := by
  rw [behind.eq_def]
  split
  · split
    · exact suffix_rfl
    · exact List.nil_suffix
  · exact suffix_rfl

theorem Layout.skip_suffix (flow comment : Bool) (input : List Char) :
    (skip flow comment input).2 <:+ input := by
  fun_induction skip flow comment input with
  | case1 => exact suffix_rfl
  | case7 => exact suffix_rfl
  | _ => exact suffix_cons_of ‹_›

end TemplateActions.Yaml
