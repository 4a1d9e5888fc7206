import Mathlib.Algebra.Group.Nat.Defs
import TemplateActions.Proofs.Yaml.Remainders

/-!
How taking tokens fails: the text is malformed, or an escape in a quoted scalar stands for a number
beyond the last code point.
-/
namespace TemplateActions

namespace Escape

theorem hexDigit?_lt {c : Char} {d : Nat} (isDigit : hexDigit? c = some d) : d < 16 := by
  have upTo {a b : Char} (range : (a ≤ c && c ≤ b) = true) : c.toNat ≤ b.toNat := by
    rw [Bool.and_eq_true, decide_eq_true_iff, decide_eq_true_iff] at range
    exact range.2
  rw [hexDigit?] at isDigit
  split at isDigit
  · have top := upTo ‹_›
    cases isDigit
    simp only [Char.reduceToNat] at top ⊢
    omega
  split at isDigit
  · have top := upTo ‹_›
    cases isDigit
    simp only [Char.reduceToNat] at top ⊢
    omega
  split at isDigit
  · have top := upTo ‹_›
    cases isDigit
    simp only [Char.reduceToNat] at top ⊢
    omega
  · nomatch isDigit

theorem hex?_lt {seen count n : Nat} {digits rest : List Char}
    (read : hex? seen count digits = some (n, rest)) : n < (seen + 1) * 16 ^ count := by
  induction count generalizing seen digits with
  | zero =>
    cases read
    omega
  | succ count ih =>
    cases digits with
    | nil => nomatch read
    | cons c digits =>
      rw [hex?] at read
      split at read
      · rename_i d isDigit
        have small := hexDigit?_lt isDigit
        calc n < (seen * 16 + d + 1) * 16 ^ count := ih read
          _ ≤ ((seen + 1) * 16) * 16 ^ count := Nat.mul_le_mul_right _ (by omega)
          _ = (seen + 1) * 16 ^ (count + 1) := by rw [Nat.mul_assoc, Nat.pow_succ']
      · nomatch read

end Escape

namespace Yaml

open List (suffix_cons suffix_rfl drop_suffix)

variable {text rest : List Char} {failure : Failure}

/-- Holds if an escape in the text stands for a number beyond the last code point. -/
def EscapesTo (text : List Char) (number : Nat) : Prop :=
  0x110000 ≤ number ∧ ∃ digits rest, digits.length = 8 ∧ Escape.hex? 0 8 digits =
    some (number, rest) ∧
    '\\' :: 'U' :: digits <:+: text

/-- Holds for the failures to take a token from a text. -/
def FailsAt (text : List Char) (failure : Failure) : Prop :=
  failure = .malformed ∨ ∃ number, failure = .codePoint number ∧ EscapesTo text number

theorem FailsAt.malformed : FailsAt text .malformed := .inl rfl

theorem FailsAt.mono (fails : FailsAt rest failure) (behind : rest <:+ text) :
    FailsAt text failure := by
  rcases fails with malformed | ⟨number, same, beyond, digits, more, count, read, inside⟩
  · exact .inl malformed
  · exact .inr ⟨number, same, beyond, digits, more, count, read, inside.trans behind.isInfix⟩

/-- Holds for what is left over behind a token at the start of a text, or the failure to take it. -/
def Leaves {α : Type} (text : List Char) : Except Failure (α × List Char) → Prop
  | .ok (_, rest) => rest <:+ text
  | .error failure => FailsAt text failure

namespace Quoted

theorem leaves_mono {read : Codes} (leaves : Leaves rest read) (behind : rest <:+ text) :
    Leaves text read := by
  cases read with
  | ok result => exact leaves.trans behind
  | error failure => exact leaves.mono behind

theorem leaves_before {codes : List Nat} {read : Codes} (leaves : Leaves rest read)
    (behind : rest <:+ text) : Leaves text (before codes read) := by
  cases read with
  | ok result => exact List.IsSuffix.trans leaves behind
  | error failure => exact FailsAt.mono leaves behind

theorem codePoint_cases (digits : List Char) :
    (∃ code, codePoint digits = .ok code) ∨ codePoint digits = .error .malformed ∨
      ∃ number rest, codePoint digits = .error (.codePoint number) ∧ 0x110000 ≤ number ∧
        Escape.hex? 0 digits.length digits = some (number, rest) := by
  rw [codePoint]
  split
  · rename_i code rest isCode
    split
    · exact .inl ⟨code, rfl⟩
    · exact .inr (.inr ⟨code, rest, rfl, Nat.le_of_not_lt ‹_›, isCode⟩)
  · exact .inr (.inl rfl)

/-- Fewer than eight digits cannot leave the range of the code points. -/
theorem leaves_beforeHex {pending : Pending} {digits : List Char} {next : Codes}
    (leaves : Leaves rest next)
    (behind : rest <:+ text)
    (escapes : digits.length < 5 ∨ digits.length = 8 ∧ '\\' :: 'U' :: digits <:+: text) :
    Leaves text (beforeHex pending digits next) := by
  rw [beforeHex]
  rcases codePoint_cases digits with ⟨code, isCode⟩ | malformed | ⟨number, more, failed,
    beyond, read⟩
  · rw [isCode]
    exact leaves_before leaves behind
  · rw [malformed]
    exact .malformed
  · rw [failed]
    refine .inr ⟨number, rfl, beyond, digits, more, ?_⟩
    rcases escapes with short | ⟨count, inside⟩
    · have bound := Escape.hex?_lt read
      have power : 16 ^ digits.length ≤ 16 ^ 4 := Nat.pow_le_pow_right (by decide) (by omega)
      omega
    · rw [count] at read
      exact ⟨count, read, inside⟩

theorem single_leaves (pending : Pending) (text : List Char) :
    Leaves text (single pending text) := by
  fun_induction single pending text with
  | case1 | case5 => exact .malformed
  | case2 _ _ ih => exact leaves_before ih (suffix_cons_of (suffix_cons _ _))
  | case3 => exact suffix_cons _ _
  | case4 _ _ _ _ _ _ ih | case6 _ _ _ _ _ _ _ _ ih => exact leaves_mono ih (suffix_cons _ _)
  | case7 _ _ _ _ _ _ _ ih => exact leaves_before ih (suffix_cons _ _)

theorem double_leaves (pending : Pending) (text : List Char) :
    Leaves text (double pending text) := by
  fun_induction double pending text with
  | case1 | case5 | case8 | case10 | case12 => exact .malformed
  | case2 _ a b _ ih => exact leaves_beforeHex ih ⟨['\\', 'x', a, b], rfl⟩ (.inl (by simp))
  | case3 _ a b c d _ ih =>
    exact leaves_beforeHex ih ⟨['\\', 'u', a, b, c, d], rfl⟩ (.inl (by simp))
  | case4 _ a b c d e f g h rest ih =>
    exact leaves_beforeHex ih ⟨['\\', 'U', a, b, c, d, e, f, g, h], rfl⟩ (.inr ⟨rfl, [], rest, rfl⟩)
  | case6 _ _ _ _ _ _ _ _ ih | case7 _ _ _ _ _ _ _ _ _ ih =>
    exact leaves_before ih (suffix_cons_of (suffix_cons _ _))
  | case9 => exact suffix_cons _ _
  | case11 _ _ _ _ _ _ _ _ _ _ ih | case13 _ _ _ _ _ _ _ _ _ _ _ _ ih =>
    exact leaves_mono ih (suffix_cons _ _)
  | case14 _ _ _ _ _ _ _ _ _ _ _ ih => exact leaves_before ih (suffix_cons _ _)

theorem read_leaves (quote : Char) (text : List Char) : Leaves text (read quote text) := by
  have leaves : Leaves text (if quote == '"' then double .none text else single .none text) := by
    split
    · exact double_leaves .none text
    · exact single_leaves .none text
  rw [read]
  split <;> rename_i same <;> rw [same] at leaves <;> exact leaves

end Quoted

namespace Layout

/-- Holds for a step that goes on behind the start of a text, or fails to take a token from it. -/
def Advances (text : List Char) : Step → Prop
  | .ok s => s.rest <:+ text
  | .error failure => FailsAt text failure

variable {s : Layout}

theorem dropKey_cases (s : Layout) : s.dropKey = .error .malformed ∨
    s.dropKey = .ok s.forgetKey := by
  rw [dropKey]
  split
  · exact .inl rfl
  · exact .inr rfl

theorem saveKey_cases (s : Layout) :
    s.saveKey = .error .malformed ∨ ∃ next, s.saveKey = .ok next ∧ next.rest = s.rest := by
  rw [saveKey]
  split
  · rcases s.dropKey_cases with failed | dropped
    · rw [failed]
      exact .inl rfl
    · rw [dropped]
      exact .inr ⟨_, rfl, rfl⟩
  · exact .inr ⟨_, rfl, rfl⟩

theorem openMapping_cases (s : Layout) :
    s.openMapping = .error .malformed ∨ ∃ next, s.openMapping = .ok next := by
  rw [openMapping]
  split
  · exact .inr ⟨_, rfl⟩
  split
  · exact .inr ⟨_, rfl⟩
  · exact .inl rfl

theorem outermost_advances (token : Token) (behind : rest <:+ text) :
    Advances text (s.outermost token rest) := by
  rw [outermost]
  rcases s.closeAllBlocks.dropKey_cases with failed | dropped
  · rw [failed]
    exact .malformed
  · rw [dropped]
    exact behind

theorem documentEnd_advances (behind : rest <:+ text) : Advances text (s.documentEnd rest) := by
  rw [documentEnd]
  split
  · exact outermost_advances _ behind
  · split
    · exact outermost_advances _ behind
    · exact .malformed

theorem openFlow_advances (context : Context) (token : Token) (behind : rest <:+ text) :
    Advances text (s.openFlow context token rest) := by
  rw [openFlow]
  rcases s.saveKey_cases with failed | ⟨next, saved, -⟩
  · rw [failed]
    exact .malformed
  · rw [saved]
    exact behind

theorem closeFlow_advances (token : Token) (behind : rest <:+ text) :
    Advances text (s.closeFlow token rest) := by
  rw [closeFlow]
  split
  · exact .malformed
  · exact behind

theorem flowEntry_advances (behind : rest <:+ text) : Advances text (s.flowEntry rest) := by
  rw [flowEntry]
  rcases s.dropKey_cases with failed | dropped
  · rw [failed]
    exact .malformed
  · rw [dropped]
    exact behind

theorem blockEntry_advances (behind : rest <:+ text) : Advances text (s.blockEntry rest) := by
  rw [blockEntry]
  split
  · exact .malformed
  · rcases (s.openBlock s.position.column .blockSequenceStart).dropKey_cases with failed | dropped
    · rw [failed]
      exact .malformed
    · rw [dropped]
      exact behind

theorem explicitKey_advances (behind : rest <:+ text) : Advances text (s.explicitKey rest) := by
  rw [explicitKey]
  rcases s.openMapping_cases with failed | ⟨next, opened⟩
  · rw [failed]
    exact .malformed
  · rw [opened]
    rcases next.dropKey_cases with failed | dropped
    · dsimp only
      rw [failed]
      exact .malformed
    · dsimp only
      rw [dropped]
      exact behind

theorem value_advances (behind : rest <:+ text) : Advances text (s.value rest) := by
  rw [value]
  split
  · exact behind
  · rcases s.openMapping_cases with failed | ⟨next, opened⟩
    · rw [failed]
      exact .malformed
    · rw [opened]
      exact behind

theorem content_advances {read : Option (Token × List Char)}
    (behind : ∀ token rest, read = some (token, rest) → rest <:+ text) :
    Advances text (s.content read) := by
  unfold content
  rcases s.saveKey_cases with failed | ⟨next, saved, -⟩
  · rw [failed]
    exact .malformed
  · rw [saved]
    cases read with
    | none => exact .malformed
    | some result => exact behind _ _ rfl

theorem quoted_advances (quote : Char) (behind : rest <:+ text) :
    Advances text (s.quoted quote rest) := by
  have leaves := Quoted.read_leaves quote rest
  rw [quoted]
  split
  · rename_i failed
    rw [failed] at leaves
    exact FailsAt.mono leaves behind
  · rename_i read
    rw [read] at leaves
    refine content_advances fun token more same => ?_
    cases same
    exact List.IsSuffix.trans leaves behind

theorem blockScalar_advances (folded : Bool) (behind : rest <:+ text) :
    Advances text (s.blockScalar folded rest) := by
  rw [blockScalar]
  split
  · rename_i read
    exact (Block.read?_suffix read).trans behind
  · exact .malformed

theorem plain_advances : Advances s.rest s.plain := by
  have advances : Advances s.rest (s.content
      (some (.scalar true (Plain.read s.inFlow s.leastColumn s.rest).text,
      (Plain.read s.inFlow s.leastColumn s.rest).rest))) := by
    refine content_advances fun token rest same => ?_
    cases same
    exact Plain.words_suffix ..
  rw [plain]
  split <;> rename_i same <;> rw [same] at advances <;> exact advances

theorem Advances.ite {p : Prop} [Decidable p] {step step' : Step} (first : Advances text step)
    (second : Advances text step') : Advances text (if p then step else step') := by
  split
  · exact first
  · exact second

theorem named_advances {α : Type} {read : Option (α × List Char)} (token : α → Token)
    (behind : ∀ name rest, read = some (name, rest) → rest <:+ text) :
    Advances text (s.content (read.map fun (name, rest) => (token name, rest))) := by
  refine content_advances fun _ rest same => ?_
  obtain ⟨_, named, same⟩ := Option.map_eq_some_iff.mp same
  cases same
  exact behind _ _ named

theorem token_advances (held : Bool) {c : Char} (here : s.rest = c :: rest) :
    Advances (c :: rest) (s.token held c rest) := by
  have behind : rest <:+ c :: rest := suffix_cons c rest
  have marker : rest.drop 2 <:+ c :: rest := suffix_cons_of (drop_suffix 2 rest)
  have plain : Advances (c :: rest) s.plain := here ▸ plain_advances
  unfold token
  refine .ite ?directive <| .ite (outermost_advances _ marker) <|
    .ite (documentEnd_advances marker) <|
    .ite (openFlow_advances _ _ behind) <| .ite (openFlow_advances _ _ behind) <|
    .ite (closeFlow_advances _ behind) <| .ite (closeFlow_advances _ behind) <|
    .ite (flowEntry_advances behind) <| .ite (blockEntry_advances behind) <|
    .ite (explicitKey_advances behind) <| .ite (value_advances behind) <|
    .ite (named_advances .alias fun _ _ read => suffix_cons_of (Property.name?_suffix read)) <|
    .ite (named_advances .anchor fun _ _ read => suffix_cons_of (Property.name?_suffix read)) <|
    .ite (named_advances .tag fun _ _ read => suffix_cons_of (Property.tag?_suffix read)) <|
    .ite (blockScalar_advances _ behind) <| .ite (blockScalar_advances _ behind) <|
    .ite (quoted_advances _ behind) <| .ite plain .malformed
  split
  · rename_i directive more read
    exact outermost_advances _ ((behind_suffix more directive).trans
      (suffix_cons_of (Property.directive?_suffix read)))
  · exact .malformed

theorem rest_skipBlank_suffix (s : Layout) : s.skipBlank.rest <:+ s.rest := skip_suffix ..

theorem expireKeys_cases (s : Layout) :
    s.expireKeys = .error .malformed ∨ ∃ next, s.expireKeys = .ok next ∧ next.rest = s.rest := by
  rw [expireKeys]
  split
  · exact .inl rfl
  · exact .inr ⟨_, rfl, rfl⟩

theorem rest_closeBlocks (s : Layout) : s.closeBlocks.rest = s.rest := by
  rw [closeBlocks]
  split <;> rfl

theorem finish_failure (failed : s.finish = .error failure) : failure = .malformed := by
  rw [finish] at failed
  rcases s.closeAllBlocks.dropKey_cases with dropped | dropped <;> rw [dropped] at failed <;>
    cases failed
  rfl

/-- What one token needs is an end of what was left before it, so a failure to take it is accounted
for by the whole text. -/
theorem run_failure {fuel : Nat} (failed : run fuel s = .error failure) :
    FailsAt s.rest failure := by
  induction fuel generalizing s with
  | zero =>
    cases failed
    exact .malformed
  | succ fuel ih =>
    have behind := s.rest_skipBlank_suffix
    rw [run] at failed
    rcases s.skipBlank.expireKeys_cases with expired | ⟨next, expired, same⟩
    · rw [expired] at failed
      cases failed
      exact .malformed
    · rw [expired] at failed
      rw [← same] at behind
      dsimp only at failed
      split at failed
      · rw [finish_failure failed]
        exact .malformed
      · rename_i c rest here
        have advances := token_advances s.holdsTokens (next.rest_closeBlocks.trans here)
        rw [here] at behind
        split at failed
        · rename_i stopped
          rw [stopped] at advances
          cases failed
          exact FailsAt.mono advances behind
        · rename_i later taken
          rw [taken] at advances
          exact (ih failed).mono (List.IsSuffix.trans advances behind)

end Layout

theorem tokens_failure (failed : tokens text = .error failure) : FailsAt text failure := by
  rw [tokens] at failed
  have fails := Layout.run_failure failed
  refine FailsAt.mono fails ?_
  rw [Layout.start]
  split
  · exact drop_suffix 1 text
  · exact suffix_rfl

end Yaml
end TemplateActions
