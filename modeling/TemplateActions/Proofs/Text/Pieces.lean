import Mathlib.Data.List.Forall2
import TemplateActions.Proofs.Text.Quoted
import TemplateActions.Value.Literal

/-!
Pieces of text that can be read whatever stands behind them. Two such pieces are compared together
with their rests: quoted texts end at the quote that opened them, and items in brackets end at a
comma or at the closing bracket, so a text that is put together from them is read in one way only.
-/
namespace TemplateActions

def StartsOther (c : Char) (piece : List Char) : Prop := ∃ first ∈ piece.head?, first ≠ c

theorem StartsOther.append {c : Char} {piece : List Char} (h : StartsOther c piece)
    (rest : List Char) : StartsOther c (piece ++ rest) := by
  obtain ⟨first, isFirst, other⟩ := h
  rw [StartsOther, List.head?_append, isFirst]
  exact ⟨first, rfl, other⟩

/-- Holds if two pieces decide `P`: with anything behind them they give the same text exactly if `P`
holds and the rests are the same. -/
def Decides (piece piece' : List Char) (P : Prop) : Prop :=
  ∀ rest rest', piece ++ rest = piece' ++ rest' ↔ P ∧ rest = rest'

namespace Decides

variable {piece piece' more more' : List Char} {P Q : Prop}

theorem eq_iff (h : Decides piece piece' P) : piece = piece' ↔ P := by
  simpa using h [] []

theorem congr (h : Decides piece piece' P) (same : P ↔ Q) : Decides piece piece' Q := by
  intro rest rest'
  rw [h, same]

theorem symm (h : Decides piece piece' P) : Decides piece' piece P := by
  intro rest rest'
  rw [eq_comm, h, eq_comm]

theorem self (piece : List Char) (holds : P) : Decides piece piece P := by
  intro rest rest'
  rw [List.append_cancel_left_eq, iff_true_intro holds, true_and]

theorem of_head {c : Char} (other : StartsOther c piece) (first : piece'.head? = some c)
    (fails : ¬ P) : Decides piece piece' P := by
  intro rest rest'
  refine iff_of_false (fun same => ?_) fun h => fails h.1
  obtain ⟨c', first', different⟩ := other.append rest
  rw [same, List.head?_append, first, Option.some_or] at first'
  exact different (Option.some.inj first').symm

theorem append (first : Decides piece piece' P) (last : Decides more more' Q) :
    Decides (piece ++ more) (piece' ++ more') (P ∧ Q) := by
  intro rest rest'
  rw [List.append_assoc, List.append_assoc, first, last, and_assoc]

theorem behind (before : List Char) (h : Decides piece piece' P) :
    Decides (before ++ piece) (before ++ piece') P :=
  ((self before trivial).append h).congr (by rw [true_and])

theorem before (after : List Char) (h : Decides piece piece' P) :
    Decides (piece ++ after) (piece' ++ after) P :=
  (h.append (self after trivial)).congr (by rw [and_true])

theorem cons (c : Char) (h : Decides piece piece' P) : Decides (c :: piece) (c :: piece') P :=
  h.behind [c]

theorem last {separator : List Char} (h : Decides piece piece' P) :
    Decides (joinChars separator [piece]) (joinChars separator [piece']) P := h

theorem joined {separator : List Char} {rest rest' : List (List Char)}
    (first : Decides piece piece' P)
    (others : Decides (joinChars separator (more :: rest))
      (joinChars separator (more' :: rest')) Q) :
    Decides (joinChars separator (piece :: more :: rest))
      (joinChars separator (piece' :: more' :: rest'))
      (P ∧ Q) :=
  (first.before separator).append others

end Decides

section Lists

variable {α : Type} {write : α → List Char} {Same : α → α → Prop} {items items' : List α}

theorem decides_until {stop : Char} (other : ∀ x, StartsOther stop (write x))
    (each : ∀ x ∈ items, ∀ y ∈ items', Decides (write x) (write y) (Same x y)) :
    Decides (items.flatMap write ++ [stop]) (items'.flatMap write ++ [stop])
      (List.Forall₂ Same items items') := by
  have opens (x : α) (rest : List α) : StartsOther stop ((x :: rest).flatMap write ++ [stop]) := by
    rw [List.flatMap_cons, List.append_assoc]
    exact (other x).append _
  induction items generalizing items' with
  | nil =>
    cases items' with
    | nil => exact .self _ .nil
    | cons y ys => exact (Decides.of_head (opens y ys) rfl (nomatch ·)).symm
  | cons x xs ih =>
    cases items' with
    | nil => exact .of_head (opens x xs) rfl (nomatch ·)
    | cons y ys =>
      simp only [List.forall_mem_cons] at each
      have later := ih fun x' there => (each.2 x' there).2
      rw [List.flatMap_cons, List.flatMap_cons, List.append_assoc, List.append_assoc]
      exact (each.1.1.append later).congr List.forall₂_cons.symm

theorem joinChars_cons (separator piece : List Char) (rest : List (List Char)) :
    joinChars separator (piece :: rest) = piece ++ rest.flatMap (separator ++ ·) := by
  induction rest generalizing piece with
  | nil => rw [joinChars, List.flatMap_nil, List.append_nil]
  | cons next later ih =>
    rw [joinChars, ih, List.flatMap_cons, List.append_assoc, List.append_assoc]
    exact nofun

namespace Literal

theorem bracketed_cons (x : α) (xs : List α) :
    bracketed ((x :: xs).map write) =
      '[' :: (write x ++ (xs.flatMap (fun y => comma ++ write y) ++ [']'])) := by
  rw [List.map_cons, bracketed, joinChars_cons, List.flatMap_map, List.cons_append,
    List.append_assoc]

/-- A list in brackets decides its items, if none of them can be taken for the closing bracket. -/
theorem decides_bracketed (other : ∀ x ∈ items, StartsOther ']' (write x))
    (other' : ∀ y ∈ items', StartsOther ']' (write y))
    (each : ∀ x ∈ items, ∀ y ∈ items', Decides (write x) (write y) (Same x y)) :
    Decides (bracketed (items.map write)) (bracketed (items'.map write))
      (List.Forall₂ Same items items') := by
  have opens {x : α} {xs : List α} (h : ∀ y ∈ x :: xs, StartsOther ']' (write y)) :
      StartsOther ']' (write x ++ (xs.flatMap (fun y => comma ++ write y) ++ [']'])) :=
    (h x List.mem_cons_self).append _
  cases items with
  | nil =>
    cases items' with
    | nil => exact .self _ .nil
    | cons y ys =>
      rw [bracketed_cons]
      exact (Decides.of_head (opens other') rfl (nomatch ·)).symm.cons '['
  | cons x xs =>
    cases items' with
    | nil =>
      rw [bracketed_cons]
      exact (Decides.of_head (opens other) rfl (nomatch ·)).cons '['
    | cons y ys =>
      simp only [List.forall_mem_cons] at each
      have marked (z : α) : StartsOther ']' (comma ++ write z) := ⟨',', rfl, by decide⟩
      have later := decides_until marked fun x' there y' there' =>
        ((each.2 x' there).2 y' there').behind comma
      rw [bracketed_cons, bracketed_cons]
      exact ((each.1.1.append later).cons '[').congr List.forall₂_cons.symm

end Literal

end Lists

namespace Quoted

theorem startsOther_escapeChar {quote : Char} (isQuote : IsQuote quote) (c : Char) :
    StartsOther quote (escapeChar quote c) := by
  have slash : '\\' ≠ quote := by rcases isQuote with rfl | rfl <;> decide
  rw [escapeChar]
  split
  case isTrue => exact ⟨'\\', rfl, slash⟩
  case isFalse plain =>
    simp only [Bool.or_eq_true, decide_eq_true_eq, not_or] at plain
    split_ifs
    · exact ⟨'\\', rfl, slash⟩
    · exact ⟨'\\', rfl, slash⟩
    · exact ⟨'\\', rfl, slash⟩
    · exact ⟨c, rfl, plain.2⟩
    · rw [escapeCode]
      split_ifs <;> exact ⟨'\\', rfl, slash⟩

theorem decides_escapeChar {quote : Char} (isQuote : IsQuote quote) (c c' : Char) :
    Decides (escapeChar quote c) (escapeChar quote c') (c = c') := by
  intro rest rest'
  constructor
  · intro same
    have read := congrArg unescape same
    rw [unescape_escapeChar isQuote, unescape_escapeChar isQuote, Prod.mk.injEq] at read
    exact read
  · rintro ⟨rfl, rfl⟩
    rfl

theorem decides_chars (text text' : List Char) :
    Decides (chars text) (chars text') (text = text') := by
  rw [chars, chars]
  by_cases sameQuote : quoteOf text = quoteOf text'
  · have isQuote := isQuote_quoteOf text'
    have each : ∀ c ∈ text, ∀ c' ∈ text', Decides (escapeChar (quoteOf text') c)
        (escapeChar (quoteOf text') c') (c = c') := fun c _ c' _ => decides_escapeChar isQuote c c'
    have inside := decides_until (startsOther_escapeChar isQuote) each
    rw [sameQuote]
    exact (inside.cons _).congr (by rw [List.forall₂_eq_eq_eq])
  · refine .of_head ⟨quoteOf text, rfl, sameQuote⟩ rfl fun same => sameQuote ?_
    rw [same]

theorem literal_injective : Function.Injective literal := by
  intro text text' same
  exact String.toList_injective ((decides_chars _ _).eq_iff.mp (String.ofList_injective same))

end Quoted
end TemplateActions
