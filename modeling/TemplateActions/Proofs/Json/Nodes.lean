import TemplateActions.Proofs.Json.Tokens
import TemplateActions.Yaml.Node

/-!
The nodes of JSON text. Its tokens make the node that mirrors the value, unless a name is no simple
key: then they make none.
-/
namespace TemplateActions.Json

open Yaml (Token Handles)
open Yaml.Node (Source)

def wordNode (word : List Char) : Yaml.Node := .scalar (Yaml.Schema.tagOf word) word

def textNode (s : String) : Yaml.Node := .scalar .text (reread s).toList

mutual

def node : Json → Yaml.Node
  | .null => wordNode "null".toList
  | .bool b => wordNode (if b then "true" else "false").toList
  | .int n => wordNode (Decimal.intChars n)
  | .float x => wordNode (DecimalStyle.document.chars x)
  | .text s => textNode s
  | .array items => .sequence .sequence (itemNodes items)
  | .object members => .mapping .mapping (memberNodes members)

def itemNodes : List Json → List Yaml.Node
  | [] => []
  | item :: rest => node item :: itemNodes rest

def memberNodes : List (String × Json) → List (Yaml.Node × Yaml.Node)
  | [] => []
  | (name, value) :: rest => (textNode name, node value) :: memberNodes rest

end

mutual

def names : Json → List String
  | .array items => itemsNames items
  | .object members => membersNames members
  | _ => []

def itemsNames : List Json → List String
  | [] => []
  | item :: rest => names item ++ itemsNames rest

def membersNames : List (String × Json) → List String
  | [] => []
  | (name, value) :: rest => name :: names value ++ membersNames rest

end

section

variable {handles : Handles} {fuel : Nat} {place : Yaml.Node.Place} {rest : List Token}
  {anchors : List (List Char × Yaml.Node)}

inductive StartsNode : Token → Prop
  | scalar {plain : Bool} {text : List Char} : StartsNode (.scalar plain text)
  | sequence : StartsNode .flowSequenceStart
  | mapping : StartsNode .flowMappingStart

theorem read_eq {first : Token} (starts : StartsNode first) :
    Yaml.Node.read handles (fuel + 1) place ⟨first :: rest, anchors⟩ =
      Yaml.Node.content handles fuel place ⟨none, none⟩ none ⟨first :: rest, anchors⟩ := by
  cases starts <;> rfl

theorem read_scalar (plain : Bool) (text : List Char) (enough : 2 ≤ fuel) :
    Yaml.Node.read handles fuel place ⟨.scalar plain text :: rest, anchors⟩ =
      some (.scalar (if plain then Yaml.Schema.tagOf text else .text) text, ⟨rest, anchors⟩) := by
  obtain ⟨fuel, rfl⟩ := Nat.exists_eq_add_of_le' enough
  rw [read_eq .scalar]
  cases plain <;> rfl

theorem exists_tokens_eq_cons (value : Json) :
    ∃ first more, tokens value = first :: more ∧ StartsNode first := by
  cases value with
  | array items => cases items <;> exact ⟨_, _, rfl, .sequence⟩
  | object members =>
    obtain _ | ⟨⟨name, value⟩, rest⟩ := members <;> exact ⟨_, _, rfl, .mapping⟩
  | _ => exact ⟨_, _, rfl, .scalar⟩

theorem slotBehind_eq {first : Token} (starts : StartsNode first) (indicator : Token)
    (ends : List Token)
    (he : ends = [.value, .flowEntry, .flowMappingEnd] ∨ ends = [.flowEntry, .flowMappingEnd]) :
    Yaml.Node.slotBehind handles (fuel + 2) indicator .flow ends
      ⟨indicator :: first :: rest, anchors⟩ =
      Yaml.Node.read handles fuel .flow ⟨first :: rest, anchors⟩ := by
  have goesOn : (some first).any ends.contains = false := by
    rcases he with rfl | rfl <;> cases starts <;> rfl
  rw [Yaml.Node.slotBehind]
  dsimp only
  rw [if_pos rfl, Yaml.Node.slot]
  exact if_neg (by rw [Source.skip, List.head?_cons, goesOn]; exact Bool.false_ne_true)

theorem two_le_length_nameTokens (name : String) : 2 ≤ (nameTokens name).length := by
  rw [nameTokens, List.length_append]
  exact Nat.le_add_left _ _

/-- The outcome of reading a node, which is one only if the names are simple. -/
def readAs {α : Type} (names : List String) (node : α) (rest : List Token)
    (anchors : List (List Char × Yaml.Node)) : Option (α × Source) :=
  if names.all isSimpleName then some (node, ⟨rest, anchors⟩) else none

theorem flowItems_eq (fuel : Nat) {item : Json} {items : List Json}
    (first : Yaml.Node.read handles fuel .flow ⟨tokens item ++
      (itemsTokens items ++ rest), anchors⟩ =
      readAs (names item) (node item) (itemsTokens items ++ rest) anchors)
    (later : Yaml.Node.moreItems handles fuel ⟨itemsTokens items ++ rest, anchors⟩ =
      readAs (itemsNames items) (itemNodes items) rest anchors) :
    Yaml.Node.flowItems handles (fuel + 1) ⟨tokens item ++ (itemsTokens items ++ rest), anchors⟩ =
      readAs (names item ++ itemsNames items) (node item :: itemNodes items) rest anchors := by
  have isItem : Yaml.Node.flowItems handles (fuel + 1)
      ⟨tokens item ++ (itemsTokens items ++ rest), anchors⟩ =
        (Yaml.Node.read handles fuel .flow
          ⟨tokens item ++ (itemsTokens items ++ rest), anchors⟩).bind fun first =>
            (Yaml.Node.moreItems handles fuel first.2).bind fun later =>
              some (first.1 :: later.1, later.2) := by
    obtain ⟨token, more, isTokens, starts⟩ := exists_tokens_eq_cons item
    rw [isTokens]
    cases starts <;> rfl
  rw [isItem, first, readAs, readAs, List.all_append]
  cases (names item).all isSimpleName with
  | false => rfl
  | true =>
    rw [if_pos rfl, Option.bind_some, later, readAs]
    cases (itemsNames items).all isSimpleName <;> rfl

theorem flowEntries_eq {fuel : Nat} (enough : 2 ≤ fuel) {name : String} {value : Json}
    {members : List (String × Json)}
    (first : Yaml.Node.read handles fuel .flow ⟨tokens value ++
      (membersTokens members ++ rest), anchors⟩ =
      readAs (names value) (node value) (membersTokens members ++ rest) anchors)
    (later : Yaml.Node.moreEntries handles (fuel + 2) ⟨membersTokens members ++ rest, anchors⟩ =
      readAs (membersNames members) (memberNodes members) rest anchors) :
    Yaml.Node.flowEntries handles (fuel + 3)
        ⟨nameTokens name ++ (tokens value ++ (membersTokens members ++ rest)), anchors⟩ =
      readAs (name :: names value ++ membersNames members)
        ((textNode name, node value) :: memberNodes members) rest anchors := by
  obtain ⟨token, more, isTokens, starts⟩ := exists_tokens_eq_cons value
  rw [nameTokens, readAs, List.cons_append, List.all_cons, List.all_append]
  cases isSimpleName name with
  | false =>
    -- The name is read as a key without a value, and the colon behind it does not fit.
    simp only [Bool.false_eq_true, if_false, List.nil_append, List.cons_append, Bool.false_and]
    rw [Yaml.Node.flowEntries, read_scalar false _ (by omega)]
    rfl
  | true =>
    simp only [if_true, List.cons_append, List.nil_append, Bool.true_and]
    rw [Yaml.Node.flowEntries]
    dsimp only
    rw [slotBehind_eq .scalar _ _ (.inl rfl), read_scalar false _ enough, Option.bind_eq_bind,
      Option.bind_some]
    dsimp only
    rw [isTokens, List.cons_append] at first ⊢
    rw [slotBehind_eq starts _ _ (.inr rfl), first, readAs]
    cases (names value).all isSimpleName with
    | false => rfl
    | true =>
      rw [if_pos rfl, Option.bind_eq_bind, Option.bind_some]
      dsimp only
      rw [later, readAs]
      cases (membersNames members).all isSimpleName <;> rfl

end

section

variable {handles : Handles}

mutual

theorem read_tokens : ∀ (value : Json) {fuel : Nat} {place : Yaml.Node.Place} {rest : List Token}
    {anchors : List (List Char × Yaml.Node)}, 4 * (tokens value).length ≤ fuel →
      Yaml.Node.read handles fuel place ⟨tokens value ++ rest, anchors⟩ =
        readAs (names value) (node value) rest anchors
  | .null, _, _, _, _, enough | .bool _, _, _, _, _, enough | .int _, _, _, _, _, enough
  | .float _, _, _, _, _, enough => read_scalar true _ (Nat.le_of_add_left_le (k := 2) enough)
  | .text s, _, _, _, _, enough => read_scalar false _ (Nat.le_of_add_left_le (k := 2) enough)
  | .array [], fuel, _, _, _, enough => by
    obtain ⟨fuel, rfl⟩ : ∃ n, fuel = n + 3 :=
      Nat.exists_eq_add_of_le' (Nat.le_trans (by decide) enough)
    exact read_eq .sequence
  | .array (item :: items), fuel, _, rest, anchors, enough => by
    simp only [tokens, List.length_append, List.length_cons] at enough
    obtain ⟨fuel, rfl⟩ : ∃ n, fuel = n + 3 := Nat.exists_eq_add_of_le' (by omega)
    rw [tokens, List.cons_append, List.cons_append, List.append_assoc, read_eq .sequence,
      Yaml.Node.content]
    dsimp only [Source.skip]
    rw [flowItems_eq fuel (read_tokens item (by omega)) (moreItems_tokens items (by omega)),
      readAs, readAs,
      names, itemsNames]
    cases (names item ++ itemsNames items).all isSimpleName <;> rfl
  | .object [], fuel, _, _, _, enough => by
    obtain ⟨fuel, rfl⟩ : ∃ n, fuel = n + 3 :=
      Nat.exists_eq_add_of_le' (Nat.le_trans (by decide) enough)
    exact read_eq .mapping
  | .object ((name, value) :: members), fuel, _, rest, anchors, enough => by
    simp only [tokens, List.length_append, List.length_cons] at enough
    have few := two_le_length_nameTokens name
    obtain ⟨fuel, rfl⟩ : ∃ n, fuel = n + 5 := Nat.exists_eq_add_of_le' (by omega)
    have more : 2 ≤ fuel := by omega
    rw [tokens, List.cons_append, List.cons_append, List.cons_append, List.append_assoc,
      List.append_assoc, read_eq .mapping, Yaml.Node.content]
    dsimp only [Source.skip]
    rw [flowEntries_eq more (read_tokens value (by omega))
      (moreEntries_tokens members (by omega)), readAs,
      readAs, names, membersNames]
    cases (name :: names value ++ membersNames members).all isSimpleName <;> rfl

theorem moreItems_tokens : ∀ (items : List Json) {fuel : Nat} {rest : List Token}
    {anchors : List (List Char × Yaml.Node)}, 4 * (itemsTokens items).length ≤ fuel →
      Yaml.Node.moreItems handles fuel ⟨itemsTokens items ++ rest, anchors⟩ =
        readAs (itemsNames items) (itemNodes items) rest anchors
  | [], fuel, _, _, enough => by
    obtain ⟨fuel, rfl⟩ : ∃ n, fuel = n + 1 :=
      Nat.exists_eq_add_of_le' (Nat.le_trans (by decide) enough)
    rfl
  | item :: items, fuel, rest, anchors, enough => by
    simp only [itemsTokens, List.length_append, List.length_cons] at enough
    obtain ⟨fuel, rfl⟩ : ∃ n, fuel = n + 2 := Nat.exists_eq_add_of_le' (by omega)
    rw [itemsTokens, List.cons_append, List.cons_append, List.append_assoc, Yaml.Node.moreItems]
    exact flowItems_eq fuel (read_tokens item (by omega)) (moreItems_tokens items (by omega))

theorem moreEntries_tokens : ∀ (members : List (String × Json)) {fuel : Nat} {rest : List Token}
    {anchors : List (List Char × Yaml.Node)}, 4 * (membersTokens members).length ≤ fuel →
      Yaml.Node.moreEntries handles fuel ⟨membersTokens members ++ rest, anchors⟩ =
        readAs (membersNames members) (memberNodes members) rest anchors
  | [], fuel, _, _, enough => by
    obtain ⟨fuel, rfl⟩ : ∃ n, fuel = n + 1 :=
      Nat.exists_eq_add_of_le' (Nat.le_trans (by decide) enough)
    rfl
  | (name, value) :: members, fuel, rest, anchors, enough => by
    simp only [membersTokens, List.length_append, List.length_cons] at enough
    have few := two_le_length_nameTokens name
    obtain ⟨fuel, rfl⟩ : ∃ n, fuel = n + 4 := Nat.exists_eq_add_of_le' (by omega)
    have more : 2 ≤ fuel := by omega
    rw [membersTokens, List.cons_append, List.cons_append, List.cons_append, List.append_assoc,
      List.append_assoc, Yaml.Node.moreEntries]
    exact flowEntries_eq more (read_tokens value (by omega)) (moreEntries_tokens members (by omega))

end

end

theorem ofTokens?_tokens (value : Json) :
    Yaml.Node.ofTokens? value.tokens =
      if value.names.all isSimpleName then some (some value.node) else none := by
  obtain ⟨first, more, isTokens, starts⟩ := exists_tokens_eq_cons value
  have isRoot : Yaml.Node.root Yaml.Node.defaultHandles value.tokens =
      readAs value.names value.node [] [] := by
    have read : Yaml.Node.read Yaml.Node.defaultHandles (4 * value.tokens.length + 4) .item
        ⟨value.tokens ++ [], []⟩ = readAs value.names value.node [] [] :=
      read_tokens value (Nat.le_add_right _ 4)
    rwa [List.append_nil] at read
  rw [isTokens] at isRoot ⊢
  cases starts
  all_goals
    rw [Yaml.Node.ofTokens?.eq_def]
    dsimp only
    rw [isRoot, readAs]
    cases value.names.all isSimpleName <;> rfl

end TemplateActions.Json
