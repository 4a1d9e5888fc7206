import TemplateActions.Proofs.Document.Grammar

/-!
Loading a document gives the tree that it describes, and fails for documents that describe none.
-/
namespace TemplateActions.Document

variable {path : Path} {slot : Field} {entries : Entries} {wanted : Option NodeKind}

theorem expectKind_eq_ok {node : Node} (kinds : ∀ kind ∈ wanted, node.kind? = some kind) :
    expectKind path wanted node = .ok node := by
  cases wanted with
  | none => rfl
  | some kind => simp [expectKind, kinds kind rfl]

theorem of_expectKind_eq_ok {node node' : Node} (h : expectKind path wanted node = .ok node')
    (typed : node.kind? ≠ none) : node' = node ∧ ∀ kind ∈ wanted, node.kind? = some kind := by
  cases wanted with
  | none =>
    cases h
    exact ⟨rfl, nofun⟩
  | some kind =>
    obtain ⟨found, isKind⟩ := Option.ne_none_iff_exists'.mp typed
    simp only [expectKind, isKind] at h
    split at h <;> cases h
    subst kind
    exact ⟨rfl, fun _ member => by rw [isKind, Option.mem_some.mp member]⟩

def Sound (data : Value) : Prop :=
  ∀ (path : Path) (n : Node), node path data = .ok n → Describes data n

theorem nodeItems_sound {items : List Value} {index : Nat} {nodes : List Node}
    (sound : ∀ item ∈ items, Sound item) (h : nodeItems path slot wanted index items = .ok nodes) :
    Matches wanted items nodes ∧ ∀ p ∈ items.zip nodes, Describes p.1 p.2 := by
  induction items generalizing index nodes with
  | nil =>
    cases h
    exact ⟨⟨rfl, nofun⟩, nofun⟩
  | cons item rest ih =>
    rw [nodeItems] at h
    obtain ⟨n, loaded, h⟩ := bind_eq_ok_iff.mp h
    obtain ⟨n', expected, h⟩ := bind_eq_ok_iff.mp h
    obtain ⟨nodes, later, h⟩ := bind_eq_ok_iff.mp h
    cases h
    have described := sound item List.mem_cons_self _ _ loaded
    obtain ⟨rfl, kinds⟩ := of_expectKind_eq_ok expected described.kind?_ne_none
    obtain ⟨fits, each⟩ := ih (fun i member => sound i (List.mem_cons_of_mem _ member)) later
    refine ⟨⟨congrArg (· + 1) fits.length, ?_⟩, ?_⟩
    · exact List.forall_mem_cons.mpr ⟨kinds, fits.kinds⟩
    · exact List.forall_mem_cons.mpr ⟨described, each⟩

def SoundBelow (entries : Entries) : Prop :=
  ∀ value, sizeOf value < sizeOf (Value.map entries) → Sound value

theorem nodesField_sound {nodes : List Node} (sound : SoundBelow entries)
    (h : nodesField path slot wanted entries = .ok nodes) :
    ∃ items, items? slot entries = some items ∧ Matches wanted items nodes ∧
      ∀ p ∈ items.zip nodes, Describes p.1 p.2 := by
  obtain ⟨items, found, h⟩ := nodesField_eq_ok_iff.mp h
  exact ⟨items, found, nodeItems_sound (fun i member => sound i (sizeOf_item_lt found member)) h⟩

theorem programField_sound {body : Option Node} (sound : SoundBelow entries)
    (h : programField path slot entries = .ok body) :
    Matches (some .program) (present? slot entries).toList body.toList ∧
      ∀ p ∈ (present? slot entries).toList.zip body.toList, Describes p.1 p.2 := by
  rw [programField_eq] at h
  cases isPresent : present? slot entries with
  | none =>
    rw [isPresent] at h
    cases h
    exact ⟨⟨rfl, nofun⟩, nofun⟩
  | some value =>
    rw [isPresent] at h
    obtain ⟨n, loaded, h⟩ := bind_eq_ok_iff.mp h
    obtain ⟨n', expected, h⟩ := bind_eq_ok_iff.mp h
    cases h
    have described := sound value (sizeOf_get?_lt (get?_of_present? isPresent)) _ _ loaded
    obtain ⟨rfl, kinds⟩ := of_expectKind_eq_ok expected described.kind?_ne_none
    exact ⟨⟨rfl, by simpa using kinds⟩, by simpa using described⟩

theorem of_expectAttributeValue_eq_ok {node node' : Node}
    (h : expectAttributeValue path node = .ok node') (typed : node.kind? ≠ none) :
    node' = node ∧ (node.kind? = some .text ∨ node.kind? = some .mustache) := by
  rw [expectAttributeValue] at h
  split at h
  case h_1 kind =>
    cases h
    exact ⟨rfl, .inl kind⟩
  case h_2 kind =>
    cases h
    exact ⟨rfl, .inr kind⟩
  case h_3 kind => exact absurd kind typed
  case h_4 => cases h

theorem valueField_sound {value : Node} {id : Nat} {name : String} (sound : SoundBelow entries)
    (ofKind : OfKind .attr entries) (isName : get? .name entries = some (.text name))
    (h : valueField path entries = .ok value) : Describes (.map entries) (.attr id name value) := by
  rw [valueField_eq] at h
  split at h
  case h_1 absent =>
    cases h
    exact .plainAttr ofKind isName (by rw [absent, Option.getD_none])
  case h_2 s plain =>
    cases h
    exact .plainAttr ofKind isName (by rw [plain, Option.getD_some])
  case h_3 data _ found =>
    obtain ⟨n, loaded, expected⟩ := bind_eq_ok_iff.mp h
    have described := sound data (sizeOf_get?_lt found) _ _ loaded
    obtain ⟨rfl, kind⟩ := of_expectAttributeValue_eq_ok expected described.kind?_ne_none
    exact .attr ofKind isName found described kind

theorem node_map_sound {n : Node} (sound : SoundBelow entries)
    (h : node path (.map entries) = .ok n) : Describes (.map entries) n := by
  rw [node] at h
  obtain ⟨kind, isKind, h⟩ := bind_eq_ok_iff.mp h
  obtain ⟨⟨⟩, keys, h⟩ := bind_eq_ok_iff.mp h
  have ofKind : OfKind kind entries :=
    ⟨kind_eq_ok_iff.mp isKind, extraKeys_eq_nil_iff.mp (checkKeys_eq_ok_iff.mp keys)⟩
  cases kind with
  | program =>
    obtain ⟨statements, isStatements, h⟩ := bind_eq_ok_iff.mp h
    cases h
    obtain ⟨ss, found, fits, each⟩ := nodesField_sound sound isStatements
    exact .program ofKind found fits each
  | element =>
    obtain ⟨tag, isTag, h⟩ := bind_eq_ok_iff.mp h
    obtain ⟨attributes, isAttributes, h⟩ := bind_eq_ok_iff.mp h
    obtain ⟨children, isChildren, h⟩ := bind_eq_ok_iff.mp h
    obtain ⟨helpers, isHelpers, h⟩ := bind_eq_ok_iff.mp h
    cases h
    obtain ⟨as, isList, fitAttributes, onAttributes⟩ := nodesField_sound sound isAttributes
    obtain ⟨cs, isList', fitChildren, onChildren⟩ := nodesField_sound sound isChildren
    obtain ⟨hs, isList'', fitHelpers, onHelpers⟩ := nodesField_sound sound isHelpers
    exact .element ofKind (textField_eq_ok_iff.mp isTag) isList fitAttributes onAttributes
      isList' fitChildren onChildren isList'' fitHelpers onHelpers
  | attr =>
    obtain ⟨value, isValue, h⟩ := bind_eq_ok_iff.mp h
    obtain ⟨name, isName, h⟩ := bind_eq_ok_iff.mp h
    cases h
    exact valueField_sound sound ofKind (textField_eq_ok_iff.mp isName) isValue
  | block =>
    obtain ⟨target, isPath, h⟩ := bind_eq_ok_iff.mp h
    obtain ⟨params, isParams, h⟩ := bind_eq_ok_iff.mp h
    obtain ⟨body, isBody, h⟩ := bind_eq_ok_iff.mp h
    obtain ⟨inverse, isInverse, h⟩ := bind_eq_ok_iff.mp h
    cases h
    obtain ⟨fitBody, onBody⟩ := programField_sound sound isBody
    obtain ⟨fitInverse, onInverse⟩ := programField_sound sound isInverse
    exact .block ofKind (textField_eq_ok_iff.mp isPath) (textsField_eq_ok_iff.mp isParams)
      fitBody onBody fitInverse onInverse
  | component =>
    obtain ⟨tag, isTag, h⟩ := bind_eq_ok_iff.mp h
    obtain ⟨attributes, isAttributes, h⟩ := bind_eq_ok_iff.mp h
    obtain ⟨body, isBody, h⟩ := bind_eq_ok_iff.mp h
    obtain ⟨inverse, isInverse, h⟩ := bind_eq_ok_iff.mp h
    cases h
    obtain ⟨as, isList, fitAttributes, onAttributes⟩ := nodesField_sound sound isAttributes
    obtain ⟨fitBody, onBody⟩ := programField_sound sound isBody
    obtain ⟨fitInverse, onInverse⟩ := programField_sound sound isInverse
    exact .component ofKind (textField_eq_ok_iff.mp isTag) isList fitAttributes onAttributes
      fitBody onBody fitInverse onInverse
  | text =>
    obtain ⟨chars, isChars, h⟩ := bind_eq_ok_iff.mp h
    cases h
    exact .text ofKind (textField_default_eq_ok_iff.mp isChars)
  | mustache =>
    obtain ⟨escaped, isEscaped, h⟩ := bind_eq_ok_iff.mp h
    obtain ⟨target, isPath, h⟩ := bind_eq_ok_iff.mp h
    obtain ⟨params, isParams, h⟩ := bind_eq_ok_iff.mp h
    cases h
    exact .mustache ofKind (textField_eq_ok_iff.mp isPath) (textsField_eq_ok_iff.mp isParams)
      (escapedField_eq_ok_iff.mp isEscaped)

theorem node_sound (data : Value) : Sound data := by
  -- The fields of a mapping are found by their keys, so the induction is on the size of the value.
  induction size : sizeOf data using Nat.strongRecOn generalizing data with
  | ind n ih =>
    intro path loaded h
    cases data with
    | map entries =>
      exact node_map_sound (fun value smaller => ih _ (size ▸ smaller) value rfl) h
    | _ => cases h

theorem OfKind.kind_eq_ok {kind : NodeKind} (h : OfKind kind entries) :
    Document.kind path entries = .ok kind := kind_eq_ok_iff.mpr h.type

theorem OfKind.checkKeys_eq_ok {kind : NodeKind} (h : OfKind kind entries) :
    checkKeys path kind entries = .ok () :=
  checkKeys_eq_ok_iff.mpr (extraKeys_eq_nil_iff.mpr h.keys)

def Loads (data : Value) (n : Node) : Prop := ∀ path, node path data = .ok n.unnumbered

theorem nodeItems_complete {items : List Value} {index : Nat} {nodes : List Node}
    (fits : Matches wanted items nodes) (loads : ∀ p ∈ items.zip nodes, Loads p.1 p.2) :
    nodeItems path slot wanted index items = .ok (Node.unnumberedAll nodes) := by
  induction items generalizing index nodes with
  | nil =>
    cases List.eq_nil_of_length_eq_zero fits.length.symm
    rfl
  | cons item rest ih =>
    cases nodes with
    | nil => cases fits.length
    | cons n nodes =>
      obtain ⟨length, kinds⟩ := fits
      rw [List.zip_cons_cons, List.forall_mem_cons] at kinds loads
      have later := @ih (index + 1) nodes ⟨Nat.succ.inj length, kinds.2⟩ loads.2
      rw [nodeItems, ok_bind (loads.1 _), ok_bind (expectKind_eq_ok (by simpa using kinds.1)),
        ok_bind later]
      rfl

theorem nodesField_complete {items : List Value} {nodes : List Node}
    (found : items? slot entries = some items) (fits : Matches wanted items nodes)
    (loads : ∀ p ∈ items.zip nodes, Loads p.1 p.2) :
    nodesField path slot wanted entries = .ok (Node.unnumberedAll nodes) :=
  nodesField_eq_ok_iff.mpr ⟨items, found, nodeItems_complete fits loads⟩

theorem programField_complete {body : Option Node}
    (fits : Matches (some .program) (present? slot entries).toList body.toList)
    (loads : ∀ p ∈ (present? slot entries).toList.zip body.toList, Loads p.1 p.2) :
    programField path slot entries = .ok (Node.unnumberedOption body) := by
  rw [programField_eq]
  generalize present? slot entries = value? at fits loads
  cases value? with
  | none =>
    cases body with
    | none => rfl
    | some n => cases fits.length
  | some value =>
    cases body with
    | none => cases fits.length
    | some n =>
      have here : (value, n) ∈ [value].zip [n] := List.mem_cons_self
      have kind : n.unnumbered.kind? = some .program := by
        rw [Node.kind?_unnumbered]
        exact fits.kinds _ here _ rfl
      have loaded : Loads value n := loads _ here
      dsimp only
      rw [ok_bind (loaded _), ok_bind (expectKind_eq_ok (by simpa using kind))]
      rfl

theorem valueField_complete {data : Value} {value : Node} (found : get? .value entries = some data)
    (described : Describes data value) (loads : Loads data value)
    (kind : value.kind? = some .text ∨ value.kind? = some .mustache) :
    valueField path entries = .ok value.unnumbered := by
  have expected : expectAttributeValue (path.field .value) value.unnumbered =
      .ok value.unnumbered := by
    rw [expectAttributeValue, Node.kind?_unnumbered]
    rcases kind with kind | kind <;> rw [kind]
  rw [valueField_eq, found]
  cases described <;> exact (ok_bind (loads _)).trans expected

theorem plainValueField_complete {chars : String}
    (plain : (get? .value entries).getD (.text "") = .text chars) :
    valueField path entries = .ok (.text 0 chars) := by
  rw [valueField_eq]
  cases found : get? .value entries with
  | none =>
    rw [found] at plain
    cases plain
    rfl
  | some value =>
    rw [found] at plain
    cases plain
    rfl

theorem node_complete {data : Value} {n : Node} (h : Describes data n) : Loads data n := by
  induction h with
  | program ofKind found fits _ each =>
    intro path
    rw [node, ok_bind ofKind.kind_eq_ok, ok_bind ofKind.checkKeys_eq_ok]
    exact ok_bind (nodesField_complete found fits each)
  | element ofKind tag as attributes _ cs children _ hs helpers _ onAttributes onChildren
      onHelpers =>
    intro path
    rw [node, ok_bind ofKind.kind_eq_ok, ok_bind ofKind.checkKeys_eq_ok]
    dsimp only
    rw [ok_bind (textField_eq_ok_iff.mpr tag),
      ok_bind (nodesField_complete as attributes onAttributes),
      ok_bind (nodesField_complete cs children onChildren),
      ok_bind (nodesField_complete hs helpers onHelpers)]
    rfl
  | plainAttr ofKind name plain =>
    intro path
    rw [node, ok_bind ofKind.kind_eq_ok, ok_bind ofKind.checkKeys_eq_ok]
    dsimp only
    rw [ok_bind (plainValueField_complete plain), ok_bind (textField_eq_ok_iff.mpr name)]
    rfl
  | attr ofKind name value described kind loads =>
    intro path
    rw [node, ok_bind ofKind.kind_eq_ok, ok_bind ofKind.checkKeys_eq_ok]
    dsimp only
    rw [ok_bind (valueField_complete value described loads kind),
      ok_bind (textField_eq_ok_iff.mpr name)]
    rfl
  | block ofKind target params body _ inverse _ onBody onInverse =>
    intro path
    rw [node, ok_bind ofKind.kind_eq_ok, ok_bind ofKind.checkKeys_eq_ok]
    dsimp only
    rw [ok_bind (textField_eq_ok_iff.mpr target), ok_bind (textsField_eq_ok_iff.mpr params),
      ok_bind (programField_complete body onBody),
      ok_bind (programField_complete inverse onInverse)]
    rfl
  | component ofKind tag as attributes _ body _ inverse _ onAttributes onBody onInverse =>
    intro path
    rw [node, ok_bind ofKind.kind_eq_ok, ok_bind ofKind.checkKeys_eq_ok]
    dsimp only
    rw [ok_bind (textField_eq_ok_iff.mpr tag),
      ok_bind (nodesField_complete as attributes onAttributes),
      ok_bind (programField_complete body onBody),
      ok_bind (programField_complete inverse onInverse)]
    rfl
  | text ofKind chars =>
    intro path
    rw [node, ok_bind ofKind.kind_eq_ok, ok_bind ofKind.checkKeys_eq_ok]
    exact ok_bind (textField_default_eq_ok_iff.mpr chars)
  | mustache ofKind target params escaped =>
    intro path
    rw [node, ok_bind ofKind.kind_eq_ok, ok_bind ofKind.checkKeys_eq_ok]
    dsimp only
    rw [ok_bind (escapedField_eq_ok_iff.mpr escaped), ok_bind (textField_eq_ok_iff.mpr target),
      ok_bind (textsField_eq_ok_iff.mpr params)]
    rfl

theorem tree_eq_ok_iff {data : Value} {root : Node} :
    tree data = .ok root ↔
      ∃ n, node Path.root data = .ok n ∧ n.kind? = some .program ∧ root = n.numbered := by
  rw [tree, bind_eq_ok_iff]
  refine exists_congr fun n => and_congr_right fun loaded => ?_
  have typed := (node_sound data Path.root n loaded).kind?_ne_none
  split
  case h_1 kind =>
    constructor
    · intro same
      exact ⟨kind, (Except.ok.inj same).symm⟩
    · intro same
      exact congrArg Except.ok same.2.symm
  case h_2 found other kind =>
    refine iff_of_false nofun fun isProgram => other ?_
    exact Option.some.inj (kind.symm.trans isProgram.1)
  case h_3 kind => exact absurd kind typed

theorem describes_of_tree {data : Value} {root : Node} (loaded : tree data = .ok root) :
    Describes data root := by
  obtain ⟨n, isNode, -, rfl⟩ := tree_eq_ok_iff.mp loaded
  exact (node_sound data _ n isNode).numberFrom 0

theorem kind?_of_tree {data : Value} {root : Node} (loaded : tree data = .ok root) :
    root.kind? = some .program := by
  obtain ⟨n, -, kind, rfl⟩ := tree_eq_ok_iff.mp loaded
  exact (Node.kind?_numberFrom 0 n).trans kind

/-- A tree is loaded exactly from the documents that describe a program. It is described by its
document, and it is the only tree so described, up to the identity numbers. -/
theorem tree_ok_iff (data : Value) :
    ((∃ root, tree data = .ok root) ↔ ∃ n, Describes data n ∧ n.kind? = some .program) ∧
      ∀ root, tree data = .ok root →
        Describes data root ∧ root.kind? = some .program ∧
          ∀ n, Describes data n → root = n.numbered := by
  constructor
  · constructor
    · rintro ⟨root, loaded⟩
      obtain ⟨n, isNode, kind, -⟩ := tree_eq_ok_iff.mp loaded
      exact ⟨n, node_sound data _ n isNode, kind⟩
    · rintro ⟨n, described, kind⟩
      have isNode := node_complete described Path.root
      exact ⟨_, tree_eq_ok_iff.mpr ⟨_, isNode, by rwa [Node.kind?_unnumbered], rfl⟩⟩
  · intro root loaded
    obtain ⟨n, isNode, kind, rfl⟩ := tree_eq_ok_iff.mp loaded
    refine ⟨(node_sound data _ n isNode).numberFrom 0, (Node.kind?_numberFrom 0 n).trans kind, ?_⟩
    intro m described
    have same := isNode.symm.trans (node_complete described Path.root)
    rw [Except.ok.inj same, Node.numbered_unnumbered]

example :
    tree (.map [(.text "statements", .list [.map [(.text "type", .text "attr"),
      (.text "value", .text "x"), (.text "name", .text "id")]]), (.text "type", .text "program")]) =
    .ok (.program 0 [.attr 1 "id" (.text 2 "x")]) := by rfl

end TemplateActions.Document
