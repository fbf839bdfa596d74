import OperatorScaffold.Yaml.Tree
/-!
The block style of YAML as a grammar of token streams. What follows the grammar is read as the tree that it
is derived with, whatever stands behind it.
-/

namespace OperatorScaffold.Yaml

namespace Tree

mutual

/-- The tokens of a node. In a record a list can stand without tokens around its items. -/
inductive Spelled : Bool → List Token → Tree → Prop
  | scalar {inRecord : Bool} {style : ScalarStyle} {text : String} :
      Spelled inRecord [.scalar style text] (.scalar none style text)
  | noItems {inRecord : Bool} : Spelled inRecord [.openSequence, .closeSequence] (.list none [])
  | noEntries {inRecord : Bool} : Spelled inRecord [.openMapping, .closeMapping] (.record none [])
  | list {inRecord : Bool} {ts : List Token} {items : List Tree} : SpelledItems ts items →
      Spelled inRecord (.blockSequence :: ts ++ [.blockEnd]) (.list none items)
  | indentless {ts : List Token} {items : List Tree} : SpelledItems ts items → items ≠ [] →
      Spelled true ts (.list none items)
  | record {inRecord : Bool} {ts : List Token} {entries : List (Tree × Tree)} : SpelledEntries ts entries →
      Spelled inRecord (.blockMapping :: ts ++ [.blockEnd]) (.record none entries)

inductive SpelledItems : List Token → List Tree → Prop
  | nil : SpelledItems [] []
  | cons {ts us : List Token} {t : Tree} {items : List Tree} : Spelled false ts t → SpelledItems us items →
      SpelledItems (.blockEntry :: ts ++ us) (t :: items)

/-- The value of an entry can be missing. -/
inductive SpelledEntries : List Token → List (Tree × Tree) → Prop
  | nil : SpelledEntries [] []
  | cons {ks vs us : List Token} {k v : Tree} {entries : List (Tree × Tree)} : Spelled true ks k → Spelled true vs v →
      SpelledEntries us entries → SpelledEntries (.key :: ks ++ .value :: vs ++ us) ((k, v) :: entries)
  | missing {ks us : List Token} {k : Tree} {entries : List (Tree × Tree)} : Spelled true ks k →
      SpelledEntries us entries → SpelledEntries (.key :: ks ++ .value :: us) ((k, .scalar none .plain "") :: entries)

end

variable {inRecord : Bool} {ts rest : List Token} {t : Tree} {items : List Tree} {entries : List (Tree × Tree)}
  {handles : List (String × String)} {anchors : List (String × Nat)} {nodes : List (Nat × Tree)} {events fuel : Nat}

/-- A node starts with a token of its own. -/
theorem Spelled.head (h : Spelled inRecord ts t) : ∃ x us, ts = x :: us ∧
    x ≠ .key ∧ x ≠ .value ∧ x ≠ .blockEnd ∧ (inRecord = false → x ≠ .blockEntry) := by
  cases h with
  | indentless hi hne =>
    cases hi with
    | nil => exact absurd rfl hne
    | cons _ _ => exact ⟨_, _, rfl, nofun, nofun, nofun, nofun⟩
  | _ => exact ⟨_, _, rfl, nofun, nofun, nofun, nofun⟩

theorem SpelledEntries.head (h : SpelledEntries ts entries) : ts = [] ∨ ∃ us, ts = .key :: us := by
  cases h with
  | nil => exact .inl rfl
  | cons _ _ _ => exact .inr ⟨_, rfl⟩
  | missing _ _ => exact .inr ⟨_, rfl⟩

theorem Spelled.anywhere (h : Spelled false ts t) : Spelled inRecord ts t := by
  cases h with
  | scalar => exact .scalar
  | noItems => exact .noItems
  | noEntries => exact .noEntries
  | list h => exact .list h
  | record h => exact .record h

theorem SpelledItems.append : ∀ {ts us : List Token} {items more : List Tree}, SpelledItems ts items →
    SpelledItems us more → SpelledItems (ts ++ us) (items ++ more)
  | _, _, _, _, .nil, h => h
  | _, us, _, _, .cons ht hi, h => by
    rw [List.append_assoc]
    exact .cons ht (hi.append h)

theorem SpelledEntries.append : ∀ {ts us : List Token} {entries more : List (Tree × Tree)}, SpelledEntries ts entries →
    SpelledEntries us more → SpelledEntries (ts ++ us) (entries ++ more)
  | _, _, _, _, .nil, h => h
  | _, us, _, _, .cons hk hv he, h => by
    rw [List.append_assoc]
    exact .cons hk hv (he.append h)
  | _, us, _, _, .missing hk he, h => by
    rw [List.append_assoc]
    exact .missing hk (he.append h)

/-- How the first token of a node goes on. -/
theorem node_blockSequence : node (fuel + 1) true inRecord ⟨.blockSequence :: ts, handles, anchors, nodes, events⟩ =
    (blockItems fuel ⟨ts, handles, anchors, nodes, events + 2⟩).bind fun p => some (.list none p.1, p.2) := by
  cases inRecord <;> rfl

theorem node_blockMapping : node (fuel + 1) true inRecord ⟨.blockMapping :: ts, handles, anchors, nodes, events⟩ =
    (blockEntries fuel ⟨ts, handles, anchors, nodes, events + 2⟩).bind fun p => some (.record none p.1, p.2) := by
  cases inRecord <;> rfl

theorem node_blockEntry : node (fuel + 1) true true ⟨.blockEntry :: ts, handles, anchors, nodes, events⟩ =
    (indentlessItems fuel ⟨.blockEntry :: ts, handles, anchors, nodes, events + 2⟩).bind
      fun p => some (.list none p.1, p.2) := rfl

theorem blockItems_cons {x : Token} (hend : x ≠ .blockEnd) (hentry : x ≠ .blockEntry) :
    blockItems (fuel + 1) ⟨.blockEntry :: x :: ts, handles, anchors, nodes, events⟩ =
      (node fuel true false ⟨x :: ts, handles, anchors, nodes, events⟩).bind fun p =>
        (blockItems fuel p.2).bind fun q => some (p.1 :: q.1, q.2) := by
  cases x <;> first | exact absurd rfl hend | exact absurd rfl hentry | rfl

theorem indentlessItems_cons {x : Token} (hkey : x ≠ .key) (hvalue : x ≠ .value) (hend : x ≠ .blockEnd)
    (hentry : x ≠ .blockEntry) :
    indentlessItems (fuel + 1) ⟨.blockEntry :: x :: ts, handles, anchors, nodes, events⟩ =
      (node fuel true false ⟨x :: ts, handles, anchors, nodes, events⟩).bind fun p =>
        (indentlessItems fuel p.2).bind fun q => some (p.1 :: q.1, q.2) := by
  cases x <;>
    first | exact absurd rfl hkey | exact absurd rfl hvalue | exact absurd rfl hend | exact absurd rfl hentry | rfl

theorem indentlessItems_end (h : ts.head? ≠ some .blockEntry) :
    indentlessItems (fuel + 1) ⟨ts, handles, anchors, nodes, events⟩ =
      some ([], ⟨ts, handles, anchors, nodes, events⟩) := by
  rcases ts with - | ⟨x, ts⟩
  · rfl
  · cases x <;> first | rfl | exact absurd rfl h

theorem blockPart_node {x : Token} (hkey : x ≠ .key) (hvalue : x ≠ .value) (hend : x ≠ .blockEnd) :
    blockPart (fuel + 1) ⟨x :: ts, handles, anchors, nodes, events⟩ =
      node fuel true true ⟨x :: ts, handles, anchors, nodes, events⟩ := by
  cases x <;> first | exact absurd rfl hkey | exact absurd rfl hvalue | exact absurd rfl hend | rfl

theorem blockEntries_cons {us : List Token} {k : Tree} {e : Nat}
    (hk : blockPart fuel ⟨ts, handles, anchors, nodes, events⟩ = some (k, ⟨.value :: us, handles, anchors, nodes, e⟩)) :
    blockEntries (fuel + 1) ⟨.key :: ts, handles, anchors, nodes, events⟩ =
      (blockPart fuel ⟨us, handles, anchors, nodes, e⟩).bind fun q =>
        (blockEntries fuel q.2).bind fun es => some ((k, q.1) :: es.1, es.2) := by
  change (blockPart fuel ⟨ts, handles, anchors, nodes, events⟩).bind (fun p => StateT.bind _ _ p.2) = _
  rw [hk]
  rfl

mutual

theorem Spelled.node_eq : ∀ {inRecord : Bool} {ts : List Token} {t : Tree}, Spelled inRecord ts t →
    ∀ (fuel : Nat) (rest : List Token) (events : Nat), 2 * ts.length + 2 ≤ fuel →
    (inRecord → rest.head? ≠ some .blockEntry) →
    ∃ e, node fuel true inRecord ⟨ts ++ rest, handles, anchors, nodes, events⟩ =
      some (t, ⟨rest, handles, anchors, nodes, e⟩)
  | inRecord, _, _, .scalar, fuel + 1, rest, events, _, _ => by
    refine ⟨events + 1, ?_⟩
    cases inRecord <;> rfl
  | inRecord, _, _, .noItems, fuel + 2, rest, events, _, _ => by
    refine ⟨events + 2, ?_⟩
    cases inRecord <;> rfl
  | inRecord, _, _, .noEntries, fuel + 2, rest, events, _, _ => by
    refine ⟨events + 2, ?_⟩
    cases inRecord <;> rfl
  | _, _, _, .list hi, fuel + 1, rest, events, hf, _ => by
    simp only [List.length_append, List.length_cons, List.length_nil] at hf
    obtain ⟨e, he⟩ := hi.blockItems_eq fuel rest (events + 2) (by omega)
    refine ⟨e, ?_⟩
    rw [List.append_assoc, List.cons_append, node_blockSequence, List.singleton_append, he]
    rfl
  | _, _, _, .indentless hi hne, fuel + 1, rest, events, hf, hr => by
    obtain ⟨e, he⟩ := hi.indentlessItems_eq fuel rest (events + 2) (by omega) (hr rfl)
    refine ⟨e, ?_⟩
    cases hi with
    | nil => exact absurd rfl hne
    | cons _ _ =>
      rw [List.append_assoc, List.cons_append] at he ⊢
      rw [node_blockEntry, he]
      rfl
  | _, _, _, .record he, fuel + 1, rest, events, hf, _ => by
    simp only [List.length_append, List.length_cons, List.length_nil] at hf
    obtain ⟨e, he⟩ := he.blockEntries_eq fuel rest (events + 2) (by omega)
    refine ⟨e, ?_⟩
    rw [List.append_assoc, List.cons_append, node_blockMapping, List.singleton_append, he]
    rfl

theorem SpelledItems.blockItems_eq : ∀ {ts : List Token} {items : List Tree}, SpelledItems ts items →
    ∀ (fuel : Nat) (rest : List Token) (events : Nat), 2 * ts.length + 1 ≤ fuel →
    ∃ e, blockItems fuel ⟨ts ++ .blockEnd :: rest, handles, anchors, nodes, events⟩ =
      some (items, ⟨rest, handles, anchors, nodes, e⟩)
  | _, _, .nil, fuel + 1, rest, events, _ => ⟨events, rfl⟩
  | _, _, .cons ht hi, fuel + 1, rest, events, hf => by
    simp only [List.length_append, List.length_cons] at hf
    obtain ⟨e, he⟩ := ht.node_eq fuel (_ ++ .blockEnd :: rest) events (by omega) nofun
    obtain ⟨e', he'⟩ := hi.blockItems_eq fuel rest e (by omega)
    obtain ⟨x, us, rfl, -, -, hend, hentry⟩ := ht.head
    refine ⟨e', ?_⟩
    simp only [List.append_assoc, List.cons_append] at he ⊢
    rw [blockItems_cons hend (hentry rfl), he, Option.bind_some, he']
    rfl

theorem SpelledItems.indentlessItems_eq : ∀ {ts : List Token} {items : List Tree}, SpelledItems ts items →
    ∀ (fuel : Nat) (rest : List Token) (events : Nat), 2 * ts.length + 1 ≤ fuel → rest.head? ≠ some .blockEntry →
    ∃ e, indentlessItems fuel ⟨ts ++ rest, handles, anchors, nodes, events⟩ =
      some (items, ⟨rest, handles, anchors, nodes, e⟩)
  | _, _, .nil, fuel + 1, rest, events, _, hr => ⟨events, indentlessItems_end hr⟩
  | _, _, .cons ht hi, fuel + 1, rest, events, hf, hr => by
    simp only [List.length_append, List.length_cons] at hf
    obtain ⟨e, he⟩ := ht.node_eq fuel (_ ++ rest) events (by omega) nofun
    obtain ⟨e', he'⟩ := hi.indentlessItems_eq fuel rest e (by omega) hr
    obtain ⟨x, us, rfl, hkey, hvalue, hend, hentry⟩ := ht.head
    refine ⟨e', ?_⟩
    simp only [List.append_assoc, List.cons_append] at he ⊢
    rw [indentlessItems_cons hkey hvalue hend (hentry rfl), he, Option.bind_some, he']
    rfl

theorem SpelledEntries.blockEntries_eq : ∀ {ts : List Token} {entries : List (Tree × Tree)}, SpelledEntries ts entries →
    ∀ (fuel : Nat) (rest : List Token) (events : Nat), 2 * ts.length + 1 ≤ fuel →
    ∃ e, blockEntries fuel ⟨ts ++ .blockEnd :: rest, handles, anchors, nodes, events⟩ =
      some (entries, ⟨rest, handles, anchors, nodes, e⟩)
  | _, _, .nil, fuel + 1, rest, events, _ => ⟨events, rfl⟩
  | _, _, @SpelledEntries.cons _ vs us _ _ _ hk hv he, fuel + 2, rest, events, hf => by
    simp only [List.length_append, List.length_cons] at hf
    have hnext : (us ++ .blockEnd :: rest).head? ≠ some .blockEntry := by
      obtain rfl | ⟨us, rfl⟩ := he.head <;> nofun
    obtain ⟨e, hk'⟩ := hk.node_eq fuel (.value :: vs ++ us ++ .blockEnd :: rest) events (by omega) nofun
    obtain ⟨e', hv'⟩ := hv.node_eq fuel (us ++ .blockEnd :: rest) e (by omega) fun _ => hnext
    obtain ⟨e'', he'⟩ := he.blockEntries_eq (fuel + 1) rest e' (by omega)
    obtain ⟨x, ks, rfl, hkey, hvalue, hend, -⟩ := hk.head
    obtain ⟨y, vs, rfl, hkey', hvalue', hend', -⟩ := hv.head
    refine ⟨e'', ?_⟩
    simp only [List.append_assoc, List.cons_append] at hk' hv' ⊢
    rw [blockEntries_cons ((blockPart_node hkey hvalue hend).trans hk'), blockPart_node hkey' hvalue' hend', hv',
      Option.bind_some, he']
    rfl
  | _, _, @SpelledEntries.missing _ us _ _ hk he, fuel + 2, rest, events, hf => by
    simp only [List.length_append, List.length_cons] at hf
    obtain ⟨e, hk'⟩ := hk.node_eq fuel (.value :: us ++ .blockEnd :: rest) events (by omega) nofun
    obtain ⟨e', he'⟩ := he.blockEntries_eq (fuel + 1) rest (e + 1) (by omega)
    obtain ⟨x, ks, rfl, hkey, hvalue, hend, -⟩ := hk.head
    have hpart : blockPart (fuel + 1) ⟨us ++ .blockEnd :: rest, handles, anchors, nodes, e⟩ =
        some (.scalar none .plain "", ⟨us ++ .blockEnd :: rest, handles, anchors, nodes, e + 1⟩) := by
      obtain rfl | ⟨us, rfl⟩ := he.head <;> rfl
    refine ⟨e', ?_⟩
    simp only [List.append_assoc, List.cons_append] at hk' ⊢
    rw [blockEntries_cons ((blockPart_node hkey hvalue hend).trans hk'), hpart, Option.bind_some, he']
    rfl

end

/-- A document that is a record is read whole. -/
theorem SpelledEntries.ofTokens_eq (h : SpelledEntries ts entries) :
    ∃ e, ofTokens (.blockMapping :: ts ++ [.blockEnd]) = some (some (.record none entries, e)) := by
  have hspelled : Spelled false (.blockMapping :: ts ++ [.blockEnd]) (.record none entries) := .record h
  obtain ⟨e, he⟩ := hspelled.node_eq (2 * (Token.blockMapping :: ts ++ [Token.blockEnd]).length + 4) [] 0
    (by omega) nofun
  refine ⟨e, ?_⟩
  rw [List.append_nil] at he
  change (node _ true false ⟨.blockMapping :: ts ++ [.blockEnd], standardHandles, [], [], 0⟩).bind _ = _
  rw [he]
  rfl

end Tree

end OperatorScaffold.Yaml
