import PromptDoc.Proofs.Yaml.Tree
import PromptDoc.Proofs.Yaml.Values

/-!
# The tree read from its tokens

The node reader gives back the tree whose tokens it gets. Three units of fuel
for each token are enough. The tree spells the value that it was made for, but for
the line feed that a literal block at the end may lose.
-/

namespace PromptDoc.Yaml.Node

open Layout

variable {handles : TagHandles}

theorem read?_scalar (fuel : Nat) (block indentless plain : Bool) (text : List Char)
    (rest : List Token) :
    read? handles (fuel + 1) block indentless (.scalar plain text :: rest) =
      some (.scalar .none plain text, rest) := by
  rw [read?]
  · rfl
  · simp

/-- The tree of a value is written out, so its first token does not say that
it is absent. -/
theorem startsWith_tokens {o : Layout} {owner inner : Nat} {ended : Bool} (v : Json)
    (rest : List Token) :
    startsWith endsBlockEntry ((o.node owner inner ended v : Node (List Char)).tokens ++ rest) =
        false ∧
      startsWith endsBlockPart ((o.node owner inner ended v : Node (List Char)).tokens ++ rest) =
        false := by
  cases v with
  | arr xs => cases xs <;> exact ⟨rfl, rfl⟩
  | obj fs => cases fs <;> exact ⟨rfl, rfl⟩
  | _ => exact ⟨rfl, rfl⟩

theorem read?_empty (fuel : Nat) (indentless : Bool) (rest : List Token) :
    read? handles (fuel + 2) true indentless (.flowSequenceStart :: .flowSequenceEnd :: rest) =
        some (.sequence .none [], rest) ∧
      read? handles (fuel + 2) true indentless (.flowMappingStart :: .flowMappingEnd :: rest) =
        some (.mapping .none [], rest) := by
  constructor
  · rw [read?]
    · simp [Properties.take?, flowItems?]
    · simp
  · rw [read?]
    · simp [Properties.take?, flowEntries?]
    · simp

theorem read?_sequence (fuel : Nat) (indentless : Bool) (rest : List Token) :
    read? handles (fuel + 1) true indentless (.blockSequenceStart :: rest) =
      (blockItems? handles fuel rest).map fun (items, rest) => (.sequence .none items, rest) := by
  rw [read?]
  · rfl
  · simp

theorem read?_mapping (fuel : Nat) (indentless : Bool) (rest : List Token) :
    read? handles (fuel + 1) true indentless (.blockMappingStart :: rest) =
      (blockEntries? handles fuel rest).map fun (entries, rest) =>
        (.mapping .none entries, rest) := by
  rw [read?]
  · rfl
  · simp

theorem readUnless?_endsBlockEntry {o : Layout} {owner inner fuel : Nat} {ended : Bool}
    (v : Json) (indentless : Bool) (rest : List Token) :
    readUnless? handles (fuel + 1) true indentless endsBlockEntry
        ((o.node owner inner ended v : Node (List Char)).tokens ++ rest) =
      read? handles fuel true indentless
        ((o.node owner inner ended v : Node (List Char)).tokens ++ rest) := by
  rw [readUnless?, (startsWith_tokens v rest).1, if_neg Bool.false_ne_true]

theorem readUnless?_endsBlockPart {o : Layout} {owner inner fuel : Nat} {ended : Bool}
    (v : Json) (indentless : Bool) (rest : List Token) :
    readUnless? handles (fuel + 1) true indentless endsBlockPart
        ((o.node owner inner ended v : Node (List Char)).tokens ++ rest) =
      read? handles fuel true indentless
        ((o.node owner inner ended v : Node (List Char)).tokens ++ rest) := by
  rw [readUnless?, (startsWith_tokens v rest).2, if_neg Bool.false_ne_true]

mutual

/-- A tree is read from its tokens, whatever tokens follow. -/
theorem read?_node {o : Layout} (indentless : Bool) :
    ∀ (v : Json) {owner inner fuel : Nat} {ended : Bool} (rest : List Token),
      3 * (o.node owner inner ended v : Node (List Char)).tokens.length ≤ fuel →
      read? handles fuel true indentless
        ((o.node owner inner ended v : Node (List Char)).tokens ++ rest) =
        some (o.node owner inner ended v, rest)
  | .null, _, _, fuel + 1, _, rest, _ => read?_scalar fuel true indentless _ _ rest
  | .bool b, _, _, fuel + 1, _, rest, _ => read?_scalar fuel true indentless _ _ rest
  | .int n, _, _, fuel + 1, _, rest, _ => read?_scalar fuel true indentless _ _ rest
  | .float x, _, _, fuel + 1, _, rest, _ => read?_scalar fuel true indentless _ _ rest
  | .str s, _, _, fuel + 1, _, rest, _ => read?_scalar fuel true indentless _ _ rest
  | .arr [], _, _, fuel + 2, _, rest, _ => (read?_empty fuel indentless rest).1
  | .obj [], _, _, fuel + 2, _, rest, _ => (read?_empty fuel indentless rest).2
  | .arr (x :: xs), owner, inner, fuel + 1, ended, rest, h => by
      have htokens : (o.node owner inner ended (.arr (x :: xs)) : Node (List Char)).tokens =
          .blockSequenceStart ::
            (tokensItems (o.nodeItems inner ended (x :: xs) : List (Node (List Char))) ++
              [.blockEnd]) := by
        rw [node, nodeItems, tokens]
      have hfuel : 3 * (tokensItems (o.nodeItems inner ended (x :: xs) :
          List (Node (List Char)))).length + 1 ≤ fuel := by
        rw [htokens] at h
        simp only [List.length_cons, List.length_append] at h
        omega
      have hitems := blockItems?_nodeItems (x :: xs) rest hfuel
      rw [htokens, List.cons_append, List.append_assoc, List.singleton_append,
        read?_sequence, hitems]
      rfl
  | .obj (f :: fs), owner, inner, fuel + 1, ended, rest, h => by
      have htokens : (o.node owner inner ended (.obj (f :: fs)) : Node (List Char)).tokens =
          .blockMappingStart ::
            (tokensEntries (o.nodeFields inner ended (f :: fs) :
              List (Node (List Char) × Node (List Char))) ++ [.blockEnd]) := by
        rw [node, nodeFields, tokens]
      have hfuel : 3 * (tokensEntries (o.nodeFields inner ended (f :: fs) :
          List (Node (List Char) × Node (List Char)))).length + 1 ≤ fuel := by
        rw [htokens] at h
        simp only [List.length_cons, List.length_append] at h
        omega
      have hfields := blockEntries?_nodeFields (f :: fs) rest hfuel
      rw [htokens, List.cons_append, List.append_assoc, List.singleton_append,
        read?_mapping, hfields]
      rfl

/-- The items of a sequence are read up to its end. -/
theorem blockItems?_nodeItems {o : Layout} :
    ∀ (xs : List Json) {column fuel : Nat} {ended : Bool} (rest : List Token),
      3 * (tokensItems (o.nodeItems column ended xs : List (Node (List Char)))).length + 1 ≤ fuel →
      blockItems? handles fuel
        (tokensItems (o.nodeItems column ended xs : List (Node (List Char))) ++ .blockEnd :: rest) =
        some (o.nodeItems column ended xs, rest)
  | [], _, fuel + 1, _, rest, _ => by
      rw [nodeItems, tokensItems, List.nil_append, blockItems?]
  | x :: xs, column, fuel + 1, ended, rest, h => by
      rw [nodeItems, tokensItems, List.length_cons, List.length_append] at h
      obtain ⟨k, rfl⟩ : ∃ k, fuel = k + 1 := ⟨fuel - 1, by omega⟩
      rw [nodeItems, tokensItems, List.cons_append, List.append_assoc, blockItems?,
        readUnless?_endsBlockEntry, read?_node false x _ (by omega)]
      simp only
      rw [blockItems?_nodeItems xs rest (by omega)]
      rfl

/-- The fields of a mapping are read up to its end. -/
theorem blockEntries?_nodeFields {o : Layout} :
    ∀ (fs : List (String × Json)) {column fuel : Nat} {ended : Bool} (rest : List Token),
      3 * (tokensEntries (o.nodeFields column ended fs :
        List (Node (List Char) × Node (List Char)))).length + 1 ≤ fuel →
      blockEntries? handles fuel
        (tokensEntries (o.nodeFields column ended fs :
          List (Node (List Char) × Node (List Char))) ++ .blockEnd :: rest) =
        some (o.nodeFields column ended fs, rest)
  | [], _, fuel + 1, _, rest, _ => by
      rw [nodeFields, tokensEntries, List.nil_append, blockEntries?]
  | (k, v) :: fs, column, fuel + 1, ended, rest, h => by
      simp only [nodeFields, tokensEntries, tokens, List.length_cons, List.length_append,
        List.length_nil] at h
      obtain ⟨n, rfl⟩ : ∃ n, fuel = n + 2 := ⟨fuel - 2, by omega⟩
      have hkey : ∀ more, readUnless? handles (n + 2) true true endsBlockPart
          (.scalar (Token.Lexer.staysPlain k.toList) k.toList :: more) =
          some (.scalar .none (Token.Lexer.staysPlain k.toList) k.toList, more) := by
        intro more
        rw [readUnless?, if_neg (by simp [startsWith, endsBlockPart])]
        exact read?_scalar n true true _ _ more
      rw [nodeFields, tokensEntries, tokens, List.cons_append, blockEntries?]
      simp only [List.nil_append, List.cons_append, List.append_assoc]
      rw [hkey]
      simp only [readValue?]
      rw [readUnless?_endsBlockPart, read?_node true v _ (by omega)]
      simp only
      rw [blockEntries?_nodeFields fs rest (by omega)]
      rfl

end

/-! ## The values of trees -/

theorem ofPlain?_of_staysPlain {s : List Char} (h : Token.Lexer.staysPlain s = true) :
    Scalar.ofPlain? s = some (.text s) := by
  simp only [Token.Lexer.staysPlain, Quoted.plainSafe, Scalar.staysText, Bool.and_eq_true,
    decide_eq_true_eq] at h
  exact h.2.1.1.1.1.1.1

theorem ofStyle?_text {s : List Char} {plain : Bool}
    (h : plain = true → Token.Lexer.staysPlain s = true) :
    Scalar.ofStyle? plain s = some (.text s) := by
  cases plain with
  | false => rfl
  | true => exact ofPlain?_of_staysPlain (h rfl)

/-- A string that is written plain is no literal block, so it loses nothing. -/
theorem staysPlain_of_writesPlain {o : Layout} {column : Nat} {s : List Char} (ended : Bool)
    (h : o.writesPlain column s = true) :
    Token.Lexer.staysPlain (Layout.readString ended s) = true := by
  unfold Layout.writesPlain at h
  unfold Layout.readString
  split at h
  · cases h
  · next hliteral =>
    rw [if_neg hliteral]
    split at h
    · cases h
    · exact h

mutual

/-- The tree of a value spells what its text is read as. -/
theorem spells_node {α : Type} {o : Layout} :
    ∀ (v : Json), v.WellFormed → Legible v → ∀ (owner inner : Nat) (ended : Bool),
      (o.node owner inner ended v : Node α).Spells (reread ended v)
  | .null, _, _, _, _, _ => .scalar rfl rfl
  | .bool true, _, _, _, _, _ => .scalar rfl rfl
  | .bool false, _, _, _, _, _ => .scalar rfl rfl
  | .int _, hw, _, _, _, _ => .scalar (Scalar.ofPlain?_intText hw) rfl
  | .float _, _, hl, _, _, _ => .scalar (Scalar.ofPlain?_text hl) rfl
  | .str s, _, _, owner, _, ended => by
      rw [node, reread]
      refine .scalar (ofStyle?_text (staysPlain_of_writesPlain ended)) ?_
      rw [Value.ofJson, String.toList_ofList]
  | .arr xs, hw, hl, _, _, _ => .sequence (spells_nodeItems xs hw hl)
  | .obj fs, hw, hl, _, _, _ => .mapping (spells_nodeFields fs hw.2 hl)

theorem spells_nodeItems {α : Type} {o : Layout} :
    ∀ (xs : List Json), Json.WellFormedItems xs → LegibleItems xs → ∀ {column : Nat} {ended : Bool},
      SpellsItems (o.nodeItems column ended xs : List (Node α)) (rereadItems ended xs)
  | [], _, _, _, _ => .nil
  | x :: xs, hw, hl, _, _ =>
      .cons (spells_node x hw.1 hl.1 _ _ _) (spells_nodeItems xs hw.2 hl.2)

theorem spells_nodeFields {α : Type} {o : Layout} :
    ∀ (fs : List (String × Json)), Json.WellFormedFields fs → LegibleFields fs →
      ∀ {column : Nat} {ended : Bool},
      SpellsFields (o.nodeFields column ended fs : List (Node α × Node α))
        (rereadFields ended fs)
  | [], _, _, _, _ => .nil
  | (_, x) :: fs, hw, hl, _, _ =>
      .cons (ofStyle?_text id) (spells_node x hw.1 hl.2.1 _ _ _)
        (spells_nodeFields fs hw.2 hl.2.2)

end

/-! ## Documents -/

theorem read?_root {o : Layout} {ended : Bool} (v : Json) {fuel : Nat} (rest : List Token)
    (h : 3 * (o.root ended v : Node (List Char)).tokens.length ≤ fuel) :
    read? handles fuel true false ((o.root ended v : Node (List Char)).tokens ++ rest) =
      some (o.root ended v, rest) := by
  cases v with
  | str s =>
      obtain ⟨n, rfl⟩ : ∃ n, fuel = n + 1 := ⟨fuel - 1, by
        have : (o.root ended (.str s) : Node (List Char)).tokens.length = 1 := rfl
        omega⟩
      exact read?_scalar n true false _ _ rest
  | _ => exact read?_node false _ rest h

/-- The root of a written document spells the value that it is read as. -/
theorem spells_root {α : Type} {o : Layout} {v : Json} (hw : v.WellFormed) (hl : Legible v)
    (ended : Bool) : (root o ended v : Node α).Spells (rereadRoot ended v) := by
  cases v with
  | str s => exact .scalar (ofStyle?_text id) rfl
  | _ => exact spells_node _ hw hl 0 0 ended

/-- Tokens that start no document of their own are those of the first node, if it
takes all of them. -/
theorem ofTokens?_of_read? {tokens : List Token} {n : Node (List Char)}
    (hne : tokens ≠ []) (hstart : startsWith announcesDocument tokens = false)
    (hread : read? defaultHandles (fuelFor tokens) true false (tokens ++ []) = some (n, [])) :
    ofTokens? tokens = some (some n) := by
  rw [List.append_nil] at hread
  rw [ofTokens?, List.isEmpty_eq_false_iff.2 hne, if_neg Bool.false_ne_true, first?, hstart,
    if_neg Bool.false_ne_true, hread]
  rfl

/-- The tokens of a written document are the tokens of one root node. -/
theorem ofTokens?_root {o : Layout} {ended : Bool} (v : Json) :
    ofTokens? (o.root ended v : Node (List Char)).tokens = some (some (o.root ended v)) := by
  have hfirst : (o.root ended v : Node (List Char)).tokens ≠ [] ∧
      startsWith announcesDocument (o.root ended v : Node (List Char)).tokens = false := by
    cases v with
    | arr xs => cases xs <;> exact ⟨List.cons_ne_nil _ _, rfl⟩
    | obj fs => cases fs <;> exact ⟨List.cons_ne_nil _ _, rfl⟩
    | _ => exact ⟨List.cons_ne_nil _ _, rfl⟩
  exact ofTokens?_of_read? hfirst.1 hfirst.2 (read?_root v [] (Nat.le_add_right _ 3))

end PromptDoc.Yaml.Node
