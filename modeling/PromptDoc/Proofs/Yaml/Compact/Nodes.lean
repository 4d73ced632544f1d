import PromptDoc.Proofs.Yaml.Compact.Lexing
import PromptDoc.Proofs.Yaml.Nodes

/-!
# Compact JSON text as a tree

The tree of a compact JSON text has a quoted scalar for each string and key, a plain
one for each other leaf, and one collection for each array and object (`flowNode`).
The node reader gives it back from its tokens (`ofTokens?_flow`), and it spells the
value that the text was written for.
-/

namespace PromptDoc.Yaml

mutual

/-- The tree that the compact text of a value describes. -/
def flowNode {α : Type} : Json → Node α
  | .str s => .scalar .none false s.toList
  | .arr items => .sequence .none (flowNodes items)
  | .obj fields => .mapping .none (flowEntryNodes fields)
  | v => .scalar .none true v.compactChars

/-- The trees of items. -/
def flowNodes {α : Type} : List Json → List (Node α)
  | [] => []
  | x :: xs => flowNode x :: flowNodes xs

/-- The trees of fields. -/
def flowEntryNodes {α : Type} : List (String × Json) → List (Node α × Node α)
  | [] => []
  | (k, x) :: fs => (.scalar .none false k.toList, flowNode x) :: flowEntryNodes fs

end

namespace Node

/-! ## Reading the tree -/

variable {handles : TagHandles}

/-- The first token of a value says that it is written out and no key. -/
theorem exists_flowTokens (v : Json) :
    ∃ t ts, flowTokens v = t :: ts ∧ ((∃ plain text, t = .scalar plain text) ∨
      t = .flowSequenceStart ∨ t = .flowMappingStart) := by
  cases v with
  | arr xs => cases xs <;> exact ⟨_, _, rfl, .inr (.inl rfl)⟩
  | obj fs => cases fs <;> exact ⟨_, _, rfl, .inr (.inr rfl)⟩
  | _ => exact ⟨_, _, rfl, .inl ⟨_, _, rfl⟩⟩

/-- Every item but the first one is behind a comma. -/
theorem flowItems?_item (handles : TagHandles) (first : Bool) (v : Json) (fuel : Nat)
    (rest : List Token) :
    flowItems? handles (fuel + 1) first
        ((if first then [] else [.flowEntry]) ++ (flowTokens v ++ rest)) =
      match read? handles fuel false false (flowTokens v ++ rest) with
      | none => none
      | some (item, rest) =>
        (flowItems? handles fuel false rest).map fun (items, rest) => (item :: items, rest) := by
  obtain ⟨t, ts, heq, ⟨plain, text, rfl⟩ | rfl | rfl⟩ := exists_flowTokens v <;>
    rw [heq] <;> cases first <;> rfl

/-- The value of a field is read behind the token that announces it. -/
theorem readValue?_flow (v : Json) (fuel : Nat) (rest : List Token) :
    readValue? handles (fuel + 2) false endsMappingValue (.value :: (flowTokens v ++ rest)) =
      read? handles fuel false false (flowTokens v ++ rest) := by
  obtain ⟨t, ts, heq, ⟨plain, text, rfl⟩ | rfl | rfl⟩ := exists_flowTokens v <;>
    rw [heq] <;> rfl

/-- Every field but the first one is behind a comma. -/
theorem flowEntries?_field (handles : TagHandles) (first : Bool) (k : String) (v : Json)
    (fuel : Nat) (rest : List Token) :
    flowEntries? handles (fuel + 3) first
        ((if first then [] else [.flowEntry]) ++ (flowKeyTokens k ++ (flowTokens v ++ rest))) =
      match read? handles fuel false false (flowTokens v ++ rest) with
      | none => none
      | some (value, rest) =>
        (flowEntries? handles (fuel + 2) false rest).map fun (entries, rest) =>
          ((.scalar .none false k.toList, value) :: entries, rest) := by
  have hstep : ∀ more, flowEntries? handles (fuel + 3) first
      ((if first then [] else [.flowEntry]) ++ (.key :: more)) =
        match readUnless? handles (fuel + 2) false false endsMappingKey more with
        | none => none
        | some (key, rest) =>
          match readValue? handles (fuel + 2) false endsMappingValue rest with
          | none => none
          | some (value, rest) =>
            (flowEntries? handles (fuel + 2) false rest).map fun (entries, rest) =>
              ((key, value) :: entries, rest) := by
    cases first <;> exact fun _ => rfl
  have hkey : ∀ more, readUnless? handles (fuel + 2) false false endsMappingKey
      (.scalar false k.toList :: more) = some (.scalar .none false k.toList, more) := by
    intro more
    rw [readUnless?, if_neg (by simp [startsWith, endsMappingKey])]
    exact read?_scalar fuel false false _ _ more
  simp only [flowKeyTokens, List.cons_append, List.nil_append, hstep, hkey, readValue?_flow]

mutual

/-- The tree of a value is read from its tokens, whatever tokens follow. -/
theorem read?_flow (block indentless : Bool) :
    ∀ (v : Json) {fuel : Nat} (rest : List Token), 3 * (flowTokens v).length ≤ fuel →
      read? handles fuel block indentless (flowTokens v ++ rest) = some (flowNode v, rest)
  | .null, fuel + 1, rest, _ => read?_scalar fuel block indentless _ _ rest
  | .bool _, fuel + 1, rest, _ => read?_scalar fuel block indentless _ _ rest
  | .int _, fuel + 1, rest, _ => read?_scalar fuel block indentless _ _ rest
  | .float _, fuel + 1, rest, _ => read?_scalar fuel block indentless _ _ rest
  | .str _, fuel + 1, rest, _ => read?_scalar fuel block indentless _ _ rest
  | .arr [], fuel + 2, rest, _ => rfl
  | .obj [], fuel + 2, rest, _ => rfl
  | .arr (x :: xs), fuel, rest, h => by
      rw [flowTokens, List.length_cons, List.length_append] at h
      obtain ⟨n, rfl⟩ : ∃ n, fuel = n + 2 := ⟨fuel - 2, by omega⟩
      have hstart : ∀ more, read? handles (n + 2) block indentless (.flowSequenceStart :: more) =
          (flowItems? handles (n + 1) true more).map fun (items, rest) =>
            (.sequence .none items, rest) := fun _ => rfl
      have hitems := flowItems?_item handles true x n (moreItemTokens xs ++ rest)
      rw [read?_flow false false x _ (by omega)] at hitems
      simp only [flowItems?_more xs rest (show 3 * (moreItemTokens xs).length ≤ n by omega),
        if_true, List.nil_append] at hitems
      rw [flowTokens, List.cons_append, List.append_assoc, hstart, hitems]
      rfl
  | .obj ((k, x) :: fs), fuel, rest, h => by
      simp only [flowTokens, flowKeyTokens, List.length_cons, List.length_append,
        List.length_nil] at h
      obtain ⟨n, rfl⟩ : ∃ n, fuel = n + 4 := ⟨fuel - 4, by omega⟩
      have hstart : ∀ more, read? handles (n + 4) block indentless (.flowMappingStart :: more) =
          (flowEntries? handles (n + 3) true more).map fun (entries, rest) =>
            (.mapping .none entries, rest) := fun _ => rfl
      have hfields := flowEntries?_field handles true k x n
        (moreFieldTokens fs ++ rest)
      rw [read?_flow false false x _ (by omega)] at hfields
      simp only [flowEntries?_more fs rest (show 3 * (moreFieldTokens fs).length ≤ n + 2 by omega),
        if_true, List.nil_append] at hfields
      rw [flowTokens, List.cons_append, List.append_assoc, List.append_assoc, hstart, hfields]
      rfl

/-- The other items of a sequence are read up to its bracket. -/
theorem flowItems?_more :
    ∀ (xs : List Json) {fuel : Nat} (rest : List Token), 3 * (moreItemTokens xs).length ≤ fuel →
      flowItems? handles fuel false (moreItemTokens xs ++ rest) = some (flowNodes xs, rest)
  | [], fuel + 1, rest, _ => rfl
  | x :: xs, fuel, rest, h => by
      rw [moreItemTokens, List.length_cons, List.length_append] at h
      obtain ⟨n, rfl⟩ : ∃ n, fuel = n + 1 := ⟨fuel - 1, by omega⟩
      have hitems := flowItems?_item handles false x n (moreItemTokens xs ++ rest)
      rw [read?_flow false false x _ (by omega)] at hitems
      simp only [flowItems?_more xs rest (show 3 * (moreItemTokens xs).length ≤ n by omega)]
        at hitems
      rw [moreItemTokens, List.cons_append, List.append_assoc]
      exact hitems

/-- The other fields of a mapping are read up to its brace. -/
theorem flowEntries?_more :
    ∀ (fs : List (String × Json)) {fuel : Nat} (rest : List Token),
      3 * (moreFieldTokens fs).length ≤ fuel →
      flowEntries? handles fuel false (moreFieldTokens fs ++ rest) =
        some (flowEntryNodes fs, rest)
  | [], fuel + 1, rest, _ => rfl
  | (k, x) :: fs, fuel, rest, h => by
      simp only [moreFieldTokens, flowKeyTokens, List.length_cons, List.length_append,
        List.length_nil] at h
      obtain ⟨n, rfl⟩ : ∃ n, fuel = n + 3 := ⟨fuel - 3, by omega⟩
      have hfields := flowEntries?_field handles false k x n
        (moreFieldTokens fs ++ rest)
      rw [read?_flow false false x _ (by omega)] at hfields
      simp only [flowEntries?_more fs rest (show 3 * (moreFieldTokens fs).length ≤ n + 2 by omega)]
        at hfields
      rw [moreFieldTokens, List.cons_append, List.append_assoc, List.append_assoc]
      exact hfields

end

/-- The tokens of a compact text are the tokens of one root node. -/
theorem ofTokens?_flow (v : Json) : ofTokens? (flowTokens v) = some (some (flowNode v)) := by
  have hfirst : flowTokens v ≠ [] ∧ startsWith announcesDocument (flowTokens v) = false := by
    obtain ⟨t, ts, heq, ⟨plain, text, rfl⟩ | rfl | rfl⟩ := exists_flowTokens v <;>
      rw [heq] <;> exact ⟨List.cons_ne_nil _ _, rfl⟩
  exact ofTokens?_of_read? hfirst.1 hfirst.2
    (read?_flow true false v [] (Nat.le_add_right _ 3))

/-! ## The value of the tree -/

mutual

theorem spells_flowNode {α : Type} :
    ∀ (v : Json), v.WellFormed → spellable v = true → (flowNode v : Node α).Spells v
  | .null, _, _ => .scalar rfl rfl
  | .bool true, _, _ => .scalar rfl rfl
  | .bool false, _, _ => .scalar rfl rfl
  | .int _, hw, _ => .scalar (Scalar.ofPlain?_intText hw) rfl
  | .float _, _, hs => .scalar (Scalar.ofPlain?_text (of_decide_eq_true hs)) rfl
  | .str _, _, _ => .scalar rfl rfl
  | .arr xs, hw, hs => .sequence (spells_flowNodes xs hw hs)
  | .obj fs, hw, hs => .mapping (spells_flowEntryNodes fs hw.2 hs)

theorem spells_flowNodes {α : Type} :
    ∀ (xs : List Json), Json.WellFormedItems xs → spellableItems xs = true →
      SpellsItems (flowNodes xs : List (Node α)) xs
  | [], _, _ => .nil
  | x :: xs, hw, hs =>
      have hs := Bool.and_eq_true_iff.1 hs
      .cons (spells_flowNode x hw.1 hs.1) (spells_flowNodes xs hw.2 hs.2)

theorem spells_flowEntryNodes {α : Type} :
    ∀ (fs : List (String × Json)), Json.WellFormedFields fs → spellableFields fs = true →
      SpellsFields (flowEntryNodes fs : List (Node α × Node α)) fs
  | [], _, _ => .nil
  | (_, x) :: fs, hw, hs =>
      have hs := Bool.and_eq_true_iff.1 (Bool.and_eq_true_iff.1 hs).2
      .cons rfl (spells_flowNode x hw.1 hs.1) (spells_flowEntryNodes fs hw.2 hs.2)

end

end Node

end PromptDoc.Yaml
