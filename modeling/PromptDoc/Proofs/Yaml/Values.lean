import PromptDoc.Proofs.Json.Fields
import PromptDoc.Proofs.Json.WellFormed
import PromptDoc.Proofs.Yaml.Legible
import PromptDoc.Proofs.Yaml.Source
import PromptDoc.Yaml.Document

/-!
# Trees that spell a value

A tree spells a JSON value when its scalars have the values of the leaves, its keys
are texts and nothing in it has an anchor or a tag (`Node.Spells`). How the scalars
are written does not matter, so this is where all ways to write a value meet: a text
whose tokens are those of such a tree is read as the value (`readChars_of_spells`).
Keys that are different strings are different keys for the reader, and integers of
at most 64 bits are the ones a plain scalar can hold, so both halves of
`Json.WellFormed` count.
-/

namespace PromptDoc.Yaml

namespace Value

mutual

/-- The YAML value with the same content as a JSON value. -/
def ofJson : Json → Value
  | .null => .scalar .null
  | .bool b => .scalar (.bool b)
  | .int n => .scalar (.number (.int n))
  | .float x => .scalar (.number (.float x))
  | .str s => .scalar (.text s.toList)
  | .arr items => .sequence (ofJsonItems items)
  | .obj fields => .mapping (ofJsonFields fields)

/-- The YAML values of items. -/
def ofJsonItems : List Json → List Value
  | [] => []
  | x :: xs => ofJson x :: ofJsonItems xs

/-- The entries of fields. -/
def ofJsonFields : List (String × Json) → List (Value × Value)
  | [] => []
  | (k, x) :: fs => (.scalar (.text k.toList), ofJson x) :: ofJsonFields fs

end

theorem keysDiffer_ofJsonFields {fs : List (String × Json)} (h : (fs.map Prod.fst).Nodup) :
    keysDiffer (ofJsonFields fs) = true := by
  have hany : ∀ (k : String) (fs : List (String × Json)), k ∉ fs.map Prod.fst →
      (ofJsonFields fs).any (fun e => (Value.scalar (.text k.toList)).sameKey e.1) = false := by
    intro k fs hk
    induction fs with
    | nil => rfl
    | cons f fs ih =>
        obtain ⟨l, x⟩ := f
        simp only [List.map_cons, List.mem_cons, not_or] at hk
        have hne : k.toList ≠ l.toList := fun e => hk.1 (String.toList_inj.1 e)
        rw [ofJsonFields, List.any_cons, ih hk.2]
        simp [sameKey, Scalar.sameKey, hne]
  induction fs with
  | nil => rfl
  | cons f fs ih =>
      obtain ⟨k, x⟩ := f
      rw [List.map_cons, List.nodup_cons] at h
      rw [ofJsonFields, keysDiffer, ih h.2, hany k fs h.1]
      rfl

end Value

/-! ## Trees -/

namespace Node

mutual

/-- A tree with the content of a value, without anchors and tags. -/
inductive Spells {α : Type} : Node α → Json → Prop
  | scalar {plain : Bool} {text : List Char} {s : Scalar} {v : Json}
      (hs : Scalar.ofStyle? plain text = some s) (hv : Value.ofJson v = .scalar s) :
      Spells (.scalar .none plain text) v
  | sequence {ns : List (Node α)} {xs : List Json} (h : SpellsItems ns xs) :
      Spells (.sequence .none ns) (.arr xs)
  | mapping {es : List (Node α × Node α)} {fs : List (String × Json)} (h : SpellsFields es fs) :
      Spells (.mapping .none es) (.obj fs)

/-- Trees with the contents of items. -/
inductive SpellsItems {α : Type} : List (Node α) → List Json → Prop
  | nil : SpellsItems [] []
  | cons {n : Node α} {ns : List (Node α)} {x : Json} {xs : List Json} (h : Spells n x)
      (hs : SpellsItems ns xs) : SpellsItems (n :: ns) (x :: xs)

/-- Entries with the contents of fields. -/
inductive SpellsFields {α : Type} : List (Node α × Node α) → List (String × Json) → Prop
  | nil : SpellsFields [] []
  | cons {plain : Bool} {n : Node α} {es : List (Node α × Node α)} {k : String} {x : Json}
      {fs : List (String × Json)}
      (hk : Scalar.ofStyle? plain k.toList = some (.text k.toList)) (h : Spells n x)
      (hs : SpellsFields es fs) :
      SpellsFields ((.scalar .none plain k.toList, n) :: es) ((k, x) :: fs)

end

mutual

/-- There is no anchor to number. -/
theorem Spells.exists_number? {n : Node (List Char)} {v : Json} (h : n.Spells v)
    (numbers : AnchorNumbers) :
    ∃ m : Node Nat, n.number? numbers = some (numbers, m) ∧ m.Spells v := by
  cases h with
  | scalar hs hv => exact ⟨_, rfl, .scalar hs hv⟩
  | sequence h =>
      obtain ⟨ms, hms, h⟩ := h.exists_number? numbers
      refine ⟨.sequence .none ms, ?_, .sequence h⟩
      rw [number?]
      simp only [AnchorNumbers.addProperties, Properties.none, hms]
      rfl
  | mapping h =>
      obtain ⟨es, hes, h⟩ := h.exists_number? numbers
      refine ⟨.mapping .none es, ?_, .mapping h⟩
      rw [number?]
      simp only [AnchorNumbers.addProperties, Properties.none, hes]
      rfl

theorem SpellsItems.exists_number? {ns : List (Node (List Char))} {xs : List Json}
    (h : SpellsItems ns xs) (numbers : AnchorNumbers) :
    ∃ ms : List (Node Nat), numberItems? numbers ns = some (numbers, ms) ∧ SpellsItems ms xs := by
  cases h with
  | nil => exact ⟨[], rfl, .nil⟩
  | cons h hs =>
      obtain ⟨m, hm, h⟩ := h.exists_number? numbers
      obtain ⟨ms, hms, hs⟩ := hs.exists_number? numbers
      refine ⟨m :: ms, ?_, .cons h hs⟩
      rw [numberItems?, hm]
      simp only [hms]
      rfl

theorem SpellsFields.exists_number? {es : List (Node (List Char) × Node (List Char))}
    {fs : List (String × Json)} (h : SpellsFields es fs) (numbers : AnchorNumbers) :
    ∃ ds : List (Node Nat × Node Nat), numberEntries? numbers es = some (numbers, ds) ∧
      SpellsFields ds fs := by
  cases h with
  | nil => exact ⟨[], rfl, .nil⟩
  | @cons plain _ _ k _ _ hk h hs =>
      obtain ⟨m, hm, h⟩ := h.exists_number? numbers
      obtain ⟨ds, hds, hs⟩ := hs.exists_number? numbers
      refine ⟨(.scalar .none plain k.toList, m) :: ds, ?_, .cons hk h hs⟩
      have hkey : number? numbers (.scalar .none plain k.toList : Node (List Char)) =
          some (numbers, .scalar .none plain k.toList) := rfl
      rw [numberEntries?, hkey]
      simp only [hm, hds]
      rfl

end

end Node

namespace Value

open Node

variable {scope : Scope}

theorem ofNode?_scalar {plain : Bool} {text : List Char} {s : Scalar}
    (h : Scalar.ofStyle? plain text = some s) (d n : Nat) :
    ofNode? scope d n (.scalar .none plain text) = some (.scalar s, n) := by
  cases d <;> simp [ofNode?, follow, ofScalar?, Properties.none, h]

mutual

/-- A tree stands for the value that it spells. -/
theorem ofNode?_of_spells {m : Node Nat} {v : Json} (h : m.Spells v) (hw : v.WellFormed) {d : Nat}
    (hd : depth v ≤ d) (n : Nat) : ofNode? scope d n m = some (ofJson v, n) := by
  cases h with
  | scalar hs hv =>
      rw [hv]
      exact ofNode?_scalar hs d n
  | sequence h =>
      obtain ⟨d, rfl⟩ : ∃ e, d = e + 1 := ⟨d - 1, by rw [depth] at hd; omega⟩
      have hitems := inTurn_of_spellsItems h hw (Nat.le_of_succ_le_succ hd) n
      rw [ofNode?, ofJson]
      simp only [follow, hitems]
      rfl
  | @mapping _ fs h =>
      obtain ⟨d, rfl⟩ : ∃ e, d = e + 1 := ⟨d - 1, by rw [depth] at hd; omega⟩
      have hfields := inTurn_of_spellsFields h hw.2 (Nat.le_of_succ_le_succ hd) n
      have hkeys : keysDiffer (ofJsonFields fs) = true := keysDiffer_ofJsonFields hw.1
      rw [ofNode?, ofJson]
      simp only [follow, hfields, hkeys, if_true]
      rfl

theorem inTurn_of_spellsItems {ms : List (Node Nat)} {xs : List Json} (h : SpellsItems ms xs)
    (hw : Json.WellFormedItems xs) {d : Nat} (hd : depthItems xs ≤ d) (n : Nat) :
    inTurn (ofNode? scope d) n ms = some (ofJsonItems xs, n) := by
  cases h with
  | nil => rfl
  | cons h hs =>
      obtain ⟨hx, hxs⟩ := Nat.max_le.1 hd
      rw [inTurn, ofNode?_of_spells h hw.1 hx n]
      simp only [inTurn_of_spellsItems hs hw.2 hxs n]
      rfl

theorem inTurn_of_spellsFields {es : List (Node Nat × Node Nat)} {fs : List (String × Json)}
    (h : SpellsFields es fs) (hw : Json.WellFormedFields fs) {d : Nat} (hd : depthFields fs ≤ d)
    (n : Nat) : inTurn (ofEntry (ofNode? scope d)) n es = some (ofJsonFields fs, n) := by
  cases h with
  | nil => rfl
  | cons hk h hs =>
      obtain ⟨hx, hfs⟩ := Nat.max_le.1 hd
      rw [inTurn, ofEntry, ofNode?_scalar hk d n]
      simp only [ofNode?_of_spells h hw.1 hx n, Option.map_some,
        inTurn_of_spellsFields hs hw.2 hfs n]
      rfl

end

theorem ofRoot?_of_spells {m : Node Nat} {v : Json} (h : m.Spells v) (hw : v.WellFormed)
    (hd : depth v ≤ depthLimit) : ofRoot? m = some (ofJson v) := by
  rw [ofRoot?, ofNode?_of_spells h hw hd]
  rfl

/-! ## Values as JSON -/

mutual

/-- The value with the content of a JSON value turns into that JSON value. -/
theorem toJson_ofJson : ∀ v : Json, v.WellFormed → (ofJson v).toJson = .ok v
  | .null, _ | .bool _, _ | .int _, _ | .float _, _ => rfl
  | .str s, _ => by
      rw [ofJson, toJson, scalarToJson, String.ofList_toList]
  | .arr xs, h => by
      rw [ofJson, toJson, toJsonItems_ofJsonItems xs h]
      rfl
  | .obj fs, h => by
      rw [ofJson, toJson, toJsonEntries_ofJsonFields fs h.2 []]
      · rfl
      · simpa using h.1

theorem toJsonItems_ofJsonItems :
    ∀ xs : List Json, Json.WellFormedItems xs → toJsonItems (ofJsonItems xs) = .ok xs
  | [], _ => rfl
  | x :: xs, h => by
      rw [ofJsonItems, toJsonItems, toJson_ofJson x h.1]
      simp only
      rw [toJsonItems_ofJsonItems xs h.2]
      rfl

theorem toJsonEntries_ofJsonFields :
    ∀ fs : List (String × Json), Json.WellFormedFields fs → ∀ before : Fields,
      ((before ++ fs).map Prod.fst).Nodup →
      toJsonEntries before (ofJsonFields fs) = .ok (before ++ fs)
  | [], _, before, _ => by
      rw [ofJsonFields, toJsonEntries, List.append_nil]
  | (k, x) :: fs, h, before, hkeys => by
      have hk : k ∉ before.map Prod.fst := by
        intro hmem
        rw [List.map_append, List.nodup_append] at hkeys
        exact hkeys.2.2 k hmem k (by simp) rfl
      have hkey : keyText (.scalar (.text k.toList)) = .ok k := by
        rw [keyText, scalarKey, String.ofList_toList]
      rw [ofJsonFields, toJsonEntries, hkey]
      simp only
      rw [toJson_ofJson x h.1]
      simp only
      rw [Fields.insert_of_notMem hk, toJsonEntries_ofJsonFields fs h.2 (before ++ [(k, x)])]
      · simp
      · simpa using hkeys

end

end Value

/-! ## Texts -/

/-- A text with the tokens of a tree that spells a value is read as that value, if the
reader takes its characters as they are. -/
theorem readChars_of_spells {text : List Char} {tokens : List Token} {n : Node (List Char)}
    {v : Json} (hkept : ∀ c ∈ text, isKept c = true) (hscan : Token.scan? text = some tokens)
    (hnode : Node.ofTokens? tokens = some (some n)) (h : n.Spells v) (hw : v.WellFormed)
    (hd : depth v ≤ Value.depthLimit) : readChars text = .ok v := by
  obtain ⟨m, hm, h⟩ := h.exists_number? []
  have hvalue : value? text = some (Value.ofJson v) := by
    rw [value?, Source.prepare?_of_isKept hkept, Option.bind_some, hscan]
    simp only [hnode, hm, Option.bind_some]
    exact Value.ofRoot?_of_spells h hw hd
  rw [readChars, hvalue]
  simp only [Value.toJson_ofJson v hw]
  rfl

end PromptDoc.Yaml
