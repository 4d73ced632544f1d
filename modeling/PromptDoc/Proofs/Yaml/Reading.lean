import PromptDoc.Proofs.Json.Fields
import PromptDoc.Proofs.Json.WellFormed
import PromptDoc.Yaml.Document

/-!
# What is read is well formed

A reader never builds a value outside `Json.WellFormed`. Scalars are the only
source of integers, and they are refused or read otherwise when 64 bits do not
hold them; entries are inserted under their keys one after another, so no key
occurs twice.
-/

namespace PromptDoc.Yaml

/-- Every integer among scalars fits 64 bits. -/
def Scalar.InRange : Scalar → Prop
  | .number (.int n) => PromptDoc.Width.fitsWord n
  | _ => True

theorem Scalar.inRange_of_integerReading {s : List Char} {n : Int}
    (h : integerReading s = .value n) : InRange (.number (.int n)) := by
  unfold integerReading at h
  split at h
  · cases h
  · next m _ =>
    split at h
    · next hwidth =>
      obtain rfl := IntegerReading.value.inj h
      unfold width at hwidth
      split at hwidth
      · next hfits => exact hfits
      · split at hwidth <;> cases hwidth
    all_goals cases h

theorem Scalar.inRange_of_float? {s : List Char} {n : Number} (h : float? s = some n) :
    InRange (.number n) := by
  cases n with
  | int m =>
      exfalso
      unfold float? at h
      split at h
      · cases h
      repeat' split at h
      all_goals first | cases h | skip
      obtain ⟨x, -, hx⟩ := Option.map_eq_some_iff.1 h
      cases hx
  | _ => trivial

theorem Scalar.inRange_of_ofPlain? {text : List Char} {s : Scalar} (h : ofPlain? text = some s) :
    s.InRange := by
  unfold ofPlain? at h
  split at h
  · obtain rfl := Option.some.inj h
    trivial
  split at h
  · obtain rfl := Option.some.inj h
    trivial
  split at h
  · next hreading =>
    obtain rfl := Option.some.inj h
    exact inRange_of_integerReading hreading
  · cases h
  split at h
  · obtain rfl := Option.some.inj h
    trivial
  split at h
  · next hfloat =>
    obtain rfl := Option.some.inj h
    exact inRange_of_float? hfloat
  · obtain rfl := Option.some.inj h
    trivial

theorem Scalar.inRange_of_ofTagged? {tag text : List Char} {s : Scalar}
    (h : ofTagged? tag text = some s) : s.InRange := by
  unfold ofTagged? at h
  split at h
  · obtain ⟨b, -, rfl⟩ := Option.map_eq_some_iff.1 h
    trivial
  split at h
  · split at h
    · next hreading =>
      obtain rfl := Option.some.inj h
      exact inRange_of_integerReading hreading
    · cases h
  split at h
  · obtain ⟨n, hn, rfl⟩ := Option.map_eq_some_iff.1 h
    exact inRange_of_float? hn
  split at h
  · split at h
    · obtain rfl := Option.some.inj h
      trivial
    · cases h
  · obtain rfl := Option.some.inj h
    trivial

namespace Value

mutual

/-- Every integer in the value fits 64 bits, those in keys left out. -/
def InRange : Value → Prop
  | .scalar s => s.InRange
  | .sequence items => InRangeItems items
  | .mapping entries => InRangeEntries entries
  | .tagged _ v => InRange v

/-- All items are in range. -/
def InRangeItems : List Value → Prop
  | [] => True
  | v :: vs => InRange v ∧ InRangeItems vs

/-- All values of entries are in range. -/
def InRangeEntries : List (Value × Value) → Prop
  | [] => True
  | (_, v) :: entries => InRange v ∧ InRangeEntries entries

end

theorem inRangeItems_iff {vs : List Value} : InRangeItems vs ↔ ∀ v ∈ vs, InRange v := by
  induction vs with
  | nil => simp [InRangeItems]
  | cons v vs ih => simp [InRangeItems, ih]

theorem inRangeEntries_iff {entries : List (Value × Value)} :
    InRangeEntries entries ↔ ∀ e ∈ entries, InRange e.2 := by
  induction entries with
  | nil => simp [InRangeEntries]
  | cons e entries ih =>
      obtain ⟨k, v⟩ := e
      simp [InRangeEntries, ih]

theorem inRange_of_underLocalTag? {name : List Char} {value : Option Value} {v : Value}
    (hvalue : ∀ w, value = some w → InRange w) (h : underLocalTag? name value = some v) :
    InRange v := by
  unfold underLocalTag? at h
  split at h
  · cases h
  · obtain ⟨w, hw, rfl⟩ := Option.map_eq_some_iff.1 h
    exact hvalue w hw

theorem inRange_of_withTag? {tag : Option Tag} {value v : Value} (hvalue : InRange value)
    (h : withTag? tag value = some v) : InRange v := by
  unfold withTag? at h
  split at h
  · exact inRange_of_underLocalTag? (fun w hw => Option.some.inj hw ▸ hvalue) h
  · exact Option.some.inj h ▸ hvalue

theorem inRange_of_ofScalar? {tag : Option Tag} {plain : Bool} {text : List Char} {v : Value}
    (h : ofScalar? tag plain text = some v) : InRange v := by
  have hstyle : ∀ w, (Scalar.ofStyle? plain text).map Value.scalar = some w → InRange w := by
    intro w hw
    obtain ⟨s, hs, rfl⟩ := Option.map_eq_some_iff.1 hw
    unfold Scalar.ofStyle? at hs
    split at hs
    · exact Scalar.inRange_of_ofPlain? hs
    · obtain rfl := Option.some.inj hs
      trivial
  unfold ofScalar? at h
  split at h
  · exact hstyle v h
  · exact inRange_of_underLocalTag? hstyle h
  · obtain ⟨s, hs, rfl⟩ := Option.map_eq_some_iff.1 h
    exact Scalar.inRange_of_ofTagged? hs

/-- What holds of every value computed in turn. -/
theorem forall_of_inTurn {α β : Type} {f : Nat → α → Counted β} {P : β → Prop}
    (hf : ∀ {n a b m}, f n a = some (b, m) → P b) {as : List α} {n m : Nat} {bs : List β}
    (h : inTurn f n as = some (bs, m)) : ∀ b ∈ bs, P b := by
  induction as generalizing n m bs with
  | nil =>
      obtain ⟨rfl, -⟩ := Prod.mk.inj (Option.some.inj h)
      exact fun b hb => nomatch hb
  | cons a as ih =>
      rw [inTurn] at h
      split at h
      · cases h
      · next b k hhead =>
        obtain ⟨⟨bs', k'⟩, hrest, heq⟩ := Option.map_eq_some_iff.1 h
        obtain ⟨rfl, -⟩ := Prod.mk.inj heq
        intro c hc
        rcases List.mem_cons.1 hc with rfl | hc
        · exact hf hhead
        · exact ih hrest c hc

theorem inRange_of_ofEntry {f : Nat → Node Nat → Counted Value}
    (hf : ∀ {n node v m}, f n node = some (v, m) → InRange v) {n m : Nat}
    {entry : Node Nat × Node Nat} {e : Value × Value} (h : ofEntry f n entry = some (e, m)) :
    InRange e.2 := by
  unfold ofEntry at h
  split at h
  · cases h
  · obtain ⟨⟨v, k⟩, hv, heq⟩ := Option.map_eq_some_iff.1 h
    obtain ⟨rfl, -⟩ := Prod.mk.inj heq
    exact hf hv

/-- Counting aliases does not change a value. -/
theorem of_counted {P : Value → Prop} {value : Option Value} (hvalue : ∀ w, value = some w → P w)
    {k m : Nat} {v : Value} (h : value.map (·, k) = some (v, m)) : P v := by
  obtain ⟨w, hw, heq⟩ := Option.map_eq_some_iff.1 h
  exact (Prod.mk.inj heq).1 ▸ hvalue w hw

/-- The value of a node, by induction on the nesting that is left. -/
theorem inRange_of_ofNode? {scope : Scope} {depth n m : Nat} {node : Node Nat} {v : Value}
    (h : ofNode? scope depth n node = some (v, m)) : InRange v := by
  induction depth generalizing n m node v with
  | zero =>
      rw [ofNode?] at h
      split at h
      · exact of_counted (fun w => inRange_of_ofScalar?) h
      · cases h
  | succ depth ih =>
      rw [ofNode?] at h
      split at h
      · exact of_counted (fun w => inRange_of_ofScalar?) h
      · split at h
        · cases h
        · next values _ hitems =>
          have hvalue : InRange (.sequence values) :=
            inRangeItems_iff.2 (forall_of_inTurn ih hitems)
          exact of_counted (fun w => inRange_of_withTag? hvalue) h
      · split at h
        · cases h
        · next values _ hentries =>
          have hvalue : InRange (.mapping values) :=
            inRangeEntries_iff.2 (forall_of_inTurn (inRange_of_ofEntry ih) hentries)
          split at h
          · exact of_counted (fun w => inRange_of_withTag? hvalue) h
          · cases h
      · cases h

/-! ## JSON forms -/

theorem wellFormed_of_scalarToJson {s : Scalar} (hs : s.InRange) {x : Json}
    (h : scalarToJson s = .ok x) : x.WellFormed := by
  cases s with
  | number n =>
      cases n with
      | int i =>
          obtain rfl := Except.ok.inj h
          exact hs
      | float y =>
          obtain rfl := Except.ok.inj h
          trivial
      | infinity negative => cases h
      | nan => cases h
  | _ =>
      obtain rfl := Except.ok.inj h
      trivial

mutual

theorem wellFormed_of_toJson : ∀ {v : Value} {x : Json}, InRange v → toJson v = .ok x →
    x.WellFormed
  | .scalar s, x, hv, h => wellFormed_of_scalarToJson hv (by rwa [toJson] at h)
  | .tagged _ v, x, hv, h => wellFormed_of_toJson (v := v) hv (by rwa [toJson] at h)
  | .sequence items, x, hv, h => by
      rw [toJson] at h
      cases hitems : toJsonItems items with
      | error e =>
          rw [hitems] at h
          cases h
      | ok xs =>
          rw [hitems] at h
          obtain rfl := Except.ok.inj h
          exact Json.wellFormedItems_iff.2 (wellFormed_of_toJsonItems hv hitems)
  | .mapping entries, x, hv, h => by
      rw [toJson] at h
      cases hentries : toJsonEntries [] entries with
      | error e =>
          rw [hentries] at h
          cases h
      | ok fs =>
          rw [hentries] at h
          obtain rfl := Except.ok.inj h
          have hkeys : (([] : Fields).map Prod.fst).Nodup := List.nodup_nil
          have hfields : ∀ f ∈ ([] : Fields), f.2.WellFormed := fun f hf => nomatch hf
          obtain ⟨hkeys, hfields⟩ := wellFormed_of_toJsonEntries hv hkeys hfields hentries
          exact ⟨hkeys, Json.wellFormedFields_iff.2 hfields⟩

theorem wellFormed_of_toJsonItems : ∀ {items : List Value} {xs : List Json}, InRangeItems items →
    toJsonItems items = .ok xs → ∀ x ∈ xs, x.WellFormed
  | [], xs, _, h => by
      obtain rfl := Except.ok.inj h
      exact fun x hx => nomatch hx
  | v :: vs, xs, hv, h => by
      rw [toJsonItems] at h
      cases hhead : toJson v with
      | error e =>
          rw [hhead] at h
          cases h
      | ok y =>
          cases hrest : toJsonItems vs with
          | error e =>
              rw [hhead, hrest] at h
              cases h
          | ok ys =>
              rw [hhead, hrest] at h
              obtain rfl := Except.ok.inj h
              intro x hx
              rcases List.mem_cons.1 hx with rfl | hx
              · exact wellFormed_of_toJson hv.1 hhead
              · exact wellFormed_of_toJsonItems hv.2 hrest x hx

/-- Entry by entry; the fields so far are well formed. -/
theorem wellFormed_of_toJsonEntries : ∀ {entries : List (Value × Value)} {fs gs : Fields},
    InRangeEntries entries → (fs.map Prod.fst).Nodup → (∀ f ∈ fs, f.2.WellFormed) →
      toJsonEntries fs entries = .ok gs → (gs.map Prod.fst).Nodup ∧ ∀ f ∈ gs, f.2.WellFormed
  | [], fs, gs, _, hkeys, hfields, h => by
      obtain rfl := Except.ok.inj h
      exact ⟨hkeys, hfields⟩
  | (k, v) :: entries, fs, gs, hv, hkeys, hfields, h => by
      rw [toJsonEntries] at h
      cases hkey : keyText k with
      | error e =>
          rw [hkey] at h
          cases h
      | ok key =>
          cases hvalue : toJson v with
          | error e =>
              rw [hkey, hvalue] at h
              cases h
          | ok x =>
              rw [hkey, hvalue] at h
              refine wellFormed_of_toJsonEntries hv.2 (Fields.nodup_keys_insert hkeys key x) ?_ h
              intro f hf
              rcases Fields.eq_or_mem_of_mem_insert hf with rfl | hf
              · exact wellFormed_of_toJson hv.1 hvalue
              · exact hfields f hf

end

end Value

/-- Every value that is read is well formed. -/
theorem wellFormed_of_readChars {text : List Char} {x : Json} (h : readChars text = .ok x) :
    x.WellFormed := by
  unfold readChars at h
  split at h
  · cases h
  · next v hv =>
    have hrange : v.InRange := by
      unfold value? at hv
      split at hv
      · cases hv
      split at hv
      · cases hv
      · obtain rfl := Option.some.inj hv
        trivial
      · obtain ⟨⟨n, root⟩, -, hroot⟩ := Option.bind_eq_some_iff.1 hv
        obtain ⟨⟨w, m⟩, hnode, rfl⟩ := Option.map_eq_some_iff.1 hroot
        exact Value.inRange_of_ofNode? hnode
    cases hjson : v.toJson with
    | error e =>
        rw [hjson] at h
        cases h
    | ok y =>
        rw [hjson] at h
        obtain rfl := Except.ok.inj h
        exact Value.wellFormed_of_toJson hrange hjson

end PromptDoc.Yaml
