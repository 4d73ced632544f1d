import PromptDoc.Proofs.Json.Fields

/-!
# Well-formed values, item by item

`Json.WellFormed` is defined along the value, and so it is decided. The lemmas say
it of the items and the fields of a collection at once, which is how it is used.
-/

namespace PromptDoc.Json

mutual

/-- Decides whether a value is well formed. -/
def decWellFormed : (v : Json) → Decidable v.WellFormed
  | .int n => inferInstanceAs (Decidable (Width.fitsWord n = true))
  | .arr items => decWellFormedItems items
  | .obj fields =>
    have := decWellFormedFields fields
    inferInstanceAs (Decidable ((fields.map Prod.fst).Nodup ∧ WellFormedFields fields))
  | .null | .bool _ | .float _ | .str _ => isTrue trivial

/-- Decides whether all items are well formed. -/
def decWellFormedItems : (xs : List Json) → Decidable (WellFormedItems xs)
  | [] => isTrue trivial
  | x :: xs =>
    have := decWellFormed x
    have := decWellFormedItems xs
    inferInstanceAs (Decidable (x.WellFormed ∧ WellFormedItems xs))

/-- Decides whether all field values are well formed. -/
def decWellFormedFields : (fs : List (String × Json)) → Decidable (WellFormedFields fs)
  | [] => isTrue trivial
  | (_, x) :: fs =>
    have := decWellFormed x
    have := decWellFormedFields fs
    inferInstanceAs (Decidable (x.WellFormed ∧ WellFormedFields fs))

end

instance (v : Json) : Decidable v.WellFormed := decWellFormed v

theorem wellFormedItems_iff {xs : List Json} : WellFormedItems xs ↔ ∀ x ∈ xs, x.WellFormed := by
  induction xs with
  | nil => simp [WellFormedItems]
  | cons x xs ih => simp [WellFormedItems, ih]

theorem wellFormedFields_iff {fs : List (String × Json)} :
    WellFormedFields fs ↔ ∀ f ∈ fs, f.2.WellFormed := by
  induction fs with
  | nil => simp [WellFormedFields]
  | cons f fs ih =>
      obtain ⟨k, x⟩ := f
      simp [WellFormedFields, ih]

theorem WellFormed.of_get? {fs : Fields} {key : String} {v : Json} (h : (obj fs).WellFormed)
    (hv : Fields.get? fs key = some v) : v.WellFormed :=
  wellFormedFields_iff.1 h.2 _ (Fields.mem_of_get? hv)

end PromptDoc.Json
