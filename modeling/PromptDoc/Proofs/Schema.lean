import PromptDoc.Schema.Basic

/-!
# Acceptance

`Schema.Accepts` says which values a schema asks for, without the wording of
violations and without the place of the value. A value has no violations exactly
when it is accepted.
-/

namespace PromptDoc.Schema

mutual

/-- The values that a schema asks for. -/
def Accepts : Schema → Json → Prop
  | .anything, _ => True
  | .constant n, v => v.isNumber n = true
  | .oneOf options, v => ∃ option ∈ options, v = .str option
  | .boolean, v => ∃ b, v = .bool b
  | .text rule, v => ∃ s, v = .str s ∧ rule.accepts s = true
  | .positiveInteger, v => v.isInteger = true ∧ v.isPositiveOrOther = true
  | .array, v => ∃ xs, v = .arr xs
  | .arrayOf items, v => ∃ xs, v = .arr xs ∧ ∀ x ∈ xs, Accepts items x
  | .record required others properties, v => ∃ fs : Fields, v = .obj fs ∧
      (∀ name ∈ required, fs.has name = true) ∧ AcceptsFields fs properties ∧
        (others = .forbidden → ∀ key ∈ fs.keys, key ∈ properties.map Prod.fst)
  | .recordOf values, v => ∃ fs : Fields, v = .obj fs ∧ ∀ f ∈ fs, Accepts values f.2

/-- The fields that are there are the ones that the properties ask for. -/
def AcceptsFields (fs : Fields) : List (String × Schema) → Prop
  | [] => True
  | (name, schema) :: rest =>
    (∀ v, fs.get? name = some v → Accepts schema v) ∧ AcceptsFields fs rest

end

theorem acceptsFields_iff {fs : Fields} {properties : List (String × Schema)} :
    AcceptsFields fs properties ↔
      ∀ p ∈ properties, ∀ v, fs.get? p.1 = some v → p.2.Accepts v := by
  induction properties with
  | nil => simp [AcceptsFields]
  | cons p properties ih =>
      obtain ⟨name, schema⟩ := p
      simp [AcceptsFields, ih]

theorem missingFields_eq_nil_iff {place : Place} {required : List String} {fs : Fields} :
    missingFields place required fs = [] ↔ ∀ name ∈ required, fs.has name = true := by
  simp [missingFields]

theorem unknownKeys_eq_nil_iff {place : Place} {others : OtherKeys} {names : List String}
    {fs : Fields} :
    unknownKeys place others names fs = [] ↔
      (others = .forbidden → ∀ key ∈ fs.keys, key ∈ names) := by
  cases others <;> simp [unknownKeys]

theorem optionViolations_eq_nil_iff {place : Place} {options : List String} {v : Json} :
    optionViolations place options v = [] ↔ ∃ option ∈ options, v = .str option := by
  unfold optionViolations
  split
  · next h => exact iff_of_true rfl (by simpa using h)
  · next h => exact iff_of_false (by simp) (by simpa using h)

theorem textViolations_eq_nil_iff {place : Place} {rule : TextRule} {v : Json} :
    textViolations place rule v = [] ↔ ∃ s, v = .str s ∧ rule.accepts s = true := by
  cases v with
  | str s => cases h : rule.accepts s <;> simp [textViolations, h]
  | _ => simp [textViolations]

theorem positiveIntegerViolations_eq_nil_iff {place : Place} {v : Json} :
    positiveIntegerViolations place v = [] ↔
      v.isInteger = true ∧ v.isPositiveOrOther = true := by
  unfold positiveIntegerViolations
  cases v.isInteger <;> cases v.isPositiveOrOther <;> simp

mutual

/-- A value has no violations exactly when it is accepted, whatever its place. -/
theorem violations_eq_nil_iff : ∀ (schema : Schema) (place : Place) (v : Json),
    violations place schema v = [] ↔ schema.Accepts v
  | .anything, place, v => by
      rw [violations, Accepts]
      exact iff_of_true rfl trivial
  | .constant n, place, v => by
      rw [violations, Accepts]
      cases v.isNumber n <;> simp
  | .oneOf options, place, v => by
      rw [violations, Accepts, optionViolations_eq_nil_iff]
  | .boolean, place, v => by
      rw [Accepts]
      cases v <;> simp [violations]
  | .text rule, place, v => by
      rw [violations, Accepts, textViolations_eq_nil_iff]
  | .positiveInteger, place, v => by
      rw [violations, Accepts, positiveIntegerViolations_eq_nil_iff]
  | .array, place, v => by
      rw [Accepts]
      cases v <;> simp [violations]
  | .arrayOf items, place, v => by
      rw [Accepts]
      cases v with
      | arr xs =>
          simp only [violations, Json.arr.injEq, exists_eq_left', List.flatMap_eq_nil_iff,
            Prod.forall]
          constructor
          · intro h x hx
            rw [← List.zipIdx_map_fst 0 xs] at hx
            obtain ⟨⟨y, i⟩, hmem, rfl⟩ := List.mem_map.1 hx
            exact (violations_eq_nil_iff items _ y).1 (h y i hmem)
          · intro h x i hmem
            refine (violations_eq_nil_iff items _ x).2 (h x ?_)
            rw [← List.zipIdx_map_fst 0 xs]
            exact List.mem_map_of_mem hmem
      | _ => simp [violations]
  | .record required others properties, place, v => by
      rw [Accepts]
      cases v with
      | obj fs =>
          simp only [violations, List.append_eq_nil_iff, missingFields_eq_nil_iff,
            unknownKeys_eq_nil_iff, propertyViolations_eq_nil_iff properties, Json.obj.injEq,
            exists_eq_left', and_assoc]
      | _ => simp [violations]
  | .recordOf values, place, v => by
      rw [Accepts]
      cases v with
      | obj fs =>
          simp only [violations, Json.obj.injEq, exists_eq_left', List.flatMap_eq_nil_iff]
          constructor
          · intro h f hf
            exact (violations_eq_nil_iff values _ f.2).1 (h f hf)
          · intro h f hf
            exact (violations_eq_nil_iff values _ f.2).2 (h f hf)
      | _ => simp [violations]

theorem propertyViolations_eq_nil_iff : ∀ (properties : List (String × Schema)) (place : Place)
    (fs : Fields), propertyViolations place fs properties = [] ↔ AcceptsFields fs properties
  | [], place, fs => by
      rw [propertyViolations, AcceptsFields]
      exact iff_of_true rfl trivial
  | (name, schema) :: rest, place, fs => by
      rw [propertyViolations, AcceptsFields, List.append_eq_nil_iff,
        propertyViolations_eq_nil_iff rest]
      cases fs.get? name with
      | none => simp
      | some v => simp [violations_eq_nil_iff schema]

end

/-- An empty report says that the document is accepted. -/
theorem report_eq_nil_iff {schema : Schema} {document : Json} :
    schema.report document = [] ↔ schema.Accepts document := by
  have hperm := List.mergeSort_perm (violations [] schema document)
    fun a b => decide (a.path ≤ b.path)
  rw [← violations_eq_nil_iff schema [] document, report]
  constructor
  · intro h
    rw [h] at hperm
    exact hperm.nil_eq.symm
  · intro h
    rw [h]
    exact List.mergeSort_nil

/-! ## Accepted collections -/

section

variable {required : List String} {others : OtherKeys} {properties : List (String × Schema)}

/-- A record is accepted field by field. -/
theorem accepts_record_iff {fs : Fields} :
    (record required others properties).Accepts (.obj fs) ↔
      (∀ name ∈ required, fs.has name = true) ∧
        (∀ p ∈ properties, ∀ v, fs.get? p.1 = some v → p.2.Accepts v) ∧
          (others = .forbidden → ∀ key ∈ fs.keys, key ∈ properties.map Prod.fst) := by
  simp only [Accepts, Json.obj.injEq, exists_eq_left', acceptsFields_iff]

theorem exists_of_accepts_record {v : Json} (h : (record required others properties).Accepts v) :
    ∃ fs : Fields, v = .obj fs := by
  rw [Accepts] at h
  obtain ⟨fs, hfs, -⟩ := h
  exact ⟨fs, hfs⟩

end

/-- An array is accepted item by item. -/
theorem accepts_arrayOf_iff {items : Schema} {v : Json} :
    (arrayOf items).Accepts v ↔ ∃ xs, v = .arr xs ∧ ∀ x ∈ xs, items.Accepts x := by
  rw [Accepts]

end PromptDoc.Schema
