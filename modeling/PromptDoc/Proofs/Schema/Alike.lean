import PromptDoc.Proofs.Json.Related
import PromptDoc.Proofs.Schema.Report

/-!
# Values that a schema does not tell apart

`Schema.Alike` relates two values, by recursion on the schema, that differ at
most where the schema does not look: in the order of the keys of a record that
declares its fields, and, where other keys are tolerated, in these and their
values. Records without declared fields are free, so they are compared as they
are. Alike values have the same report (`report_eq_of_alike`): violations differ
in order at most where their paths differ.
-/

namespace PromptDoc.Schema

open Violation

/-- The keys outside the declared names. -/
def undeclared (names : List String) (fs : Fields) : List String :=
  fs.keys.filter fun key => !names.contains key

mutual

/-- Values that differ at most where the schema does not look. -/
def Alike : Schema → Json → Json → Prop
  | .arrayOf items, v, w => v = w ∨
      ∃ xs ys, v = .arr xs ∧ w = .arr ys ∧ List.Forall₂ (fun x y => Alike items x y) xs ys
  | .record required others properties, v, w => v = w ∨
      properties ≠ [] ∧ ∃ fs gs : Fields, v = .obj fs ∧ w = .obj gs ∧
        (∀ name ∈ required, fs.has name = gs.has name) ∧ AlikeFields fs gs properties ∧
        (others = .forbidden → (undeclared (properties.map Prod.fst) fs).Perm
          (undeclared (properties.map Prod.fst) gs))
  | .anything, v, w | .constant _, v, w | .oneOf _, v, w | .boolean, v, w | .text _, v, w
  | .positiveInteger, v, w | .array, v, w | .recordOf _, v, w => v = w

/-- The declared fields are there in both records or in none, and alike. -/
def AlikeFields (fs gs : Fields) : List (String × Schema) → Prop
  | [] => True
  | (name, schema) :: rest =>
    Option.Rel (fun v w => Alike schema v w) (fs.get? name) (gs.get? name) ∧
      AlikeFields fs gs rest

end

theorem alikeFields_iff {fs gs : Fields} {properties : List (String × Schema)} :
    AlikeFields fs gs properties ↔
      ∀ p ∈ properties, Option.Rel p.2.Alike (fs.get? p.1) (gs.get? p.1) := by
  induction properties with
  | nil => simp [AlikeFields]
  | cons p properties ih =>
      obtain ⟨name, schema⟩ := p
      rw [AlikeFields, ih, List.forall_mem_cons]

theorem Alike.refl (schema : Schema) (v : Json) : schema.Alike v v := by
  cases schema with
  | arrayOf items => rw [Alike]; exact .inl rfl
  | record required others properties => rw [Alike]; exact .inl rfl
  | _ => rw [Alike]

theorem alike_of_eq (schema : Schema) (v w : Json) (h : v = w) : schema.Alike v w :=
  h ▸ .refl schema v

/-- Records are alike when their declared fields are and, where no others are
allowed, their other keys are the same. -/
theorem alike_record {required : List String} {others : OtherKeys}
    {properties : List (String × Schema)} {fs gs : Fields} (hne : properties ≠ [])
    (hrequired : ∀ name ∈ required, name ∈ properties.map Prod.fst)
    (hfields : ∀ p ∈ properties, Option.Rel p.2.Alike (fs.get? p.1) (gs.get? p.1))
    (hothers : others = .forbidden → (undeclared (properties.map Prod.fst) fs).Perm
      (undeclared (properties.map Prod.fst) gs)) :
    (record required others properties).Alike (.obj fs) (.obj gs) := by
  rw [Alike]
  refine .inr ⟨hne, fs, gs, rfl, rfl, fun name hname => ?_, alikeFields_iff.2 hfields, hothers⟩
  obtain ⟨p, hp, rfl⟩ := List.mem_map.1 (hrequired name hname)
  exact isSome_eq_of_rel (hfields p hp)

theorem rel_of_alike_record {required : List String} {others : OtherKeys}
    {properties : List (String × Schema)} {fs gs : Fields}
    (h : (record required others properties).Alike (.obj fs) (.obj gs)) :
    ∀ p ∈ properties, Option.Rel p.2.Alike (fs.get? p.1) (gs.get? p.1) := by
  rw [Alike] at h
  obtain heq | ⟨-, fs', gs', hfs, hgs, -, hfields, -⟩ := h
  · obtain rfl := Json.obj.inj heq
    intro p _
    exact rel_refl (Alike.refl p.2) _
  · obtain rfl := Json.obj.inj hfs
    obtain rfl := Json.obj.inj hgs
    exact alikeFields_iff.1 hfields

theorem alike_of_relatedObjects {K : Fields → Fields → Prop} {required : List String}
    {others : OtherKeys} {properties : List (String × Schema)} {v w : Json}
    (hne : properties ≠ []) (hrequired : ∀ name ∈ required, name ∈ properties.map Prod.fst)
    (hrecord : ∀ fs gs : Fields, v = .obj fs → K fs gs →
      (∀ p ∈ properties, Option.Rel p.2.Alike (fs.get? p.1) (gs.get? p.1)) ∧
        (others = .forbidden → (undeclared (properties.map Prod.fst) fs).Perm
          (undeclared (properties.map Prod.fst) gs)))
    (h : Json.RelatedObjects K v w) : (record required others properties).Alike v w := by
  obtain rfl | ⟨fs, gs, rfl, rfl, h⟩ := h.eq_or_exists
  · exact .refl _ _
  · obtain ⟨hfields, hothers⟩ := hrecord fs gs rfl h
    exact alike_record hne hrequired hfields hothers

theorem alike_of_relatedArrays {R : Json → Json → Prop} {items : Schema} {v w : Json}
    (hitems : ∀ xs : List Json, v = .arr xs → ∀ x ∈ xs, ∀ y, R x y → items.Alike x y)
    (h : Json.RelatedArrays R v w) : (arrayOf items).Alike v w := by
  obtain rfl | ⟨xs, ys, rfl, rfl, h⟩ := h.eq_or_exists
  · exact .refl _ _
  · rw [Alike]
    exact .inr ⟨xs, ys, rfl, rfl, forall₂_imp_of_mem h (hitems xs rfl)⟩

/-! ## Reports -/

theorem unknown_eq_of_path_eq {place : Place} {key other : String}
    (h : (unknown place key).path = (unknown place other).path) :
    unknown place key = unknown place other := by
  have hkey : trimQuotes key = trimQuotes other := (String.append_right_inj _).1 h
  simp only [unknown, hkey]

theorem agreeByPath_unknownKeys {place : Place} {others : OtherKeys} {names : List String}
    {fs gs : Fields}
    (h : others = .forbidden → (undeclared names fs).Perm (undeclared names gs)) :
    AgreeByPath (unknownKeys place others names fs) (unknownKeys place others names gs) := by
  cases others with
  | forbidden =>
      refine .of_perm ((h rfl).map _) fun v hv w hw hpath => ?_
      obtain ⟨key, -, rfl⟩ := List.mem_map.1 hv
      obtain ⟨other, -, rfl⟩ := List.mem_map.1 hw
      exact unknown_eq_of_path_eq hpath
  | _ => exact .refl _

theorem missingFields_eq {place : Place} {required : List String} {fs gs : Fields}
    (h : ∀ name ∈ required, fs.has name = gs.has name) :
    missingFields place required fs = missingFields place required gs := by
  rw [missingFields, missingFields]
  congr 1
  refine List.filter_congr fun name hname => ?_
  rw [h name hname]

theorem agreeByPath_items {items : Schema} {place : Place} {xs ys : List Json}
    (h : List.Forall₂ (fun x y => ∀ place, AgreeByPath (violations place items x)
      (violations place items y)) xs ys) (n : Nat) :
    AgreeByPath
      ((xs.zipIdx n).flatMap fun (x, i) => violations (place ++ [toString i]) items x)
      ((ys.zipIdx n).flatMap fun (y, i) => violations (place ++ [toString i]) items y) := by
  induction h generalizing n with
  | nil => exact .refl _
  | cons hitem _ ih =>
      rw [List.zipIdx_cons, List.zipIdx_cons, List.flatMap_cons, List.flatMap_cons]
      exact .append (hitem _) (ih (n + 1))

mutual

/-- Alike values have the same violations, up to the order of different paths. -/
theorem agreeByPath_violations : ∀ (schema : Schema) (place : Place) {v w : Json},
    schema.Alike v w → AgreeByPath (violations place schema v) (violations place schema w)
  | .arrayOf items, place, v, w, h => by
      rw [Alike] at h
      obtain rfl | ⟨xs, ys, rfl, rfl, hitems⟩ := h
      · exact .refl _
      · rw [violations, violations]
        refine agreeByPath_items (hitems.imp ?_) 0
        intro x y hxy place
        exact agreeByPath_violations items place hxy
  | .record required others properties, place, v, w, h => by
      rw [Alike] at h
      obtain rfl | ⟨-, fs, gs, rfl, rfl, hrequired, hfields, hothers⟩ := h
      · exact .refl _
      · rw [violations, violations]
        rw [missingFields_eq hrequired]
        exact .append (.append (.refl _) (agreeByPath_propertyViolations properties place hfields))
          (agreeByPath_unknownKeys hothers)
  | .anything, place, v, w, h | .constant _, place, v, w, h | .oneOf _, place, v, w, h
  | .boolean, place, v, w, h | .text _, place, v, w, h | .positiveInteger, place, v, w, h
  | .array, place, v, w, h | .recordOf _, place, v, w, h => by
      rw [Alike] at h
      rw [h]
      exact .refl _

theorem agreeByPath_propertyViolations : ∀ (properties : List (String × Schema)) (place : Place)
    {fs gs : Fields}, AlikeFields fs gs properties →
      AgreeByPath (propertyViolations place fs properties) (propertyViolations place gs properties)
  | [], place, fs, gs, h => .refl _
  | (name, schema) :: rest, place, fs, gs, h => by
      rw [AlikeFields] at h
      rw [propertyViolations, propertyViolations]
      refine .append ?_ (agreeByPath_propertyViolations rest place h.2)
      generalize fs.get? name = o, gs.get? name = o' at h
      cases h.1 with
      | none => exact .refl _
      | some hvalue => exact agreeByPath_violations schema _ hvalue

end

/-- Alike values have the same report. -/
theorem report_eq_of_alike {schema : Schema} {v w : Json} (h : schema.Alike v w) :
    schema.report v = schema.report w :=
  mergeSort_eq_of_agreeByPath (agreeByPath_violations schema [] h)

end PromptDoc.Schema
