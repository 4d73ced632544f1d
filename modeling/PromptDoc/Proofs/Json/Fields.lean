import PromptDoc.Json.Value

/-!
# Fields, looked up and inserted

An object without repeated keys is known by its look-ups: a field stands in it
exactly when its key leads to its value. Inserting a value keeps the keys apart,
appends a new key and changes nothing where the value is there already.
-/

namespace PromptDoc.Fields

variable {fs : Fields} {key : String} {v : Json}

theorem get?_cons (f : String × Json) (fs : Fields) (key : String) :
    get? (f :: fs) key = if key = f.1 then some f.2 else get? fs key := by
  obtain ⟨k, v⟩ := f
  rw [get?, List.lookup_cons]
  by_cases h : key = k
  · rw [if_pos h, beq_iff_eq.2 h]
  · rw [if_neg h, beq_eq_false_iff_ne.2 h]
    rfl

theorem get?_eq_none (h : key ∉ fs.keys) : fs.get? key = none := by
  rw [get?, List.lookup_eq_none_iff]
  intro f hf
  rw [bne_iff_ne]
  rintro rfl
  exact h (List.mem_map_of_mem hf)

theorem mem_of_get? (h : fs.get? key = some v) : (key, v) ∈ fs :=
  Keyed.mem_of_lookup h

theorem has_eq_true_iff : fs.has key = true ↔ key ∈ fs.keys := by
  constructor
  · intro h
    obtain ⟨v, hv⟩ := Option.isSome_iff_exists.1 h
    exact List.mem_map_of_mem (mem_of_get? hv)
  · intro h
    obtain ⟨f, hf, rfl⟩ := List.mem_map.1 h
    refine Option.isSome_iff_ne_none.2 fun hnone => ?_
    exact absurd (List.lookup_eq_none_iff.1 hnone f hf) (by simp)

/-- Where keys are apart, every field is found under its key. -/
theorem get?_of_mem (hkeys : fs.keys.Nodup) (h : (key, v) ∈ fs) : fs.get? key = some v :=
  (Keyed.lookup_eq_some_iff_mem hkeys).2 h

/-- A value put under a key keeps the keys apart. -/
theorem nodup_keys_insert (h : (fs.map Prod.fst).Nodup) (key : String) (value : Json) :
    ((fs.insert key value).map Prod.fst).Nodup := by
  rw [insert, Keyed.keys_insert]
  split
  · exact h
  · next hnew =>
    rw [List.nodup_append]
    refine ⟨h, by simp, ?_⟩
    rintro a ha b hb rfl
    exact hnew (List.mem_singleton.1 hb ▸ ha)

theorem eq_or_mem_of_mem_insert {f : String × Json} (h : f ∈ fs.insert key v) :
    f = (key, v) ∨ f ∈ fs := by
  rw [insert] at h
  induction fs with
  | nil => exact .inl (List.mem_singleton.1 h)
  | cons g fs ih =>
      obtain ⟨k, w⟩ := g
      rw [Keyed.insert] at h
      split at h
      · next hkey =>
        rcases List.mem_cons.1 h with rfl | h
        · exact .inl (by rw [hkey])
        · exact .inr (List.mem_cons_of_mem _ h)
      · rcases List.mem_cons.1 h with rfl | h
        · exact .inr (by simp)
        · exact (ih h).imp_right (List.mem_cons_of_mem _)

theorem insert_of_notMem (h : key ∉ fs.map Prod.fst) (x : Json) :
    fs.insert key x = fs ++ [(key, x)] := by
  unfold insert
  induction fs with
  | nil => rfl
  | cons f fs ih =>
      obtain ⟨l, y⟩ := f
      simp only [List.map_cons, List.mem_cons, not_or] at h
      rw [Keyed.insert, if_neg (Ne.symm h.1), ih h.2]
      rfl

theorem insert_of_get? (h : fs.get? key = some v) : fs.insert key v = fs := by
  unfold insert
  induction fs with
  | nil => cases h
  | cons f fs ih =>
      obtain ⟨k, w⟩ := f
      rw [Keyed.insert]
      by_cases hkey : k = key
      · subst hkey
        rw [get?, List.lookup_cons_self] at h
        rw [if_pos rfl, Option.some.inj h]
      · have hne : (key == k) = false := beq_eq_false_iff_ne.2 (Ne.symm hkey)
        rw [get?, List.lookup_cons, hne] at h
        rw [if_neg hkey, ih h]

theorem get?_insert (fs : Fields) (key other : String) (value : Json) :
    (fs.insert key value).get? other = if other = key then some value else fs.get? other :=
  Keyed.lookup_insert fs key other value

theorem mem_keys_insert {other : String} (value : Json) :
    other ∈ (fs.insert key value).keys ↔ other = key ∨ other ∈ fs.keys := by
  rw [← has_eq_true_iff, ← has_eq_true_iff, has, has, get?_insert]
  split
  · next h => simp [h]
  · next h => simp [h]

end PromptDoc.Fields
