/-!
# Keyed lists

Objects, tables and folders are lists of pairs of a key and a value, in an
order of their own. `Keyed.insert` puts a value under a key; `lookup_insert`
and `keys_insert` say what that does to look-ups and to the order of keys. Where no
key occurs twice, looking up finds every entry (`lookup_eq_some_iff_mem`).
-/

namespace PromptDoc.Keyed

/-- Puts a value under a key: a key that occurs keeps its place, a new one
comes last. -/
def insert {α : Type} : List (String × α) → String → α → List (String × α)
  | [], key, value => [(key, value)]
  | (k, v) :: rest, key, value =>
    if k = key then (k, value) :: rest else (k, v) :: insert rest key value

theorem lookup_insert {α : Type} (entries : List (String × α)) (key other : String) (value : α) :
    (insert entries key value).lookup other =
      if other = key then some value else entries.lookup other := by
  induction entries with
  | nil =>
    by_cases h : other = key
    · simp [insert, h]
    · simp [insert, List.lookup_cons, h, beq_eq_false_iff_ne.2 h]
  | cons entry rest ih =>
    obtain ⟨k, v⟩ := entry
    by_cases hk : k = key
    · by_cases h : other = key
      · simp [insert, hk, h]
      · simp [insert, hk, h, List.lookup_cons, beq_eq_false_iff_ne.2 h]
    · by_cases h : other = k
      · simp [insert, hk, h]
      · simp [insert, hk, List.lookup_cons, beq_eq_false_iff_ne.2 h, ih]

theorem keys_insert {α : Type} (entries : List (String × α)) (key : String) (value : α) :
    (insert entries key value).map Prod.fst =
      if key ∈ entries.map Prod.fst then entries.map Prod.fst
      else entries.map Prod.fst ++ [key] := by
  induction entries with
  | nil => simp [insert]
  | cons entry rest ih =>
    obtain ⟨k, v⟩ := entry
    by_cases hk : k = key
    · simp [insert, hk]
    · have hne : ¬ key = k := fun e => hk e.symm
      by_cases h : key ∈ rest.map Prod.fst
      · rw [if_pos h] at ih
        simp only [insert, if_neg hk, List.map_cons, ih, List.mem_cons, h, or_true, if_true]
      · rw [if_neg h] at ih
        simp only [insert, if_neg hk, List.map_cons, ih, List.mem_cons, h, hne, or_false,
          if_false, List.cons_append]

theorem mem_of_lookup {α : Type} {entries : List (String × α)} {key : String} {value : α}
    (h : entries.lookup key = some value) : (key, value) ∈ entries := by
  obtain ⟨before, after, hentries, -⟩ := List.lookup_eq_some_iff.1 h
  rw [hentries]
  simp

/-- Where keys are apart, every entry is found under its key. -/
theorem lookup_eq_some_iff_mem {α : Type} {entries : List (String × α)}
    (hkeys : (entries.map Prod.fst).Nodup) {key : String} {value : α} :
    entries.lookup key = some value ↔ (key, value) ∈ entries := by
  refine ⟨mem_of_lookup, fun h => ?_⟩
  induction entries with
  | nil => cases h
  | cons entry entries ih =>
      obtain ⟨hnew, hkeys⟩ := List.nodup_cons.1 hkeys
      rcases List.mem_cons.1 h with rfl | h
      · exact List.lookup_cons_self
      · have hne : (key == entry.1) = false := by
          rw [beq_eq_false_iff_ne]
          intro heq
          exact hnew (heq ▸ List.mem_map.2 ⟨(key, value), h, rfl⟩)
        rw [List.lookup_cons, hne]
        exact ih hkeys h

end PromptDoc.Keyed
