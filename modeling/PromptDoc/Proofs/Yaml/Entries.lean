import Mathlib.Data.List.Forall2
import PromptDoc.FrontMatter.Stable
import PromptDoc.Proofs.Json.Fields
import PromptDoc.Proofs.Yaml.Number

/-!
# Entries of mappings

A mapping may have keys of any kind, and keys become strings in the JSON form. Keys
that differ can become the same string, and then one of their entries is lost.
`Value.Kept` says of a JSON form that nothing is lost: it has an item for every item
and a field for every entry, at every level. That is so exactly when in every mapping
the keys have texts of their own (`Value.kept_iff`). Different keys of one kind have
such texts: it takes a string and another scalar, or a tag, to lose an entry.
-/

namespace PromptDoc.Yaml

namespace Scalar

/-- The scalars other than strings, integers and finite doubles. -/
def words : List Scalar :=
  [.null, .bool false, .bool true, .number (.infinity false), .number (.infinity true),
    .number .nan]

/-- An integer or a word. -/
def IsIntegerOrWord (s : Scalar) : Prop :=
  s ∈ words ∨ ∃ n, s = .number (.int n)

theorem eq_of_scalarKey_eq {s t : Scalar} (hs : s.IsIntegerOrWord) (ht : t.IsIntegerOrWord)
    (h : Value.scalarKey s = Value.scalarKey t) : s = t := by
  have hwords : ∀ s ∈ words, integer? (Value.scalarKey s) = none := by decide
  have hapart : ∀ s ∈ words, ∀ t ∈ words, Value.scalarKey s = Value.scalarKey t → s = t := by
    decide
  have hinteger : ∀ n, integer? (Value.scalarKey (.number (.int n))) = some n := integer?_intText
  rcases hs with hs | ⟨m, rfl⟩
  · rcases ht with ht | ⟨n, rfl⟩
    · exact hapart s hs t ht h
    · have hnone := hwords s hs
      rw [h, hinteger n] at hnone
      cases hnone
  · have hsome := hinteger m
    rcases ht with ht | ⟨n, rfl⟩
    · rw [h, hwords t ht] at hsome
      cases hsome
    · rw [h, hinteger n] at hsome
      rw [Option.some.inj hsome]

theorem sameKey_self {s : Scalar} (hs : s.IsIntegerOrWord) : s.sameKey s = true := by
  rcases hs with hs | ⟨n, rfl⟩
  · revert s
    decide
  · simp [sameKey, Number.sameKey]

end Scalar

namespace Value

mutual

/-- A JSON form that has one item for every item and one field for every entry of a
value, under the text of the entry's key and in the same order. -/
def Kept : Value → Json → Prop
  | .scalar s, x => scalarToJson s = .ok x
  | .sequence items, .arr xs => KeptItems items xs
  | .mapping entries, .obj fs => KeptEntries entries fs
  | .tagged _ v, x => Kept v x
  | _, _ => False

/-- One item for every item. -/
def KeptItems : List Value → List Json → Prop
  | [], [] => True
  | v :: vs, x :: xs => Kept v x ∧ KeptItems vs xs
  | _, _ => False

/-- One field for every entry. -/
def KeptEntries : List (Value × Value) → List (String × Json) → Prop
  | [], [] => True
  | (k, v) :: entries, (key, x) :: fs => keyText k = .ok key ∧ Kept v x ∧ KeptEntries entries fs
  | _, _ => False

end

mutual

/-- The entries of every mapping in a value. Keys are left out: a mapping has no place
in a key that can become a string. -/
def mappings : Value → List (List (Value × Value))
  | .scalar _ => []
  | .sequence items => mappingsItems items
  | .mapping entries => entries :: mappingsEntries entries
  | .tagged _ v => mappings v

/-- The entries of every mapping in some items. -/
def mappingsItems : List Value → List (List (Value × Value))
  | [] => []
  | v :: vs => mappings v ++ mappingsItems vs

/-- The entries of every mapping in the values of some entries. -/
def mappingsEntries : List (Value × Value) → List (List (Value × Value))
  | [] => []
  | (_, v) :: entries => mappings v ++ mappingsEntries entries

end

/-- No two keys have the same text. -/
def TextsApart (entries : List (Value × Value)) : Prop :=
  entries.Pairwise fun e f => keyText e.1 ≠ keyText f.1

/-- The field that an entry becomes. -/
def Becomes (entry : Value × Value) (field : String × Json) : Prop :=
  keyText entry.1 = .ok field.1 ∧ entry.2.toJson = .ok field.2

/-! ## Fields of entries -/

variable {entries : List (Value × Value)} {fs gs : Fields}

/-- An entry is turned into a field before those behind it. -/
theorem exists_of_toJsonEntries_cons {entry : Value × Value}
    (h : toJsonEntries fs (entry :: entries) = .ok gs) :
    ∃ field, Becomes entry field ∧ toJsonEntries (fs.insert field.1 field.2) entries = .ok gs := by
  obtain ⟨k, v⟩ := entry
  rw [toJsonEntries] at h
  split at h
  · cases h
  · next key hkey =>
    split at h
    · cases h
    · next x hvalue => exact ⟨(key, x), ⟨hkey, hvalue⟩, h⟩

theorem nodup_keys_of_toJsonEntries (hfs : (fs.map Prod.fst).Nodup)
    (h : toJsonEntries fs entries = .ok gs) : (gs.map Prod.fst).Nodup := by
  induction entries generalizing fs with
  | nil =>
      obtain rfl := Except.ok.inj h
      exact hfs
  | cons entry entries ih =>
      obtain ⟨field, -, hrest⟩ := exists_of_toJsonEntries_cons h
      exact ih (Fields.nodup_keys_insert hfs field.1 field.2) hrest

/-- Entries whose keys have texts of their own become fields of their own. -/
theorem forall₂_becomes (hapart : TextsApart entries)
    (hnew : ∀ e ∈ entries, ∀ f ∈ fs, keyText e.1 ≠ .ok f.1)
    (h : toJsonEntries fs entries = .ok gs) :
    ∃ hs, gs = fs ++ hs ∧ List.Forall₂ Becomes entries hs := by
  induction entries generalizing fs with
  | nil => exact ⟨[], by rw [List.append_nil, Except.ok.inj h], .nil⟩
  | cons entry entries ih =>
      obtain ⟨field, hfield, hrest⟩ := exists_of_toJsonEntries_cons h
      obtain ⟨hfirst, hapart⟩ := List.pairwise_cons.1 hapart
      obtain ⟨hentry, hnew⟩ := List.forall_mem_cons.1 hnew
      have hinsert : fs.insert field.1 field.2 = fs ++ [field] := by
        refine Fields.insert_of_notMem (fun hmem => ?_) _
        obtain ⟨f, hf, hkey⟩ := List.mem_map.1 hmem
        exact hentry f hf (hkey ▸ hfield.1)
      rw [hinsert] at hrest
      have hnew' : ∀ e ∈ entries, ∀ f ∈ fs ++ [field], keyText e.1 ≠ .ok f.1 := by
        intro e he f hf
        rcases List.mem_append.1 hf with hf | hf
        · exact hnew e he f hf
        · rw [List.mem_singleton.1 hf, ← hfield.1]
          exact (hfirst e he).symm
      obtain ⟨hs, rfl, hall⟩ := ih hapart hnew' hrest
      exact ⟨field :: hs, List.append_assoc fs [field] hs, .cons hfield hall⟩

theorem KeptEntries.map_keyText (h : KeptEntries entries fs) :
    entries.map (fun e => keyText e.1) = fs.map fun f => .ok f.1 := by
  induction entries generalizing fs with
  | nil =>
      cases fs with
      | nil => rfl
      | cons f fs => cases h
  | cons e entries ih =>
      cases fs with
      | nil => cases h
      | cons f fs => rw [List.map_cons, List.map_cons, h.1, ih h.2.2]

/-- A field for every entry needs texts that are apart, because the fields of an object
have keys that are. -/
theorem KeptEntries.textsApart (h : KeptEntries entries fs) (hkeys : (fs.map Prod.fst).Nodup) :
    TextsApart entries := by
  have htexts : (fs.map fun f => (Except.ok f.1 : Except NonJson String)).Nodup :=
    List.pairwise_map.2 ((List.pairwise_map.1 hkeys).imp fun hne heq => hne (Except.ok.inj heq))
  rw [← h.map_keyText] at htexts
  exact List.pairwise_map.1 htexts

/-! ## Values -/

mutual

/-- Nothing is lost where texts are apart; by recursion on the value, entries after
they have become fields. -/
theorem kept_iff_textsApart : ∀ {v : Value} {x : Json}, v.toJson = .ok x →
    (v.Kept x ↔ ∀ entries ∈ v.mappings, TextsApart entries)
  | .scalar s, x, h => by
      rw [toJson] at h
      simp [Kept, mappings, h]
  | .tagged tag v, x, h => by
      rw [toJson] at h
      rw [Kept, mappings]
      exact kept_iff_textsApart h
  | .sequence items, x, h => by
      rw [toJson] at h
      cases hitems : toJsonItems items with
      | error e =>
          rw [hitems] at h
          cases h
      | ok xs =>
          rw [hitems] at h
          obtain rfl := Except.ok.inj h
          rw [Kept, mappings]
          exact keptItems_iff hitems
  | .mapping entries, x, h => by
      rw [toJson] at h
      cases hentries : toJsonEntries [] entries with
      | error e =>
          rw [hentries] at h
          cases h
      | ok fs =>
          rw [hentries] at h
          obtain rfl := Except.ok.inj h
          rw [Kept, mappings, List.forall_mem_cons]
          by_cases hapart : TextsApart entries
          · obtain ⟨hs, rfl, hall⟩ := forall₂_becomes hapart (by simp) hentries
            rw [keptEntries_iff hall, and_iff_right hapart]
          · have hnil : (([] : Fields).map Prod.fst).Nodup := List.nodup_nil
            have hkeys := nodup_keys_of_toJsonEntries hnil hentries
            exact iff_of_false (fun h => hapart (h.textsApart hkeys)) fun h => hapart h.1

theorem keptItems_iff : ∀ {items : List Value} {xs : List Json}, toJsonItems items = .ok xs →
    (KeptItems items xs ↔ ∀ entries ∈ mappingsItems items, TextsApart entries)
  | [], xs, h => by
      obtain rfl := Except.ok.inj h
      simp [KeptItems, mappingsItems]
  | v :: vs, xs, h => by
      rw [toJsonItems] at h
      cases hhead : v.toJson with
      | error e =>
          rw [hhead] at h
          cases h
      | ok y =>
          cases hrest : toJsonItems vs with
          | error e =>
              rw [hhead, hrest] at h
              cases h
          | ok ys =>
              rw [hhead, hrest] at h
              obtain rfl := Except.ok.inj h
              rw [KeptItems, mappingsItems, List.forall_mem_append, kept_iff_textsApart hhead,
                keptItems_iff hrest]

theorem keptEntries_iff : ∀ {entries : List (Value × Value)} {fs : Fields},
    List.Forall₂ Becomes entries fs →
      (KeptEntries entries fs ↔ ∀ es ∈ mappingsEntries entries, TextsApart es)
  | [], fs, h => by
      cases h
      simp [KeptEntries, mappingsEntries]
  | (k, v) :: entries, fs, h => by
      cases h with
      | @cons _ f _ fs hfield hrest =>
          obtain ⟨key, x⟩ := f
          rw [KeptEntries, mappingsEntries, List.forall_mem_append, and_iff_right hfield.1,
            kept_iff_textsApart (v := v) hfield.2, keptEntries_iff hrest]

end

/-! ## Keys of one kind -/

/-- Where keys have no tags, and texts tell the scalars of their kind apart, different
keys have different texts. -/
theorem textsApart_of_keysDiffer {P : Scalar → Prop}
    (hkind : ∀ s t, P s → P t → scalarKey s = scalarKey t → s.sameKey t = true)
    (hdiffer : keysDiffer entries = true) (hall : ∀ e ∈ entries, ∃ s, e.1 = .scalar s ∧ P s) :
    TextsApart entries := by
  induction entries with
  | nil => exact .nil
  | cons entry entries ih =>
      obtain ⟨k, v⟩ := entry
      simp only [keysDiffer, Bool.and_eq_true, Bool.not_eq_true', List.any_eq_false] at hdiffer
      obtain ⟨⟨s, rfl, hs⟩, hothers⟩ := List.forall_mem_cons.1 hall
      refine List.pairwise_cons.2 ⟨fun e he heq => ?_, ih hdiffer.2 hothers⟩
      obtain ⟨t, hkey, ht⟩ := hothers e he
      rw [hkey] at heq
      have htext : scalarKey s = scalarKey t := String.ofList_injective (Except.ok.inj heq)
      exact hdiffer.1 e he (by rw [hkey]; exact hkind s t hs ht htext)

/-- Keys without tags that are all strings, or all integers and words. -/
def OfOneKind (entries : List (Value × Value)) : Prop :=
  (∀ e ∈ entries, ∃ s, e.1 = .scalar s ∧ ∃ text, s = .text text) ∨
    ∀ e ∈ entries, ∃ s, e.1 = .scalar s ∧ s.IsIntegerOrWord

theorem textsApart_of_ofOneKind (hdiffer : keysDiffer entries = true)
    (hkind : OfOneKind entries) : TextsApart entries := by
  rcases hkind with htexts | hwords
  · refine textsApart_of_keysDiffer ?_ hdiffer htexts
    rintro _ _ ⟨s, rfl⟩ ⟨t, rfl⟩ h
    simpa [Scalar.sameKey, scalarKey] using h
  · refine textsApart_of_keysDiffer (fun s t hs ht h => ?_) hdiffer hwords
    obtain rfl := Scalar.eq_of_scalarKey_eq hs ht h
    exact Scalar.sameKey_self hs

/-- The JSON form of a value has an item for every item and a field for every entry
exactly when no mapping in the value has two keys with the same text. Mappings whose
keys are different and of one kind have none. -/
theorem kept_iff {v : Value} {x : Json} (h : v.toJson = .ok x) :
    (v.Kept x ↔ ∀ entries ∈ v.mappings, TextsApart entries) ∧
      ((∀ entries ∈ v.mappings, keysDiffer entries = true ∧ OfOneKind entries) → v.Kept x) := by
  refine ⟨kept_iff_textsApart h, fun hkeys => (kept_iff_textsApart h).2 fun entries hmem => ?_⟩
  exact textsApart_of_ofOneKind (hkeys entries hmem).1 (hkeys entries hmem).2

/-- Keys of several kinds with texts of their own, one of them with a tag, and a mapping
of strings inside. -/
theorem kept_iff_kinds :
    let v : Value := .mapping [(.scalar (.number (.int 1)), .scalar .null),
      (.tagged "t".toList (.scalar (.bool true)), .sequence [.mapping
        [(.scalar (.text "1".toList), .scalar (.text "a".toList)),
          (.scalar (.text "true".toList), .scalar .null)]])]
    let x : Json := .obj [("1", .null), ("true", .arr [.obj [("1", .str "a"), ("true", .null)]])]
    v.toJson = .ok x ∧ (v.Kept x ↔ ∀ entries ∈ v.mappings, TextsApart entries) ∧
      ((∀ entries ∈ v.mappings, keysDiffer entries = true ∧ OfOneKind entries) → v.Kept x) ∧
      v.Kept x := by
  intro v x
  have h : v.toJson = .ok x := by decide +kernel
  refine ⟨h, (kept_iff h).1, (kept_iff h).2, (kept_iff h).1.2 ?_⟩
  simp only [v, mappings, mappingsEntries, mappingsItems, TextsApart]
  decide +kernel

/-- A number and a string that looks like it are different keys, but become one field,
and the value of the first is lost. Writing the document back deletes it from the
text. -/
theorem merged_entries :
    let entries : List (Value × Value) :=
      [(.scalar (.number (.int 1)), .scalar (.text "a".toList)),
        (.scalar (.text "1".toList), .scalar (.text "b".toList))]
    keysDiffer entries = true ∧ toJson (.mapping entries) = .ok (.obj [("1", .str "b")]) ∧
      ¬ Kept (.mapping entries) (.obj [("1", .str "b")]) ∧
      readChars "1: a\n\"1\": b\n".toList = .ok (.obj [("1", .str "b")]) ∧
      Stabilized.ofText "---\n1: a\n\"1\": b\n---\n".toList =
        .ok ⟨"---\n'1': b\n---\n".toList, true, [.layout]⟩ := by
  refine ⟨by decide +kernel, by decide +kernel, ?_, by decide +kernel, by decide +kernel⟩
  simp [Kept, KeptEntries]

end Value

end PromptDoc.Yaml
