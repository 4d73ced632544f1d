import PromptDoc.Proofs.Prompt.Root
import PromptDoc.Proofs.Yaml.RoundTrip
import PromptDoc.Prompt.Parse

/-!
# Prompts read back from their text

A parsed prompt is a fixed point: its stable text parses to the same prompt. The
document form of the prompt is canonical already, its fields suit the schema of
the latest edition, decoding gives the prompt back and there is nothing left to
migrate (`parse_toJson`); the text between is read back by the round trip of the
writer.
-/

namespace PromptDoc

open Yaml

namespace TestCase

/-- A decoded test has a count for its bound, if it has any. -/
theorem badBound?_eq_none {v : Json} {t : TestCase} (h : ofJson? v = some t) :
    badBound? v = none := by
  obtain ⟨fs, rfl, -, -, o, hassertions, -⟩ := ofJson?_eq_some.1 h
  rw [badBound?, Option.filter_eq_none_iff]
  intro n hn
  obtain ⟨a, ha, hn⟩ := Option.bind_eq_some_iff.1 hn
  obtain ⟨b, hb, hn⟩ := Option.bind_eq_some_iff.1 hn
  have hget : fs.get? "assert" = some a := ha
  rw [Fields.allow?, hget] at hassertions
  obtain ⟨c, hc, -⟩ := Option.map_eq_some_iff.1 hassertions
  obtain ⟨gs, rfl, -, -, hmax⟩ := Assertions.ofJson?_eq_some.1 hc
  obtain rfl := Option.some.inj hb
  rw [Fields.allow?, hn] at hmax
  obtain ⟨k, hk, -⟩ := Option.map_eq_some_iff.1 hmax
  rw [hk]
  exact Bool.false_ne_true

end TestCase

namespace Prompt

/-! ## Decoding -/

theorem misfit?_of_ne {f : String × Json} (hversion : f.1 ≠ "version") (htests : f.1 ≠ "tests") :
    misfit? f = none := by
  unfold misfit?
  split
  · exact absurd rfl hversion
  · exact absurd rfl htests
  · rfl

theorem decodedFrom_of_ofFields {fs : Fields} {p : Prompt} (h : ofFields fs = .ok p) :
    DecodedFrom fs p := by
  unfold ofFields at h
  split at h
  · cases h
  · split at h
    · next q hq =>
      obtain rfl := Except.ok.inj h
      exact ofFields?_eq_some.1 hq
    · cases h

/-- The numbers of a decoded prompt fit, so only the version can be at fault. -/
theorem ofFields_of_decodedFrom {fs : Fields} {p : Prompt} (h : DecodedFrom fs p)
    (hkeys : fs.keys.Nodup) {n : Int} (hversion : fs.get? "version" = some (.int n)) :
    ofFields fs = .ok p := by
  have hfits : fs.findSome? misfit? = none := by
    rw [List.findSome?_eq_none_iff]
    rintro ⟨key, v⟩ hf
    have hget := Fields.get?_of_mem hkeys hf
    by_cases hkey : key = "version"
    · subst hkey
      obtain rfl := Option.some.inj (hversion.symm.trans hget)
      rfl
    by_cases hkey' : key = "tests"
    · subst hkey'
      have htests := h.tests
      rw [Fields.allow?, hget] at htests
      obtain ⟨ts, hts, -⟩ := Option.map_eq_some_iff.1 htests
      obtain ⟨xs, hitems, hxs⟩ := Option.bind_eq_some_iff.1 hts
      obtain rfl := (Json.items?_eq_some v xs).1 hitems
      have hbounds : xs.findSome? TestCase.badBound? = none := by
        rw [List.findSome?_eq_none_iff]
        intro x hx
        obtain ⟨t, ht⟩ := exists_of_mapM_of_mem hxs hx
        exact TestCase.badBound?_eq_none ht
      rw [misfit?, hbounds]
      rfl
    · exact misfit?_of_ne hkey hkey'
  rw [ofFields, hfits, ofFields?_eq_some.2 h]

/-! ## The document form -/

theorem nodup_keys_toFields (p : Prompt) : p.toFields.keys.Nodup := by
  rw [toFields_eq]
  exact p.nodup_rows.sublist (Fields.keys_ofRows_sublist p.rows)

theorem get?_toFields {p : Prompt} {r : Row} (hr : r ∈ p.rows) :
    p.toFields.get? r.name = r.value := by
  rw [toFields_eq]
  exact Fields.get?_ofRows p.nodup_rows hr

/-- The document form of an input has its keys in order. -/
theorem isCanonicalInput_toJson (i : Input) : i.toJson.IsCanonicalInput := by
  rw [Input.toJson_eq]
  apply Fields.isSorted_ofRows
  show inputOrder.Pairwise fun a b => Fields.precedes inputOrder a b = true
  decide

/-- The document form of a prompt is canonical. -/
theorem isCanonical_toJson (p : Prompt) : p.toJson.IsCanonical := by
  constructor
  · rw [toFields_eq]
    apply Fields.isSorted_ofRows
    rw [names_rows]
    decide
  · rintro ⟨key, v⟩ hf rfl
    have hget := Fields.get?_of_mem p.nodup_keys_toFields hf
    have hrow : Row.present "inputs" (.arrayOf Edition.input)
        (fun is => .arr (is.map Input.toJson)) p.inputs ∈ p.rows := by
      simp [rows]
    have hinputs := get?_toFields hrow
    obtain rfl := Option.some.inj (hinputs.symm.trans hget)
    intro x hx
    obtain ⟨i, -, rfl⟩ := List.mem_map.1 hx
    exact isCanonicalInput_toJson i

end Prompt

/-! ## Parsing -/

/-- A document is decoded when its edition accepts it and its numbers fit. -/
theorem Edition.decode_eq_ok {e : Edition} {d : Json} {p : Prompt} :
    e.decode d = .ok p ↔ e.schema.Accepts d ∧ Prompt.ofJson d = .ok p := by
  rw [← Schema.report_eq_nil_iff, Edition.decode, Edition.violations]
  cases e.schema.report d with
  | nil =>
      cases hp : Prompt.ofJson d with
      | error fault => exact iff_of_false nofun fun h => nomatch h.2
      | ok q =>
          have hmap : ∀ f : DecodeError → PromptError, Except.mapError f (.ok q) = .ok q :=
            fun _ => rfl
          simp [hmap]
  | cons violation violations => simp

namespace Version

/-- The tag is one more field, which every reader can read. -/
theorem portable_tag {n : Nat} {d : Json} (h : Portable n d) (v : Version) :
    Portable n (v.tag d) := by
  cases d with
  | obj fs =>
      obtain ⟨m, rfl⟩ := h.exists_of_obj
      obtain ⟨hkeys, hfields⟩ := portable_obj.1 h
      refine portable_obj.2 ⟨Fields.nodup_keys_insert hkeys _ _, fun f hf => ?_⟩
      rcases Fields.eq_or_mem_of_mem_insert hf with rfl | hf
      · refine ⟨show KeyFits "version" by decide, portable_int.2 ?_⟩
        cases v <;> decide
      · exact hfields f hf
  | _ => exact h

end Version

namespace Prompt

/-- A prompt of some version differs from its migration in the version only. -/
theorem migrate_eq {v : Version} {p : Prompt} (h : p.version = v.number) :
    p.migrate v = { p with version := Version.latest.number } := by
  cases v with
  | v1 => rfl
  | v2 =>
      rw [show Version.latest.number = p.version from h.symm]
      rfl

/-- What a document is that parses: a record whose fields, tagged, are accepted
by the edition of their version and decoded, up to the version. -/
theorem exists_of_parse {d : Json} {p : Prompt} (h : parse d = .ok p) :
    ∃ (v : Version) (fs : Fields) (q : Prompt), v.tag d = .obj fs ∧
      (Edition.ofVersion v).schema.Accepts (.obj fs) ∧ DecodedFrom fs q ∧
      p = { q with version := Version.latest.number } := by
  unfold parse at h
  split at h
  · cases h
  · next v hv =>
    obtain ⟨q, hq, hp⟩ : ∃ q, (Edition.ofVersion v).decode (v.tag d) = .ok q ∧ q.migrate v = p := by
      cases hq : (Edition.ofVersion v).decode (v.tag d) with
      | error e => simp [hq, Except.map] at h
      | ok q => exact ⟨q, rfl, by simpa [hq, Except.map] using h⟩
    obtain ⟨haccepts, hq⟩ := Edition.decode_eq_ok.1 hq
    -- An edition accepts records only.
    cases d with
    | obj gs =>
        have hdecoded := decodedFrom_of_ofFields hq
        have hversion : q.version = v.number := by
          have hread := hdecoded.version
          rw [Fields.require?, Fields.get?_insert, if_pos rfl, Option.bind_some,
            Json.asCount?_natCast (by cases v <;> decide)] at hread
          exact (Option.some.inj hread).symm
        exact ⟨v, _, q, rfl, haccepts, hdecoded, hp.symm.trans (migrate_eq hversion)⟩
    | _ =>
        obtain ⟨fs, hfs, -⟩ := haccepts
        cases hfs

/-- A decoded prompt, migrated to the latest version, is parsed again from its
document form, where the latest edition accepts it. -/
theorem parse_toJson_of_accepts {fs : Fields} {p q : Prompt} (h : DecodedFrom fs q)
    (hp : p = { q with version := Version.latest.number })
    (haccepts : (Edition.ofVersion .latest).schema.Accepts p.toJson) : parse p.toJson = .ok p := by
  have hversion : p.toFields.get? "version" = some (.int Version.latest.number) := by
    have hrow : Row.present "version" (.constant p.version) (fun n : Nat => .int n) p.version ∈
        p.rows := by
      simp [rows]
    have hget := get?_toFields hrow
    rw [hp] at hget ⊢
    exact hget
  have hdecoded : DecodedFrom p.toFields p := by
    rw [hp]
    exact decodedFrom_toFields h (by decide)
  have hdocument : Version.ofDocument p.toJson = .ok .latest := by
    rw [Version.ofDocument, show p.toJson.get? "version" = _ from hversion]
    rfl
  have htag : Version.latest.tag p.toJson = p.toJson :=
    congrArg Json.obj (Fields.insert_of_get? hversion)
  have hfields : ofFields p.toFields = .ok p :=
    ofFields_of_decodedFrom hdecoded p.nodup_keys_toFields hversion
  have hdecode : (Edition.ofVersion .latest).decode p.toJson = .ok p :=
    Edition.decode_eq_ok.2 ⟨haccepts, hfields⟩
  rw [parse, hdocument]
  simp only [htag, hdecode]
  rfl

theorem parse_toJson {n : Nat} {e : Edition} {fs : Fields} {p q : Prompt} (hroom : 4 ≤ n)
    (hsuits : Suits n e.schema (.obj fs)) (h : DecodedFrom fs q)
    (hp : p = { q with version := Version.latest.number }) : parse p.toJson = .ok p := by
  have hlatest : Suits n (Edition.ofVersion .latest).schema p.toJson := by
    rw [hp]
    exact suits_toFields h hroom hsuits .latest .lenient
  exact parse_toJson_of_accepts h hp hlatest.accepts

variable {d : Json} {p : Prompt}

/-- The stable text of a parsed prompt parses to the same prompt, whose stable
text is the same. -/
theorem parseText_toText (hw : d.WellFormed) (hl : WithinLimits d) (h : parse d = .ok p) :
    ∃ q, parseText p.toText = .ok q ∧ q = p ∧ q.toText = p.toText := by
  obtain ⟨v, fs, q, htag, haccepts, hdecoded, hp⟩ := exists_of_parse h
  have hportable : Portable Value.depthLimit (.obj fs) :=
    htag ▸ Version.portable_tag (hl.portable hw) v
  have hroom : 4 ≤ Value.depthLimit := by decide
  have hsuits : Suits Value.depthLimit (Edition.ofVersion v).schema (.obj fs) :=
    ⟨haccepts, hportable⟩
  have hjson : Portable Value.depthLimit p.toJson := by
    rw [hp]
    exact (suits_toFields hdecoded hroom hsuits .latest .lenient).portable
  have hread : Yaml.read p.toText = .ok p.toJson := by
    rw [Yaml.read, toText, Layout.write, String.toList_ofList,
      Json.canonical_of_isCanonical p.isCanonical_toJson]
    exact readChars_document (by decide) hjson.wellFormed hjson.withinLimits
  refine ⟨p, ?_, rfl, rfl⟩
  rw [parseText, hread]
  exact parse_toJson hroom hsuits hdecoded hp

/-- A document without a version, with a default that is null and a bound that
is a double. -/
theorem parseText_toText_untagged :
    let d : Json := .obj [("template", .str "Hello\n\n  you "),
      ("inputs", .arr [.obj [("default", .null), ("type", .str "string"), ("name", .str "x")]]),
      ("tests", .arr [.obj [("name", .str "short"),
        ("assert", .obj [("maxTokens", .float ⟨false, 0x10000000000000, -46, by decide⟩)])]]),
      ("id", .str "123e4567-e89b-12d3-a456-426614174000"), ("name", .str "greeting")]
    let p : Prompt :=
      ⟨2, "123e4567-e89b-12d3-a456-426614174000", "greeting", none, "Hello\n\n  you ",
        [⟨"x", .string, false, none, none, some .null⟩], none, none, none, none, none,
        some [⟨"short", [], ⟨none, none, some 64⟩⟩], none, none, [], none, none⟩
    d.WellFormed ∧ WithinLimits d ∧ parse d = .ok p ∧
      ∃ q, parseText p.toText = .ok q ∧ q = p ∧ q.toText = p.toText := by
  intro d p
  have hw : d.WellFormed := by decide +kernel
  have hl : WithinLimits d := by decide +kernel
  have h : parse d = .ok p := by decide +kernel
  exact ⟨hw, hl, h, parseText_toText hw hl h⟩

end Prompt

end PromptDoc
