import PromptDoc.Proofs.Prompt.Kept
import PromptDoc.Proofs.Yaml.Reading

/-!
# Prompts are consistent documents

The document form of a parsed prompt is in its written order already, it is
accepted by the latest edition, strict or not, and it is parsed to the same prompt
(`consistent_of_parsed`). What was accepted in the document that the prompt was
parsed from is accepted in what the prompt keeps of it, part by part; a schema of a
record sees no more of it than its look-ups (`accepts_record_of_get?_eq`).
-/

namespace PromptDoc

namespace Schema

variable {required : List String} {others : OtherKeys} {properties : List (String × Schema)}
  {fs gs : Fields}

/-- Records with the same look-ups are accepted alike. -/
theorem accepts_record_of_get?_eq (hget : ∀ key, gs.get? key = fs.get? key)
    (h : (record required others properties).Accepts (.obj fs)) :
    (record required others properties).Accepts (.obj gs) := by
  obtain ⟨hrequired, hfields, hothers⟩ := accepts_record_iff.1 h
  have hhas : ∀ key, gs.has key = fs.has key := fun key => by rw [Fields.has, Fields.has, hget]
  refine accepts_record_iff.2
    ⟨fun name hname => ?_, fun p hp v hv => ?_, fun hforbidden key hkey => ?_⟩
  · rw [hhas]
    exact hrequired name hname
  · rw [hget] at hv
    exact hfields p hp v hv
  · rw [← Fields.has_eq_true_iff, hhas, Fields.has_eq_true_iff] at hkey
    exact hothers hforbidden key hkey

/-- An accepted value may be put under a declared key. -/
theorem accepts_record_insert {name : String} {value : Json}
    (h : (record required others properties).Accepts (.obj fs))
    (hname : name ∈ properties.map Prod.fst)
    (hvalue : ∀ p ∈ properties, p.1 = name → p.2.Accepts value) :
    (record required others properties).Accepts (.obj (fs.insert name value)) := by
  obtain ⟨hrequired, hfields, hothers⟩ := accepts_record_iff.1 h
  refine accepts_record_iff.2
    ⟨fun key hkey => ?_, fun p hp v hv => ?_, fun hforbidden key hkey => ?_⟩
  · rw [Fields.has, Fields.get?_insert]
    split
    · rfl
    · exact hrequired key hkey
  · rw [Fields.get?_insert] at hv
    split at hv
    · next hkey => exact Option.some.inj hv ▸ hvalue p hp hkey
    · exact hfields p hp v hv
  · obtain rfl | hkey := (Fields.mem_keys_insert value).1 hkey
    · exact hname
    · exact hothers hforbidden key hkey

theorem accepts_record_withDefault {name : String} {value : Json}
    (h : (record required others properties).Accepts (.obj fs))
    (hname : name ∈ properties.map Prod.fst)
    (hvalue : ∀ p ∈ properties, p.1 = name → p.2.Accepts value) :
    (record required others properties).Accepts (.obj (fs.withDefault name value)) := by
  rw [Fields.withDefault]
  split
  · exact h
  · exact accepts_record_insert h hname hvalue

/-- Records with the same fields in another order are accepted alike. -/
theorem accepts_record_of_perm (hkeys : fs.keys.Nodup) (hperm : gs.Perm fs)
    (h : (record required others properties).Accepts (.obj fs)) :
    (record required others properties).Accepts (.obj gs) :=
  accepts_record_of_get?_eq (fun key => (Fields.get?_of_perm hkeys hperm.symm key).symm) h

end Schema

namespace Prompt

open Schema

/-! ## What is kept is accepted -/

theorem accepts_of_keepsInput {v w : Json} (hv : v.WellFormed) (h : KeepsInput v w)
    (haccepts : Edition.input.Accepts v) : Edition.input.Accepts w := by
  obtain ⟨fs, gs, rfl, rfl, hperm⟩ := h
  refine accepts_record_of_perm (Fields.nodup_keys_withDefault hv.1 _ _) hperm ?_
  refine accepts_record_withDefault haccepts (by decide) ?_
  simp [Accepts]

theorem accepts_of_keepsModel {v w : Json} (hv : v.WellFormed) (h : KeepsModel v w)
    (haccepts : Edition.model.Accepts v) : Edition.model.Accepts w := by
  obtain ⟨fs, gs, rfl, rfl, hperm⟩ := h
  exact accepts_record_of_perm hv.1 hperm haccepts

theorem accepts_of_keepsAssertions {fs gs : Fields} (h : KeepsAssertions fs gs)
    (haccepts : Edition.assertions.Accepts (.obj fs)) : Edition.assertions.Accepts (.obj gs) := by
  obtain ⟨-, hfields, -⟩ := accepts_record_iff.1 haccepts
  simp only [List.forall_mem_cons] at hfields
  obtain ⟨hcontains, hnot, hmax, -⟩ := hfields
  refine accepts_record_iff.2 ⟨List.forall_mem_nil _, ?_, nofun⟩
  simp only [List.forall_mem_cons]
  refine ⟨h.contains ▸ hcontains, h.notContains ▸ hnot, fun v hv => ?_, List.forall_mem_nil _⟩
  obtain ⟨w, hw, q, hq, hq'⟩ := exists_of_rel_some (hv ▸ h.maxTokens)
  obtain ⟨n, hn, hpos⟩ := accepts_positiveInteger_iff.1 (hmax _ hw)
  exact accepts_positiveInteger_iff.2 ⟨n, by rw [hq', ← hq, hn], hpos⟩

theorem accepts_of_keepsTest {v w : Json} (hv : v.WellFormed) (h : KeepsTest v w)
    (haccepts : Edition.test.Accepts v) : Edition.test.Accepts w := by
  obtain ⟨fs, gs, as, bs, rfl, rfl, has, hkeeps, hperm⟩ := h
  have hassert : Edition.assertions.Accepts (.obj as) := by
    rw [← has]
    cases hget : fs.get? "assert" with
    | none => exact (suits_empty (n := 0) _).accepts
    | some a =>
        exact (accepts_record_iff.1 haccepts).2.1 ("assert", Edition.assertions) (by simp) a hget
  refine accepts_record_of_perm
    (Fields.nodup_keys_insert (Fields.nodup_keys_withDefault hv.1 _ _) _ _) hperm ?_
  refine accepts_record_insert (accepts_record_withDefault haccepts (by decide) ?_) (by decide) ?_
  · simp only [List.forall_mem_cons]
    exact ⟨by simp, fun _ => (suits_empty (n := 0) _).accepts, by simp, List.forall_mem_nil _⟩
  · simp only [List.forall_mem_cons]
    exact ⟨by simp, by simp, fun _ => accepts_of_keepsAssertions hkeeps hassert,
      List.forall_mem_nil _⟩

theorem accepts_of_keepsItems {items : Schema} {K : Json → Json → Prop}
    (hitem : ∀ v w, v.WellFormed → K v w → items.Accepts v → items.Accepts w) {v w : Json}
    (hv : v.WellFormed) (h : KeepsItems K v w) (haccepts : (arrayOf items).Accepts v) :
    (arrayOf items).Accepts w := by
  obtain ⟨xs, ys, rfl, rfl, hitems⟩ := h
  obtain ⟨xs', heq, hxs⟩ := accepts_arrayOf_iff.1 haccepts
  obtain rfl := Json.arr.inj heq
  refine accepts_arrayOf_iff.2 ⟨ys, rfl, fun y hy => ?_⟩
  obtain ⟨x, hx, hkeeps⟩ := exists_of_mem_of_forall₂ hitems hy
  exact hitem x y (Json.wellFormedItems_iff.1 hv x hx) hkeeps (hxs x hx)

section Keeps

variable {ds gs : Fields} (hd : (Json.obj ds).WellFormed) (h : Keeps ds gs)

include hd h

theorem accepts_inputs_of_keeps
    (haccepts : ∀ v, ds.get? "inputs" = some v → (arrayOf Edition.input).Accepts v) {w : Json}
    (hw : gs.get? "inputs" = some w) : (arrayOf Edition.input).Accepts w := by
  obtain ⟨w', hw', hkeeps⟩ := h.inputs
  obtain rfl := Option.some.inj (hw'.symm.trans hw)
  cases hv : ds.get? "inputs" with
  | none =>
      rw [hv] at hkeeps
      have hempty : (Json.arr []).WellFormed := trivial
      exact accepts_of_keepsItems (fun v w => accepts_of_keepsInput) hempty hkeeps
        (suits_nil (n := 0) _).accepts
  | some v =>
      rw [hv] at hkeeps
      exact accepts_of_keepsItems (fun v w => accepts_of_keepsInput) (hd.of_get? hv) hkeeps
        (haccepts v hv)

theorem accepts_model_of_keeps
    (haccepts : ∀ v, ds.get? "model" = some v → Edition.model.Accepts v) {w : Json}
    (hw : gs.get? "model" = some w) : Edition.model.Accepts w := by
  obtain ⟨v, hv, hkeeps⟩ := exists_of_rel_some (hw ▸ h.model)
  exact accepts_of_keepsModel (hd.of_get? hv) hkeeps (haccepts v hv)

theorem accepts_tests_of_keeps
    (haccepts : ∀ v, ds.get? "tests" = some v → (arrayOf Edition.test).Accepts v) {w : Json}
    (hw : gs.get? "tests" = some w) : (arrayOf Edition.test).Accepts w := by
  obtain ⟨v, hv, hkeeps⟩ := exists_of_rel_some (hw ▸ h.tests)
  exact accepts_of_keepsItems (fun v w => accepts_of_keepsTest) (hd.of_get? hv) hkeeps
    (haccepts v hv)

omit hd in
theorem accepts_tags_of_keeps
    (haccepts : ∀ v, ds.get? "tags" = some v → Edition.strings.Accepts v) {w : Json}
    (hw : gs.get? "tags" = some w) : Edition.strings.Accepts w := by
  obtain rfl := Option.some.inj (h.tags.symm.trans hw)
  cases hv : ds.get? "tags" with
  | none => exact (suits_nil (n := 0) _).accepts
  | some v => exact haccepts v hv

end Keeps

/-- What a prompt keeps of the fields of an accepted document is accepted by every
edition of the latest version. -/
theorem accepts_of_keeps {e : Edition} {ds fs gs : Fields} (hd : (Json.obj ds).WellFormed)
    (hsource : ∀ key, key ≠ "version" → fs.get? key = ds.get? key)
    (haccepts : e.schema.Accepts (.obj fs)) (h : Keeps ds gs) (s : Strictness) :
    (Edition.schema ⟨2, s⟩).Accepts (.obj gs) := by
  obtain ⟨hrequired, hfields, -⟩ := accepts_record_iff.1 haccepts
  have hsame : ∀ key ∈ rootOrder, key ∉ rebuilt → gs.get? key = fs.get? key := fun key hkey hname =>
    (h.same key hkey hname).trans (hsource key fun heq => hname (heq ▸ by decide)).symm
  refine accepts_record_iff.2 ⟨fun name hname => ?_, ?_, fun _ key hkey => ?_⟩
  · by_cases hrebuilt : name ∈ rebuilt
    · have hall : ∀ name ∈ Edition.required, name ∈ rebuilt → name = "version" := by decide
      rw [hall name hname hrebuilt, Fields.has, h.version]
      rfl
    · have hall : ∀ name ∈ Edition.required, name ∈ rootOrder := by decide
      rw [Fields.has, hsame name (hall name hname) hrebuilt]
      exact hrequired name hname
  · -- Most fields are the same; the others are accepted part by part.
    have hkept : ∀ p ∈ Edition.properties e.version, p.1 ∉ rebuilt →
        ∀ v, gs.get? p.1 = some v → p.2.Accepts v := by
      intro p hp hname v hv
      rw [hsame p.1 (Edition.properties_keys e.version ▸ List.mem_map_of_mem hp) hname] at hv
      exact hfields p hp v hv
    simp only [Edition.properties, List.forall_mem_cons] at hfields hkept ⊢
    obtain ⟨-, -, -, -, -, hinputs, hmodel, -, -, -, -, htests, -, -, htags, -⟩ := hfields
    obtain ⟨-, hid, hname, hslug, htemplate, -, -, hcontrols, henums, hlabels, hmetadata, -,
      hcontext, hpolicies, -, hsnapshots, hframeworkRef, -⟩ := hkept
    rw [hsource _ (by decide)] at hinputs hmodel htests htags
    refine ⟨fun v hv => ?_, hid (by decide), hname (by decide), hslug (by decide),
      htemplate (by decide), fun _ => accepts_inputs_of_keeps hd h hinputs,
      fun _ => accepts_model_of_keeps hd h hmodel, hcontrols (by decide), henums (by decide),
      hlabels (by decide), hmetadata (by decide), fun _ => accepts_tests_of_keeps hd h htests,
      hcontext (by decide), hpolicies (by decide), fun _ => accepts_tags_of_keeps h htags,
      hsnapshots (by decide), hframeworkRef (by decide), List.forall_mem_nil _⟩
    obtain rfl := Option.some.inj (h.version.symm.trans hv)
    rw [Accepts]
    rfl
  · rw [Edition.properties_keys]
    by_contra hnone
    rw [← Fields.has_eq_true_iff, Fields.has, h.undeclared key hnone] at hkey
    cases hkey

/-! ## Parsed prompts -/

/-- The prompts that parsing gives, be it of a document that a reader can build or of
a text. -/
def Parsed (p : Prompt) : Prop :=
  (∃ d : Json, d.WellFormed ∧ parse d = .ok p) ∨ ∃ text, parseText text = .ok p

/-- A text is parsed through the document in it. -/
theorem Parsed.exists_parse {p : Prompt} (h : Parsed p) :
    ∃ d : Json, d.WellFormed ∧ parse d = .ok p := by
  rcases h with h | ⟨text, h⟩
  · exact h
  · unfold parseText at h
    split at h
    · cases h
    · next d hd => exact ⟨d, Yaml.wellFormed_of_readChars hd, h⟩

/-- The document form of a parsed prompt is canonical, the latest edition accepts it,
strict or not, and it is parsed to the same prompt. -/
theorem consistent_of_parsed {p : Prompt} (h : Parsed p) :
    p.toJson.canonical = p.toJson ∧ (∀ s, Edition.violations ⟨2, s⟩ p.toJson = []) ∧
      parse p.toJson = .ok p := by
  obtain ⟨d, hd, hparse⟩ := h.exists_parse
  obtain ⟨v, fs, q, htag, haccepts, hdecoded, hp⟩ := exists_of_parse hparse
  cases d with
  | obj ds =>
      obtain rfl := Json.obj.inj htag
      have hsource : ∀ key, key ≠ "version" →
          Fields.get? (Fields.insert ds "version" (.int v.number)) key = Fields.get? ds key :=
        fun key hkey => (Fields.get?_insert _ _ _ _).trans (if_neg hkey)
      have hkeeps := keeps_of_decodedFrom hdecoded hsource hd haccepts
      have hlatest : ∀ s, (Edition.schema ⟨2, s⟩).Accepts p.toJson :=
        fun s => hp ▸ accepts_of_keeps hd hsource haccepts hkeeps s
      refine ⟨Json.canonical_of_isCanonical p.isCanonical_toJson, fun s => ?_, ?_⟩
      · exact report_eq_nil_iff.2 (hlatest s)
      · exact parse_toJson_of_accepts hdecoded hp (hlatest .lenient)
  | _ => cases htag

/-- The prompt of a text without a version, with undeclared assertions and a bound that
is a double. -/
theorem consistent_of_parsed_text :
    let text := "name: n\nid: 123e4567-e89b-12d3-a456-426614174000\ntemplate: Hello\n" ++
      "tests:\n- assert: \x7bregex: a, maxTokens: 64.0\x7d\n  name: short\n"
    let p : Prompt :=
      ⟨2, "123e4567-e89b-12d3-a456-426614174000", "n", none, "Hello", [], none, none, none, none,
        none, some [⟨"short", [], ⟨none, none, some 64⟩⟩], none, none, [], none, none⟩
    parseText text = .ok p ∧ p.toJson.canonical = p.toJson ∧
      (∀ s, Edition.violations ⟨2, s⟩ p.toJson = []) ∧ parse p.toJson = .ok p := by
  intro text p
  have h : parseText text = .ok p := by decide +kernel
  exact ⟨h, consistent_of_parsed (.inr ⟨text, h⟩)⟩

end Prompt

end PromptDoc
