import PromptDoc.Proofs.Prompt.Parts

/-!
# Prompts as records

The document form of a prompt is a record like those of its parts. A prompt that
was decoded from a document is decoded again from its own document form, whose
fields suit the schema of every edition with the prompt's version, strict or
not. The version is the only field that migration changes.
-/

namespace PromptDoc

open Yaml

namespace Prompt

/-- The rows of a prompt. -/
def rows (p : Prompt) : List Row :=
  [.present "version" (.constant p.version) (fun n : Nat => .int n) p.version,
    .present "id" (.text .uuid) .str p.id,
    .present "name" Edition.nonEmpty .str p.name,
    .optional "slug" (.text .slug) .str p.slug,
    .present "template" Edition.nonEmpty .str p.template,
    .present "inputs" (.arrayOf Edition.input) (fun is => .arr (is.map Input.toJson)) p.inputs,
    .optional "model" Edition.model Model.toJson p.model,
    .optional "controls" Edition.free .obj p.controls,
    .optional "enums" (.recordOf Edition.strings) (Fields.ofNamed Fields.ofStrings) p.enums,
    .optional "labels" (.recordOf (.recordOf (.text .any)))
      (Fields.ofNamed (Fields.ofNamed .str)) p.labels,
    .optional "metadata" Edition.free .obj p.metadata,
    .optional "tests" (.arrayOf Edition.test) (fun ts => .arr (ts.map TestCase.toJson)) p.tests,
    .optional "context" Edition.free .obj p.context,
    .optional "policies" Edition.free .obj p.policies,
    .present "tags" Edition.strings Fields.ofStrings p.tags,
    .optional "snapshot_with_inputs" .array .arr p.snapshots,
    .optional "frameworkRef" (.text .any) .str p.frameworkRef]

theorem toFields_eq (p : Prompt) : p.toFields = Fields.ofRows p.rows := by
  simp only [toFields, rows, Fields.ofRows_present, Fields.ofRows_optional, Fields.ofRows_nil,
    List.append_assoc, List.cons_append, List.nil_append, List.append_nil]

theorem names_rows (p : Prompt) : p.rows.map Row.name = rootOrder :=
  rfl

/-- The rows are the properties of the schema. -/
theorem schema_eq (p : Prompt) (s : Strictness) :
    Edition.schema ⟨p.version, s⟩ =
      .record Edition.required (Edition.otherKeys s) (p.rows.map Row.property) :=
  rfl

theorem nodup_rows (p : Prompt) : (p.rows.map Row.name).Nodup := by
  rw [names_rows]
  decide

end Prompt

namespace Faithful

theorem items {schema : Schema} : Faithful schema 0 Json.items? .arr :=
  .of_exact Json.items?_eq_some

theorem enums {schema : Schema} :
    Faithful schema 0 (Json.asNamed? Json.asTexts?) (Fields.ofNamed Fields.ofStrings) :=
  .of_exact (Json.asNamed?_eq_some Json.asTexts?_eq_some)

theorem labels {schema : Schema} :
    Faithful schema 0 (Json.asNamed? (Json.asNamed? Json.asText?))
      (Fields.ofNamed (Fields.ofNamed .str)) :=
  .of_exact (Json.asNamed?_eq_some (Json.asNamed?_eq_some Json.asText?_eq_some))

end Faithful

namespace Prompt

/-- What the fields of a decoded prompt are. -/
structure DecodedFrom (fs : Fields) (p : Prompt) : Prop where
  version : fs.require? "version" Json.asCount? = some p.version
  id : fs.require? "id" Json.asText? = some p.id
  name : fs.require? "name" Json.asText? = some p.name
  slug : fs.allow? "slug" Json.asText? = some p.slug
  template : fs.require? "template" Json.asText? = some p.template
  inputs : ∃ o, fs.allow? "inputs" (fun v => v.items?.bind (·.mapM Input.ofJson?)) = some o ∧
    p.inputs = o.getD []
  model : fs.allow? "model" Model.ofJson? = some p.model
  controls : fs.allow? "controls" Json.fields? = some p.controls
  enums : fs.allow? "enums" (Json.asNamed? Json.asTexts?) = some p.enums
  labels : fs.allow? "labels" (Json.asNamed? (Json.asNamed? Json.asText?)) = some p.labels
  metadata : fs.allow? "metadata" Json.fields? = some p.metadata
  tests : fs.allow? "tests" (fun v => v.items?.bind (·.mapM TestCase.ofJson?)) = some p.tests
  context : fs.allow? "context" Json.fields? = some p.context
  policies : fs.allow? "policies" Json.fields? = some p.policies
  tags : ∃ o, fs.allow? "tags" Json.asTexts? = some o ∧ p.tags = o.getD []
  snapshots : fs.allow? "snapshot_with_inputs" Json.items? = some p.snapshots
  frameworkRef : fs.allow? "frameworkRef" Json.asText? = some p.frameworkRef

theorem ofFields?_eq_some {fs : Fields} {p : Prompt} :
    ofFields? fs = some p ↔ DecodedFrom fs p := by
  constructor
  · intro h
    obtain ⟨version, hversion, h⟩ := Option.bind_eq_some_iff.1 h
    obtain ⟨id, hid, h⟩ := Option.bind_eq_some_iff.1 h
    obtain ⟨name, hname, h⟩ := Option.bind_eq_some_iff.1 h
    obtain ⟨slug, hslug, h⟩ := Option.bind_eq_some_iff.1 h
    obtain ⟨template, htemplate, h⟩ := Option.bind_eq_some_iff.1 h
    obtain ⟨inputs, hinputs, h⟩ := Option.bind_eq_some_iff.1 h
    obtain ⟨model, hmodel, h⟩ := Option.bind_eq_some_iff.1 h
    obtain ⟨controls, hcontrols, h⟩ := Option.bind_eq_some_iff.1 h
    obtain ⟨enums, henums, h⟩ := Option.bind_eq_some_iff.1 h
    obtain ⟨labels, hlabels, h⟩ := Option.bind_eq_some_iff.1 h
    obtain ⟨metadata, hmetadata, h⟩ := Option.bind_eq_some_iff.1 h
    obtain ⟨tests, htests, h⟩ := Option.bind_eq_some_iff.1 h
    obtain ⟨context, hcontext, h⟩ := Option.bind_eq_some_iff.1 h
    obtain ⟨policies, hpolicies, h⟩ := Option.bind_eq_some_iff.1 h
    obtain ⟨tags, htags, h⟩ := Option.bind_eq_some_iff.1 h
    obtain ⟨snapshots, hsnapshots, h⟩ := Option.bind_eq_some_iff.1 h
    obtain ⟨frameworkRef, hframeworkRef, h⟩ := Option.bind_eq_some_iff.1 h
    obtain rfl := Option.some.inj h
    exact ⟨hversion, hid, hname, hslug, htemplate, ⟨inputs, hinputs, rfl⟩, hmodel, hcontrols,
      henums, hlabels, hmetadata, htests, hcontext, hpolicies, ⟨tags, htags, rfl⟩, hsnapshots,
      hframeworkRef⟩
  · intro h
    obtain ⟨inputs, hinputs, hi⟩ := h.inputs
    obtain ⟨tags, htags, ht⟩ := h.tags
    simp only [ofFields?, h.version, h.id, h.name, h.slug, h.template, hinputs, h.model,
      h.controls, h.enums, h.labels, h.metadata, h.tests, h.context, h.policies, htags,
      h.snapshots, h.frameworkRef, Option.bind_eq_bind, Option.bind_some, Option.pure_def]
    rw [← hi, ← ht]

variable {fs : Fields} {p : Prompt} (h : DecodedFrom fs p)

include h

/-- A decoded prompt is decoded again from its own fields, whatever version it
is given. -/
theorem decodedFrom_toFields {n : Nat} (hn : Width.fitsUnsigned n = true) :
    DecodedFrom { p with version := n }.toFields { p with version := n } := by
  obtain ⟨gs, hgs, hget⟩ := Fields.exists_ofRows { p with version := n }.nodup_rows
  rw [toFields_eq, hgs]
  obtain ⟨is, hinputs, hi⟩ := h.inputs
  obtain ⟨ts, htags, ht⟩ := h.tags
  simp only [rows, List.forall_mem_cons] at hget
  obtain ⟨hversion, hid, hname, hslug, htemplate, hinputs', hmodel, hcontrols, henums, hlabels,
    hmetadata, htests, hcontext, hpolicies, htags', hsnapshots, hframeworkRef, -⟩ := hget
  rw [hi] at hinputs'
  rw [ht] at htags'
  exact {
    version := Option.bind_eq_some_iff.2 ⟨_, hversion, Json.asCount?_natCast hn⟩
    id := Faithful.text.require?_again h.id hid
    name := Faithful.text.require?_again h.name hname
    slug := Faithful.text.allow?_again h.slug hslug
    template := Faithful.text.require?_again h.template htemplate
    inputs := ⟨_, Input.faithful.array.default_again hinputs rfl hinputs', hi⟩
    model := Model.faithful.allow?_again h.model hmodel
    controls := Faithful.record.allow?_again h.controls hcontrols
    enums := Faithful.enums.allow?_again h.enums henums
    labels := Faithful.labels.allow?_again h.labels hlabels
    metadata := Faithful.record.allow?_again h.metadata hmetadata
    tests := TestCase.faithful.array.allow?_again h.tests htests
    context := Faithful.record.allow?_again h.context hcontext
    policies := Faithful.record.allow?_again h.policies hpolicies
    tags := ⟨_, Faithful.texts.default_again htags rfl htags', ht⟩
    snapshots := Faithful.items.allow?_again h.snapshots hsnapshots
    frameworkRef := Faithful.text.allow?_again h.frameworkRef hframeworkRef }

/-- The fields of a decoded prompt suit every edition with the version that it
is given, because the fields it was decoded from suit theirs. -/
theorem suits_toFields {n : Nat} {e : Edition} (hroom : 4 ≤ n)
    (hsuits : Suits n e.schema (.obj fs)) (w : Version) (s : Strictness) :
    Suits n (Edition.schema ⟨w.number, s⟩) (.obj { p with version := w.number }.toFields) := by
  obtain ⟨m, rfl, hsource⟩ := Fields.exists_of_suits_record hsuits
  obtain ⟨k, rfl⟩ : ∃ k, m = k + 1 := ⟨m - 1, by omega⟩
  have hnone : 0 ≤ k + 1 := Nat.zero_le (k + 1)
  simp only [Edition.properties, List.forall_mem_cons] at hsource
  obtain ⟨-, hid, hname, hslug, htemplate, hinputs, hmodel, hcontrols, henums, hlabels,
    hmetadata, htests, hcontext, hpolicies, htags, hsnapshots, hframeworkRef, -⟩ := hsource
  obtain ⟨is, hinputs', hi⟩ := h.inputs
  obtain ⟨ts, htags', ht⟩ := h.tags
  rw [toFields_eq]
  refine schema_eq { p with version := w.number } s ▸ Fields.suits_ofRows _ (nodup_rows _) ?_ ?_ ?_
  · show ∀ name ∈ rootOrder, KeyFits name
    decide
  · simp [Edition.required, rows, Row.present, Row.optional]
  · simp only [rows, List.forall_mem_cons]
    refine ⟨?_, Faithful.text.fits_present hnone hid h.id,
      Faithful.text.fits_present hnone hname h.name,
      Faithful.text.fits_optional hnone hslug h.slug,
      Faithful.text.fits_present hnone htemplate h.template, ?_,
      Model.faithful.fits_optional hnone hmodel h.model,
      Faithful.record.fits_optional hnone hcontrols h.controls,
      Faithful.enums.fits_optional hnone henums h.enums,
      Faithful.labels.fits_optional hnone hlabels h.labels,
      Faithful.record.fits_optional hnone hmetadata h.metadata,
      TestCase.faithful.array.fits_optional (by omega) htests h.tests,
      Faithful.record.fits_optional hnone hcontext h.context,
      Faithful.record.fits_optional hnone hpolicies h.policies, ?_,
      Faithful.items.fits_optional hnone hsnapshots h.snapshots,
      Faithful.text.fits_optional hnone hframeworkRef h.frameworkRef, List.forall_mem_nil _⟩
    · rintro v ⟨⟩
      refine ⟨?_, portable_int.2 ?_⟩
      · show (Schema.constant w.number).Accepts (.int w.number)
        rw [Schema.Accepts]
        exact beq_self_eq_true _
      · cases w <;> decide
    · rw [hi]
      exact Input.faithful.array.fits_default (by omega) hinputs hinputs' (suits_nil _)
    · rw [ht]
      exact Faithful.texts.fits_default hnone htags htags' (suits_nil _)

end Prompt

end PromptDoc
