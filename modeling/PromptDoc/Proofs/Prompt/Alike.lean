import PromptDoc.Proofs.Prompt.RoundTrip
import PromptDoc.Proofs.Schema.Alike

/-!
# Prompts of alike documents

Documents that the schema of their edition does not tell apart give the same
result: the same prompt, or the same error (`parse_eq_of_alike`). The reports are
the same because the documents are alike, and the decoders read declared fields
only. Inputs and models are decoded from their fields, so for most schemas alike
means equal (`Rigid`); tests and the root are the records whose parts may differ.
-/

namespace PromptDoc

namespace Schema

/-- Whether only equal values are alike. -/
def isRigid : Schema → Bool
  | .arrayOf items => items.isRigid
  | .record _ _ properties => properties.isEmpty
  | _ => true

theorem eq_of_alike : ∀ {schema : Schema} {v w : Json}, schema.isRigid = true →
    schema.Alike v w → v = w
  | .arrayOf items, v, w, hrigid, h => by
      rw [Alike] at h
      obtain heq | ⟨xs, ys, rfl, rfl, hitems⟩ := h
      · exact heq
      · have hitem : ∀ x y, items.Alike x y → x = y := fun x y => eq_of_alike hrigid
        have heq := hitems.imp hitem
        rw [List.forall₂_eq_eq_eq] at heq
        rw [heq]
  | .record _ _ properties, v, w, hrigid, h => by
      rw [Alike] at h
      obtain heq | ⟨hne, -⟩ := h
      · exact heq
      · exact absurd (List.isEmpty_iff.1 hrigid) hne
  | .anything, v, w, _, h | .constant _, v, w, _, h | .oneOf _, v, w, _, h
  | .boolean, v, w, _, h | .text _, v, w, _, h | .positiveInteger, v, w, _, h
  | .array, v, w, _, h | .recordOf _, v, w, _, h => by
      rwa [Alike] at h

/-- Alike records have the same values in the fields whose schema is rigid. -/
theorem get?_eq_of_alike_record {required : List String} {others : OtherKeys}
    {properties : List (String × Schema)} {fs gs : Fields}
    (h : (record required others properties).Alike (.obj fs) (.obj gs)) :
    ∀ p ∈ properties, p.2.isRigid = true → fs.get? p.1 = gs.get? p.1 := by
  intro p hp hrigid
  exact eq_of_rel (rel_of_alike_record h p hp) fun v w => eq_of_alike hrigid

/-- Alike values of a record schema are equal or both records. -/
theorem eq_or_exists_of_alike_record {required : List String} {others : OtherKeys}
    {properties : List (String × Schema)} {v w : Json}
    (h : (record required others properties).Alike v w) :
    v = w ∨ ∃ fs gs : Fields, v = .obj fs ∧ w = .obj gs := by
  rw [Alike] at h
  obtain heq | ⟨-, fs, gs, hfs, hgs, -⟩ := h
  · exact .inl heq
  · exact .inr ⟨fs, gs, hfs, hgs⟩

end Schema

open Schema

theorem Json.decode_eq_of_alike {α : Type} {schema : Schema} (hrigid : schema.isRigid = true)
    (decode : Json → Option α) : ∀ v w, schema.Alike v w → decode v = decode w :=
  fun _ _ h => congrArg decode (eq_of_alike hrigid h)

theorem Fields.require?_eq_of_rel {α : Type} {R : Json → Json → Prop}
    {decode : Json → Option α} {fs gs : Fields} {name : String}
    (h : Option.Rel R (fs.get? name) (gs.get? name))
    (hdecode : ∀ v w, R v w → decode v = decode w) :
    fs.require? name decode = gs.require? name decode := by
  rw [Fields.require?, Fields.require?, bind_eq_of_rel h hdecode]

theorem Fields.allow?_eq_of_rel {α : Type} {R : Json → Json → Prop} {decode : Json → Option α}
    {fs gs : Fields} {name : String} (h : Option.Rel R (fs.get? name) (gs.get? name))
    (hdecode : ∀ v w, R v w → decode v = decode w) :
    fs.allow? name decode = gs.allow? name decode := by
  rw [Fields.allow?, Fields.allow?]
  generalize fs.get? name = o, gs.get? name = o' at h
  cases h with
  | none => rfl
  | some hvalue => simp only [hdecode _ _ hvalue]

theorem Json.decode_eq_of_alike_items {α : Type} {items : Schema} {decode : Json → Option α}
    (hdecode : ∀ v w, items.Alike v w → decode v = decode w) {v w : Json}
    (h : (arrayOf items).Alike v w) :
    v.items?.bind (·.mapM decode) = w.items?.bind (·.mapM decode) := by
  rw [Alike] at h
  obtain rfl | ⟨xs, ys, rfl, rfl, hitems⟩ := h
  · rfl
  · show xs.mapM decode = ys.mapM decode
    induction hitems with
    | nil => rfl
    | cons hitem _ ih => rw [List.mapM_cons, List.mapM_cons, hdecode _ _ hitem, ih]

/-! ## Parts -/

theorem Input.ofJson?_eq_of_alike {v w : Json} (h : Edition.input.Alike v w) :
    ofJson? v = ofJson? w := by
  obtain rfl | ⟨fs, gs, rfl, rfl⟩ := eq_or_exists_of_alike_record h
  · rfl
  · have hget := get?_eq_of_alike_record h
    simp only [List.forall_mem_cons] at hget
    obtain ⟨hname, htype, hrequired, href, hdescription, hdefault, -⟩ := hget
    simp only [ofJson?, Json.fields?, Fields.require?, Fields.allow?, hname rfl, htype rfl,
      hrequired rfl, href rfl, hdescription rfl, hdefault rfl, Option.bind_eq_bind,
      Option.bind_some]

theorem Model.ofJson?_eq_of_alike {v w : Json} (h : Edition.model.Alike v w) :
    ofJson? v = ofJson? w := by
  obtain rfl | ⟨fs, gs, rfl, rfl⟩ := eq_or_exists_of_alike_record h
  · rfl
  · have hget := get?_eq_of_alike_record h
    simp only [List.forall_mem_cons] at hget
    obtain ⟨hprovider, hname, hparams, -⟩ := hget
    simp only [ofJson?, Json.fields?, Fields.require?, Fields.allow?, hprovider rfl, hname rfl,
      hparams rfl, Option.bind_eq_bind, Option.bind_some]

namespace Assertions

variable {v w : Json} (h : Edition.assertions.Alike v w)

include h

theorem ofJson?_eq_of_alike : ofJson? v = ofJson? w := by
  obtain rfl | ⟨fs, gs, rfl, rfl⟩ := eq_or_exists_of_alike_record h
  · rfl
  · have hget := get?_eq_of_alike_record h
    simp only [List.forall_mem_cons] at hget
    obtain ⟨hcontains, hnot, hmax, -⟩ := hget
    simp only [ofJson?, Json.fields?, Fields.allow?, hcontains rfl, hnot rfl, hmax rfl,
      Option.bind_eq_bind, Option.bind_some]

theorem maxTokens_eq_of_alike : v.get? "maxTokens" = w.get? "maxTokens" := by
  obtain rfl | ⟨fs, gs, rfl, rfl⟩ := eq_or_exists_of_alike_record h
  · rfl
  · exact get?_eq_of_alike_record h ("maxTokens", .positiveInteger) (by simp) rfl

end Assertions

namespace TestCase

variable {v w : Json} (h : Edition.test.Alike v w)

include h

theorem ofJson?_eq_of_alike : ofJson? v = ofJson? w := by
  obtain rfl | ⟨fs, gs, rfl, rfl⟩ := eq_or_exists_of_alike_record h
  · rfl
  · have hrel := rel_of_alike_record h
    simp only [List.forall_mem_cons] at hrel
    obtain ⟨hname, hwith, hassert, -⟩ := hrel
    simp only [ofJson?, Json.fields?, Option.bind_eq_bind, Option.bind_some,
      Fields.require?_eq_of_rel hname (Json.decode_eq_of_alike rfl _),
      Fields.allow?_eq_of_rel hwith (Json.decode_eq_of_alike rfl _),
      Fields.allow?_eq_of_rel hassert fun _ _ => Assertions.ofJson?_eq_of_alike]

theorem badBound?_eq_of_alike : badBound? v = badBound? w := by
  obtain rfl | ⟨fs, gs, rfl, rfl⟩ := eq_or_exists_of_alike_record h
  · rfl
  · have hassert := rel_of_alike_record h ("assert", Edition.assertions) (by simp)
    have hbound := bind_eq_of_rel hassert fun v w => Assertions.maxTokens_eq_of_alike
    exact congrArg (Option.filter _) hbound

end TestCase

/-! ## Documents -/

namespace Prompt

/-- Where keys are apart, a search through fields that looks for one key finds
what is under it. -/
theorem findSome?_eq_bind_get? {α : Type} {find : String × Json → Option α} {key : String}
    {fs : Fields} (hkeys : fs.keys.Nodup) (hother : ∀ f ∈ fs, f.1 ≠ key → find f = none) :
    fs.findSome? find = (fs.get? key).bind fun v => find (key, v) := by
  induction fs with
  | nil => rfl
  | cons f fs ih =>
      obtain ⟨hnew, hkeys⟩ := List.nodup_cons.1 hkeys
      obtain ⟨hfirst, hother⟩ := List.forall_mem_cons.1 hother
      rw [List.findSome?_cons, ih hkeys hother, Fields.get?_cons]
      by_cases hkey : key = f.1
      · subst hkey
        rw [if_pos rfl, Fields.get?_eq_none hnew]
        cases hfind : find f <;> simp [hfind]
      · rw [if_neg hkey, hfirst (Ne.symm hkey)]

/-- With an integer for a version, only tests can hold a number that does not
fit. -/
theorem findSome?_misfit? {fs : Fields} (hkeys : fs.keys.Nodup) {n : Int}
    (hversion : fs.get? "version" = some (.int n)) :
    fs.findSome? misfit? = (fs.get? "tests").bind fun v => misfit? ("tests", v) := by
  refine findSome?_eq_bind_get? hkeys fun f hf hne => ?_
  by_cases hkey : f.1 = "version"
  · have hget := Fields.get?_of_mem hkeys (show (f.1, f.2) ∈ fs from hf)
    rw [hkey, hversion] at hget
    obtain ⟨key, v⟩ := f
    obtain rfl := Option.some.inj hget
    obtain rfl := hkey
    rfl
  · exact misfit?_of_ne hkey hne

theorem misfit?_eq_of_alike {v w : Json} (h : (Schema.arrayOf Edition.test).Alike v w) :
    misfit? ("tests", v) = misfit? ("tests", w) := by
  rw [Alike] at h
  obtain rfl | ⟨xs, ys, rfl, rfl, hitems⟩ := h
  · rfl
  · have hfind : xs.findSome? TestCase.badBound? = ys.findSome? TestCase.badBound? := by
      induction hitems with
      | nil => rfl
      | cons hitem _ ih =>
          rw [List.findSome?_cons, List.findSome?_cons, TestCase.badBound?_eq_of_alike hitem, ih]
    rw [misfit?, misfit?, hfind]

theorem ofFields?_eq_of_alike {e : Edition} {fs gs : Fields}
    (h : e.schema.Alike (.obj fs) (.obj gs)) : ofFields? fs = ofFields? gs := by
  have hrel := rel_of_alike_record h
  simp only [Edition.properties, List.forall_mem_cons] at hrel
  obtain ⟨hversion, hid, hname, hslug, htemplate, hinputs, hmodel, hcontrols, henums, hlabels,
    hmetadata, htests, hcontext, hpolicies, htags, hsnapshots, hframeworkRef, -⟩ := hrel
  have hinput : ∀ v w, Edition.input.Alike v w → Input.ofJson? v = Input.ofJson? w :=
    fun _ _ => Input.ofJson?_eq_of_alike
  have htest : ∀ v w, Edition.test.Alike v w → TestCase.ofJson? v = TestCase.ofJson? w :=
    fun _ _ => TestCase.ofJson?_eq_of_alike
  simp only [ofFields?,
    Fields.require?_eq_of_rel hversion (Json.decode_eq_of_alike rfl _),
    Fields.require?_eq_of_rel hid (Json.decode_eq_of_alike rfl _),
    Fields.require?_eq_of_rel hname (Json.decode_eq_of_alike rfl _),
    Fields.allow?_eq_of_rel hslug (Json.decode_eq_of_alike rfl _),
    Fields.require?_eq_of_rel htemplate (Json.decode_eq_of_alike rfl _),
    Fields.allow?_eq_of_rel hinputs fun _ _ => Json.decode_eq_of_alike_items hinput,
    Fields.allow?_eq_of_rel hmodel fun _ _ => Model.ofJson?_eq_of_alike,
    Fields.allow?_eq_of_rel hcontrols (Json.decode_eq_of_alike rfl _),
    Fields.allow?_eq_of_rel henums (Json.decode_eq_of_alike rfl _),
    Fields.allow?_eq_of_rel hlabels (Json.decode_eq_of_alike rfl _),
    Fields.allow?_eq_of_rel hmetadata (Json.decode_eq_of_alike rfl _),
    Fields.allow?_eq_of_rel htests fun _ _ => Json.decode_eq_of_alike_items htest,
    Fields.allow?_eq_of_rel hcontext (Json.decode_eq_of_alike rfl _),
    Fields.allow?_eq_of_rel hpolicies (Json.decode_eq_of_alike rfl _),
    Fields.allow?_eq_of_rel htags (Json.decode_eq_of_alike rfl _),
    Fields.allow?_eq_of_rel hsnapshots (Json.decode_eq_of_alike rfl _),
    Fields.allow?_eq_of_rel hframeworkRef (Json.decode_eq_of_alike rfl _)]

theorem ofFields_eq_of_alike {e : Edition} {fs gs : Fields}
    (h : e.schema.Alike (.obj fs) (.obj gs)) (hfs : fs.keys.Nodup) (hgs : gs.keys.Nodup) {n : Int}
    (hversion : fs.get? "version" = some (.int n)) : ofFields fs = ofFields gs := by
  have hversion' : gs.get? "version" = some (.int n) :=
    (get?_eq_of_alike_record h ("version", .constant e.version) (by simp [Edition.properties])
      rfl).symm.trans hversion
  have htests := rel_of_alike_record h ("tests", .arrayOf Edition.test)
    (by simp [Edition.properties])
  have hmisfit : fs.findSome? misfit? = gs.findSome? misfit? := by
    rw [findSome?_misfit? hfs hversion, findSome?_misfit? hgs hversion']
    exact bind_eq_of_rel htests fun v w => misfit?_eq_of_alike
  rw [ofFields, ofFields, hmisfit, ofFields?_eq_of_alike h]

end Prompt

namespace Version

theorem undeclared_insert (fs : Fields) (value : Json) :
    undeclared rootOrder (fs.insert "version" value) = undeclared rootOrder fs := by
  rw [undeclared, undeclared, Fields.keys, Fields.insert, Keyed.keys_insert]
  split
  · rfl
  · rw [List.filter_append]
    simp [rootOrder, Fields.keys]

/-- Alike documents are alike when they are tagged. -/
theorem alike_tag {e : Edition} {d d' : Json} (v : Version) (h : e.schema.Alike d d') :
    e.schema.Alike (v.tag d) (v.tag d') := by
  have hrecord := h
  rw [Edition.schema, Alike] at hrecord
  obtain rfl | ⟨hne, fs, gs, rfl, rfl, -, -, hothers⟩ := hrecord
  · exact .refl _ _
  · refine alike_record hne ?_ (fun p hp => ?_) fun hforbidden => ?_
    · rw [Edition.properties_keys]
      decide
    · rw [Fields.get?_insert, Fields.get?_insert]
      split
      · exact .some (.refl _ _)
      · exact rel_of_alike_record h p hp
    · rw [Edition.properties_keys, undeclared_insert, undeclared_insert]
      exact hothers hforbidden

end Version

namespace Prompt

/-- Documents with one version tag that the schema of that version does not tell
apart have the same prompt or the same error. -/
theorem parse_eq_of_alike {d d' : Json} (hd : ∀ fs : Fields, d = .obj fs → fs.keys.Nodup)
    (hd' : ∀ fs : Fields, d' = .obj fs → fs.keys.Nodup)
    (hversion : d.get? "version" = d'.get? "version")
    (h : ∀ v, Version.ofDocument d = .ok v → (Edition.ofVersion v).schema.Alike d d') :
    parse d = parse d' := by
  have hof : Version.ofDocument d = Version.ofDocument d' := by
    rw [Version.ofDocument, Version.ofDocument, hversion]
  rw [parse, parse, ← hof]
  cases hv : Version.ofDocument d with
  | error tag => rfl
  | ok v =>
      have htagged := Version.alike_tag v (h v hv)
      have hreport : (Edition.ofVersion v).violations (v.tag d) =
          (Edition.ofVersion v).violations (v.tag d') := report_eq_of_alike htagged
      have hjson : ofJson (v.tag d) = ofJson (v.tag d') := by
        obtain rfl | ⟨fs, gs, rfl, rfl⟩ := eq_or_exists_of_alike_record (h v hv)
        · rfl
        · exact ofFields_eq_of_alike htagged (Fields.nodup_keys_insert (hd fs rfl) _ _)
            (Fields.nodup_keys_insert (hd' gs rfl) _ _)
            ((Fields.get?_insert fs "version" "version" _).trans (if_pos rfl))
      simp only [Edition.decode, hreport, hjson]

end Prompt

end PromptDoc
