import PromptDoc.Proofs.Decimal.Rational
import PromptDoc.Proofs.Prompt.Alike

/-!
# Versions agree

The versions declare the same fields and differ only in what they say about
others. So a document without undeclared root keys has the same result under
every version that it is tagged with, up to the version in the error; with such
keys the oldest version rejects it, with one violation for each of them besides
those of the latest version (`parse_of_get?_eq`).
-/

namespace PromptDoc

open Schema

namespace Json

/-- The comparison with a positive constant, for a double that denotes it. -/
theorem isNumber_of_toInt? {x : Binary64} {n : Nat} (hn : 0 < n)
    (h : x.toInt? = some (n : Int)) : (float x).isNumber n = true := by
  obtain ⟨m, hratio, heq⟩ := Binary64.toInt?_eq_some.1 h
  have hsign : x.negative = false := by
    cases hneg : x.negative with
    | false => rfl
    | true =>
        simp only [hneg, if_true] at heq
        omega
  have hm : n = m := by
    simp only [hsign, Bool.false_eq_true, if_false] at heq
    exact Int.natCast_inj.1 heq
  have hpos := x.ratio_snd_pos
  simp only [isNumber, hsign, hratio, hm]
  simpa using hpos

end Json

namespace Version

/-- The tag of a version is a number that its edition asks for. -/
theorem isNumber_of_ofTag? {tag : Json} {v : Version} (h : ofTag? tag = some v) :
    tag.isNumber v.number = true := by
  have hnumber : ∀ {n : Int}, ofNumber? n = some v → n = v.number := by
    intro n hn
    unfold ofNumber? at hn
    split at hn
    · next h1 => rw [h1, ← Option.some.inj hn]; rfl
    · split at hn
      · next h2 => rw [h2, ← Option.some.inj hn]; rfl
      · cases hn
  cases tag with
  | int n =>
      rw [hnumber h]
      exact beq_self_eq_true _
  | float x =>
      obtain ⟨n, hx, hn⟩ := Option.bind_eq_some_iff.1 h
      exact Json.isNumber_of_toInt? (by cases v <;> decide) (hnumber hn ▸ hx)
  | _ => cases h

/-- A document of another version than untagged ones have carries the tag of its
version. -/
theorem exists_tag_of_ofDocument {fs : Fields} {v : Version} (h : ofDocument (.obj fs) = .ok v)
    (hv : v ≠ untagged) : ∃ tag, fs.get? "version" = some tag ∧ ofTag? tag = some v := by
  unfold ofDocument at h
  split at h
  · exact absurd (Except.ok.inj h).symm hv
  · next tag hget =>
    split at h
    · next w hw => exact ⟨tag, hget, by rw [hw, Except.ok.inj h]⟩
    · cases h

theorem get?_version_insert (fs : Fields) (v : Version) :
    (fs.insert "version" (.int v.number)).get? "version" = some (.int v.number) :=
  (Fields.get?_insert fs "version" "version" _).trans (if_pos rfl)

end Version

namespace Schema

theorem propertyViolations_congr {place : Place} {fs gs : Fields} :
    ∀ {properties : List (String × Schema)},
      (∀ p ∈ properties, fs.get? p.1 = gs.get? p.1) →
      propertyViolations place fs properties = propertyViolations place gs properties
  | [], _ => rfl
  | (name, schema) :: rest, h => by
      obtain ⟨hfirst, hrest⟩ := List.forall_mem_cons.1 h
      rw [propertyViolations, propertyViolations, hfirst, propertyViolations_congr hrest]

end Schema

namespace Edition

/-- The properties that all editions share. -/
def sharedProperties : List (String × Schema) :=
  (properties 0).tail

/-- The violations that do not hang on the edition. -/
def sharedViolations (fs : Fields) : List Violation :=
  missingFields [] required fs ++ propertyViolations [] fs sharedProperties

/-- With the right version tag, editions differ in the keys that are not declared
only. -/
theorem violations_eq {e : Edition} {fs : Fields} {tag : Json}
    (hget : fs.get? "version" = some tag) (htag : tag.isNumber e.version = true) :
    Schema.violations [] e.schema (.obj fs) =
      sharedViolations fs ++ unknownKeys [] (otherKeys e.strictness) rootOrder fs := by
  have hproperties : properties e.version = ("version", .constant e.version) :: sharedProperties :=
    rfl
  rw [schema, Schema.violations, properties_keys, hproperties, propertyViolations, hget]
  simp only [Schema.violations, htag, if_true, List.nil_append, sharedViolations]

theorem sharedViolations_congr {fs gs : Fields}
    (h : ∀ key, key ≠ "version" → fs.get? key = gs.get? key)
    (hversion : fs.has "version" = gs.has "version") :
    sharedViolations fs = sharedViolations gs := by
  have hmissing : missingFields [] required fs = missingFields [] required gs := by
    refine missingFields_eq fun name _ => ?_
    by_cases hname : name = "version"
    · rw [hname, hversion]
    · rw [Fields.has, Fields.has, h name hname]
  have hproperties : ∀ p ∈ sharedProperties, p.1 ≠ "version" := by decide
  rw [sharedViolations, sharedViolations, hmissing,
    propertyViolations_congr fun p hp => h p.1 (hproperties p hp)]

end Edition

namespace Prompt

/-- A prompt is decoded with another version from a record that differs in the
version only. -/
theorem DecodedFrom.retagged {fs gs : Fields} {p : Prompt} {n : Nat} (h : DecodedFrom fs p)
    (hsame : ∀ key, key ≠ "version" → fs.get? key = gs.get? key)
    (hversion : gs.require? "version" Json.asCount? = some n) :
    DecodedFrom gs { p with version := n } := by
  have hrequire : ∀ {α : Type} {key : String} {decode : Json → Option α}, key ≠ "version" →
      gs.require? key decode = fs.require? key decode := by
    intro α key decode hkey
    rw [Fields.require?, Fields.require?, hsame key hkey]
  have hallow : ∀ {α : Type} {key : String} {decode : Json → Option α}, key ≠ "version" →
      gs.allow? key decode = fs.allow? key decode := by
    intro α key decode hkey
    rw [Fields.allow?, Fields.allow?, hsame key hkey]
  exact {
    version := hversion
    id := (hrequire (by decide)).trans h.id
    name := (hrequire (by decide)).trans h.name
    slug := (hallow (by decide)).trans h.slug
    template := (hrequire (by decide)).trans h.template
    inputs := by rw [hallow (by decide)]; exact h.inputs
    model := (hallow (by decide)).trans h.model
    controls := (hallow (by decide)).trans h.controls
    enums := (hallow (by decide)).trans h.enums
    labels := (hallow (by decide)).trans h.labels
    metadata := (hallow (by decide)).trans h.metadata
    tests := (hallow (by decide)).trans h.tests
    context := (hallow (by decide)).trans h.context
    policies := (hallow (by decide)).trans h.policies
    tags := by rw [hallow (by decide)]; exact h.tags
    snapshots := (hallow (by decide)).trans h.snapshots
    frameworkRef := (hallow (by decide)).trans h.frameworkRef }

theorem require?_version {fs : Fields} {v : Version}
    (h : fs.get? "version" = some (.int v.number)) :
    fs.require? "version" Json.asCount? = some v.number := by
  rw [Fields.require?, h]
  cases v <;> rfl

/-- Records that differ in the version tag only are decoded to prompts that differ
in the version only. -/
theorem ofFields_retagged {fs gs : Fields} (hfs : fs.keys.Nodup) (hgs : gs.keys.Nodup)
    {v w : Version} (hsame : ∀ key, key ≠ "version" → fs.get? key = gs.get? key)
    (hv : fs.get? "version" = some (.int v.number))
    (hw : gs.get? "version" = some (.int w.number)) :
    ofFields gs = (ofFields fs).map fun p => { p with version := w.number } := by
  have hmisfit : gs.findSome? misfit? = fs.findSome? misfit? := by
    rw [findSome?_misfit? hfs hv, findSome?_misfit? hgs hw, hsame "tests" (by decide)]
  rw [ofFields, ofFields, hmisfit]
  cases fs.findSome? misfit? with
  | some fault => rfl
  | none =>
      cases hp : ofFields? fs with
      | some p =>
          have hdecoded := (ofFields?_eq_some.1 hp).retagged hsame (require?_version hw)
          rw [ofFields?_eq_some.2 hdecoded]
          rfl
      | none =>
          cases hq : ofFields? gs with
          | none => rfl
          | some q =>
              have hdecoded := (ofFields?_eq_some.1 hq).retagged
                (fun key hkey => (hsame key hkey).symm) (require?_version hv)
              rw [ofFields?_eq_some.2 hdecoded] at hp
              cases hp

theorem parse_of_version {d : Json} {v : Version} (h : Version.ofDocument d = .ok v) :
    parse d = ((Edition.ofVersion v).decode (v.tag d)).map (migrate · v) := by
  rw [parse, h]

/-- A document that its edition rejects is an error with the whole report. -/
theorem parse_of_violations {d : Json} {v : Version} (h : Version.ofDocument d = .ok v)
    (hviolations : (Edition.ofVersion v).violations (v.tag d) ≠ []) :
    parse d = .error (.invalid v.number ((Edition.ofVersion v).violations (v.tag d))) := by
  rw [parse_of_version h, Edition.decode]
  cases hreport : (Edition.ofVersion v).violations (v.tag d) with
  | nil => exact absurd hreport hviolations
  | cons violation violations => rfl

/-- A document that its edition accepts is decoded; a number that does not fit is
an error of the whole document. -/
theorem parse_of_accepted {d : Json} {v : Version} (h : Version.ofDocument d = .ok v)
    (hviolations : (Edition.ofVersion v).violations (v.tag d) = []) :
    parse d = ((ofJson (v.tag d)).map (migrate · v)).mapError fun fault =>
      .invalid v.number [⟨"", .constraint, fault.message⟩] := by
  rw [parse_of_version h, Edition.decode, hviolations]
  cases ofJson (v.tag d) <;> rfl

section

variable {fs gs : Fields} (hsame : ∀ key, key ≠ "version" → fs.get? key = gs.get? key)

include hsame

/-- The oldest version finds what the latest one does, and every key that is not
declared. -/
theorem violations_tag_v1 {tag : Json} (hget : gs.get? "version" = some tag)
    (htag : Version.ofTag? tag = some .v2) :
    Schema.violations [] (Edition.ofVersion .v1).schema (Version.v1.tag (.obj fs)) =
      Schema.violations [] (Edition.ofVersion .v2).schema (.obj gs) ++
        (undeclared rootOrder fs).map (unknown []) := by
  have hversion := Version.get?_version_insert fs .v1
  have hshared : Edition.sharedViolations (fs.insert "version" (.int Version.v1.number)) =
      Edition.sharedViolations gs := by
    refine Edition.sharedViolations_congr (fun key hkey => ?_) ?_
    · rw [Fields.get?_insert, if_neg hkey, hsame key hkey]
    · rw [Fields.has, Fields.has, hversion, hget]
      rfl
  have hnumber := Version.isNumber_of_ofTag? htag
  rw [Version.tag, Edition.violations_eq hversion (by decide), hshared,
    Edition.violations_eq hget hnumber, ← Version.undeclared_insert fs (.int Version.v1.number)]
  exact congrArg (· ++ _) (List.append_nil _).symm

theorem violations_tag_perm {tag : Json} (hget : gs.get? "version" = some tag)
    (htag : Version.ofTag? tag = some .v2) :
    ((Edition.ofVersion .v1).violations (Version.v1.tag (.obj fs))).Perm
      ((Edition.ofVersion .v2).violations (.obj gs) ++
        (undeclared rootOrder fs).map (unknown [])) := by
  refine (List.mergeSort_perm _ _).trans ?_
  rw [violations_tag_v1 hsame hget htag]
  exact (List.mergeSort_perm _ _).symm.append_right _

theorem get?_insert_version (x y : Json) (key : String) (hkey : key ≠ "version") :
    (fs.insert "version" x).get? key = (gs.insert "version" y).get? key := by
  rw [Fields.get?_insert, Fields.get?_insert, if_neg hkey, if_neg hkey, hsame key hkey]

/-- Without keys that are not declared, both versions report the same. -/
theorem violations_tag_eq (hnone : undeclared rootOrder fs = []) :
    (Edition.ofVersion .v1).violations (Version.v1.tag (.obj fs)) =
      (Edition.ofVersion .v2).violations (Version.v2.tag (.obj gs)) := by
  have hother : ∀ key, key ≠ "version" →
      fs.get? key = (gs.insert "version" (.int Version.v2.number)).get? key := by
    intro key hkey
    rw [Fields.get?_insert, if_neg hkey, hsame key hkey]
  have hlist := violations_tag_v1 hother (Version.get?_version_insert gs .v2) rfl
  rw [hnone, List.map_nil, List.append_nil] at hlist
  exact congrArg (List.mergeSort · _) hlist

/-- Without keys that are not declared, both versions give the same result. -/
theorem parse_eq_of_undeclared_eq_nil (hfs : fs.keys.Nodup) (hgs : gs.keys.Nodup)
    (hv₁ : Version.ofDocument (.obj fs) = .ok .v1) (hv₂ : Version.ofDocument (.obj gs) = .ok .v2)
    (hnone : undeclared rootOrder fs = []) :
    (∃ p, parse (.obj fs) = .ok p ∧ parse (.obj gs) = .ok p) ∨
      ∃ violations, parse (.obj fs) = .error (.invalid 1 violations) ∧
        parse (.obj gs) = .error (.invalid 2 violations) := by
  have hreports := violations_tag_eq hsame hnone
  by_cases haccepted : (Edition.ofVersion .v1).violations (Version.v1.tag (.obj fs)) = []
  · have hdecoded := ofFields_retagged (Fields.nodup_keys_insert hfs _ _)
      (Fields.nodup_keys_insert hgs _ _) (get?_insert_version hsame _ _)
      (Version.get?_version_insert fs .v1) (Version.get?_version_insert gs .v2)
    rw [parse_of_accepted hv₁ haccepted, parse_of_accepted hv₂ (hreports ▸ haccepted)]
    simp only [Version.tag, ofJson, Json.fields?, hdecoded]
    cases ofFields (fs.insert "version" (.int Version.v1.number)) with
    | ok p => exact .inl ⟨p.migrateTo .v2, rfl, rfl⟩
    | error fault => exact .inr ⟨_, rfl, rfl⟩
  · exact .inr ⟨_, parse_of_violations hv₁ haccepted,
      hreports ▸ parse_of_violations hv₂ (hreports ▸ haccepted)⟩

end

/-- Two documents that differ in the version tag only, one of the oldest version
and one of the latest: without keys that are not declared they have the same
prompt or the same violations. With such keys the oldest version reports them
besides what the latest one reports. -/
theorem parse_of_get?_eq {fs gs : Fields} (hfs : fs.keys.Nodup) (hgs : gs.keys.Nodup)
    (hsame : ∀ key, key ≠ "version" → fs.get? key = gs.get? key)
    (hv₁ : Version.ofDocument (.obj fs) = .ok .v1) (hv₂ : Version.ofDocument (.obj gs) = .ok .v2) :
    (undeclared rootOrder fs = [] →
      (∃ p, parse (.obj fs) = .ok p ∧ parse (.obj gs) = .ok p) ∨
        ∃ violations, parse (.obj fs) = .error (.invalid 1 violations) ∧
          parse (.obj gs) = .error (.invalid 2 violations)) ∧
    (undeclared rootOrder fs ≠ [] →
      ∃ violations, parse (.obj fs) = .error (.invalid 1 violations) ∧
        violations.Perm ((Edition.ofVersion .v2).violations (.obj gs) ++
          (undeclared rootOrder fs).map (unknown []))) := by
  refine ⟨parse_eq_of_undeclared_eq_nil hsame hfs hgs hv₁ hv₂, fun hsome => ?_⟩
  obtain ⟨tag, hget, htag⟩ := Version.exists_tag_of_ofDocument hv₂ (by decide)
  have hperm := violations_tag_perm hsame hget htag
  refine ⟨_, parse_of_violations hv₁ fun hnil => hsome ?_, hperm⟩
  rw [hnil] at hperm
  exact List.map_eq_nil_iff.1 (List.append_eq_nil_iff.1 hperm.nil_eq.symm).2

/-- Records without a tag and tagged with a double: with a key that is not declared, and
without one, where one is accepted and the other rejected. -/
theorem parse_of_get?_eq_owner :
    let two : Binary64 := ⟨false, 0x10000000000000, -51, by decide⟩
    let named (name : String) (others : Fields) : Fields :=
      [("id", .str "123e4567-e89b-12d3-a456-426614174000"), ("name", .str name)] ++ others ++
        [("template", .str "Hello")]
    let tagged (fs : Fields) : Fields := ("version", .float two) :: fs
    let fs := named "" [("owner", .str "me")]
    let gs := tagged fs
    let accepted := named "Greeting" []
    let rejected := named "" []
    fs.keys.Nodup ∧ gs.keys.Nodup ∧
      (∀ key, key ≠ "version" → fs.get? key = gs.get? key) ∧
      Version.ofDocument (.obj fs) = .ok .v1 ∧ Version.ofDocument (.obj gs) = .ok .v2 ∧
      undeclared rootOrder fs = ["owner"] ∧
      (∃ violations, parse (.obj fs) = .error (.invalid 1 violations) ∧
        violations.Perm ((Edition.ofVersion .v2).violations (.obj gs) ++
          (undeclared rootOrder fs).map (unknown []))) ∧
      undeclared rootOrder accepted = [] ∧ undeclared rootOrder rejected = [] ∧
      (∃ p, parse (.obj accepted) = .ok p ∧ parse (.obj (tagged accepted)) = .ok p) ∧
      ∃ violations, parse (.obj rejected) = .error (.invalid 1 violations) ∧
        parse (.obj (tagged rejected)) = .error (.invalid 2 violations) := by
  intro two named tagged fs gs accepted rejected
  have hsame : ∀ (fs : Fields) (key : String), key ≠ "version" →
      fs.get? key = (tagged fs).get? key :=
    fun fs key hkey => ((Fields.get?_cons _ fs key).trans (if_neg hkey)).symm
  have hfs : fs.keys.Nodup := by decide
  have hgs : gs.keys.Nodup := by decide
  have hv₁ : Version.ofDocument (.obj fs) = .ok .v1 := by decide +kernel
  have hv₂ : Version.ofDocument (.obj gs) = .ok .v2 := by decide +kernel
  have hsome : undeclared rootOrder fs = ["owner"] := by decide +kernel
  have haccepted : undeclared rootOrder accepted = [] := by decide +kernel
  have hrejected : undeclared rootOrder rejected = [] := by decide +kernel
  refine ⟨hfs, hgs, hsame fs, hv₁, hv₂, hsome,
    (parse_of_get?_eq hfs hgs (hsame fs) hv₁ hv₂).2 (by simp [hsome]),
    haccepted, hrejected, ?_, ?_⟩
  · have hparsed : (parse (.obj accepted)).isOk = true := by decide +kernel
    obtain hp | ⟨violations, herror, -⟩ :=
      (parse_of_get?_eq (by decide) (by decide) (hsame accepted) (by decide +kernel)
        (by decide +kernel)).1 haccepted
    · exact hp
    · rw [herror] at hparsed
      cases hparsed
  · have hparsed : (parse (.obj rejected)).isOk = false := by decide +kernel
    obtain ⟨p, hp, -⟩ | herror :=
      (parse_of_get?_eq (by decide) (by decide) (hsame rejected) (by decide +kernel)
        (by decide +kernel)).1 hrejected
    · rw [hp] at hparsed
      cases hparsed
    · exact herror

end Prompt

end PromptDoc
