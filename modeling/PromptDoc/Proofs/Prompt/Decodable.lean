import PromptDoc.Proofs.Prompt.Kept
import PromptDoc.Proofs.Prompt.Versions

/-!
# Accepted documents are decoded

What an edition asks of a document is what the decoders ask for, with one
exception: a bound for tokens is an integer or a double that is one, and a double
may be too large for a count. So an accepted document is decoded unless it holds
such a bound, and then the error says no more than that (`parse_of_accepts`). A
bound that is decoded is the number that stands in the document.
-/

namespace PromptDoc

open Schema

namespace Json

/-! ## Bounds for tokens -/

/-- A double that is an integer and too large for 64 bits. -/
def ExceedsCount (v : Json) : Prop :=
  ∃ x n, v = .float x ∧ x.toRat = (n : Int) ∧ 0x10000000000000000 ≤ n

/-- A positive integer is no count exactly when it is such a double. -/
theorem asCount?_eq_none_iff {v : Json} (hv : v.WellFormed)
    (haccepts : Schema.Accepts .positiveInteger v) : v.asCount? = none ↔ v.ExceedsCount := by
  obtain ⟨n, hn, hpos⟩ := accepts_positiveInteger_iff.1 haccepts
  have hfits : Width.fitsUnsigned n = true ↔ ¬ 0x10000000000000000 ≤ n := by
    simp only [Width.fitsUnsigned, Bool.and_eq_true, decide_eq_true_eq]
    omega
  cases v with
  | int i =>
      obtain rfl : i = n := by simpa [asRat?] using hn
      have hword : Width.fitsWord i = true := hv
      have hlt : ¬ 0x10000000000000000 ≤ i := by
        simp only [Width.fitsWord, Bool.and_eq_true, decide_eq_true_eq] at hword
        omega
      simp [asCount?, hfits.2 hlt, ExceedsCount]
  | float x =>
      have hrat : x.toRat = n := by simpa [asRat?] using hn
      have hnone : (float x).asCount? = none ↔ 0x10000000000000000 ≤ n := by
        rw [asCount?, Binary64.toInt?_eq_some_iff.2 hrat, Option.bind_some]
        split
        · next h => simpa using hfits.1 h
        · next h => simpa using mt hfits.2 h
      rw [hnone]
      constructor
      · intro hle
        exact ⟨x, n, rfl, hrat, hle⟩
      · rintro ⟨y, m, heq, hm, hle⟩
        obtain rfl := Json.float.inj heq
        have hsame : n = m := Rat.intCast_inj.1 (hrat.symm.trans hm)
        exact hsame ▸ hle
  | _ => simp [asRat?] at hn

end Json

namespace TestCase

/-- The bound for tokens in a test, if there is one. -/
def tokenBound? (v : Json) : Option Json :=
  (v.get? "assert").bind (·.get? "maxTokens")

theorem badBound?_eq (v : Json) : badBound? v = (tokenBound? v).filter fun n => n.asCount?.isNone :=
  rfl

end TestCase

namespace Json

/-- The bounds for tokens in the tests of a document, in order. -/
def tokenBounds (d : Json) : List Json :=
  (((d.get? "tests").bind items?).getD []).filterMap TestCase.tokenBound?

theorem wellFormed_of_get? {v w : Json} {key : String} (hv : v.WellFormed)
    (h : v.get? key = some w) : w.WellFormed := by
  obtain ⟨fs, hfs, hget⟩ := Option.bind_eq_some_iff.1 h
  obtain rfl := (fields?_eq_some v fs).1 hfs
  exact hv.of_get? hget

/-- A bound stands in one of the tests. -/
theorem mem_tokenBounds {d b : Json} : b ∈ d.tokenBounds ↔
    ∃ xs, d.get? "tests" = some (.arr xs) ∧ ∃ x ∈ xs, TestCase.tokenBound? x = some b := by
  rw [tokenBounds, List.mem_filterMap]
  cases d.get? "tests" with
  | none => simp
  | some v => cases v <;> simp [items?]

theorem wellFormed_of_mem_tokenBounds {d b : Json} (hd : d.WellFormed) (h : b ∈ d.tokenBounds) :
    b.WellFormed := by
  obtain ⟨xs, htests, x, hx, hb⟩ := mem_tokenBounds.1 h
  obtain ⟨a, ha, hb⟩ := Option.bind_eq_some_iff.1 hb
  have hxs : (arr xs).WellFormed := wellFormed_of_get? hd htests
  have hx : x.WellFormed := wellFormedItems_iff.1 hxs x hx
  exact wellFormed_of_get? (wellFormed_of_get? hx ha) hb

end Json

/-! ## Fields -/

namespace Fields

variable {α : Type} {fs : Fields} {name : String} {decode : Json → Option α}
  (h : ∀ v, fs.get? name = some v → ∃ a, decode v = some a)

include h

theorem exists_require? (hname : fs.has name = true) : ∃ a, fs.require? name decode = some a := by
  obtain ⟨v, hv⟩ := Option.isSome_iff_exists.1 hname
  obtain ⟨a, ha⟩ := h v hv
  exact ⟨a, by rw [require?, hv, Option.bind_some, ha]⟩

theorem exists_allow? : ∃ o, fs.allow? name decode = some o := by
  unfold allow?
  cases hv : fs.get? name with
  | none => exact ⟨none, rfl⟩
  | some v =>
      obtain ⟨a, ha⟩ := h v hv
      exact ⟨some a, by simp only [ha, Option.map_some]⟩

end Fields

/-- Where every item is decoded, the array is. -/
theorem exists_mapM_eq_some {α β : Type} {f : α → Option β} {xs : List α}
    (h : ∀ x ∈ xs, ∃ b, f x = some b) : ∃ bs, xs.mapM f = some bs := by
  induction xs with
  | nil => exact ⟨[], rfl⟩
  | cons x xs ih =>
      obtain ⟨hfirst, hrest⟩ := List.forall_mem_cons.1 h
      obtain ⟨b, hb⟩ := hfirst
      obtain ⟨bs, hbs⟩ := ih hrest
      exact ⟨b :: bs, by rw [List.mapM_cons, hb, hbs]; rfl⟩

/-! ## Values -/

/-- A decoder that decodes what the schema asks for. -/
def Decodes {α : Type} (schema : Schema) (decode : Json → Option α) : Prop :=
  ∀ v, schema.Accepts v → ∃ a, decode v = some a

namespace Decodes

variable {α : Type} {schema : Schema} {decode : Json → Option α}

theorem text (rule : TextRule) : Decodes (.text rule) Json.asText? := by
  intro v h
  rw [Accepts] at h
  obtain ⟨s, rfl, -⟩ := h
  exact ⟨s, rfl⟩

theorem truth : Decodes .boolean Json.asBool? := by
  intro v h
  rw [Accepts] at h
  obtain ⟨b, rfl⟩ := h
  exact ⟨b, rfl⟩

theorem items : Decodes .array Json.items? := by
  intro v h
  rw [Accepts] at h
  obtain ⟨xs, rfl⟩ := h
  exact ⟨xs, rfl⟩

theorem record (required : List String) (others : OtherKeys)
    (properties : List (String × Schema)) :
    Decodes (.record required others properties) Json.fields? := by
  intro v h
  obtain ⟨fs, rfl⟩ := exists_of_accepts_record h
  exact ⟨fs, rfl⟩

theorem array (h : Decodes schema decode) :
    Decodes (.arrayOf schema) fun v => v.items?.bind (·.mapM decode) := by
  intro v haccepts
  obtain ⟨xs, rfl, hxs⟩ := accepts_arrayOf_iff.1 haccepts
  exact exists_mapM_eq_some fun x hx => h x (hxs x hx)

theorem texts : Decodes Edition.strings Json.asTexts? :=
  (text .any).array

theorem named (h : Decodes schema decode) : Decodes (.recordOf schema) (Json.asNamed? decode) := by
  intro v haccepts
  rw [Accepts] at haccepts
  obtain ⟨fs, rfl, hfs⟩ := haccepts
  apply exists_mapM_eq_some
  rintro ⟨name, v⟩ hf
  obtain ⟨a, ha⟩ := h v (hfs _ hf)
  exact ⟨(name, a), by simp only [ha, Option.map_some]⟩

theorem kind : Decodes (.oneOf (InputKind.all.map InputKind.name))
    fun v => v.asText?.bind InputKind.ofName? := by
  intro v h
  rw [Accepts] at h
  obtain ⟨name, hname, rfl⟩ := h
  obtain ⟨t, -, rfl⟩ := List.mem_map.1 hname
  exact ⟨t, (Input.type_eq_some _ t).2 rfl⟩

end Decodes

/-! ## Parts -/

theorem Input.decodes : Decodes Edition.input ofJson? := by
  intro v h
  obtain ⟨fs, rfl⟩ := exists_of_accepts_record h
  obtain ⟨hrequired, hfields, -⟩ := accepts_record_iff.1 h
  simp only [List.forall_mem_cons] at hrequired hfields
  obtain ⟨hname, htype, hbool, href, hdescription, -⟩ := hfields
  obtain ⟨name, hname⟩ := Fields.exists_require? (fun v hv => Decodes.text _ v (hname v hv))
    hrequired.1
  obtain ⟨type, htype⟩ := Fields.exists_require? (fun v hv => Decodes.kind v (htype v hv))
    hrequired.2.1
  obtain ⟨required, hbool⟩ := Fields.exists_allow? fun v hv => Decodes.truth v (hbool v hv)
  obtain ⟨reference, href⟩ := Fields.exists_allow? fun v hv => Decodes.text _ v (href v hv)
  obtain ⟨description, hdescription⟩ :=
    Fields.exists_allow? fun v hv => Decodes.text _ v (hdescription v hv)
  exact ⟨⟨name, type, required.getD false, reference, description, fs.get? "default"⟩,
    ofJson?_eq_some.2 ⟨fs, rfl, hname, htype, ⟨required, hbool, rfl⟩, href, hdescription, rfl⟩⟩

theorem Model.decodes : Decodes Edition.model ofJson? := by
  intro v h
  obtain ⟨fs, rfl⟩ := exists_of_accepts_record h
  obtain ⟨hrequired, hfields, -⟩ := accepts_record_iff.1 h
  simp only [List.forall_mem_cons] at hrequired hfields
  obtain ⟨hprovider, hname, hparams, -⟩ := hfields
  obtain ⟨provider, hprovider⟩ :=
    Fields.exists_require? (fun v hv => Decodes.text _ v (hprovider v hv)) hrequired.1
  obtain ⟨name, hname⟩ :=
    Fields.exists_require? (fun v hv => Decodes.text _ v (hname v hv)) hrequired.2.1
  obtain ⟨params, hparams⟩ := Fields.exists_allow? fun v hv => Decodes.record _ _ _ v (hparams v hv)
  exact ⟨⟨provider, name, params⟩, ofJson?_eq_some.2 ⟨fs, rfl, hprovider, hname, hparams⟩⟩

/-- Assertions are decoded when their bound is. -/
theorem Assertions.exists_ofJson? {v : Json} (h : Edition.assertions.Accepts v)
    (hbound : ∀ n, v.get? "maxTokens" = some n → ∃ k, n.asCount? = some k) :
    ∃ a, ofJson? v = some a := by
  obtain ⟨fs, rfl⟩ := exists_of_accepts_record h
  obtain ⟨-, hfields, -⟩ := accepts_record_iff.1 h
  simp only [List.forall_mem_cons] at hfields
  obtain ⟨hcontains, hnot, -⟩ := hfields
  obtain ⟨contains, hcontains⟩ :=
    Fields.exists_allow? fun v hv => Decodes.texts v (hcontains v hv)
  obtain ⟨notContains, hnot⟩ := Fields.exists_allow? fun v hv => Decodes.texts v (hnot v hv)
  obtain ⟨maxTokens, hmax⟩ : ∃ o, fs.allow? "maxTokens" Json.asCount? = some o :=
    Fields.exists_allow? hbound
  exact ⟨⟨contains, notContains, maxTokens⟩,
    ofJson?_eq_some.2 ⟨fs, rfl, hcontains, hnot, hmax⟩⟩

namespace TestCase

/-- Tests are decoded when their bounds are. -/
theorem exists_ofJson? {v : Json} (h : Edition.test.Accepts v)
    (hbound : ∀ n, tokenBound? v = some n → ∃ k, n.asCount? = some k) :
    ∃ t, ofJson? v = some t := by
  obtain ⟨fs, rfl⟩ := exists_of_accepts_record h
  obtain ⟨hrequired, hfields, -⟩ := accepts_record_iff.1 h
  simp only [List.forall_mem_cons] at hrequired hfields
  obtain ⟨hname, hwith, hassert, -⟩ := hfields
  obtain ⟨name, hname⟩ :=
    Fields.exists_require? (fun v hv => Decodes.text _ v (hname v hv)) hrequired.1
  obtain ⟨inputs, hwith⟩ := Fields.exists_allow? fun v hv => Decodes.record _ _ _ v (hwith v hv)
  obtain ⟨assertions, hassert⟩ : ∃ o, fs.allow? "assert" Assertions.ofJson? = some o :=
    Fields.exists_allow? fun a ha => Assertions.exists_ofJson? (hassert a ha) fun n hn =>
      hbound n (Option.bind_eq_some_iff.2 ⟨a, ha, hn⟩)
  exact ⟨⟨name, inputs.getD [], assertions.getD .none⟩,
    ofJson?_eq_some.2 ⟨fs, rfl, hname, ⟨inputs, hwith, rfl⟩, assertions, hassert, rfl⟩⟩

/-- The bound of a decoded test is the number that the document gives. -/
theorem asRat?_tokenBound? {v : Json} {t : TestCase} (h : ofJson? v = some t) :
    Option.Rel (fun b (n : Nat) => b.asRat? = some (n : ℚ)) (tokenBound? v)
      t.assertions.maxTokens := by
  obtain ⟨fs, rfl, -, -, o, hassert, ho⟩ := ofJson?_eq_some.1 h
  have hrel := Fields.rel_of_allow? hassert
  rw [tokenBound?, show (Json.obj fs).get? "assert" = fs.get? "assert" from rfl, ho]
  generalize fs.get? "assert" = a at hrel
  cases hrel with
  | none => exact .none
  | some ha =>
      obtain ⟨gs, rfl, -, -, hmax⟩ := Assertions.ofJson?_eq_some.1 ha
      refine rel_imp (Fields.rel_of_allow? hmax) fun b n _ hn => ?_
      obtain ⟨q, hb, hq⟩ := Prompt.sameNumber_of_asCount? hn
      rw [hb, ← hq]
      simp [Json.asRat?]

theorem findSome?_badBound? (xs : List Json) :
    xs.findSome? badBound? = (xs.filterMap tokenBound?).find? fun n => n.asCount?.isNone := by
  induction xs with
  | nil => rfl
  | cons x xs ih =>
      rw [List.findSome?_cons, badBound?_eq, ih]
      cases hx : tokenBound? x with
      | none => rw [List.filterMap_cons_none hx]; rfl
      | some n =>
          rw [List.filterMap_cons_some hx, List.find?_cons, Option.filter_some]
          cases n.asCount?.isNone <;> rfl

end TestCase

/-! ## Documents -/

namespace Prompt

/-- The bounds are the same however the document is tagged. -/
theorem tokenBounds_tag (d : Json) (v : Version) : (v.tag d).tokenBounds = d.tokenBounds := by
  cases d with
  | obj fs =>
      have hget : (v.tag (.obj fs)).get? "tests" = (Json.obj fs).get? "tests" :=
        (Fields.get?_insert fs "version" "tests" _).trans (if_neg (by decide))
      rw [Json.tokenBounds, hget]
      rfl
  | _ => rfl

/-- The number that does not fit is the first bound that is no count. -/
theorem misfit?_eq_find? {fs : Fields} (hkeys : fs.keys.Nodup) {n : Int}
    (hversion : fs.get? "version" = some (.int n)) :
    fs.findSome? misfit? =
      ((Json.obj fs).tokenBounds.find? fun b => b.asCount?.isNone).map .tokenBound := by
  rw [findSome?_misfit? hkeys hversion, Json.tokenBounds,
    show (Json.obj fs).get? "tests" = fs.get? "tests" from rfl]
  cases fs.get? "tests" with
  | none => rfl
  | some v =>
      cases v with
      | arr xs =>
          rw [Option.bind_some, misfit?, TestCase.findSome?_badBound?]
          rfl
      | _ => rfl

/-- The fields of an accepted document are decoded when its bounds are. -/
theorem exists_ofFields? {e : Edition} {fs : Fields} (h : e.schema.Accepts (.obj fs)) {k : Nat}
    (hversion : fs.require? "version" Json.asCount? = some k)
    (hbounds : ∀ b ∈ (Json.obj fs).tokenBounds, ∃ n, b.asCount? = some n) :
    ∃ p, ofFields? fs = some p := by
  obtain ⟨hrequired, hfields, -⟩ := accepts_record_iff.1 h
  simp only [Edition.required, Edition.properties, List.forall_mem_cons] at hrequired hfields
  obtain ⟨-, hid, hname, hslug, htemplate, hinputs, hmodel, hcontrols, henums, hlabels, hmetadata,
    htests, hcontext, hpolicies, htags, hsnapshots, hframeworkRef, -⟩ := hfields
  obtain ⟨id, hid⟩ :=
    Fields.exists_require? (fun v hv => Decodes.text _ v (hid v hv)) hrequired.2.1
  obtain ⟨name, hname⟩ :=
    Fields.exists_require? (fun v hv => Decodes.text _ v (hname v hv)) hrequired.2.2.1
  obtain ⟨slug, hslug⟩ := Fields.exists_allow? fun v hv => Decodes.text _ v (hslug v hv)
  obtain ⟨template, htemplate⟩ :=
    Fields.exists_require? (fun v hv => Decodes.text _ v (htemplate v hv)) hrequired.2.2.2.1
  obtain ⟨inputs, hinputs⟩ :=
    Fields.exists_allow? fun v hv => Input.decodes.array v (hinputs v hv)
  obtain ⟨model, hmodel⟩ := Fields.exists_allow? fun v hv => Model.decodes v (hmodel v hv)
  obtain ⟨controls, hcontrols⟩ :=
    Fields.exists_allow? fun v hv => Decodes.record _ _ _ v (hcontrols v hv)
  obtain ⟨enums, henums⟩ := Fields.exists_allow? fun v hv => Decodes.texts.named v (henums v hv)
  obtain ⟨labels, hlabels⟩ :=
    Fields.exists_allow? fun v hv => (Decodes.text .any).named.named v (hlabels v hv)
  obtain ⟨metadata, hmetadata⟩ :=
    Fields.exists_allow? fun v hv => Decodes.record _ _ _ v (hmetadata v hv)
  obtain ⟨tests, htests⟩ : ∃ o,
      fs.allow? "tests" (fun v => v.items?.bind (·.mapM TestCase.ofJson?)) = some o := by
    refine Fields.exists_allow? fun v hv => ?_
    obtain ⟨xs, rfl, hxs⟩ := accepts_arrayOf_iff.1 (htests v hv)
    refine exists_mapM_eq_some fun x hx => ?_
    refine TestCase.exists_ofJson? (hxs x hx) fun n hn => hbounds n ?_
    exact Json.mem_tokenBounds.2 ⟨xs, hv, x, hx, hn⟩
  obtain ⟨context, hcontext⟩ :=
    Fields.exists_allow? fun v hv => Decodes.record _ _ _ v (hcontext v hv)
  obtain ⟨policies, hpolicies⟩ :=
    Fields.exists_allow? fun v hv => Decodes.record _ _ _ v (hpolicies v hv)
  obtain ⟨tags, htags⟩ := Fields.exists_allow? fun v hv => Decodes.texts v (htags v hv)
  obtain ⟨snapshots, hsnapshots⟩ :=
    Fields.exists_allow? fun v hv => Decodes.items v (hsnapshots v hv)
  obtain ⟨frameworkRef, hframeworkRef⟩ :=
    Fields.exists_allow? fun v hv => Decodes.text _ v (hframeworkRef v hv)
  exact ⟨⟨k, id, name, slug, template, inputs.getD [], model, controls, enums, labels, metadata,
    tests, context, policies, tags.getD [], snapshots, frameworkRef⟩, ofFields?_eq_some.2 {
    version := hversion
    id := hid
    name := hname
    slug := hslug
    template := htemplate
    inputs := ⟨inputs, hinputs, rfl⟩
    model := hmodel
    controls := hcontrols
    enums := henums
    labels := hlabels
    metadata := hmetadata
    tests := htests
    context := hcontext
    policies := hpolicies
    tags := ⟨tags, htags, rfl⟩
    snapshots := hsnapshots
    frameworkRef := hframeworkRef }⟩

/-- The bounds of an accepted document are positive integers. -/
theorem accepts_of_mem_tokenBounds {e : Edition} {fs : Fields} {b : Json}
    (h : e.schema.Accepts (.obj fs)) (hb : b ∈ (Json.obj fs).tokenBounds) :
    Schema.Accepts .positiveInteger b := by
  obtain ⟨xs, htests, x, hx, hb⟩ := Json.mem_tokenBounds.1 hb
  have hxs := (accepts_record_iff.1 h).2.1 ("tests", .arrayOf Edition.test)
    (by simp [Edition.properties]) _ htests
  obtain ⟨ys, heq, htest⟩ := accepts_arrayOf_iff.1 hxs
  obtain rfl := Json.arr.inj heq
  obtain ⟨a, ha, hb⟩ := Option.bind_eq_some_iff.1 hb
  obtain ⟨gs, rfl⟩ := exists_of_accepts_record (htest x hx)
  have hassert := (accepts_record_iff.1 (htest _ hx)).2.1 ("assert", Edition.assertions)
    (by simp) a ha
  obtain ⟨hs, rfl⟩ := exists_of_accepts_record hassert
  exact (accepts_record_iff.1 hassert).2.1 ("maxTokens", .positiveInteger) (by simp) b hb

/-- What becomes of the fields of an accepted document: a prompt, or an error about
the first bound that is too large. -/
theorem ofFields_of_accepts {v : Version} {fs : Fields} (hfs : (Json.obj fs).WellFormed)
    (hversion : fs.get? "version" = some (.int v.number))
    (h : (Edition.ofVersion v).schema.Accepts (.obj fs)) :
    (∃ p, ofFields fs = .ok p ∧ DecodedFrom fs p ∧
        ∀ b ∈ (Json.obj fs).tokenBounds, ¬ b.ExceedsCount) ∨
      ∃ b ∈ (Json.obj fs).tokenBounds, b.ExceedsCount ∧ ofFields fs = .error (.tokenBound b) := by
  have hexceeds : ∀ b ∈ (Json.obj fs).tokenBounds, b.asCount? = none ↔ b.ExceedsCount :=
    fun b hb => Json.asCount?_eq_none_iff (Json.wellFormed_of_mem_tokenBounds hfs hb)
      (accepts_of_mem_tokenBounds h hb)
  have hmisfit := misfit?_eq_find? hfs.1 hversion
  cases hfind : (Json.obj fs).tokenBounds.find? fun b => b.asCount?.isNone with
  | none =>
      rw [List.find?_eq_none] at hfind
      obtain ⟨p, hp⟩ := exists_ofFields? h (require?_version hversion) fun b hb =>
        Option.ne_none_iff_exists'.1 fun hnone => hfind b hb (by rw [hnone]; rfl)
      have hdecoded := ofFields?_eq_some.1 hp
      refine .inl ⟨p, ofFields_of_decodedFrom hdecoded hfs.1 hversion, hdecoded, fun b hb => ?_⟩
      rw [← hexceeds b hb]
      intro hnone
      exact hfind b hb (by rw [hnone]; rfl)
  | some b =>
      have hmem := List.mem_of_find?_eq_some hfind
      have hnone : b.asCount? = none := by simpa using List.find?_some hfind
      refine .inr ⟨b, hmem, (hexceeds b hmem).1 hnone, ?_⟩
      rw [ofFields, hmisfit, hfind]
      rfl

/-- The tests of a document and those of its prompt: their bounds are the same
numbers. -/
def SameBounds (v : Json) (ts : List TestCase) : Prop :=
  ∃ xs, v = .arr xs ∧ List.Forall₂ (fun x t =>
    Option.Rel (fun b (n : Nat) => b.asRat? = some (n : ℚ)) (TestCase.tokenBound? x)
      t.assertions.maxTokens) xs ts

theorem sameBounds_of_decodedFrom {fs : Fields} {p : Prompt} (h : DecodedFrom fs p) :
    Option.Rel SameBounds (fs.get? "tests") p.tests := by
  refine rel_imp (Fields.rel_of_allow? h.tests) fun v ts _ hts => ?_
  obtain ⟨xs, hxs, hts⟩ := Option.bind_eq_some_iff.1 hts
  refine ⟨xs, (Json.items?_eq_some v xs).1 hxs, ?_⟩
  exact (Json.mapM_eq_some_iff.1 hts).imp fun x t => TestCase.asRat?_tokenBound?

/-- A document that its edition accepts, once it is tagged, fails to parse exactly
when a bound for tokens is a double of at least `2 ^ 64`. The error is then one
violation of the whole document. Otherwise every bound is stored as the number
that it is. -/
theorem parse_accepted {d : Json} {v : Version} (hd : d.WellFormed)
    (hversion : Version.ofDocument d = .ok v)
    (haccepts : (Edition.ofVersion v).violations (v.tag d) = []) :
    ((∃ e, parse d = .error e) ↔ ∃ b ∈ d.tokenBounds, b.ExceedsCount) ∧
      (∀ e, parse d = .error e → ∃ b ∈ d.tokenBounds, b.ExceedsCount ∧
        e = .invalid v.number [⟨"", .constraint, (DecodeError.tokenBound b).message⟩]) ∧
      ∀ p, parse d = .ok p → Option.Rel SameBounds (d.get? "tests") p.tests := by
  have hparse := parse_of_accepted hversion haccepts
  rw [Edition.violations, report_eq_nil_iff] at haccepts
  rw [← tokenBounds_tag d v]
  cases d with
  | obj fs =>
      have hget := Version.get?_version_insert fs v
      have hfs : (v.tag (.obj fs)).WellFormed := by
        refine ⟨Fields.nodup_keys_insert hd.1 _ _, Json.wellFormedFields_iff.2 fun f hf => ?_⟩
        rcases Fields.eq_or_mem_of_mem_insert hf with rfl | hf
        · cases v <;> decide
        · exact Json.wellFormedFields_iff.1 hd.2 f hf
      have htests : Fields.get? (Fields.insert fs "version" (.int v.number)) "tests" =
          Fields.get? fs "tests" :=
        (Fields.get?_insert _ _ _ _).trans (if_neg (by decide))
      rcases ofFields_of_accepts hfs hget haccepts with
        ⟨p, hp, hdecoded, hnone⟩ | ⟨b, hb, hexceeds, hb'⟩
      · have hok : parse (.obj fs) = .ok (p.migrate v) := by
          rw [hparse, show ofJson (v.tag (.obj fs)) = .ok p from hp]
          rfl
        refine ⟨iff_of_false ?_ ?_, ?_, ?_⟩
        · rintro ⟨e, he⟩
          cases hok.symm.trans he
        · rintro ⟨b, hb, hexceeds⟩
          exact hnone b hb hexceeds
        · intro e he
          cases hok.symm.trans he
        · intro q hq
          obtain rfl := Except.ok.inj (hok.symm.trans hq)
          have hsame := sameBounds_of_decodedFrom hdecoded
          rw [htests] at hsame
          cases v <;> exact hsame
      · have herror : parse (.obj fs) =
            .error (.invalid v.number [⟨"", .constraint, (DecodeError.tokenBound b).message⟩]) := by
          rw [hparse, show ofJson (v.tag (.obj fs)) = .error (.tokenBound b) from hb']
          rfl
        refine ⟨iff_of_true ⟨_, herror⟩ ⟨b, hb, hexceeds⟩, ?_, ?_⟩
        · intro e he
          exact ⟨b, hb, hexceeds, (Except.error.inj (herror.symm.trans he)).symm⟩
        · intro p hp
          cases herror.symm.trans hp
  | _ =>
      obtain ⟨fs, hfs⟩ := exists_of_accepts_record haccepts
      cases hfs

/-- A document without a tag whose second bound is the double `2 ^ 70`. -/
theorem parse_accepted_large :
    let large : Binary64 := ⟨false, 0x10000000000000, 18, by decide⟩
    let d : Json := .obj [("id", .str "123e4567-e89b-12d3-a456-426614174000"), ("name", .str "n"),
      ("template", .str "Hello"),
      ("tests", .arr [.obj [("name", .str "a"), ("assert", .obj [("maxTokens", .int 5)])],
        .obj [("assert", .obj [("maxTokens", .float large)]), ("name", .str "b")]])]
    d.WellFormed ∧ Version.ofDocument d = .ok .v1 ∧
      (Edition.ofVersion .v1).violations (Version.v1.tag d) = [] ∧
      d.tokenBounds = [.int 5, .float large] ∧
      ((∃ e, parse d = .error e) ↔ ∃ b ∈ d.tokenBounds, b.ExceedsCount) ∧
      (∀ e, parse d = .error e → ∃ b ∈ d.tokenBounds, b.ExceedsCount ∧
        e = .invalid 1 [⟨"", .constraint, (DecodeError.tokenBound b).message⟩]) ∧
      ∀ p, parse d = .ok p → Option.Rel SameBounds (d.get? "tests") p.tests := by
  intro large d
  have hd : d.WellFormed := by decide +kernel
  have hversion : Version.ofDocument d = .ok .v1 := by decide +kernel
  have haccepts : (Edition.ofVersion .v1).violations (Version.v1.tag d) = [] := by decide +kernel
  have hbounds : d.tokenBounds = [.int 5, .float large] := by decide +kernel
  exact ⟨hd, hversion, haccepts, hbounds, parse_accepted hd hversion haccepts⟩

end Prompt

end PromptDoc
